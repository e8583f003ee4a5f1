import ElementScript.Proofs.Scan.Slices

/-! # The tokens of one kind

What holds of the tokens of one kind is proved from the few steps that cut a token of that kind. All
other steps leave the list of them as it is, also the steps that put in the start of a region before
tokens that have been cut already.
-/

namespace ElementScript.Scan

/-- The tokens of a kind among those that a scan has cut. -/
def ofKind (wanted : Token.Kind) (scan : Scan) : List Token :=
  scan.tokens.toList.filter (·.kind = wanted)

variable (scan : Scan) {kind wanted : Token.Kind} (stop : Nat)

theorem ofKind_emit (other : kind ≠ wanted) (text : Text) (offset : Nat) :
    (scan.emit kind text offset).ofKind wanted = scan.ofKind wanted := by
  simp [ofKind, other]

theorem ofKind_flush (other : kind ≠ wanted) :
    (scan.flush kind stop).ofKind wanted = scan.ofKind wanted :=
  scan.ofKind_emit other _ _

theorem ofKind_flushSome (other : kind ≠ wanted) :
    (scan.flushSome kind stop).ofKind wanted = scan.ofKind wanted := by
  unfold flushSome
  split
  · rfl
  · exact scan.ofKind_flush stop other

theorem ofKind_flushSolid (other : kind ≠ wanted) :
    (scan.flushSolid kind stop).ofKind wanted = scan.ofKind wanted := by
  unfold flushSolid
  split
  · rfl
  · exact scan.ofKind_flush stop other

theorem ofKind_flushChild (other : kind ≠ wanted) (noBlank : .childWhitespace ≠ wanted) :
    (scan.flushChild kind stop).ofKind wanted = scan.ofKind wanted := by
  apply ofKind_flushSome
  split
  · exact noBlank
  · exact other

theorem filter_insertIdx {α : Type} {accepts : α → Bool} {value : α}
    (rejected : accepts value = false) (index : Nat) (list : List α) :
    (list.insertIdx index value).filter accepts = list.filter accepts := by
  induction list generalizing index with
  | nil => cases index <;> simp [rejected]
  | cons first rest induction =>
      cases index with
      | zero => simp [rejected]
      | succ index => simp [List.filter_cons, induction]

theorem ofKind_openFragmentAt (other : .fragmentStart ≠ wanted) (mark : Nat) :
    (scan.openFragmentAt mark).ofKind wanted = scan.ofKind wanted := by
  apply filter_insertIdx
  simpa using other

theorem ofKind_closeSelf (other : .elementEnd ≠ wanted) :
    scan.closeSelf.ofKind wanted = scan.ofKind wanted := by
  simp [ofKind, closeSelf, other]

/-- The kinds of tokens that are cut around the elements of a braced property value. -/
def isOfValue : Token.Kind → Bool
  | .propertyValue | .fragmentStart | .fragmentEnd => true
  | _ => false

theorem ofKind_closeValue (other : isOfValue wanted = false) (content : Content) :
    (scan.closeValue content).ofKind wanted = scan.ofKind wanted := by
  have ne : ∀ {kind}, isOfValue kind → kind ≠ wanted := by
    rintro kind isOf rfl
    simp [other] at isOf
  cases content with
  | codeOnly => exact scan.ofKind_flushSolid _ (ne rfl)
  | fragment => exact scan.ofKind_flush _ (ne rfl)
  | elementsFirst mark =>
      unfold closeValue
      simp only
      split
      · rfl
      · exact (ofKind_flush _ _ (ne rfl)).trans (scan.ofKind_openFragmentAt (ne rfl) mark)

theorem ofKind_cutBeforeElement (other : isOfValue wanted = false) (content : Content) :
    (scan.cutBeforeElement content).1.ofKind wanted = scan.ofKind wanted := by
  have ne : ∀ {kind}, isOfValue kind → kind ≠ wanted := by
    rintro kind isOf rfl
    simp [other] at isOf
  unfold cutBeforeElement
  split
  · cases content <;> rfl
  · cases content with
    | codeOnly => exact scan.ofKind_flush _ (ne rfl)
    | fragment => exact scan.ofKind_flush _ (ne rfl)
    | elementsFirst mark =>
        exact (ofKind_flush _ _ (ne rfl)).trans (scan.ofKind_openFragmentAt (ne rfl) mark)

/-- Behind the end of a text only script is cut. -/
theorem filter_finish (other : .code ≠ wanted) :
    scan.finish.filter (·.kind = wanted) = scan.ofKind wanted := by
  unfold finish
  split
  · exact scan.ofKind_flushSome _ other
  · rfl

end ElementScript.Scan
