import ElementScript.Compile
import ElementScript.Proofs.Comment

/-! # Sources that select nothing

A directive stands in a comment, so a source that opens no comment has none. Its identifiers are
those of the options, and what is scanned is the source as it was written.
-/

namespace ElementScript

namespace Directive

variable {text : Text}

theorem afterOpener?_of_opensNoComment (none : text.opensNoComment) :
    afterOpener? text = Option.none := by
  unfold afterOpener?
  split
  · exact absurd rfl (Text.head_of_opensNoComment none).1
  · exact absurd rfl (Text.head_of_opensNoComment none).2
  · exact absurd rfl (Text.head_of_opensNoComment none).2
  · rfl

theorem leftmost?_of_opensNoComment (word : Text) (none : text.opensNoComment) :
    leftmost? word text = Option.none := by
  induction text with
  | nil => rfl
  | cons first rest induction =>
      rw [leftmost?, induction (Text.opensNoComment_tail none), atFront?,
        afterOpener?_of_opensNoComment none]
      rfl

/-- A source that opens no comment has no directive. -/
theorem scan_of_opensNoComment (none : text.opensNoComment) :
    scan text = { factory := Option.none, fragment := Option.none } := by
  rw [scan, leftmost?_of_opensNoComment _ none, leftmost?_of_opensNoComment _ none]

end Directive

/-- A source that opens no comment is scanned as it was written. -/
theorem tokenize_of_opensNoComment {source : Text} (none : source.opensNoComment)
    (ceiling : Nat) :
    tokenize source ceiling =
      (Scan.run { source, ceiling } {} source).map Scan.finish := by
  rw [tokenize_eq, Comment.strip_of_opensNoComment none]

namespace Options

variable {options : Options} {source : Text}

theorem fragmentFor_of_opensNoComment (none : source.opensNoComment) :
    options.fragmentFor source = options.fragment := by
  rw [fragmentFor, Directive.scan_of_opensNoComment none]
  rfl

theorem factoryFor_of_opensNoComment (none : source.opensNoComment) :
    options.factoryFor source = options.factory := by
  rw [factoryFor, Directive.scan_of_opensNoComment none]
  rfl

end Options

end ElementScript
