import ElementScript.Comment
import ElementScript.Scan.Step

/-!
Cutting a whole source into tokens.
-/

namespace ElementScript

namespace Scan

/-- The scan with one more character behind it. -/
def advance (scan : Scan) : Scan :=
  { scan with position := scan.position + 1 }

/-- Reads a text from the scan's position on. -/
def run (input : ScanInput) (scan : Scan) : Text → Except ScanError Scan
  | [] => .ok scan
  | character :: rest =>
      match scan.step input character rest with
      | .error error => .error error
      | .ok next => run input next.advance rest

/-- The tokens of a scan that has reached the end of its text. Markup that is still open has no
further token; script has. -/
def finish (scan : Scan) : List Token :=
  match scan.activity with
  | .code _ => (scan.flushSome .code scan.position).tokens.toList
  | _ => scan.tokens.toList

end Scan

/-- The tokens of a source. Comments are removed first; the ceiling bounds the number of elements
that are scanned on their own. -/
def tokenize (source : Text) (ceiling : Nat) : Except ScanError (List Token) :=
  match Scan.run { source, ceiling } {} (Comment.strip source) with
  | .error error => .error error
  | .ok scan => .ok scan.finish

theorem tokenize_eq (source : Text) (ceiling : Nat) :
    tokenize source ceiling =
      (Scan.run { source, ceiling } {} (Comment.strip source)).map Scan.finish := by
  rw [tokenize]
  cases Scan.run { source, ceiling } {} (Comment.strip source) <;> rfl

theorem tokenize_eq_ok_iff {source : Text} {ceiling : Nat} {tokens : List Token} :
    tokenize source ceiling = .ok tokens ↔
      ∃ scan, Scan.run { source, ceiling } {} (Comment.strip source) = .ok scan ∧
        scan.finish = tokens := by
  rw [tokenize]
  cases Scan.run { source, ceiling } {} (Comment.strip source) <;> simp

end ElementScript
