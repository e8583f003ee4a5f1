import ElementScript.Compile
import ElementScript.Proofs.Markup.Building

/-! # Reading markup back

Parsing the text of well-formed markup gives the tree of the markup.
-/

namespace ElementScript.Markup

open Stage (Reaches)

/-- A source is parsed as soon as it scans and its tokens leave no element open. -/
theorem parse_of_reaches {options : Options} {script : Markup .script} {body : Array Node}
    {calls : Nat} (read : script.Scans) (uncommented : script.render.opensNoComment)
    (room : script.entries ≤ options.ceiling)
    (reaches : ∀ input : TreeInput, input.ceiling = options.ceiling →
      Reaches input (script.tokens 0) { body := #[], stack := [], calls := 0 }
        { body, stack := [], calls }) :
    options.parse script.render = .ok { body := body.toList } := by
  have scanned : options.tokens script.render = .ok (script.tokens 0) := by
    rw [Options.tokens, tokenize_render read uncommented room]
  have formed := Program.ofTokens_of_reaches (reaches
    { source := script.render
      fragment := options.fragmentFor script.render
      ceiling := options.ceiling } rfl)
  simp only [Options.parse, scanned, formed]

/-- Every well-formed script is read back from its text, whatever the options, as long as the
ceiling leaves room for its pieces. -/
theorem parse_render (options : Options) (script : Markup .script) (formed : script.wellFormed)
    (uncommented : script.render.opensNoComment) (room : script.pieces ≤ options.ceiling) :
    options.parse script.render = .ok { body := script.tree 0 0 } := by
  have entered : script.entries ≤ options.ceiling :=
    Nat.le_trans (entries_le_pieces script).1 room
  have parsed := parse_of_reaches (scans script formed) uncommented entered fun input ceiling =>
    @builds _ script formed input #[] 0 0 (by simpa [ceiling] using room)
  simpa using parsed

/-- A script with a piece of every kind. -/
def sample : Markup .script :=
  .plain "x = ".toList
    (.markup
      (.paired "ui.Box".toList
        (.bare "wide".toList
          (.quoted "title".toList "a > b".toList
            (.braced "size".toList "n + 1".toList
              (.nested "icon".toList
                (.selfClosing "b".toList (.bare "\x7b...rest\x7d".toList .noProperties))
                .noProperties))))
        (.text "one".toList
          (.bracedCode " two ".toList
            (.text "\n ".toList
              (.region [] (.part (.selfClosing "i".toList .noProperties) " : ".toList
                  (.lastPart (.paired "i".toList .noProperties .noChildren []) ")".toList))
                (.child (.selfClosing "hr".toList .noProperties) .noChildren)))))
        [' '])
      (.plain ";".toList .noScript))

theorem parse_render_sample :
    sample.wellFormed ∧ sample.render.opensNoComment ∧
      ({ ceiling := 8 } : Options).parse sample.render = .ok { body := sample.tree 0 0 } :=
  ⟨by decide, by decide, parse_render { ceiling := 8 } sample (by decide) (by decide) (by decide)⟩

end ElementScript.Markup
