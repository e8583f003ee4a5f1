import ElementScript.Scan.Run
import ElementScript.Tree.Build

/-! # Markup as it is written

`Markup` is the syntax of scripts with markup in the usual layout: one space before a property,
quoted or braced values, and code in braces that has no further braces. `Markup.render` writes it
as a text and `Markup.tree` gives the tree that the text stands for.

The syntax has several roles, elements, lists of properties, lists of children and so on. They are
one family of types, and a list is written out as its first piece and the others, so that whatever
holds of all of them is proved by one induction.
-/

namespace ElementScript

namespace Markup

/-- What a piece of syntax stands for. -/
inductive Role where
  | element
  | properties
  | children
  /-- The elements of a braced region with the code after each, up to the closing brace. -/
  | parts
  | script
deriving DecidableEq, Repr

end Markup

open Markup (Role)

/-- Scripts with markup, and the pieces that they are made of. -/
inductive Markup : Role → Type where
  /-- `<name …/>` -/
  | selfClosing (name : Text) (properties : Markup .properties) : Markup .element
  /-- `<name …>…</name >`, with blanks before the last `>`. -/
  | paired (name : Text) (properties : Markup .properties) (children : Markup .children)
      (blanks : Text) : Markup .element
  | noProperties : Markup .properties
  /-- A name or a spread without a value. -/
  | bare (name : Text) (others : Markup .properties) : Markup .properties
  /-- `name="value"` -/
  | quoted (name value : Text) (others : Markup .properties) : Markup .properties
  /-- A name and code in braces. -/
  | braced (name code : Text) (others : Markup .properties) : Markup .properties
  /-- A name and an element in braces. -/
  | nested (name : Text) (value : Markup .element) (others : Markup .properties) :
      Markup .properties
  | noChildren : Markup .children
  /-- A text, or a run of whitespace. -/
  | text (content : Text) (others : Markup .children) : Markup .children
  /-- Code in braces. -/
  | bracedCode (code : Text) (others : Markup .children) : Markup .children
  | child (element : Markup .element) (others : Markup .children) : Markup .children
  /-- Code and elements in braces, starting with code that may be empty. -/
  | region (first : Text) (parts : Markup .parts) (others : Markup .children) : Markup .children
  | lastPart (element : Markup .element) (code : Text) : Markup .parts
  | part (element : Markup .element) (code : Text) (others : Markup .parts) : Markup .parts
  | noScript : Markup .script
  /-- Code outside of all markup. -/
  | plain (code : Text) (others : Markup .script) : Markup .script
  | markup (element : Markup .element) (others : Markup .script) : Markup .script

namespace Markup

variable {role : Role}

@[simp] def render : {role : Role} → Markup role → Text
  | _, .selfClosing name properties => '<' :: name ++ properties.render ++ ['/', '>']
  | _, .paired name properties children blanks =>
      '<' :: name ++ properties.render ++ '>' :: children.render ++
        '<' :: '/' :: name ++ blanks ++ ['>']
  | _, .noProperties => []
  | _, .bare name others => ' ' :: name ++ others.render
  | _, .quoted name value others => ' ' :: name ++ '=' :: '"' :: value ++ '"' :: others.render
  | _, .braced name code others => ' ' :: name ++ '=' :: '{' :: code ++ '}' :: others.render
  | _, .nested name value others =>
      ' ' :: name ++ '=' :: '{' :: value.render ++ '}' :: others.render
  | _, .noChildren => []
  | _, .text content others => content ++ others.render
  | _, .bracedCode code others => '{' :: code ++ '}' :: others.render
  | _, .child element others => element.render ++ others.render
  | _, .region first parts others => '{' :: first ++ parts.render ++ others.render
  | _, .lastPart element code => element.render ++ code ++ ['}']
  | _, .part element code others => element.render ++ code ++ others.render
  | _, .noScript => []
  | _, .plain code others => code ++ others.render
  | _, .markup element others => element.render ++ others.render

def length (markup : Markup role) : Nat :=
  markup.render.length

/-! ## Well-formed markup -/

def isTagCharacter (character : Char) : Bool :=
  character.isAlphanum || character = '_' || character = '.' || character = '-'

def isTagName : Text → Bool
  | [] => false
  | first :: others => first.isAlpha && others.all isTagCharacter

def isPropertyName : Text → Bool
  | [] => false
  | first :: others => first.isAlpha && others.all PropertyName.isNameCharacter

/-- The characters of an identifier of the script: letters, digits, `_` and `$`, and beyond ASCII
all but whitespace. -/
def isIdentifierCharacter (character : Char) : Bool :=
  character.isAlphanum || character = '_' || character = '$' ||
    (128 ≤ character.toNat && !Text.isWhitespace character)

/-- Whether a text spreads an identifier: three dots and the identifier, in braces. -/
def isSpreadName (name : Text) : Bool :=
  match Text.after? ['{', '.', '.', '.'] name with
  | some rest =>
      rest.getLast? = some '}' && !rest.dropLast.isEmpty && rest.dropLast.all isIdentifierCharacter
  | none => false

/-- Whether a text may be the code of a region or of a braced value. -/
def isCode (code : Text) : Bool :=
  code.all fun character => character ≠ '<' && character ≠ '{' && character ≠ '}'

/-- Whether a text may stand between the tags of an element. -/
def isContent (content : Text) : Bool :=
  !content.isEmpty && content.all fun character => character ≠ '<' && character ≠ '{'

/-- Whether a text may stand outside of markup. -/
def isPlainCode (code : Text) : Bool :=
  !code.isEmpty && code.all fun character => character ≠ '<' && !Literal.isMark character

/-- Whether the last of some properties has no value, given whether the one before them has
none. -/
@[simp] def endsBare : {role : Role} → (before : Bool) → Markup role → Bool
  | _, before, .noProperties => before
  | _, _, .bare _ others => others.endsBare true
  | _, _, .quoted _ _ others => others.endsBare false
  | _, _, .braced _ _ others => others.endsBare false
  | _, _, .nested _ _ others => others.endsBare false
  | _, _, _ => false

def startsWithText : Markup .children → Bool
  | .text _ _ => true
  | _ => false

def startsWithPlain : Markup .script → Bool
  | .plain _ _ => true
  | _ => false

/-- Whether markup can be read back: names, texts and code are what they should be, no two texts
stand side by side, and no open tag ends with a property without a value. -/
@[simp] def wellFormed : {role : Role} → Markup role → Bool
  | _, .selfClosing name properties => isTagName name && properties.wellFormed
  | _, .paired name properties children blanks =>
      isTagName name && properties.wellFormed && !properties.endsBare false &&
        children.wellFormed && blanks.all Text.isBlank
  | _, .noProperties => true
  | _, .bare name others => (isPropertyName name || isSpreadName name) && others.wellFormed
  | _, .quoted name value others =>
      isPropertyName name && !value.contains '"' && others.wellFormed
  | _, .braced name code others =>
      isPropertyName name && isCode code && !code.isAllWhitespace && others.wellFormed
  | _, .nested name value others => isPropertyName name && value.wellFormed && others.wellFormed
  | _, .noChildren => true
  | _, .text content others => isContent content && !others.startsWithText && others.wellFormed
  | _, .bracedCode code others => isCode code && !code.isAllWhitespace && others.wellFormed
  | _, .child element others => element.wellFormed && others.wellFormed
  | _, .region first parts others => isCode first && parts.wellFormed && others.wellFormed
  | _, .lastPart element code => element.wellFormed && isCode code
  | _, .part element code others => element.wellFormed && isCode code && others.wellFormed
  | _, .noScript => true
  | _, .plain code others => isPlainCode code && !others.startsWithPlain && others.wellFormed
  | _, .markup element others => element.wellFormed && others.wellFormed

/-! ## The tree of markup -/

/-- What the pieces of a role are in a tree. -/
@[reducible] def Tree : Role → Type
  | .element => Element
  | .properties => List (Property Element)
  | .children => List (Child Element)
  | .parts => List (Part Element)
  | .script => List Node

/-- Code between two elements of a region, if there is any. -/
def regionCode (code : Code) : List (Part Element) :=
  if code.text.isEmpty then [] else [.code code]

def textChild (content : Text) : Child Element :=
  if content.isAllWhitespace then .whitespace content else .text content

/-- The tree of a piece of markup at an offset. The depth is that of the element, or of the element
that the piece belongs to. -/
@[simp] def tree : {role : Role} → (depth offset : Nat) → Markup role → Tree role
  | _, depth, offset, .selfClosing name properties =>
      { name
        isComponent := isComponentName name
        properties := properties.tree depth (offset + 1 + name.length)
        children := []
        depth
        offset : Element }
  | _, depth, offset, .paired name properties children _ =>
      { name
        isComponent := isComponentName name
        properties := properties.tree depth (offset + 1 + name.length)
        children := children.tree depth (offset + 1 + name.length + properties.length + 1)
        depth
        offset : Element }
  | _, _, _, .noProperties => ([] : List (Property Element))
  | _, depth, offset, .bare name others =>
      ({ name, value := none } :: others.tree depth (offset + 1 + name.length) :
        List (Property Element))
  | _, depth, offset, .quoted name value others =>
      let start := offset + 1 + name.length + 2
      ({ name, value := some (.code { text := value.quote, offset := start, depth }) } ::
        others.tree depth (start + value.length + 1) : List (Property Element))
  | _, depth, offset, .braced name code others =>
      let start := offset + 1 + name.length + 2
      ({ name, value := some (.code { text := code, offset := start, depth }) } ::
        others.tree depth (start + code.length + 1) : List (Property Element))
  | _, depth, offset, .nested name value others =>
      let start := offset + 1 + name.length + 2
      ({ name, value := some (.element (value.tree (depth + 1) start)) } ::
        others.tree depth (start + value.length + 1) : List (Property Element))
  | _, _, _, .noChildren => ([] : List (Child Element))
  | _, depth, offset, .text content others =>
      (textChild content :: others.tree depth (offset + content.length) : List (Child Element))
  | _, depth, offset, .bracedCode code others =>
      (.code code.trim :: others.tree depth (offset + 1 + code.length + 1) : List (Child Element))
  | _, depth, offset, .child element others =>
      (.element (element.tree (depth + 1) offset) :: others.tree depth (offset + element.length) :
        List (Child Element))
  | _, depth, offset, .region first parts others =>
      let start := offset + 1
      (.expression (.code { text := first, offset := start, depth } ::
          parts.tree depth (start + first.length)) ::
        others.tree depth (start + first.length + parts.length) : List (Child Element))
  | _, depth, offset, .lastPart element code =>
      ([.element (element.tree (depth + 1) offset),
        .code { text := code, offset := offset + element.length, depth }] : List (Part Element))
  | _, depth, offset, .part element code others =>
      let start := offset + element.length
      (.element (element.tree (depth + 1) offset) ::
        (regionCode { text := code, offset := start, depth } ++
          others.tree depth (start + code.length)) : List (Part Element))
  | _, _, _, .noScript => ([] : List Node)
  | _, depth, offset, .plain code others =>
      (.code { text := code, offset, depth := 0 } :: others.tree depth (offset + code.length) :
        List Node)
  | _, depth, offset, .markup element others =>
      (.element (element.tree 0 offset) :: others.tree depth (offset + element.length) : List Node)

/-- The number of pieces that tree building counts: elements, regions and code outside of markup. -/
@[simp] def pieces : {role : Role} → Markup role → Nat
  | _, .selfClosing _ properties => 1 + properties.pieces
  | _, .paired _ properties children _ => 1 + properties.pieces + children.pieces
  | _, .noProperties => 0
  | _, .bare _ others => others.pieces
  | _, .quoted _ _ others => others.pieces
  | _, .braced _ _ others => others.pieces
  | _, .nested _ value others => value.pieces + others.pieces
  | _, .noChildren => 0
  | _, .text _ others => others.pieces
  | _, .bracedCode _ others => others.pieces
  | _, .child element others => element.pieces + others.pieces
  | _, .region _ parts others => 1 + parts.pieces + others.pieces
  | _, .lastPart element _ => element.pieces
  | _, .part element _ others => element.pieces + others.pieces
  | _, .noScript => 0
  | _, .plain _ others => 1 + others.pieces
  | _, .markup element others => element.pieces + others.pieces

end Markup

end ElementScript
