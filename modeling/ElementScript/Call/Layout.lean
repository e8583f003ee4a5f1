import ElementScript.PropertyName
import ElementScript.Text.Quoted
import ElementScript.Text.Reference
import ElementScript.Tree.Basic

/-!
The layout of one factory call, given the text of the elements nested in it.

A call is the factory applied to the tag, the properties and the children. Properties become an
object, one to a line if they do not fit into eighty characters. Each child becomes one argument;
whitespace at either end is dropped, and whitespace between elements alone carries no meaning.
-/

namespace ElementScript.Call

/-- Properties with more characters than this are written one to a line. -/
def propertyWidth : Nat := 80

def spaces (count : Nat) : Text :=
  List.replicate count ' '

/-! ## Properties -/

def partText : Part Text → Text
  | .code code => code.text
  | .element text => text

def valueText : Option (PropertyValue Text) → Text
  | none => "true".toList
  | some (.code code) => code.text
  | some (.element text) => text
  | some (.fragment parts) => parts.flatMap partText

/-- The key of a property: its name, as a literal if it has a hyphen. -/
def key (name : Text) : Text :=
  let trimmed := name.trim
  if trimmed.contains '-' then trimmed.quote else trimmed

/-- One entry of a property object. A spread loses its braces. -/
def entry (property : Property Text) : Text :=
  let key := key property.name
  let value := valueText property.value
  if value = "true".toList ∧ PropertyName.isSpread key then (key.drop 1).dropLast
  else key ++ ": ".toList ++ value

/-- Texts with a separator after each of them but the last. -/
def separated : List Text → List Text
  | [] => []
  | [last] => [last]
  | first :: second :: rest => (first ++ ", ".toList) :: separated (second :: rest)

def object (depth : Nat) (inline : Bool) (properties : List (Property Text)) : Text :=
  if properties.isEmpty then "null".toList
  else
    let entries := separated (properties.map entry)
    if propertyWidth < entries.flatten.length then
      let lineBreak := '\n' :: (if inline then [] else spaces (12 + 4 * depth))
      '{' :: lineBreak ++ lineBreak.intercalate entries ++ ['}']
    else '{' :: entries.flatten ++ ['}']

/-! ## Children -/

/-- Whether a child makes whitespace beside it meaningful. -/
def isContent {ε : Type} : Child ε → Bool
  | .text _ | .code _ | .expression _ => true
  | .whitespace _ | .element _ => false

/-- The text of a child with its character references decoded. -/
def decoded (text : Text) : Text :=
  if text.contains '&' then Text.Reference.decode text else text

/-- A text is looked at for ampersands only to save work. -/
theorem decoded_eq (text : Text) : decoded text = Text.Reference.decode text := by
  unfold decoded
  split
  · rfl
  · rename_i absent
    exact (Text.Reference.decode_of_not_mem (by simpa using absent)).symm

/-- The text of the child at an index, trimmed where no other child stands beside it. -/
def trimmedAt (index count : Nat) (text : Text) : Text :=
  if count = 1 then text.trim
  else if index + 1 = count then text.trimEnd
  else if index = 0 then text.trimStart
  else text

/-- The expression of a braced region. A nested element brings its own space before it. -/
def expression (parts : List (Part Text)) : Text :=
  let joined := parts.foldl (fun (written : Text) part =>
    match part with
    | .code code => written ++ code.text
    | .element text => written.trimEnd ++ text) []
  Text.trim joined

/-- The argument that the child at an index becomes, if any. -/
def argument? (hasContent : Bool) (count index : Nat) : Child Text → Option Text
  | .text text => some (trimmedAt index count (decoded text)).quote
  | .code text => some text
  | .whitespace text =>
      if hasContent ∧ index ≠ 0 ∧ index + 1 ≠ count then some text.quote else none
  | .element text => some text
  | .expression parts => some (expression parts)

def arguments (children : List (Child Text)) : List Text :=
  children.zipIdx.filterMap fun (child, index) =>
    argument? (children.any isContent) children.length index child

/-! ## Calls -/

/-- What stands before the call of a nested element. -/
def lead (depth : Nat) (inline : Bool) : Text :=
  if depth = 0 then []
  else if inline then [' ']
  else '\n' :: spaces (8 + 4 * depth)

/-- The tag of an element: a component's name as it is, any other as a literal. -/
def tag (element : Element) : Text :=
  if element.isComponent then element.name else element.name.quote

/-- The end of a call: its remaining arguments and the closing bracket. -/
def ending : (arguments : List Text) → Text
  | [] => [')']
  | argument :: rest => ", ".toList ++ (argument ++ ending rest)

/-- The call that an element becomes, given its properties and children with the text of the nested
elements in them. -/
def compose (factory : Text) (element : Element) (inline : Bool)
    (properties : List (Property Text)) (children : List (Child Text)) : Text :=
  lead element.depth inline ++ factory ++ '(' :: tag element ++ ", ".toList ++
    object element.depth inline properties ++ ending (arguments children)

end ElementScript.Call
