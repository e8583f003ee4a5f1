import ElementScript.Text.Quoted

/-!
JSON documents and their indented form.

Documents are what listings are made of and what settings are given as. All numbers in them are
natural numbers. An object keeps its fields in the order they were given.
-/

namespace ElementScript

inductive Json where
  | null
  | boolean (value : Bool)
  | number (value : Nat)
  | string (text : Text)
  | array (items : List Json)
  | object (fields : List (String × Json))
deriving Inhabited

namespace Json

/-- A line end and the indentation of the next line: two spaces for each level. -/
def lineBreak (level : Nat) : Text :=
  '\n' :: List.replicate (2 * level) ' '

mutual

/-- The indented form of a document at a level. Every item and every field starts a line, and an
empty array or object stays on its line. -/
def pretty (level : Nat) : Json → Text
  | .null => "null".toList
  | .boolean value => if value then "true".toList else "false".toList
  | .number value => Text.decimal value
  | .string text => text.quote
  | .array [] => ['[', ']']
  | .array (item :: items) =>
      '[' :: lineBreak (level + 1) ++ pretty (level + 1) item ++ prettyItems (level + 1) items ++
        lineBreak level ++ [']']
  | .object [] => ['{', '}']
  | .object (field :: fields) =>
      '{' :: lineBreak (level + 1) ++ prettyField (level + 1) field ++
        prettyFields (level + 1) fields ++ lineBreak level ++ ['}']

/-- The items after the first. -/
def prettyItems (level : Nat) : List Json → Text
  | [] => []
  | item :: items => ',' :: lineBreak level ++ pretty level item ++ prettyItems level items

def prettyField (level : Nat) : String × Json → Text
  | (name, value) => Text.quote name.toList ++ ": ".toList ++ pretty level value

/-- The fields after the first. -/
def prettyFields (level : Nat) : List (String × Json) → Text
  | [] => []
  | field :: fields =>
      ',' :: lineBreak level ++ prettyField level field ++ prettyFields level fields

end

/-- The indented form of a whole document. -/
def render (document : Json) : Text :=
  document.pretty 0

end Json

end ElementScript
