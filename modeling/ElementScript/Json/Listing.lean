import ElementScript.Json.Basic
import ElementScript.Location
import ElementScript.Token.Basic
import ElementScript.Tree.Fold

/-!
Tokens and trees as documents. Fields stand in the order of their declaration, and the kind of a
value comes before the value.
-/

namespace ElementScript

def Location.toJson (location : Location) : Json :=
  .object [("offset", .number location.offset), ("line", .number location.line),
    ("column", .number location.column), ("text", .string location.text)]

def Token.toJson (token : Token) : Json :=
  .object [("kind", .string token.kind.label.toList), ("text", .string token.text),
    ("offset", .number token.offset)]

namespace Json

def ofTokens (tokens : List Token) : Json :=
  .array (tokens.map Token.toJson)

/-- A value with its kind. -/
def tagged (kind field : String) (value : Json) : Json :=
  .object [("type", .string kind.toList), (field, value)]

end Json

def Code.toJson (code : Code) : Json :=
  .object [("text", .string code.text), ("offset", .number code.offset),
    ("depth", .number code.depth)]

def Part.toJson : Part Json → Json
  | .code piece => .tagged "code" "value" piece.toJson
  | .element inner => .tagged "element" "value" inner

def PropertyValue.toJson : PropertyValue Json → Json
  | .code piece => .tagged "code" "value" piece.toJson
  | .element inner => .tagged "element" "value" inner
  | .fragment parts => .tagged "fragment" "value" (.array (parts.map Part.toJson))

def Property.toJson (property : Property Json) : Json :=
  .object [("name", .string property.name),
    ("value", (property.value.map PropertyValue.toJson).getD .null)]

def Child.toJson : Child Json → Json
  | .text content => .tagged "text" "value" (.string content)
  | .code content => .tagged "code" "value" (.string content)
  | .whitespace content => .tagged "whitespace" "value" (.string content)
  | .element inner => .tagged "element" "value" inner
  | .expression parts => .tagged "expression" "value" (.array (parts.map Part.toJson))

def Element.toJson (element : Element) : Json :=
  element.fold fun element properties children =>
    .object [("name", .string element.name), ("is_component", .boolean element.isComponent),
      ("props", .array (properties.map Property.toJson)),
      ("children", .array (children.map Child.toJson)), ("depth", .number element.depth),
      ("offset", .number element.offset)]

def Node.toJson : Node → Json
  | .code piece => .tagged "code" "node" piece.toJson
  | .element root => .tagged "element" "node" root.toJson

def Program.toJson (program : Program) : Json :=
  .object [("body", .array (program.body.map Node.toJson))]

end ElementScript
