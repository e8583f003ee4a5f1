import ElementScript.Json.Basic

/-!
Settings of a compilation, and how a document gives them.
-/

namespace ElementScript

structure Options where
  /-- The function that elements call, unless the source selects one. -/
  factory : Text := "React.createElement".toList
  /-- The component that a tag without a name stands for, unless the source selects one. -/
  fragment : Text := "React.Fragment".toList
  /-- The ceiling on the number of pieces that each stage works on. -/
  ceiling : Nat := 1000
  /-- Whether the output starts with a strict-mode directive. -/
  strict : Bool := false
  /-- Whether a source that looks compiled is returned as it is. -/
  skipCompiled : Bool := true
deriving DecidableEq, Repr

namespace Options

/-- One more than the largest ceiling. -/
def ceilingBound : Nat := UInt64.size

def text? : Json → Option Text
  | .string text => some text
  | _ => none

def flag? : Json → Option Bool
  | .boolean value => some value
  | _ => none

def ceiling? : Json → Option Nat
  | .number value => if value < ceilingBound then some value else none
  | _ => none

/-- The setting under a name: the default if the name is missing, nothing if its value has the
wrong type. -/
def setting? {α : Type} (read : Json → Option α) (default : α) (name : String)
    (fields : List (String × Json)) : Option α :=
  match fields.lookup name with
  | none => some default
  | some value => read value

def strictNames : String × String :=
  ("prependStrictMode", "prependStrictModeDirective")

/-- The strict-mode setting. It has two names, and only one of them may be used. -/
def strict? (fields : List (String × Json)) : Option Bool :=
  match fields.lookup strictNames.1, fields.lookup strictNames.2 with
  | none, none => some ({} : Options).strict
  | some value, none => flag? value
  | none, some value => flag? value
  | some _, some _ => none

/-- The settings that named fields give. All of them are optional, and fields with other names are
ignored. -/
def ofFields? (fields : List (String × Json)) : Option Options := do
  let default : Options := {}
  let factory ← setting? text? default.factory "factoryIdentifier" fields
  let fragment ← setting? text? default.fragment "fragmentIdentifier" fields
  let ceiling ← setting? ceiling? default.ceiling "maxRecursionCalls" fields
  let strict ← strict? fields
  let skipCompiled ← setting? flag? default.skipCompiled "skipIfAlreadyCompiled" fields
  return { factory, fragment, ceiling, strict, skipCompiled }

def names : List String :=
  ["factoryIdentifier", "fragmentIdentifier", "maxRecursionCalls", strictNames.1,
    "skipIfAlreadyCompiled"]

/-- The settings that a document gives: an object of named settings, or an array of the first few of
them in the order of their declaration. -/
def ofJson? : Json → Option Options
  | .object fields => ofFields? fields
  | .array values => if values.length ≤ names.length then ofFields? (names.zip values) else none
  | _ => none

/-- The named settings of a compilation, all of them given. -/
def toJson (options : Options) : Json :=
  .object (names.zip [.string options.factory, .string options.fragment, .number options.ceiling,
    .boolean options.strict, .boolean options.skipCompiled])

end Options

end ElementScript
