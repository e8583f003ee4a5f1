import ElementScript.Compile

/-!
Components: compiled code that something else can run.

What runs a component is up to its user, so an evaluator is a parameter: it is given what the code
may refer to and the code itself, which is the body of a function.
-/

namespace ElementScript

/-- What turns a function body into something callable. -/
structure Evaluator (Context Component Failure : Type) where
  evaluate : Context → Text → Except Failure Component

inductive ComponentError (Failure : Type) where
  | compile (error : CompileError)
  | evaluate (failure : Failure)

/-- Compiles a source and hands the result to an evaluator. -/
def Options.compileComponent {Context Component Failure : Type} (options : Options)
    (evaluator : Evaluator Context Component Failure) (context : Context) (source : Text) :
    Except (ComponentError Failure) Component :=
  match options.compile source with
  | .error error => .error (.compile error)
  | .ok body =>
      match evaluator.evaluate context body with
      | .error failure => .error (.evaluate failure)
      | .ok component => .ok component

/-- A function that has not been run: its parameters and its body. -/
structure FunctionText where
  parameters : List Text
  body : Text
deriving DecidableEq, Repr

namespace Evaluator

/-- The parameters of every component, after those of its context. -/
def commonParameters : List Text :=
  ["React".toList, "props".toList]

/-- Records a function instead of running it. The context is the names of further parameters, and
there is no function without a body. -/
def recorder : Evaluator (List Text) FunctionText String where
  evaluate context body :=
    if body.isEmpty then .error "empty body"
    else .ok { parameters := context ++ commonParameters, body }

end Evaluator

def ComponentError.message : ComponentError String → String
  | .compile error => error.message
  | .evaluate failure => s!"Evaluation error: {failure}"

end ElementScript
