import ElementScript.Call.Write
import ElementScript.Directive
import ElementScript.Options
import ElementScript.Scan.Run
import ElementScript.Tree.Build

/-!
Compiling a source: from its text to tokens, to a tree, to a script of factory calls.

The directives of a source win over the options. A source that looks compiled is left alone if the
options say so.
-/

namespace ElementScript

/-- Why a source cannot be compiled. -/
inductive CompileError where
  | scan (error : ScanError)
  | tree (error : TreeError)
deriving DecidableEq, Repr

namespace CompileError

def message : CompileError → String
  | .scan error => error.message
  | .tree error => error.message

def location? : CompileError → Option Location
  | .scan error => error.location?
  | .tree error => error.location?

end CompileError

/-- Whether a source looks compiled: a single line with a mark of compressed code. -/
def isCompiled (source : Text) : Bool :=
  !source.contains '\n' &&
    (Text.holds "if(".toList source || Text.holds "\x7drender()\x7breturn".toList source)

namespace Options

variable (options : Options)

def tokens (source : Text) : Except CompileError (List Token) :=
  match tokenize source options.ceiling with
  | .error error => .error (.scan error)
  | .ok tokens => .ok tokens

/-- The fragment identifier for a source. -/
def fragmentFor (source : Text) : Text :=
  (Directive.scan source).fragment.getD options.fragment

/-- The factory for a source. -/
def factoryFor (source : Text) : Text :=
  (Directive.scan source).factory.getD options.factory

def parse (source : Text) : Except CompileError Program :=
  match options.tokens source with
  | .error error => .error error
  | .ok tokens =>
      let input : TreeInput :=
        { source, fragment := options.fragmentFor source, ceiling := options.ceiling }
      match Program.ofTokens input tokens with
      | .error error => .error (.tree error)
      | .ok program => .ok program

def compile (source : Text) : Except CompileError Text :=
  if options.skipCompiled && isCompiled source then .ok source
  else
    match options.parse source with
    | .error error => .error error
    | .ok program =>
        .ok (program.write { factory := options.factoryFor source, strict := options.strict })

variable {options}

theorem parse_eq_ok_iff {source : Text} {program : Program} :
    options.parse source = .ok program ↔
      ∃ tokens, tokenize source options.ceiling = .ok tokens ∧
        Program.ofTokens
          { source, fragment := options.fragmentFor source, ceiling := options.ceiling } tokens =
            .ok program := by
  simp only [parse, Options.tokens]
  cases tokenize source options.ceiling with
  | error error => simp
  | ok tokens =>
      cases built : Program.ofTokens
        { source, fragment := options.fragmentFor source, ceiling := options.ceiling } tokens <;>
        simp [built]

/-- What a source with given tokens compiles to, unless it is left alone. -/
theorem compile_eq_ok_iff {source script : Text} {tokens : List Token}
    (bypass : options.skipCompiled = false)
    (tokenized : tokenize source options.ceiling = .ok tokens) :
    options.compile source = .ok script ↔
      ∃ program, Program.ofTokens
          { source, fragment := options.fragmentFor source, ceiling := options.ceiling } tokens =
            .ok program ∧
        program.write { factory := options.factoryFor source, strict := options.strict } =
          script := by
  simp only [compile, bypass, Bool.false_and, Bool.false_eq_true, if_false, parse,
    Options.tokens, tokenized]
  cases Program.ofTokens _ tokens <;> simp

variable (options)

/-- The results of compiling a source, then its result, and so on, up to the first error. -/
def compileRepeatedly : Nat → Text → List (Except CompileError Text)
  | 0, _ => []
  | times + 1, source =>
      match options.compile source with
      | .error error => [.error error]
      | .ok script => .ok script :: compileRepeatedly times script

end Options

end ElementScript
