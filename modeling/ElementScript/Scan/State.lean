import ElementScript.Location
import ElementScript.Token.Basic

/-!
The state of a scan.

A scan reads a text without comments one character at a time and cuts it into tokens. Between two
characters it knows what it is reading (`Activity`), which elements are open around that
(`Level`, one for each), the characters of the token being read (`buffer`) and the tokens cut so
far.

An offset is never recorded: the offset of a token is its end less the length of its text.
-/

namespace ElementScript

/-- Why a source cannot be cut into tokens. -/
inductive ScanError where
  /-- A text among the properties of a tag that is neither a name nor a spread. -/
  | unhandledProperty (value : Text) (location : Location)
  /-- A slash inside a tag's name. -/
  | malformedElement (value : Text) (location : Location)
  | limitExceeded (limit : Nat)
deriving DecidableEq, Repr

namespace ScanError

def location? : ScanError → Option Location
  | .unhandledProperty _ location => some location
  | .malformedElement _ location => some location
  | .limitExceeded _ => none

def message : ScanError → String
  | .unhandledProperty value location =>
      let place := location.describe
      let text := String.ofList value
      s!"Lexer error at {place}: unhandled character in element properties `{text}`"
  | .malformedElement value location =>
      let place := location.describe
      let text := String.ofList value
      s!"Lexer error at {place}: found a `/` in element `{text}` that is not part of `/>`"
  | .limitExceeded limit =>
      let bound := limit.repr
      s!"Lexer error: call count exceeded the limit of {bound}; " ++
        "raise `max_recursion_calls` if the source is large but valid"

end ScanError

namespace Scan

/-! ## What is being read -/

/-- Where among the children of an element the scan is. -/
inductive Region where
  | text
  /-- Inside braces: the number of further braces open in them, and whether the region is known to
  hold elements. -/
  | code (depth : Nat) (holdsElements : Bool)
deriving DecidableEq, Repr

/-- What the braces of a property value have shown so far. -/
inductive Content where
  | codeOnly
  /-- Elements with no code before or between them. The mark is the number of tokens before the
  first of these elements. -/
  | elementsFirst (mark : Nat)
  /-- Code and elements: the region's first token is cut. -/
  | fragment
deriving DecidableEq, Repr

/-- Where among the properties of a tag the scan is. -/
inductive Properties where
  /-- Outside of quotes and braces: whether a name waits for its value. -/
  | outside (named : Bool)
  | quoted (named : Bool) (mark : Char)
  /-- Inside braces: the number of further braces open in them, and what they hold. -/
  | braced (depth : Nat) (content : Content)
deriving DecidableEq, Repr

inductive Activity where
  /-- Script outside of every element, perhaps inside a string literal. -/
  | code (mark : Option Char)
  | tag (closing : Bool)
  | properties (state : Properties)
  | children (region : Region)
deriving DecidableEq, Repr

/-- An open element around the one being read: what is to be read of it next. -/
inductive Level where
  | children (region : Region)
  /-- The element being read stands in the braces of a property value. -/
  | value (depth : Nat) (content : Content)
deriving DecidableEq, Repr

end Scan

/-- What a scan is asked to read: the source as it was written, which errors are located in, and the
ceiling on the number of elements that are scanned on their own. -/
structure ScanInput where
  source : Text
  ceiling : Nat
deriving DecidableEq, Repr

/-- The state of a scan between two characters. -/
structure Scan where
  position : Nat := 0
  /-- How many further characters an earlier decision has consumed. -/
  skip : Nat := 0
  /-- The characters of the token being read. -/
  buffer : Array Char := #[]
  tokens : Array Token := #[]
  /-- The number of elements scanned on their own: those of the script and of property values. -/
  calls : Nat := 0
  activity : Scan.Activity := .code none
  /-- The elements around the one being read, innermost first. -/
  levels : List Scan.Level := []
deriving DecidableEq, Repr

namespace Scan

/-! ## Cutting tokens -/

def push (scan : Scan) (character : Char) : Scan :=
  { scan with buffer := scan.buffer.push character }

def clear (scan : Scan) : Scan :=
  { scan with buffer := #[] }

def text (scan : Scan) : Text :=
  scan.buffer.toList

/-- The offset of the buffered text if it ends right before position `stop`. -/
def offset (scan : Scan) (stop : Nat) : Nat :=
  stop - scan.buffer.size

def emit (scan : Scan) (kind : Token.Kind) (text : Text) (offset : Nat) : Scan :=
  { scan with tokens := scan.tokens.push { kind, text, offset } }

/-- Cuts the buffered text as a token that ends right before position `stop`. -/
def flush (scan : Scan) (kind : Token.Kind) (stop : Nat) : Scan :=
  (scan.emit kind scan.text (scan.offset stop)).clear

def flushSome (scan : Scan) (kind : Token.Kind) (stop : Nat) : Scan :=
  if scan.buffer.isEmpty then scan else scan.flush kind stop

/-- Cuts the buffered text as a child, if there is any. A run of whitespace is a kind of its own. -/
def flushChild (scan : Scan) (kind : Token.Kind) (stop : Nat) : Scan :=
  scan.flushSome (if scan.text.isAllWhitespace then .childWhitespace else kind) stop

/-- Cuts the buffered text if it is more than whitespace, and forgets it otherwise. -/
def flushSolid (scan : Scan) (kind : Token.Kind) (stop : Nat) : Scan :=
  if scan.text.isAllWhitespace then scan.clear else scan.flush kind stop

/-- Puts an empty region start before the token at a mark. -/
def openFragmentAt (scan : Scan) (mark : Nat) : Scan :=
  let offset := (scan.tokens[mark]?.map (·.offset)).getD 0
  let start : Token := { kind := .fragmentStart, text := [], offset }
  { scan with tokens := (scan.tokens.toList.insertIdx mark start).toArray }

/-! ## Opening and closing elements -/

/-- Counts one more element scanned on its own. -/
def enter (input : ScanInput) (scan : Scan) : Except ScanError Scan :=
  if input.ceiling < scan.calls + 1 then .error (.limitExceeded input.ceiling)
  else .ok { scan with calls := scan.calls + 1 }

/-- Starts to read a tag at its `<`. -/
def startTag (scan : Scan) : Scan :=
  { scan with buffer := #['<'], activity := .tag false }

/-- Continues with the innermost of the open elements, or with the script if there is none. -/
def resume (scan : Scan) (levels : List Level) : Scan :=
  match levels with
  | [] => { scan with activity := .code none, levels := [] }
  | .children region :: outer => { scan with activity := .children region, levels := outer }
  | .value depth content :: outer =>
      { scan with activity := .properties (.braced depth content), levels := outer }

end Scan

end ElementScript
