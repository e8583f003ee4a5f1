import ElementScript.Literal
import ElementScript.Lookahead
import ElementScript.PropertyName
import ElementScript.Scan.State
import ElementScript.Text.Quoted

/-!
How a scan reads one character: one function for each activity.

Each of these functions is given the character, whose offset is the scan's position, and the text
that follows it. A decision that takes more than one character, such as `/>`, is made at the first of
them and counts the others in `skip`.
-/

namespace ElementScript.Scan

/-! ## Script -/

def codeStep (input : ScanInput) (scan : Scan) (mark : Option Char) (character : Char)
    (following : Text) : Except ScanError Scan :=
  match mark with
  | some opened =>
      let mark := if Literal.closes opened scan.buffer.back? character then none else mark
      .ok { scan.push character with activity := .code mark }
  | none =>
      if Literal.isMark character then
        .ok { scan.push character with activity := .code (some character) }
      else if character = '<' ∧ Lookahead.opensElement following then do
        let entered ← (scan.flushSome .code scan.position).enter input
        return entered.startTag
      else .ok (scan.push character)

/-! ## Tags -/

/-- Ends a tag that closes itself at its `/>`. -/
def closeSelf (scan : Scan) : Scan :=
  { (scan.emit .elementEnd ['/', '>'] scan.position).resume scan.levels with skip := 1 }

def tagStep (input : ScanInput) (scan : Scan) (closing : Bool) (character : Char)
    (following : Text) : Except ScanError Scan :=
  if character = '/' then
    if scan.buffer = #['<'] then
      .ok { scan.push character with activity := .tag true }
    else if closing = false ∧ following.head? = some '>' then
      .ok (scan.flush .elementStart scan.position).closeSelf
    else
      .error (.malformedElement scan.text (.locate input.source scan.position))
  else if character = '>' then
    let full := scan.push character
    if closing then
      .ok ((full.flush .elementEnd (scan.position + 1)).resume (scan.levels.drop 1))
    else
      .ok { full.flush .elementStart (scan.position + 1) with activity := .children .text }
  else if Text.isBlank character then
    if closing then .ok scan
    else
      .ok { scan.flush .elementStart scan.position with
        activity := .properties (.outside false) }
  else .ok (scan.push character)

/-! ## Properties -/

/-- The kind of a text among the properties: a value if a name waits for one, else a name. -/
def propertyKind (named : Bool) : Token.Kind :=
  if named then .propertyValue else .propertyName

/-- Reads the `=` between a name and its value. A quote or a brace after it, perhaps after blanks,
opens the value. -/
def equalsStep (scan : Scan) (named : Bool) (following : Text) : Scan :=
  let named :=
    if scan.text.isAllWhitespace then
      named || scan.tokens.back?.any (·.kind = .propertyName)
    else true
  let scan := scan.flushSolid .propertyName scan.position
  let blanks := (following.takeWhile Text.isBlank).length
  match (following.drop blanks).head? with
  | some opener =>
      if opener = '"' ∨ opener = '\'' then
        { scan with skip := blanks + 1, activity := .properties (.quoted named opener) }
      else if opener = '{' then
        { scan with skip := blanks + 1, activity := .properties (.braced 0 .codeOnly) }
      else { scan with activity := .properties (.outside named) }
  | none => { scan with activity := .properties (.outside named) }

/-- Cuts the text before the end of a tag, which has to be a name or a spread. -/
def finishProperties (input : ScanInput) (scan : Scan) (named : Bool) : Except ScanError Scan :=
  let trimmed := scan.text.trim
  let offset := scan.offset scan.position
  if trimmed.isEmpty then .ok scan.clear
  else if PropertyName.isStandalone trimmed then
    .ok (scan.emit (propertyKind named) trimmed offset).clear
  else .error (.unhandledProperty trimmed (.locate input.source offset))

def outsideStep (input : ScanInput) (scan : Scan) (named : Bool) (character : Char)
    (following : Text) : Except ScanError Scan :=
  if character = '=' then .ok (scan.equalsStep named following)
  else if Text.isBlank character then
    let waiting := named && scan.text.isAllWhitespace
    .ok { scan.flushSolid (propertyKind named) scan.position with
      activity := .properties (.outside waiting) }
  else if character = '/' ∧ following.head? = some '>' then do
    let finished ← scan.finishProperties input named
    return finished.closeSelf
  else if character = '>' then do
    let finished ← scan.finishProperties input named
    return { finished with activity := .children .text }
  else .ok (scan.push character)

def quotedStep (scan : Scan) (named : Bool) (mark character : Char) : Scan :=
  if character = mark then
    let literal := scan.text.quote
    { (scan.emit (propertyKind named) literal (scan.offset scan.position)).clear with
      activity := .properties (.outside false) }
  else scan.push character

/-- Ends a braced property value. -/
def closeValue (scan : Scan) (content : Content) : Scan :=
  let finished :=
    match content with
    | .fragment => scan.flush .fragmentEnd scan.position
    | .elementsFirst mark =>
        if scan.text.isAllWhitespace then scan.clear
        else (scan.openFragmentAt mark).flush .fragmentEnd scan.position
    | .codeOnly => scan.flushSolid .propertyValue scan.position
  { finished with activity := .properties (.outside false) }

/-- Cuts the code before an element of a braced property value, and tells what the braces have shown
with that element. -/
def cutBeforeElement (scan : Scan) (content : Content) : Scan × Content :=
  if scan.text.isAllWhitespace then
    match content with
    | .codeOnly => (scan.clear, .elementsFirst scan.tokens.size)
    | .elementsFirst _ | .fragment => (scan.clear, content)
  else
    match content with
    | .codeOnly => (scan.flush .fragmentStart scan.position, .fragment)
    | .elementsFirst mark =>
        ((scan.openFragmentAt mark).flush .propertyValue scan.position, .fragment)
    | .fragment => (scan.flush .propertyValue scan.position, .fragment)

def bracedStep (input : ScanInput) (scan : Scan) (depth : Nat) (content : Content)
    (character : Char) (following : Text) : Except ScanError Scan :=
  if character = '}' then
    match depth with
    | 0 => .ok (scan.closeValue content)
    | depth + 1 =>
        .ok { scan.push character with activity := .properties (.braced depth content) }
  else if character = '{' then
    .ok { scan.push character with activity := .properties (.braced (depth + 1) content) }
  else if character = '<' ∧ Lookahead.opensElement following then do
    let (cut, shown) := scan.cutBeforeElement content
    let entered ← cut.enter input
    return { entered.startTag with levels := .value depth shown :: scan.levels }
  else .ok (scan.push character)

/-! ## Children -/

/-- Starts to read a tag among the children of an element. -/
def startChildTag (scan : Scan) (region : Region) : Scan :=
  { scan.startTag with levels := .children region :: scan.levels }

def childTextStep (scan : Scan) (character : Char) (following : Text) : Scan :=
  if character = '{' then
    { scan.flushChild .childText scan.position with activity := .children (.code 0 false) }
  else if character = '<' ∧ Lookahead.opensTag following then
    (scan.flushChild .childText scan.position).startChildTag .text
  else scan.push character

def childCodeStep (scan : Scan) (depth : Nat) (holdsElements : Bool) (character : Char)
    (following : Text) : Scan :=
  if character = '}' then
    match depth with
    | 0 =>
        let finished :=
          if holdsElements then scan.flush .fragmentEnd scan.position
          else scan.flushChild .childCode scan.position
        { finished with activity := .children .text }
    | depth + 1 =>
        { scan.push character with activity := .children (.code depth holdsElements) }
  else if character = '{' then
    { scan.push character with activity := .children (.code (depth + 1) holdsElements) }
  else if character = '<' ∧ Lookahead.opensTag following then
    let cut :=
      if holdsElements then scan.flushSome .childCode scan.position
      else scan.flush .fragmentStart scan.position
    cut.startChildTag (.code depth true)
  else scan.push character

/-! ## Any character -/

/-- Reads the character at the scan's position. -/
def step (input : ScanInput) (scan : Scan) (character : Char) (following : Text) :
    Except ScanError Scan :=
  match scan.skip with
  | skip + 1 => .ok { scan with skip }
  | 0 =>
      match scan.activity with
      | .code mark => scan.codeStep input mark character following
      | .tag closing => scan.tagStep input closing character following
      | .properties (.outside named) => scan.outsideStep input named character following
      | .properties (.quoted named mark) => .ok (scan.quotedStep named mark character)
      | .properties (.braced depth content) =>
          scan.bracedStep input depth content character following
      | .children .text => .ok (scan.childTextStep character following)
      | .children (.code depth holdsElements) =>
          .ok (scan.childCodeStep depth holdsElements character following)

end ElementScript.Scan
