import Mathlib

/-! # The JSON reader (`schema/json_value.rs`)

Recursive descent over the characters.  The `f64` of a number is kept as the literal that it is rounded from.  An
unsigned subtraction that goes below zero is a panic. -/

namespace Metrale.Grammar

inductive JsonValue where
  | null
  | bool (value : Bool)
  | number (literal : List Char) (asI64 : Option Int)
  | string (value : List Char)
  | array (items : List JsonValue)
  | object (entries : List (List Char × JsonValue))

namespace JsonValue

/-- What ends a reading: an error, a panic, or that the fuel is used up. -/
inductive Failure where
  | message (text : String)
  | panic
  | running
deriving DecidableEq

structure Source where
  pos : Nat
  rest : List Char
deriving DecidableEq

abbrev Read (Result : Type) : Type := Except Failure (Result × Source)

def err {Result : Type} (text : String) : Except Failure Result := .error (.message text)

def Source.advance (source : Source) (count : Nat) : Source := ⟨source.pos + count, source.rest.drop count⟩

def isBlank (char : Char) : Bool := char == ' ' || char == '\t' || char == '\n' || char == '\r'

def skipWs (source : Source) : Source := source.advance (source.rest.takeWhile isBlank).length

def expect (char : Char) (source : Source) : Except Failure Source :=
  let pos := source.pos
  if source.rest.head? = some char then .ok (source.advance 1) else err s!"expected '{char}' at position {pos}"

/-! ## Strings -/

/-- `char::to_digit(16)` -/
def hexDigit (char : Char) : Option Nat :=
  if '0' ≤ char ∧ char ≤ '9' then some (char.toNat - 0x30)
  else if 'a' ≤ char ∧ char ≤ 'f' then some (char.toNat - 0x57)
  else if 'A' ≤ char ∧ char ≤ 'F' then some (char.toNat - 0x37)
  else none

def fromU32 (codepoint : Nat) : Option Char := if codepoint.isValidChar then some (Char.ofNat codepoint) else none

def parseHex (codepoint : Nat) : Nat → Source → Except Failure (Nat × Source)
  | 0, source => .ok (codepoint, source)
  | count + 1, source =>
    match source.rest with
    | [] => err "short \\u escape"
    | char :: _ =>
      match hexDigit char with
      | none => err "bad hex digit"
      | some digit => parseHex (codepoint * 16 + digit) count (source.advance 1)

def parseHex4 (source : Source) : Except Failure (Nat × Source) := parseHex 0 4 source

def isHigh (codepoint : Nat) : Bool := 0xD800 ≤ codepoint && codepoint ≤ 0xDBFF

def pairCodepoint (high low : Nat) : Nat := 0x10000 + (high - 0xD800) * 1024 + (low - 0xDC00)

def pushed (message : String) (codepoint : Nat) (source : Source) : Except Failure (Char × Source) :=
  match fromU32 codepoint with
  | some char => .ok (char, source)
  | none => err message

def parsePair (high : Nat) (source : Source) : Except Failure (Char × Source) :=
  if source.rest.head? = some '\\' then do
    let source ← expect 'u' (source.advance 1)
    let (low, source) ← parseHex4 source
    if low < 0xDC00 then .error .panic else pushed "invalid surrogate pair" (pairCodepoint high low) source
  else err "lone high surrogate"

/-- Behind `\u`. -/
def parseUnicode (source : Source) : Except Failure (Char × Source) := do
  let (codepoint, source) ← parseHex4 source
  if isHigh codepoint then parsePair codepoint source else pushed "invalid \\u escape" codepoint source

def simpleEscape : Char → Option Char
  | '"' => some '"'
  | '\\' => some '\\'
  | '/' => some '/'
  | 'b' => some (Char.ofNat 0x08)
  | 'f' => some (Char.ofNat 0x0C)
  | 'n' => some '\n'
  | 'r' => some '\r'
  | 't' => some '\t'
  | _ => none

def parseEscape (source : Source) : Except Failure (Char × Source) :=
  match source.rest with
  | [] => err "dangling escape"
  | 'u' :: _ => parseUnicode (source.advance 1)
  | escape :: _ =>
    match simpleEscape escape with
    | some char => .ok (char, source.advance 1)
    | none => err s!"bad escape '\\{escape}'"

def parseContents : Nat → Source → Except Failure (List Char × Source)
  | 0, _ => .error .running
  | fuel + 1, source =>
    match source.rest with
    | [] => err "unterminated string"
    | '"' :: _ => .ok ([], source.advance 1)
    | '\\' :: _ => do
      let (char, source) ← parseEscape (source.advance 1)
      let (content, source) ← parseContents fuel source
      return (char :: content, source)
    | char :: _ => do
      let (content, source) ← parseContents fuel (source.advance 1)
      return (char :: content, source)

def parseString (source : Source) : Except Failure (List Char × Source) := do
  let source ← expect '"' source
  parseContents (source.rest.length + 1) source

/-! ## Literals and numbers -/

def matchesLiteral (literal : List Char) (source : Source) : Option Source :=
  if source.rest.take literal.length = literal then some (source.advance literal.length) else none

def parseBool (source : Source) : Except Failure (JsonValue × Source) :=
  let pos := source.pos
  match matchesLiteral ['t', 'r', 'u', 'e'] source, matchesLiteral ['f', 'a', 'l', 's', 'e'] source with
  | some source, _ => .ok (.bool true, source)
  | none, some source => .ok (.bool false, source)
  | none, none => err s!"invalid literal at {pos}"

def parseNull (source : Source) : Except Failure (JsonValue × Source) :=
  let pos := source.pos
  match matchesLiteral ['n', 'u', 'l', 'l'] source with
  | some source => .ok (.null, source)
  | none => err s!"invalid literal at {pos}"

def isDigit (char : Char) : Bool := '0' ≤ char && char ≤ '9'

/-- What `parse_number` collects behind the sign. -/
def inNumber (char : Char) : Bool :=
  isDigit char || char == '.' || char == 'e' || char == 'E' || char == '+' || char == '-'

def afterMinus : List Char → List Char
  | '-' :: rest => rest
  | text => text

def afterSign : List Char → List Char
  | '-' :: rest => rest
  | '+' :: rest => rest
  | text => text

def exponentSyntax : List Char → Bool
  | [] => true
  | char :: rest => (char == 'e' || char == 'E') && afterSign rest != [] && (afterSign rest).all isDigit

/-- `str::parse::<f64>` takes the text, which has none of the letters of infinity and NaN. -/
def f64Syntax (text : List Char) : Bool :=
  let whole := (afterSign text).takeWhile isDigit
  match (afterSign text).dropWhile isDigit with
  | '.' :: rest => (whole != [] || rest.takeWhile isDigit != []) && exponentSyntax (rest.dropWhile isDigit)
  | rest => whole != [] && exponentSyntax rest

def naturalValue (digits : List Char) : Nat := digits.foldl (fun value digit => value * 10 + (digit.toNat - 0x30)) 0

/-- `str::parse::<i64>` of a text without fraction and exponent. -/
def asI64 (literal : List Char) : Option Int :=
  if (afterMinus literal).all isDigit then
    let value : Int := if literal.head? = some '-' then -(naturalValue (afterMinus literal)) else naturalValue literal
    if -9223372036854775808 ≤ value ∧ value ≤ 9223372036854775807 then some value else none
  else none

def numberText : List Char → List Char
  | '-' :: rest => '-' :: rest.takeWhile inNumber
  | rest => rest.takeWhile inNumber

def parseNumber (source : Source) : Except Failure (JsonValue × Source) :=
  let literal := numberText source.rest
  let shown := String.ofList literal
  if f64Syntax literal then .ok (.number literal (asI64 literal), source.advance literal.length)
  else err s!"invalid number '{shown}'"

/-! ## Values -/

/-- The last value of a key stands where the key came first. -/
def insertEntry (entries : List (List Char × JsonValue)) (entry : List Char × JsonValue) : List (List Char × JsonValue) :=
  if entries.any fun slot => slot.1 == entry.1 then entries.map fun slot => if slot.1 = entry.1 then (slot.1, entry.2) else slot
  else entries ++ [entry]

/-- `loop` reads the items up to the closing bracket. -/
def parseArray (loop : Source → Except Failure (List JsonValue × Source)) (source : Source) : Except Failure (JsonValue × Source) := do
  let source ← expect '[' source
  let source := skipWs source
  if source.rest.head? = some ']' then return (.array [], source.advance 1)
  else do
    let (items, source) ← loop source
    return (.array items, source)

/-- `loop` reads the members up to the closing brace. -/
def parseObject (loop : Source → Except Failure (List (List Char × JsonValue) × Source)) (source : Source) :
    Except Failure (JsonValue × Source) := do
  let source ← expect '\x7b' source
  let source := skipWs source
  if source.rest.head? = some '\x7d' then return (.object [], source.advance 1)
  else do
    let (entries, source) ← loop source
    return (.object entries, source)

/-- `parse_value` behind the blanks. -/
def parseToken (items : Source → Except Failure (List JsonValue × Source))
    (members : Source → Except Failure (List (List Char × JsonValue) × Source)) (source : Source) :
    Except Failure (JsonValue × Source) :=
  let pos := source.pos
  match source.rest with
  | [] => err "unexpected end of input"
  | '\x7b' :: _ => parseObject members source
  | '[' :: _ => parseArray items source
  | '"' :: _ => do
    let (content, source) ← parseString source
    return (.string content, source)
  | 't' :: _ => parseBool source
  | 'f' :: _ => parseBool source
  | 'n' :: _ => parseNull source
  | char :: _ =>
    if char == '-' || isDigit char then parseNumber source
    else err s!"unexpected character '{char}' at {pos}"

mutual

def parseValue : Nat → Source → Except Failure (JsonValue × Source)
  | 0, _ => .error .running
  | fuel + 1, source => parseToken (parseItems fuel) (parseMembers fuel []) (skipWs source)

/-- The loop of `parse_array`, up to the closing bracket. -/
def parseItems : Nat → Source → Except Failure (List JsonValue × Source)
  | 0, _ => .error .running
  | fuel + 1, source => do
    let (item, source) ← parseValue fuel source
    let source := skipWs source
    let pos := source.pos
    match source.rest with
    | ',' :: _ => do
      let (items, source) ← parseItems fuel (source.advance 1)
      return (item :: items, source)
    | ']' :: _ => .ok ([item], source.advance 1)
    | _ => err s!"expected ',' or ']' at {pos}"

/-- The loop of `parse_object`, up to the closing brace. -/
def parseMembers : Nat → List (List Char × JsonValue) → Source → Except Failure (List (List Char × JsonValue) × Source)
  | 0, _, _ => .error .running
  | fuel + 1, entries, source => do
    let (key, source) ← parseString (skipWs source)
    let source ← expect ':' (skipWs source)
    let (value, source) ← parseValue fuel source
    let entries := insertEntry entries (key, value)
    let source := skipWs source
    let pos := source.pos
    match source.rest with
    | ',' :: _ => parseMembers fuel entries (source.advance 1)
    | '\x7d' :: _ => .ok (entries, source.advance 1)
    | _ => err s!"expected ',' or '\x7d' at {pos}"

end

/-- `JsonValue::parse`.  Each character costs two of the fuel at most. -/
def parse (text : List Char) : Except Failure JsonValue := do
  let (value, source) ← parseValue (2 * text.length + 2) (skipWs ⟨0, text⟩)
  let source := skipWs source
  let pos := source.pos
  if source.rest = [] then .ok value else err s!"trailing characters at position {pos}"

end JsonValue

end Metrale.Grammar
