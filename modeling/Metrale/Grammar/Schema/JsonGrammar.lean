import Metrale.Foundation.Outcome
import Metrale.Grammar.Schema.JsonValue

/-! # The grammar of JSON

Its tokens come in dialects: those of JSON, and the wider ones that the reader takes.  Each relation is between what is
left of the text before and after. -/

namespace Metrale.Grammar.JsonValue

open Foundation

/-- Where JSON and the reader differ: the characters that stand for themselves in a string, the code points behind a high
surrogate, and the numbers. -/
structure Dialect where
  rawChar : Char → Prop
  low : Nat → Prop
  number : List Char → Prop

def Digits (text : List Char) : Prop := text ≠ [] ∧ text.all isDigit

inductive Integer : List Char → Prop where
  | zero : Integer ['0']
  | digits {first : Char} {rest : List Char} : '1' ≤ first → first ≤ '9' → rest.all isDigit → Integer (first :: rest)

inductive Fraction : List Char → Prop where
  | none : Fraction []
  | some {digits : List Char} : Digits digits → Fraction ('.' :: digits)

inductive Exponent : List Char → Prop where
  | none : Exponent []
  | some {mark : Char} {sign digits : List Char} : mark = 'e' ∨ mark = 'E' → sign = [] ∨ sign = ['+'] ∨ sign = ['-'] →
      Digits digits → Exponent (mark :: (sign ++ digits))

inductive Number : List Char → Prop where
  | mk {minus integer fraction exponent : List Char} : minus = [] ∨ minus = ['-'] → Integer integer → Fraction fraction →
      Exponent exponent → Number (minus ++ integer ++ fraction ++ exponent)

def standard : Dialect where
  rawChar char := 0x20 ≤ char.toNat
  low codepoint := 0xDC00 ≤ codepoint ∧ codepoint ≤ 0xDFFF
  number := Number

/-- A number is any text of the characters of numbers that `str::parse::<f64>` takes. -/
def reader : Dialect where
  rawChar _ := True
  low codepoint := 0xDC00 ≤ codepoint
  number text := (∃ first ∈ text.head?, first = '-' ∨ isDigit first) ∧ (afterMinus text).all inNumber ∧ f64Syntax text

def Ws (input rest : List Char) : Prop := ∃ blanks, blanks.all isBlank ∧ input = blanks ++ rest

inductive Hex : Nat → Nat → List Char → Nat → List Char → Prop where
  | done {start : Nat} {rest : List Char} : Hex 0 start rest start rest
  | more {count start digit codepoint : Nat} {char : Char} {input rest : List Char} : hexDigit char = some digit →
      Hex count (start * 16 + digit) input codepoint rest → Hex (count + 1) start (char :: input) codepoint rest

abbrev Hex4 : List Char → Nat → List Char → Prop := Hex 4 0

inductive Piece (dialect : Dialect) : List Char → Char → List Char → Prop where
  | raw {char : Char} {rest : List Char} : dialect.rawChar char → char ≠ '"' → char ≠ '\\' → Piece dialect (char :: rest) char rest
  | escape {escape char : Char} {rest : List Char} : simpleEscape escape = some char →
      Piece dialect ('\\' :: escape :: rest) char rest
  | unicode {input rest : List Char} {codepoint : Nat} {char : Char} : Hex4 input codepoint rest → isHigh codepoint = false →
      fromU32 codepoint = some char → Piece dialect ('\\' :: 'u' :: input) char rest
  | pair {input middle rest : List Char} {high low : Nat} {char : Char} : Hex4 input high ('\\' :: 'u' :: middle) →
      isHigh high = true → Hex4 middle low rest → dialect.low low → fromU32 (pairCodepoint high low) = some char →
      Piece dialect ('\\' :: 'u' :: input) char rest

inductive Contents (dialect : Dialect) : List Char → List Char → List Char → Prop where
  | close {rest : List Char} : Contents dialect ('"' :: rest) [] rest
  | more {input middle rest content : List Char} {char : Char} : Piece dialect input char middle →
      Contents dialect middle content rest → Contents dialect input (char :: content) rest

/-- What is read: a value, the items up to the closing bracket, or the members up to the closing brace. -/
inductive Goal where
  | value (value : JsonValue)
  | items (items : List JsonValue)
  | members (members : List (List Char × JsonValue))

inductive Derives (dialect : Dialect) : Goal → List Char → List Char → Prop where
  | null {rest : List Char} : Derives dialect (.value .null) ('n' :: 'u' :: 'l' :: 'l' :: rest) rest
  | true {rest : List Char} : Derives dialect (.value (.bool true)) ('t' :: 'r' :: 'u' :: 'e' :: rest) rest
  | false {rest : List Char} : Derives dialect (.value (.bool false)) ('f' :: 'a' :: 'l' :: 's' :: 'e' :: rest) rest
  | string {input content rest : List Char} : Contents dialect input content rest →
      Derives dialect (.value (.string content)) ('"' :: input) rest
  | number {text rest : List Char} : dialect.number text → Derives dialect (.value (.number text (asI64 text))) (text ++ rest) rest
  | emptyArray {input rest : List Char} : Ws input (']' :: rest) → Derives dialect (.value (.array [])) ('[' :: input) rest
  | array {input rest : List Char} {items : List JsonValue} : Derives dialect (.items items) input rest →
      Derives dialect (.value (.array items)) ('[' :: input) rest
  | emptyObject {input rest : List Char} : Ws input ('\x7d' :: rest) → Derives dialect (.value (.object [])) ('\x7b' :: input) rest
  | object {input rest : List Char} {members : List (List Char × JsonValue)} : Derives dialect (.members members) input rest →
      Derives dialect (.value (.object (members.foldl insertEntry []))) ('\x7b' :: input) rest
  | lastItem {input start after rest : List Char} {item : JsonValue} : Ws input start → Derives dialect (.value item) start after →
      Ws after (']' :: rest) → Derives dialect (.items [item]) input rest
  | item {input start after next rest : List Char} {item : JsonValue} {items : List JsonValue} : Ws input start →
      Derives dialect (.value item) start after → Ws after (',' :: next) → Derives dialect (.items items) next rest →
      Derives dialect (.items (item :: items)) input rest
  | lastMember {input start key afterKey colon valueStart after rest : List Char} {value : JsonValue} : Ws input ('"' :: start) →
      Contents dialect start key afterKey → Ws afterKey (':' :: colon) → Ws colon valueStart →
      Derives dialect (.value value) valueStart after → Ws after ('\x7d' :: rest) →
      Derives dialect (.members [(key, value)]) input rest
  | member {input start key afterKey colon valueStart after next rest : List Char} {value : JsonValue}
      {members : List (List Char × JsonValue)} : Ws input ('"' :: start) →
      Contents dialect start key afterKey → Ws afterKey (':' :: colon) → Ws colon valueStart →
      Derives dialect (.value value) valueStart after → Ws after (',' :: next) → Derives dialect (.members members) next rest →
      Derives dialect (.members ((key, value) :: members)) input rest

def Denotes (dialect : Dialect) (text : List Char) (value : JsonValue) : Prop :=
  ∃ start after, Ws text start ∧ Derives dialect (.value value) start after ∧ Ws after []

/-! ## Where the reader panics -/

/-- A string comes to a high surrogate and behind it to a code point below the surrogates for the second place. -/
inductive ContentsStumble : List Char → Prop where
  | pair {input middle rest : List Char} {high low : Nat} : Hex4 input high ('\\' :: 'u' :: middle) → isHigh high = true →
      Hex4 middle low rest → low < 0xDC00 → ContentsStumble ('\\' :: 'u' :: input)
  | more {input middle : List Char} {char : Char} : Piece reader input char middle → ContentsStumble middle → ContentsStumble input

inductive Place where
  | value
  | items
  | members

inductive Stumbles : Place → List Char → Prop where
  | string {input start : List Char} : Ws input ('"' :: start) → ContentsStumble start → Stumbles .value input
  | array {input start : List Char} : Ws input ('[' :: start) → Stumbles .items start → Stumbles .value input
  | object {input start : List Char} : Ws input ('\x7b' :: start) → Stumbles .members start → Stumbles .value input
  | item {input : List Char} : Stumbles .value input → Stumbles .items input
  | laterItem {input start after next : List Char} {item : JsonValue} : Ws input start → Derives reader (.value item) start after →
      Ws after (',' :: next) → Stumbles .items next → Stumbles .items input
  | key {input start : List Char} : Ws input ('"' :: start) → ContentsStumble start → Stumbles .members input
  | member {input start key afterKey colon : List Char} : Ws input ('"' :: start) → Contents reader start key afterKey →
      Ws afterKey (':' :: colon) → Stumbles .value colon → Stumbles .members input
  | laterMember {input start key afterKey colon valueStart after next : List Char} {value : JsonValue} : Ws input ('"' :: start) →
      Contents reader start key afterKey → Ws afterKey (':' :: colon) → Ws colon valueStart →
      Derives reader (.value value) valueStart after → Ws after (',' :: next) → Stumbles .members next → Stumbles .members input

end Metrale.Grammar.JsonValue
