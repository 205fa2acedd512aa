import Metrale.Grammar.Lexer

/-! # Property keys (`schema/gen_object.rs`, `schema/converter.rs`, `schema/cache_key.rs`)

A property's name is written into the grammar text as a literal, and the lexer reads the literal back.  `denotes_iff`
says for which names it reads the name's JSON encoding. -/

namespace Metrale.Grammar

open Metrale.Foundation

/-! ## JSON strings -/

/-- `{:04x}` -/
def hex4 (scalar : Nat) : List Char :=
  let digits := Nat.toDigits 16 scalar
  List.replicate (4 - digits.length) (Char.ofNat 48) ++ digits

def escapeJsonChar (char : Char) : List Char :=
  if char = quote then [backslash, quote]
  else if char = backslash then [backslash, backslash]
  else match char.toNat with
  | 0x0A => [backslash, 'n']
  | 0x0D => [backslash, 'r']
  | 0x09 => [backslash, 't']
  | 0x08 => [backslash, 'b']
  | 0x0C => [backslash, 'f']
  | scalar => if scalar < 0x20 then backslash :: 'u' :: hex4 scalar else [char]

def escapeJsonString (text : List Char) : List Char := quote :: text.flatMap escapeJsonChar ++ [quote]

/-! ## The literal of a key -/

inductive JsonFormat where
  | json
  | qwenXml
  | miniMaxXml
  | deepSeekXml
deriving DecidableEq

def xmlWrapper : JsonFormat → String × String
  | .json => ("", "")
  | .qwenXml => ("<parameter=", ">")
  | .miniMaxXml => ("<parameter name=\\\"", "\\\">")
  | .deepSeekXml => ("<｜DSML｜parameter name=\\\"", "\\\" string=\\\"\" (\"true\" | \"false\") \"\\\">")

/-- The fields of `JsonSchemaConverter` that decide how a key is written. -/
structure KeyLayer where
  format : JsonFormat
  nestedObjectLevel : Nat

namespace KeyLayer

variable (layer : KeyLayer)

def isXml : Bool := layer.format != .json

def atXmlLayer : Bool := layer.isXml && decide (layer.nestedObjectLevel ≤ 1)

def formatPropertyKey (key : List Char) : List Char :=
  if layer.atXmlLayer then
    quote :: (xmlWrapper layer.format).1.toList ++ key ++ (xmlWrapper layer.format).2.toList ++ [quote]
  else [quote, backslash, quote] ++ key ++ [backslash, quote, quote]

/-- The text of the key is one literal, and it stands for the JSON encoding of the key. -/
def Denotes (key : List Char) : Prop :=
  ∃ literal, parseString (utf8 (layer.formatPropertyKey key)) = .ok (literal, []) ∧
    literal.value = escapeJsonString key

end KeyLayer

def Plain (char : Char) : Prop := char ≠ quote ∧ char ≠ backslash ∧ 0x20 ≤ char.toNat

instance (char : Char) : Decidable (Plain char) := inferInstanceAs (Decidable (_ ∧ _ ∧ _))

/-! ## Plain names -/

theorem escapeJsonChar_plain {char : Char} (plain : Plain char) : escapeJsonChar char = [char] := by
  obtain ⟨notQuote, notEscape, printable⟩ := plain
  unfold escapeJsonChar
  rw [if_neg notQuote, if_neg notEscape]
  split <;> first | omega | skip
  rw [if_neg (by omega)]

theorem escapeJsonString_plain {text : List Char} (plain : ∀ char ∈ text, Plain char) :
    escapeJsonString text = quote :: text ++ [quote] := by
  rw [escapeJsonString]
  congr 2
  induction text with
  | nil => rfl
  | cons char text ih =>
    rw [List.flatMap_cons, escapeJsonChar_plain (plain char List.mem_cons_self),
      ih fun other member => plain other (List.mem_cons_of_mem char member)]
    rfl

theorem jsonStrToPrintable_append (first second : List Char) :
    jsonStrToPrintable (first ++ second) = jsonStrToPrintable first ++ jsonStrToPrintable second := by
  simp only [jsonStrToPrintable, replaceChar, List.flatMap_append]

theorem jsonStrToPrintable_plain {text : List Char} (plain : ∀ char ∈ text, Plain char) :
    jsonStrToPrintable text = text := by
  induction text with
  | nil => rfl
  | cons char text ih =>
    have head := plain char List.mem_cons_self
    rw [jsonStrToPrintable_cons, ih fun other member => plain other (List.mem_cons_of_mem char member),
      if_neg (by unfold Plain at head; tauto)]
    rfl

namespace KeyLayer

variable {layer : KeyLayer} {key : List Char}

theorem denotes_of_plain (json : layer.atXmlLayer = false) (plain : ∀ char ∈ key, Plain char) :
    layer.Denotes key := by
  have oneLine : ∀ char ∈ escapeJsonString key, ¬ EndsLiteral char := by
    intro char member
    rw [escapeJsonString_plain plain, List.mem_append, List.mem_cons, List.mem_singleton] at member
    obtain (rfl | member) | rfl := member
    · decide
    · have printable := (plain char member).2.2
      unfold EndsLiteral
      omega
    · decide
  have printed : layer.formatPropertyKey key = quote :: jsonStrToPrintable (escapeJsonString key) ++ [quote] := by
    have closing : jsonStrToPrintable [quote] = [backslash, quote] := by decide
    rw [escapeJsonString_plain plain, jsonStrToPrintable_append, jsonStrToPrintable_cons, jsonStrToPrintable_plain plain,
      closing]
    simp [formatPropertyKey, json]
  refine ⟨⟨quote :: jsonStrToPrintable (escapeJsonString key) ++ [quote], escapeJsonString key⟩, ?_, rfl⟩
  rw [printed]
  exact parseString_printable oneLine

/-! ## Other names -/

/-- Escaping writes a backslash for every character that is not plain, and two for a backslash. -/
theorem count_escapeJsonChar (char : Char) :
    (if char = backslash then 1 else 0) + (if Plain char then 0 else 1) ≤
      (escapeJsonChar char).countP fun written => isSpecial written.toNat := by
  by_cases isQuote : char = quote
  · subst isQuote
    decide
  by_cases isBackslash : char = backslash
  · subst isBackslash
    decide
  rw [if_neg isBackslash]
  by_cases plain : Plain char
  · rw [if_pos plain]
    exact Nat.zero_le _
  · -- A control character: its escape starts with a backslash.
    have control : char.toNat < 0x20 := by
      unfold Plain at plain
      by_contra printable
      exact plain ⟨isQuote, isBackslash, not_lt.mp printable⟩
    have escape : ∃ rest, escapeJsonChar char = backslash :: rest := by
      unfold escapeJsonChar
      rw [if_neg isQuote, if_neg isBackslash]
      split <;> first | exact ⟨_, rfl⟩ | exact ⟨_, if_pos control⟩
    obtain ⟨rest, escape⟩ := escape
    rw [if_neg plain, escape, List.countP_cons, if_pos (by decide)]
    omega

theorem count_escapeJsonString (text : List Char) :
    text.count backslash + text.countP (fun char => ¬ Plain char) + 2 ≤
      (escapeJsonString text).countP fun written => isSpecial written.toNat := by
  have quoted : [quote].countP (fun written => isSpecial written.toNat) = 1 := by decide
  have inner : text.count backslash + text.countP (fun char => ¬ Plain char) ≤
      (text.flatMap escapeJsonChar).countP fun written => isSpecial written.toNat := by
    induction text with
    | nil => exact le_refl _
    | cons char text ih =>
      have head := count_escapeJsonChar char
      rw [List.flatMap_cons, List.countP_append, List.count_cons, List.countP_cons]
      simp only [beq_iff_eq, decide_eq_true_eq, ite_not]
      omega
  rw [escapeJsonString, List.countP_append, ← List.singleton_append, List.countP_append, quoted]
  omega

theorem value_countP_le {text : List Char} {literal : StringLiteral} {rest : List UInt8}
    (parsed : parseString (utf8 (quote :: text)) = .ok (literal, rest)) :
    literal.value.countP (fun char => isSpecial char.toNat) ≤ text.count backslash := by
  have opening : (utf8 (quote :: text)).tail = utf8 text := rfl
  rw [parseString, opening] at parsed
  split at parsed
  · cases parsed
  · next codepoints after scanned =>
    cases parsed
    exact (countP_fromUtf8Lossy_le isSpecial_ascii _).trans (countP_scanLiteral_le text scanned)

theorem plain_of_denotes (json : layer.atXmlLayer = false) (denotes : layer.Denotes key) :
    ∀ char ∈ key, Plain char := by
  obtain ⟨literal, parsed, value⟩ := denotes
  have text : layer.formatPropertyKey key = quote :: ([backslash, quote] ++ key ++ [backslash, quote, quote]) := by
    simp [formatPropertyKey, json]
  have written : ([backslash, quote] ++ key ++ [backslash, quote, quote]).count backslash = key.count backslash + 2 := by
    have different : quote ≠ backslash := by decide
    simp [List.count_append, different]
  rw [text] at parsed
  have most := value_countP_le parsed
  have least := count_escapeJsonString key
  rw [value] at most
  have none : key.countP (fun char => ¬ Plain char) = 0 := by omega
  intro char member
  simpa using List.countP_eq_zero.mp none char member

theorem xmlWrapper_tag {format : JsonFormat} (xml : format ≠ .json) :
    ∃ tag, (xmlWrapper format).1.toList = Char.ofNat 0x3C :: tag := by
  cases format with
  | json => exact absurd rfl xml
  | qwenXml => exact ⟨_, rfl⟩
  | miniMaxXml => exact ⟨_, rfl⟩
  | deepSeekXml => exact ⟨_, rfl⟩

theorem not_denotes_xml (xml : layer.atXmlLayer = true) : ¬ layer.Denotes key := by
  rintro ⟨literal, parsed, value⟩
  have format : layer.format ≠ .json := by
    intro json
    simp [atXmlLayer, isXml, json] at xml
  obtain ⟨tag, starts⟩ := xmlWrapper_tag format
  have text : layer.formatPropertyKey key =
      quote :: Char.ofNat 0x3C :: (tag ++ key ++ (xmlWrapper layer.format).2.toList ++ [quote]) := by
    simp [formatPropertyKey, xml, starts]
  have opening : ∀ later, (utf8 (quote :: Char.ofNat 0x3C :: later)).tail =
      String.utf8EncodeChar (Char.ofNat 0x3C) ++ utf8 later := fun _ => rfl
  rw [parseString, text, opening, scanLiteral_raw (by decide) (by decide) (by decide)] at parsed
  split at parsed
  · cases parsed
  · next codepoints after scanned =>
    obtain ⟨later, -, rfl⟩ := afterCodepoint_ok scanned
    cases parsed
    have first : ∀ bytes, fromUtf8Lossy (charToUtf8 ((Char.ofNat 0x3C).toNat : Int) ++ bytes) =
        Char.ofNat 0x3C :: fromUtf8Lossy bytes := fun _ => rfl
    rw [List.flatMap_cons, first, escapeJsonString, List.cons_append] at value
    exact absurd (List.cons.inj value).1 (by decide)

/-- The literal of a key is the key's JSON encoding exactly where keys are JSON strings and the name needs no
escape. -/
theorem denotes_iff (layer : KeyLayer) (key : List Char) :
    layer.Denotes key ↔ layer.atXmlLayer = false ∧ ∀ char ∈ key, Plain char := by
  constructor
  · intro denotes
    have json : layer.atXmlLayer = false := by
      by_contra xml
      exact not_denotes_xml (by simpa using xml) denotes
    exact ⟨json, plain_of_denotes json denotes⟩
  · rintro ⟨json, plain⟩
    exact denotes_of_plain json plain

/-- The backslash of a name is read as an escape: the key of the two characters of a backslash and an `n` stands for
a line feed between quotes. -/
theorem backslash_lost : ¬ (⟨.json, 0⟩ : KeyLayer).Denotes [backslash, 'n'] := by
  have read : parseString (utf8 ((⟨.json, 0⟩ : KeyLayer).formatPropertyKey [backslash, 'n'])) =
      .ok (⟨[quote, backslash, quote, backslash, 'n', backslash, quote, quote], [quote, Char.ofNat 0x0A, quote]⟩, []) := by
    decide
  rintro ⟨literal, parsed, value⟩
  cases read.symm.trans parsed
  exact absurd value (by decide)

end KeyLayer

end Metrale.Grammar
