import Metrale.Foundation.Utf8
import Metrale.Grammar.Schema.GenObject

/-! # String literals of the grammar text (`grammar/lexer_scan.rs`, `support/escape.rs`, `support/encoding.rs`)

A literal stands between double quotes, on one line, with C-style escapes.  Line and column numbers of tokens and
errors are left out. -/

namespace Metrale.Grammar

open Metrale.Foundation

/-! ## Code points -/

abbrev TCodepoint := Int

def invalidUtf8 : TCodepoint := -10

def invalidEscape : TCodepoint := -11

/-- Code points above U+10FFFF, and negative ones, keep their low 21 bits. -/
def charToUtf8 (codepoint : TCodepoint) : List UInt8 :=
  let cp := (codepoint % 4294967296).toNat
  if cp ≤ 0x7F then [UInt8.ofNat cp]
  else if cp ≤ 0x7FF then [UInt8.ofNat (0xC0 + cp / 64 % 32), UInt8.ofNat (0x80 + cp % 64)]
  else if cp ≤ 0xFFFF then
    [UInt8.ofNat (0xE0 + cp / 4096 % 16), UInt8.ofNat (0x80 + cp / 64 % 64), UInt8.ofNat (0x80 + cp % 64)]
  else
    [UInt8.ofNat (0xF0 + cp / 262144 % 8), UInt8.ofNat (0x80 + cp / 4096 % 64), UInt8.ofNat (0x80 + cp / 64 % 64),
      UInt8.ofNat (0x80 + cp % 64)]

/-- The number of bytes of a sequence, and the bits its first byte gives. -/
def handleUtf8FirstByte (byte : UInt8) : Option (Nat × Nat) :=
  if byte.toNat < 0x80 then some (1, byte.toNat)
  else if byte.toNat < 0xC0 then none
  else if byte.toNat < 0xE0 then some (2, byte.toNat % 32)
  else if byte.toNat < 0xF0 then some (3, byte.toNat % 16)
  else if byte.toNat < 0xF8 then some (4, byte.toNat % 8)
  else none

/-- Reads `count` continuation bytes. -/
def continueUtf8 : Nat → Nat → List UInt8 → Option Nat
  | 0, res, _ => some res
  | _ + 1, _, [] => none
  | count + 1, res, byte :: rest =>
    if IsContinuation byte then continueUtf8 count (res * 64 + byte.toNat % 64) rest else none

def parseNextUtf8 : List UInt8 → TCodepoint × Nat
  | [] => (invalidUtf8, 0)
  | first :: rest =>
    match handleUtf8FirstByte first with
    | none => (invalidUtf8, 0)
    | some (numBytes, bits) =>
      match continueUtf8 (numBytes - 1) bits rest with
      | none => (invalidUtf8, 0)
      | some res => (res, numBytes)

/-! ## Escapes -/

def escapeToCodepoint (c : UInt8) : Option TCodepoint :=
  match c.toNat with
  | 39 => some 0x27  -- single quote
  | 34 => some 0x22  -- double quote
  | 63 => some 0x3F  -- `?`
  | 92 => some 0x5C  -- backslash
  | 47 => some 0x2F  -- `/`
  | 97 => some 0x07  -- `a`
  | 98 => some 0x08  -- `b`
  | 102 => some 0x0C  -- `f`
  | 110 => some 0x0A  -- `n`
  | 114 => some 0x0D  -- `r`
  | 116 => some 0x09  -- `t`
  | 118 => some 0x0B  -- `v`
  | 48 => some 0x00  -- `0`
  | 101 => some 0x1B  -- `e`
  | _ => none

/-- `none` where the source answers `-1`. -/
def hexCharToInt (c : UInt8) : Option Int :=
  if 48 ≤ c.toNat ∧ c.toNat ≤ 57 then some (c.toNat - 48)
  else if 97 ≤ c.toNat ∧ c.toNat ≤ 102 then some (c.toNat - 97 + 10)
  else if 65 ≤ c.toNat ∧ c.toNat ≤ 70 then some (c.toNat - 65 + 10)
  else none

/-- All hex digits that follow, and how many there are.  The code point wraps. -/
def hexRun (codepoint : TCodepoint) : List UInt8 → TCodepoint × Nat
  | [] => (codepoint, 0)
  | c :: rest =>
    match hexCharToInt c with
    | none => (codepoint, 0)
    | some digit =>
      let (codepoint, len) := hexRun (asI32 (codepoint * 16 + digit)) rest
      (codepoint, len + 1)

/-- Exactly `len` hex digits. -/
def hexDigits : Nat → TCodepoint → List UInt8 → Option TCodepoint
  | 0, codepoint, _ => some codepoint
  | _ + 1, _, [] => none
  | len + 1, codepoint, c :: rest =>
    match hexCharToInt c with
    | none => none
    | some digit => hexDigits len (asI32 (codepoint * 16 + digit)) rest

def parseNextEscaped (additionalEscapeMap : UInt8 → Option TCodepoint) : List UInt8 → TCodepoint × Nat
  | backslash :: esc :: rest =>
    if backslash.toNat ≠ 0x5C ∨ 128 < esc.toNat then (invalidEscape, 0)
    else
      match (additionalEscapeMap esc).or (escapeToCodepoint esc) with
      | some codepoint => (codepoint, 2)
      | none =>
        if esc.toNat = 120 then  -- `\x`
          let (codepoint, len) := hexRun 0 rest
          if len = 0 then (invalidEscape, 0) else (codepoint, len + 2)
        else if esc.toNat = 117 ∨ esc.toNat = 85 then  -- `\u`, `\U`
          let len := if esc.toNat = 117 then 4 else 8
          match hexDigits len 0 rest with
          | none => (invalidEscape, 0)
          | some codepoint => (codepoint, len + 2)
        else (invalidEscape, 0)
  | _ => (invalidEscape, 0)

def parseNextUtf8OrEscaped (additionalEscapeMap : UInt8 → Option TCodepoint) (bytes : List UInt8) :
    TCodepoint × Nat :=
  if (bytes.headD 0).toNat = 0x5C then parseNextEscaped additionalEscapeMap bytes else parseNextUtf8 bytes

/-! ## Literals -/

structure StringLiteral where
  lexeme : List Char
  value : List Char
deriving DecidableEq

/-- The code points up to the closing quote, and what follows it.  The first `skip` bytes are read already. -/
def scanLiteral : Nat → List UInt8 → Except String (List TCodepoint × List UInt8)
  | _, [] => .error "Expect \" in string literal"
  | skip + 1, _ :: rest => scanLiteral skip rest
  | 0, byte :: rest =>
    if byte.toNat = 0x22 then .ok ([], rest)
    else if byte.toNat = 0 ∨ byte.toNat = 0x0A ∨ byte.toNat = 0x0D then .error "Expect \" in string literal"
    else
      let (codepoint, len) := parseNextUtf8OrEscaped (fun _ => none) (byte :: rest)
      if codepoint = invalidUtf8 then .error "Invalid UTF8 sequence"
      else if codepoint = invalidEscape then .error "Invalid escape sequence"
      else (scanLiteral (len - 1) rest).map fun scanned => (codepoint :: scanned.1, scanned.2)

/-- `input` starts with the opening quote.  Also gives what follows the literal. -/
def parseString (input : List UInt8) : Except String (StringLiteral × List UInt8) :=
  match scanLiteral 0 input.tail with
  | .error text => .error text
  | .ok (codepoints, rest) =>
    .ok (⟨fromUtf8Lossy (input.take (input.length - rest.length)), fromUtf8Lossy (codepoints.flatMap charToUtf8)⟩, rest)

/-! ## Reading characters -/

theorem charToUtf8_char (char : Char) : charToUtf8 char.toNat = String.utf8EncodeChar char := by
  have range := scalar_range char
  have value : char.val.toNat = char.toNat := rfl
  have unsigned : ((char.toNat : Int) % 4294967296).toNat = char.toNat := by omega
  simp only [charToUtf8, String.utf8EncodeChar, unsigned, value, Nat.add_comm]

theorem parseNextUtf8_encoded {scalar : Nat} {bytes : List UInt8} (encoding : Encoded scalar bytes)
    (rest : List UInt8) : parseNextUtf8 (bytes ++ rest) = ((scalar : Int), bytes.length) := by
  cases encoding with
  | one small first => simp [parseNextUtf8, handleUtf8FirstByte, continueUtf8, first, small]
  | @two a b _ _ first second =>
    have continuation : IsContinuation b := by unfold IsContinuation; omega
    have lead : ¬ a.toNat < 0x80 ∧ ¬ a.toNat < 0xC0 ∧ a.toNat < 0xE0 := by omega
    have value : a.toNat % 32 * 64 + b.toNat % 64 = scalar := by omega
    simp [parseNextUtf8, handleUtf8FirstByte, continueUtf8, lead, continuation, value]
  | @three a b c _ _ first second third =>
    have continuations : IsContinuation b ∧ IsContinuation c := by unfold IsContinuation; omega
    have lead : ¬ a.toNat < 0x80 ∧ ¬ a.toNat < 0xC0 ∧ ¬ a.toNat < 0xE0 ∧ a.toNat < 0xF0 := by omega
    have value : (a.toNat % 16 * 64 + b.toNat % 64) * 64 + c.toNat % 64 = scalar := by omega
    simp [parseNextUtf8, handleUtf8FirstByte, continueUtf8, lead, continuations, value]
  | @four a b c d _ _ first second third fourth =>
    have continuations : IsContinuation b ∧ IsContinuation c ∧ IsContinuation d := by unfold IsContinuation; omega
    have lead : ¬ a.toNat < 0x80 ∧ ¬ a.toNat < 0xC0 ∧ ¬ a.toNat < 0xE0 ∧ ¬ a.toNat < 0xF0 ∧ a.toNat < 0xF8 := by
      omega
    have value : ((a.toNat % 8 * 64 + b.toNat % 64) * 64 + c.toNat % 64) * 64 + d.toNat % 64 = scalar := by omega
    simp [parseNextUtf8, handleUtf8FirstByte, continueUtf8, lead, continuations, value]

def quote : Char := Char.ofNat 0x22

def backslash : Char := Char.ofNat 0x5C

def EndsLiteral (char : Char) : Prop := char.toNat = 0 ∨ char.toNat = 0x0A ∨ char.toNat = 0x0D

instance (char : Char) : Decidable (EndsLiteral char) := inferInstanceAs (Decidable (_ ∨ _))

def afterCodepoint (codepoint : TCodepoint) (scanned : Except String (List TCodepoint × List UInt8)) :
    Except String (List TCodepoint × List UInt8) :=
  scanned.map fun scanned => (codepoint :: scanned.1, scanned.2)

theorem scanLiteral_append (skipped rest : List UInt8) :
    scanLiteral skipped.length (skipped ++ rest) = scanLiteral 0 rest := by
  induction skipped with
  | nil => rfl
  | cons byte skipped ih => exact ih

theorem scanLiteral_quote (rest : List UInt8) : scanLiteral 0 (String.utf8EncodeChar quote ++ rest) = .ok ([], rest) :=
  rfl

theorem scanLiteral_ends {char : Char} (ends : EndsLiteral char) (rest : List UInt8) :
    scanLiteral 0 (String.utf8EncodeChar char ++ rest) = .error "Expect \" in string literal" := by
  have encoding := encoded char
  unfold EndsLiteral at ends
  cases bytes : String.utf8EncodeChar char with
  | nil =>
    rw [bytes] at encoding
    cases encoding
  | cons a tail =>
    rw [bytes] at encoding
    have first : a.toNat = char.toNat := by cases encoding <;> omega
    have notQuote : a.toNat ≠ 0x22 := by omega
    rw [List.cons_append, scanLiteral, if_neg notQuote, if_pos (first ▸ ends)]

/-- A character that is neither escaped nor the end of the literal stands for itself. -/
theorem scanLiteral_raw {char : Char} (notQuote : char ≠ quote) (notEscape : char ≠ backslash)
    (inside : ¬ EndsLiteral char) (rest : List UInt8) :
    scanLiteral 0 (String.utf8EncodeChar char ++ rest) = afterCodepoint char.toNat (scanLiteral 0 rest) := by
  have encoding := encoded char
  have distinct : char.toNat ≠ 0x22 ∧ char.toNat ≠ 0x5C :=
    ⟨fun same => notQuote (Char.toNat_inj.mp same), fun same => notEscape (Char.toNat_inj.mp same)⟩
  have read := parseNextUtf8_encoded encoding rest
  unfold EndsLiteral at inside
  cases bytes : String.utf8EncodeChar char with
  | nil =>
    rw [bytes] at encoding
    cases encoding
  | cons a tail =>
    rw [bytes] at encoding read
    have first : a.toNat ≠ 0x22 ∧ a.toNat ≠ 0x5C ∧ ¬ (a.toNat = 0 ∨ a.toNat = 0x0A ∨ a.toNat = 0x0D) := by
      cases encoding <;> omega
    have dispatched : parseNextUtf8OrEscaped (fun _ => none) (a :: tail ++ rest) =
        ((char.toNat : Int), (a :: tail).length) := by
      rw [parseNextUtf8OrEscaped, if_neg (by simpa using first.2.1), read]
    have known : ((char.toNat : Int) ≠ invalidUtf8) ∧ ((char.toNat : Int) ≠ invalidEscape) := by
      simp only [invalidUtf8, invalidEscape]
      omega
    rw [List.cons_append] at dispatched
    rw [List.cons_append, scanLiteral, if_neg first.1, if_neg first.2.2]
    simp only [dispatched, if_neg known.1, if_neg known.2, List.length_cons, Nat.add_sub_cancel, scanLiteral_append]
    rfl

/-! ## Printing and reading back -/

/-- `str::replace` of one character. -/
def replaceChar (char : Char) (replaced : List Char) (text : List Char) : List Char :=
  text.flatMap fun other => if other = char then replaced else [other]

def jsonStrToPrintable (jsonStr : List Char) : List Char :=
  replaceChar quote [backslash, quote] (replaceChar backslash [backslash, backslash] jsonStr)

theorem jsonStrToPrintable_cons (char : Char) (text : List Char) :
    jsonStrToPrintable (char :: text) =
      (if char = backslash ∨ char = quote then [backslash, char] else [char]) ++ jsonStrToPrintable text := by
  have different : backslash ≠ quote := by decide
  simp only [jsonStrToPrintable, replaceChar, List.flatMap_cons, List.flatMap_append]
  congr 1
  grind

theorem scanLiteral_escaped {char : Char} (special : char = backslash ∨ char = quote) (rest : List UInt8) :
    scanLiteral 0 (utf8 [backslash, char] ++ rest) = afterCodepoint char.toNat (scanLiteral 0 rest) := by
  obtain rfl | rfl := special <;> rfl

theorem scanLiteral_printable {text : List Char} (oneLine : ∀ char ∈ text, ¬ EndsLiteral char) (rest : List UInt8) :
    scanLiteral 0 (utf8 (jsonStrToPrintable text) ++ (String.utf8EncodeChar quote ++ rest)) =
      .ok (text.map fun char => (char.toNat : Int), rest) := by
  induction text with
  | nil => exact scanLiteral_quote rest
  | cons char text ih =>
    have tail := ih fun other member => oneLine other (List.mem_cons_of_mem char member)
    have head := oneLine char List.mem_cons_self
    rw [jsonStrToPrintable_cons, utf8_append, List.append_assoc]
    split
    next special =>
      rw [scanLiteral_escaped special, tail]
      rfl
    next plain =>
      rw [utf8_cons, utf8_nil, List.append_nil, scanLiteral_raw (by tauto) (by tauto) head, tail]
      rfl

theorem parseString_printable {text : List Char} (oneLine : ∀ char ∈ text, ¬ EndsLiteral char) :
    parseString (utf8 (quote :: jsonStrToPrintable text ++ [quote])) =
      .ok (⟨quote :: jsonStrToPrintable text ++ [quote], text⟩, []) := by
  have scanned := scanLiteral_printable oneLine []
  have value : (text.map fun char => (char.toNat : Int)).flatMap charToUtf8 = utf8 text := by
    rw [List.flatMap_map]
    exact congrArg text.flatMap (funext charToUtf8_char)
  have opening : (utf8 (quote :: jsonStrToPrintable text ++ [quote])).tail =
      utf8 (jsonStrToPrintable text) ++ (String.utf8EncodeChar quote ++ []) := by
    rw [List.cons_append, utf8_cons, utf8_append]
    rfl
  rw [parseString, opening, scanned]
  simp only [value, List.length_nil, Nat.sub_zero, List.take_length, fromUtf8Lossy_utf8]

/-! ## What a literal can stand for -/

def isSpecial (scalar : Nat) : Bool := scalar == 0x22 || scalar == 0x5C

theorem isSpecial_ascii (scalar : Nat) (special : isSpecial scalar = true) : scalar < 0x80 := by
  simp only [isSpecial, Bool.or_eq_true, beq_iff_eq] at special
  omega

theorem countP_charToUtf8_le (codepoint : TCodepoint) :
    (charToUtf8 codepoint).countP (fun byte => isSpecial byte.toNat) ≤ 1 := by
  have continuation : ∀ n, isSpecial ((128 + n % 64) % 256) = false := by
    intro n
    simp only [isSpecial, Bool.or_eq_false_iff, beq_eq_false_iff_ne]
    omega
  unfold charToUtf8
  extract_lets cp
  split
  · simp only [List.countP_singleton]
    split <;> omega
  · split
    · simp [List.countP_cons, continuation]
      split <;> omega
    · split <;> (simp [List.countP_cons, continuation]; split <;> omega)

theorem countP_raw {char : Char} (notQuote : char ≠ quote) (notEscape : char ≠ backslash) :
    (charToUtf8 char.toNat).countP (fun byte => isSpecial byte.toNat) = 0 := by
  have distinct : char.toNat ≠ 0x22 ∧ char.toNat ≠ 0x5C :=
    ⟨fun same => notQuote (Char.toNat_inj.mp same), fun same => notEscape (Char.toNat_inj.mp same)⟩
  have encoding := encoded char
  rw [charToUtf8_char, List.countP_eq_zero]
  intro byte member
  simp only [isSpecial, Bool.or_eq_true, beq_iff_eq]
  generalize String.utf8EncodeChar char = bytes at encoding member
  cases encoding <;> simp only [List.mem_cons, List.not_mem_nil, or_false] at member <;> grind

theorem scanLiteral_inside {byte : UInt8} (inside : IsContinuation byte) (rest : List UInt8) :
    scanLiteral 0 (byte :: rest) = .error "Invalid UTF8 sequence" := by
  unfold IsContinuation at inside
  have notAscii : byte.toNat ≠ 0x22 ∧ ¬ (byte.toNat = 0 ∨ byte.toNat = 0x0A ∨ byte.toNat = 0x0D) ∧
      byte.toNat ≠ 0x5C ∧ ¬ byte.toNat < 0x80 := by omega
  simp [scanLiteral, parseNextUtf8OrEscaped, parseNextUtf8, handleUtf8FirstByte, notAscii, inside.2, invalidUtf8]

theorem scanLiteral_skip {skip : Nat} {bytes rest : List UInt8} (short : skip ≤ bytes.length) :
    scanLiteral skip (bytes ++ rest) = scanLiteral 0 (bytes.drop skip ++ rest) := by
  have split : bytes ++ rest = bytes.take skip ++ (bytes.drop skip ++ rest) := by
    rw [← List.append_assoc, List.take_append_drop]
  have taken : skip = (bytes.take skip).length := by rw [List.length_take, min_eq_left short]
  rw [split]
  nth_rewrite 1 [taken]
  rw [scanLiteral_append]

theorem scanLiteral_skip_all (bytes : List UInt8) (skip : Nat) (rest : List UInt8) :
    scanLiteral (bytes.length + skip) (bytes ++ rest) = scanLiteral skip rest := by
  induction bytes with
  | nil => simp
  | cons byte bytes ih =>
    rw [List.length_cons, Nat.add_right_comm]
    exact ih

theorem afterCodepoint_ok {codepoint : TCodepoint} {scanned : Except String (List TCodepoint × List UInt8)}
    {codepoints : List TCodepoint} {rest : List UInt8} (accepted : afterCodepoint codepoint scanned = .ok (codepoints, rest)) :
    ∃ later, scanned = .ok (later, rest) ∧ codepoints = codepoint :: later := by
  cases scanned with
  | error text => cases accepted
  | ok pair =>
    cases accepted
    exact ⟨pair.1, rfl, rfl⟩

theorem scanLiteral_backslash {bytes : List UInt8} {codepoints : List TCodepoint} {rest : List UInt8}
    (scanned : scanLiteral 0 (String.utf8EncodeChar backslash ++ bytes) = .ok (codepoints, rest)) :
    ∃ codepoint skip later, scanLiteral skip bytes = .ok (later, rest) ∧ codepoints = codepoint :: later := by
  have first : String.utf8EncodeChar backslash = [0x5C] := by decide
  rw [first, List.singleton_append, scanLiteral, if_neg (by decide), if_neg (by decide)] at scanned
  generalize parseNextUtf8OrEscaped (fun _ => none) (0x5C :: bytes) = parsed at scanned
  obtain ⟨codepoint, len⟩ := parsed
  simp only at scanned
  split at scanned
  · cases scanned
  · split at scanned
    · cases scanned
    · obtain ⟨later, scannedLater, split⟩ := afterCodepoint_ok scanned
      exact ⟨codepoint, len - 1, later, scannedLater, split⟩

/-- Bytes that are skipped end where a character ends, or what follows is no literal. -/
theorem scanLiteral_skip_char {char : Char} {skip : Nat} {bytes rest : List UInt8} {codepoints : List TCodepoint}
    (scanned : scanLiteral (skip + 1) (String.utf8EncodeChar char ++ bytes) = .ok (codepoints, rest)) :
    ∃ skip, scanLiteral skip bytes = .ok (codepoints, rest) := by
  have encoding := encoded char
  generalize String.utf8EncodeChar char = first at encoding scanned
  rcases Nat.lt_or_ge (skip + 1) first.length with inside | past
  · have continuation : IsContinuation first[skip + 1] := by
      cases first with
      | nil => cases encoding
      | cons a tail => exact encoding.continues _ (List.getElem_mem (Nat.lt_of_succ_lt_succ inside))
    rw [scanLiteral_skip inside.le, List.drop_eq_getElem_cons inside, List.cons_append,
      scanLiteral_inside continuation] at scanned
    cases scanned
  · obtain ⟨more, total⟩ := Nat.exists_eq_add_of_le past
    rw [total, scanLiteral_skip_all] at scanned
    exact ⟨more, scanned⟩

theorem countP_scanLiteral_le (text : List Char) {skip : Nat} {codepoints : List TCodepoint} {rest : List UInt8}
    (scanned : scanLiteral skip (utf8 text) = .ok (codepoints, rest)) :
    (codepoints.flatMap charToUtf8).countP (fun byte => isSpecial byte.toNat) ≤ text.count backslash := by
  induction text generalizing skip codepoints rest with
  | nil => cases skip <;> cases scanned
  | cons char text ih =>
    rw [utf8_cons] at scanned
    rw [List.count_cons]
    cases skip with
    | succ skip =>
      obtain ⟨skip, tail⟩ := scanLiteral_skip_char scanned
      exact (ih tail).trans (Nat.le_add_right _ _)
    | zero =>
      by_cases closes : char = quote
      · subst closes
        cases (scanLiteral_quote _).symm.trans scanned
        exact Nat.zero_le _
      by_cases escapes : char = backslash
      · subst escapes
        obtain ⟨codepoint, skip, later, tail, rfl⟩ := scanLiteral_backslash scanned
        have counted := ih tail
        have atMostOne := countP_charToUtf8_le codepoint
        rw [List.flatMap_cons, List.countP_append, beq_self_eq_true, if_pos rfl]
        omega
      by_cases ends : EndsLiteral char
      · cases (scanLiteral_ends ends _).symm.trans scanned
      · rw [scanLiteral_raw closes escapes ends] at scanned
        obtain ⟨later, tail, rfl⟩ := afterCodepoint_ok scanned
        rw [List.flatMap_cons, List.countP_append, countP_raw closes escapes, Nat.zero_add]
        exact (ih tail).trans (Nat.le_add_right _ _)

end Metrale.Grammar
