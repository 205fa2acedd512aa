import Mathlib.Data.List.Flatten
import Mathlib.Data.UInt
import Mathlib.Data.Char

/-! # UTF-8

The bytes of a text, and the lossy decoder, which puts U+FFFD for every part that is not UTF-8.  It gives back a text
from its bytes (`fromUtf8Lossy_utf8`), an ASCII character comes out of its own byte only (`countP_fromUtf8Lossy_le`), and
what follows a text that does not end in U+FFFD is decoded by itself (`Whole.decode_append`). -/

namespace Metrale.Foundation

def utf8 (text : List Char) : List UInt8 := text.flatMap String.utf8EncodeChar

@[simp] theorem utf8_nil : utf8 [] = [] := rfl

@[simp] theorem utf8_cons (char : Char) (text : List Char) :
    utf8 (char :: text) = String.utf8EncodeChar char ++ utf8 text := rfl

@[simp] theorem utf8_append (first second : List Char) : utf8 (first ++ second) = utf8 first ++ utf8 second :=
  List.flatMap_append

/-! ## The bytes of one character -/

inductive Encoded (scalar : Nat) : List UInt8 → Prop where
  | one {a : UInt8} : scalar < 0x80 → a.toNat = scalar → Encoded scalar [a]
  | two {a b : UInt8} : 0x80 ≤ scalar → scalar < 0x800 → a.toNat = 0xC0 + scalar / 64 →
      b.toNat = 0x80 + scalar % 64 → Encoded scalar [a, b]
  | three {a b c : UInt8} : 0x800 ≤ scalar → scalar < 0x10000 → a.toNat = 0xE0 + scalar / 4096 →
      b.toNat = 0x80 + scalar / 64 % 64 → c.toNat = 0x80 + scalar % 64 → Encoded scalar [a, b, c]
  | four {a b c d : UInt8} : 0x10000 ≤ scalar → scalar < 0x110000 → a.toNat = 0xF0 + scalar / 262144 →
      b.toNat = 0x80 + scalar / 4096 % 64 → c.toNat = 0x80 + scalar / 64 % 64 → d.toNat = 0x80 + scalar % 64 →
      Encoded scalar [a, b, c, d]

/-- A character is no surrogate. -/
theorem scalar_range (char : Char) : char.toNat < 0xD800 ∨ 0xDFFF < char.toNat ∧ char.toNat < 0x110000 := char.valid

theorem encoded (char : Char) : Encoded char.toNat (String.utf8EncodeChar char) := by
  have range := scalar_range char
  have value : char.val.toNat = char.toNat := rfl
  simp only [String.utf8EncodeChar, value]
  split
  · exact .one (by omega) (by simp; omega)
  · split
    · exact .two (by omega) (by omega) (by simp; omega) (by simp; omega)
    · split
      · exact .three (by omega) (by omega) (by simp; omega) (by simp; omega) (by simp; omega)
      · exact .four (by omega) (by omega) (by simp; omega) (by simp; omega) (by simp; omega) (by simp; omega)

/-! ## Lossy decoding -/

def IsContinuation (byte : UInt8) : Prop := 0x80 ≤ byte.toNat ∧ byte.toNat < 0xC0

instance (byte : UInt8) : Decidable (IsContinuation byte) := inferInstanceAs (Decidable (_ ∧ _))

/-- Every byte but the first. -/
theorem Encoded.continues {scalar : Nat} {a : UInt8} {bytes : List UInt8} (encoding : Encoded scalar (a :: bytes)) :
    ∀ byte ∈ bytes, IsContinuation byte := by
  unfold IsContinuation
  cases encoding <;> simp <;> omega

/-- U+FFFD -/
def replacement : Char := Char.ofNat 0xFFFD

/-- No overlong form and no surrogate. -/
def SecondOfThree (first second : UInt8) : Prop :=
  IsContinuation second ∧ (first.toNat = 0xE0 → 0xA0 ≤ second.toNat) ∧ (first.toNat = 0xED → second.toNat < 0xA0)

/-- No overlong form and nothing above U+10FFFF. -/
def SecondOfFour (first second : UInt8) : Prop :=
  IsContinuation second ∧ (first.toNat = 0xF0 → 0x90 ≤ second.toNat) ∧ (first.toNat = 0xF4 → second.toNat < 0x90)

instance (first second : UInt8) : Decidable (SecondOfThree first second) := inferInstanceAs (Decidable (_ ∧ _))

instance (first second : UInt8) : Decidable (SecondOfFour first second) := inferInstanceAs (Decidable (_ ∧ _))

/-- The first character, and how many bytes it takes.  A part that is not UTF-8 ends before the first byte that
cannot continue it. -/
def lossyChar (a : UInt8) (rest : List UInt8) : Char × Nat :=
  let b := rest.getD 0 0
  let c := rest.getD 1 0
  let d := rest.getD 2 0
  if a.toNat < 0x80 then (Char.ofNat a.toNat, 1)
  else if 0xC2 ≤ a.toNat ∧ a.toNat < 0xE0 then
    if IsContinuation b then (Char.ofNat (a.toNat % 32 * 64 + b.toNat % 64), 2) else (replacement, 1)
  else if 0xE0 ≤ a.toNat ∧ a.toNat < 0xF0 then
    if ¬ SecondOfThree a b then (replacement, 1)
    else if IsContinuation c then
      (Char.ofNat (a.toNat % 16 * 4096 + b.toNat % 64 * 64 + c.toNat % 64), 3)
    else (replacement, 2)
  else if 0xF0 ≤ a.toNat ∧ a.toNat < 0xF5 then
    if ¬ SecondOfFour a b then (replacement, 1)
    else if ¬ IsContinuation c then (replacement, 2)
    else if IsContinuation d then
      (Char.ofNat (a.toNat % 8 * 262144 + b.toNat % 64 * 4096 + c.toNat % 64 * 64 + d.toNat % 64), 4)
    else (replacement, 3)
  else (replacement, 1)

/-- The first `skip` bytes belong to a character that is decoded already. -/
def fromUtf8LossyFrom : Nat → List UInt8 → List Char
  | _, [] => []
  | skip + 1, _ :: rest => fromUtf8LossyFrom skip rest
  | 0, a :: rest =>
    let (char, width) := lossyChar a rest
    char :: fromUtf8LossyFrom (width - 1) rest

def fromUtf8Lossy (bytes : List UInt8) : List Char := fromUtf8LossyFrom 0 bytes

theorem fromUtf8LossyFrom_append (skipped rest : List UInt8) :
    fromUtf8LossyFrom skipped.length (skipped ++ rest) = fromUtf8LossyFrom 0 rest := by
  induction skipped with
  | nil => rfl
  | cons byte skipped ih => exact ih

theorem lossyChar_encoded {scalar : Nat} {a : UInt8} {bytes : List UInt8} (encoding : Encoded scalar (a :: bytes))
    (range : scalar < 0xD800 ∨ 0xDFFF < scalar) (rest : List UInt8) :
    lossyChar a (bytes ++ rest) = (Char.ofNat scalar, bytes.length + 1) := by
  cases encoding with
  | one small first => simp [lossyChar, first, small]
  | @two a b _ _ first second =>
    have continuation : IsContinuation b := by unfold IsContinuation; omega
    have value : a.toNat % 32 * 64 + b.toNat % 64 = scalar := by omega
    have lead : ¬ a.toNat < 0x80 ∧ 0xC2 ≤ a.toNat ∧ a.toNat < 0xE0 := by omega
    simp [lossyChar, lead, continuation, value]
  | @three a b c _ _ first second third =>
    have continuations : SecondOfThree a b ∧ IsContinuation c := by
      unfold SecondOfThree IsContinuation
      omega
    have value : a.toNat % 16 * 4096 + b.toNat % 64 * 64 + c.toNat % 64 = scalar := by omega
    have lead : ¬ a.toNat < 0x80 ∧ ¬ a.toNat < 0xE0 ∧ 0xE0 ≤ a.toNat ∧ a.toNat < 0xF0 := by omega
    simp [lossyChar, lead, continuations, value]
  | @four a b c d _ _ first second third fourth =>
    have continuations : SecondOfFour a b ∧ IsContinuation c ∧ IsContinuation d := by
      unfold SecondOfFour IsContinuation
      omega
    have value : a.toNat % 8 * 262144 + b.toNat % 64 * 4096 + c.toNat % 64 * 64 + d.toNat % 64 = scalar := by omega
    have lead : ¬ a.toNat < 0x80 ∧ ¬ a.toNat < 0xE0 ∧ ¬ a.toNat < 0xF0 ∧ 0xF0 ≤ a.toNat ∧ a.toNat < 0xF5 := by omega
    simp [lossyChar, lead, continuations, value]

/-- Decoding gives a text back. -/
theorem fromUtf8Lossy_utf8 (text : List Char) : fromUtf8Lossy (utf8 text) = text := by
  induction text with
  | nil => rfl
  | cons char text ih =>
    have encoding := encoded char
    have range := scalar_range char
    rw [utf8_cons]
    cases bytes : String.utf8EncodeChar char with
    | nil =>
      rw [bytes] at encoding
      cases encoding
    | cons a tail =>
      rw [bytes] at encoding
      have first := lossyChar_encoded encoding (by omega) (utf8 text)
      rw [List.cons_append, fromUtf8Lossy, fromUtf8LossyFrom, first, Char.ofNat_toNat]
      simp only [Nat.add_sub_cancel, fromUtf8LossyFrom_append]
      exact congrArg (char :: ·) ih

theorem toNat_ofNat {scalar : Nat} (range : scalar < 0xD800 ∨ 0xDFFF < scalar ∧ scalar < 0x110000) :
    (Char.ofNat scalar).toNat = scalar := by
  rw [Char.ofNat, dif_pos range]
  rfl

/-- A character that starts with a byte above ASCII is not ASCII. -/
theorem lossyChar_toNat (a : UInt8) (rest : List UInt8) :
    (lossyChar a rest).1.toNat = a.toNat ∨ 0x80 ≤ (lossyChar a rest).1.toNat := by
  have replaced : 0x80 ≤ replacement.toNat := by decide
  unfold lossyChar
  extract_lets b c d
  split
  next ascii => exact .inl (toNat_ofNat (by omega))
  next notAscii =>
    right
    split
    · split
      · rw [toNat_ofNat] <;> omega
      · exact replaced
    · split
      · split
        · exact replaced
        · next second =>
          simp only [SecondOfThree, IsContinuation, not_not] at second
          split
          · rw [toNat_ofNat] <;> omega
          · exact replaced
      · split
        · split
          · exact replaced
          · next second =>
            simp only [SecondOfFour, IsContinuation, not_not] at second
            split
            · exact replaced
            · split
              · rw [toNat_ofNat] <;> omega
              · exact replaced
        · exact replaced

/-- Decoding makes no new ASCII characters. -/
theorem countP_fromUtf8LossyFrom_le {p : Nat → Bool} (ascii : ∀ scalar, p scalar = true → scalar < 0x80) (skip : Nat)
    (bytes : List UInt8) :
    (fromUtf8LossyFrom skip bytes).countP (fun char => p char.toNat) ≤ bytes.countP fun byte => p byte.toNat := by
  induction bytes generalizing skip with
  | nil => cases skip <;> simp [fromUtf8LossyFrom]
  | cons a rest ih =>
    cases skip with
    | succ skip =>
      have tail := ih skip
      rw [fromUtf8LossyFrom, List.countP_cons]
      omega
    | zero =>
      have tail := ih ((lossyChar a rest).2 - 1)
      have head : p (lossyChar a rest).1.toNat = true → p a.toNat = true := by
        intro counted
        obtain same | above := lossyChar_toNat a rest
        · exact same ▸ counted
        · exact absurd (ascii _ counted) (by omega)
      rw [fromUtf8LossyFrom, List.countP_cons, List.countP_cons]
      split <;> grind

theorem countP_fromUtf8Lossy_le {p : Nat → Bool} (ascii : ∀ scalar, p scalar = true → scalar < 0x80)
    (bytes : List UInt8) :
    (fromUtf8Lossy bytes).countP (fun char => p char.toNat) ≤ bytes.countP fun byte => p byte.toNat :=
  countP_fromUtf8LossyFrom_le ascii 0 bytes

/-! ## Decoding in parts -/

/-- A character is decoded from its own bytes, and one that is not the last, or is not U+FFFD, from no others. -/
theorem lossyChar_append {a : UInt8} {rest : List UInt8} (more : List UInt8)
    (decided : (lossyChar a rest).2 ≤ rest.length ∨ (lossyChar a rest).1 ≠ replacement) :
    lossyChar a (rest ++ more) = lossyChar a rest := by
  have noTail : ¬ IsContinuation 0 := by decide
  have noThree : ¬ SecondOfThree a 0 := fun second => noTail second.1
  have noFour : ¬ SecondOfFour a 0 := fun second => noTail second.1
  -- the decision looks at three more bytes at most, and a missing one continues nothing
  match rest with
  | [] =>
    simp only [lossyChar, List.getD_nil, noTail, noThree, noFour, not_false_iff, if_true, if_false, ite_self] at decided ⊢
    split
    · rfl
    · next high =>
      rw [if_neg high] at decided
      simp at decided
  | [b] =>
    simp only [lossyChar, List.singleton_append, List.getD_cons_zero, List.getD_cons_succ, List.getD_nil, noTail,
      not_false_iff, if_true, if_false] at decided ⊢
    split_ifs at decided ⊢ <;> first | rfl | simp at decided
  | [b, c] =>
    simp only [lossyChar, List.cons_append, List.nil_append, List.getD_cons_zero, List.getD_cons_succ, List.getD_nil, noTail,
      not_false_iff, if_true, if_false] at decided ⊢
    split_ifs at decided ⊢ <;> first | rfl | simp at decided
  | b :: c :: d :: rest => rfl

/-- A character takes no byte that is not there. -/
theorem lossyChar_width (a : UInt8) (rest : List UInt8) :
    0 < (lossyChar a rest).2 ∧ (lossyChar a rest).2 ≤ rest.length + 1 := by
  have noTail : ¬ IsContinuation 0 := by decide
  have noThree : ¬ SecondOfThree a 0 := fun second => noTail second.1
  have noFour : ¬ SecondOfFour a 0 := fun second => noTail second.1
  match rest with
  | [] =>
    simp only [lossyChar, List.getD_nil, noTail, noThree, noFour, not_false_iff, if_true, if_false, ite_self]
    split_ifs <;> simp
  | [b] =>
    simp only [lossyChar, List.getD_cons_zero, List.getD_cons_succ, List.getD_nil, noTail, not_false_iff, if_true, if_false]
    split_ifs <;> simp
  | [b, c] =>
    simp only [lossyChar, List.getD_cons_zero, List.getD_cons_succ, List.getD_nil, noTail, if_false]
    split_ifs <;> simp
  | b :: c :: d :: rest =>
    simp only [lossyChar, List.length_cons]
    split_ifs <;> simp

theorem fromUtf8LossyFrom_cons (a : UInt8) (rest : List UInt8) : fromUtf8LossyFrom 0 (a :: rest) =
    (lossyChar a rest).1 :: fromUtf8LossyFrom ((lossyChar a rest).2 - 1) rest := rfl

theorem fromUtf8LossyFrom_all {skip : Nat} {bytes : List UInt8} (all : bytes.length ≤ skip) :
    fromUtf8LossyFrom skip bytes = [] := by
  induction bytes generalizing skip with
  | nil => cases skip <;> rfl
  | cons a rest ih =>
    cases skip with
    | zero => simp at all
    | succ skip => exact ih (Nat.le_of_succ_le_succ all)

theorem fromUtf8LossyFrom_whole {skip : Nat} {bytes : List UInt8} (more : List UInt8) (inside : skip ≤ bytes.length)
    (whole : (fromUtf8LossyFrom skip bytes).getLast? ≠ some replacement) :
    fromUtf8LossyFrom skip (bytes ++ more) = fromUtf8LossyFrom skip bytes ++ fromUtf8Lossy more := by
  induction bytes generalizing skip with
  | nil =>
    obtain rfl := Nat.le_zero.mp inside
    rfl
  | cons a rest ih =>
    cases skip with
    | succ skip => exact ih (Nat.le_of_succ_le_succ inside) whole
    | zero =>
      have width := lossyChar_width a rest
      rw [fromUtf8LossyFrom_cons] at whole
      have later : (fromUtf8LossyFrom ((lossyChar a rest).2 - 1) rest).getLast? ≠ some replacement := by
        intro last
        rw [List.getLast?_cons, last] at whole
        exact whole rfl
      have decided : (lossyChar a rest).2 ≤ rest.length ∨ (lossyChar a rest).1 ≠ replacement := by
        by_cases last : (lossyChar a rest).2 ≤ rest.length
        · exact .inl last
        · right
          rw [fromUtf8LossyFrom_all (by omega)] at whole
          exact fun same => whole (by rw [same]; rfl)
      rw [List.cons_append, fromUtf8LossyFrom_cons, lossyChar_append more decided, fromUtf8LossyFrom_cons]
      exact congrArg _ (ih (by omega) later)

/-- The text of these bytes does not end in U+FFFD, so that they end where a character ends. -/
def Whole (bytes : List UInt8) : Prop := (fromUtf8Lossy bytes).getLast? ≠ some replacement

namespace Whole

variable {bytes more : List UInt8}

theorem nil : Whole [] := by
  intro last
  cases last

theorem decode_append (whole : Whole bytes) (more : List UInt8) :
    fromUtf8Lossy (bytes ++ more) = fromUtf8Lossy bytes ++ fromUtf8Lossy more :=
  fromUtf8LossyFrom_whole more (Nat.zero_le _) whole

theorem append (whole : Whole bytes) (later : Whole more) : Whole (bytes ++ more) := by
  intro last
  rw [whole.decode_append, List.getLast?_append] at last
  cases tail : (fromUtf8Lossy more).getLast? with
  | none =>
    rw [tail] at last
    exact whole last
  | some char =>
    rw [tail] at last
    exact later (tail.trans last)

/-- What follows a whole text is whole if both together are. -/
theorem of_append (whole : Whole bytes) (both : Whole (bytes ++ more)) : Whole more := by
  intro last
  apply both
  rw [whole.decode_append, List.getLast?_append, last]
  rfl

end Whole

end Metrale.Foundation
