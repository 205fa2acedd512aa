import Metrale.Grammar.Schema.JsonReader

/-! # JSON and what the reader takes

Every JSON text is one of the reader's dialect, with the same value; the reader is right about a text just if the converse
holds of it and the reader does not panic. -/

namespace Metrale.Grammar.JsonValue

variable {text input rest content digits : List Char} {value : JsonValue} {char : Char}

/-! ## Numbers -/

theorem isDigit_of_range {low : Char} (least : '0' ≤ low) (lower : low ≤ char) (upper : char ≤ '9') : isDigit char = true := by
  simp [isDigit, least.trans lower, upper]

theorem Integer.digits_all {integer : List Char} (isInteger : Integer integer) : Digits integer := by
  cases isInteger with
  | zero => exact ⟨by simp, rfl⟩
  | digits lower upper rest =>
    refine ⟨by simp, ?_⟩
    rw [List.all_cons, rest, isDigit_of_range (by decide) lower upper]
    rfl

theorem Digits.head (isDigits : Digits digits) : ∃ first tail, digits = first :: tail ∧ isDigit first = true := by
  cases digits with
  | nil => exact absurd rfl isDigits.1
  | cons first tail => exact ⟨first, tail, rfl, (Bool.and_eq_true _ _ ▸ List.all_cons ▸ isDigits.2).1⟩

theorem Digits.run (isDigits : Digits digits) (stops : ∀ char ∈ rest.head?, isDigit char = false) :
    (digits ++ rest).takeWhile isDigit = digits ∧ (digits ++ rest).dropWhile isDigit = rest := by
  refine ⟨takeWhile_append_of_stop isDigits.2 stops, ?_⟩
  rw [List.dropWhile_append_of_pos (List.all_eq_true.mp isDigits.2)]
  cases rest with
  | nil => rfl
  | cons char rest => exact List.dropWhile_cons_of_neg (by simp [stops char rfl])

theorem afterSign_digits (isDigits : Digits digits) (rest : List Char) : afterSign (digits ++ rest) = digits ++ rest := by
  obtain ⟨first, tail, rfl, digit⟩ := isDigits.head
  unfold afterSign
  split
  · next same =>
    cases same
    simp [isDigit] at digit
  · next same =>
    cases same
    simp [isDigit] at digit
  · rfl

theorem Exponent.syntax {exponent : List Char} (isExponent : Exponent exponent) : exponentSyntax exponent = true := by
  cases isExponent with
  | none => rfl
  | @some mark sign digits isMark isSign isDigits =>
    have signed : afterSign (sign ++ digits) = digits := by
      have unsigned := afterSign_digits isDigits []
      rw [List.append_nil] at unsigned
      obtain rfl | rfl | rfl := isSign
      · exact unsigned
      · rfl
      · rfl
    have marked : (mark == 'e' || mark == 'E') = true := by
      obtain rfl | rfl := isMark <;> rfl
    rw [exponentSyntax, signed, marked, isDigits.2]
    simp [isDigits.1]

theorem Exponent.stops {exponent : List Char} (isExponent : Exponent exponent) :
    ∀ char ∈ exponent.head?, isDigit char = false ∧ char ≠ '.' := by
  intro char isHead
  cases isExponent with
  | none => cases isHead
  | some isMark =>
    cases isHead
    obtain rfl | rfl := isMark <;> decide

theorem unsigned_syntax {integer fraction exponent : List Char} (isInteger : Digits integer) (isFraction : Fraction fraction)
    (isExponent : Exponent exponent) (signed : afterSign text = integer ++ (fraction ++ exponent)) : f64Syntax text = true := by
  have stops : ∀ char ∈ (fraction ++ exponent).head?, isDigit char = false := by
    intro char isHead
    cases isFraction with
    | none => exact (isExponent.stops char isHead).1
    | some =>
      cases isHead
      rfl
  obtain ⟨taken, dropped⟩ := isInteger.run stops
  unfold f64Syntax
  rw [signed, taken, dropped]
  cases isFraction with
  | none =>
    rw [List.nil_append]
    split
    · next rest =>
      have stops := (isExponent.stops '.' rfl).2
      exact absurd rfl stops
    · simp [isInteger.1, isExponent.syntax]
  | some isDigits =>
    obtain ⟨taken, dropped⟩ := isDigits.run fun char isHead => (isExponent.stops char isHead).1
    simp [isInteger.1, List.cons_append, dropped, isExponent.syntax]

theorem Digits.inNumber (isDigits : Digits digits) : digits.all inNumber = true := by
  rw [List.all_eq_true]
  intro char member
  simp [JsonValue.inNumber, List.all_eq_true.mp isDigits.2 char member]

theorem Exponent.inNumber {exponent : List Char} (isExponent : Exponent exponent) : exponent.all inNumber = true := by
  cases isExponent with
  | none => rfl
  | some isMark isSign isDigits =>
    rw [List.all_cons, List.all_append, isDigits.inNumber]
    obtain rfl | rfl := isMark <;> obtain rfl | rfl | rfl := isSign <;> rfl

theorem Fraction.inNumber {fraction : List Char} (isFraction : Fraction fraction) : fraction.all inNumber = true := by
  cases isFraction with
  | none => rfl
  | some isDigits =>
    rw [List.all_cons, isDigits.inNumber]
    rfl

theorem reader_number (number : Number text) : reader.number text := by
  cases number with
  | @mk minus integer fraction exponent isMinus isInteger isFraction isExponent =>
    have isDigits := isInteger.digits_all
    obtain ⟨first, tail, rfl, digit⟩ := isDigits.head
    have unsigned : afterSign (first :: tail ++ (fraction ++ exponent)) = first :: tail ++ (fraction ++ exponent) :=
      afterSign_digits isDigits _
    have all : (first :: tail ++ (fraction ++ exponent)).all inNumber = true := by
      rw [List.all_append, List.all_append, isDigits.inNumber, isFraction.inNumber, isExponent.inNumber]
      rfl
    have positive : first ≠ '-' := digit_ne digit rfl
    obtain rfl | rfl := isMinus
    · rw [List.nil_append, List.append_assoc]
      refine ⟨⟨first, rfl, .inr digit⟩, ?_, unsigned_syntax isDigits isFraction isExponent unsigned⟩
      have head : (first :: tail ++ (fraction ++ exponent)).head? ≠ some '-' := fun same => positive (Option.some_inj.mp same)
      rw [afterMinus_unsigned head]
      exact all
    · rw [List.append_assoc, List.append_assoc]
      exact ⟨⟨'-', rfl, .inl rfl⟩, all, unsigned_syntax isDigits isFraction isExponent rfl⟩

/-! ## Texts -/

theorem reader_low {codepoint : Nat} (low : standard.low codepoint) : reader.low codepoint := low.1

theorem Piece.reader (piece : Piece standard input char rest) : Piece reader input char rest := by
  cases piece with
  | raw _ notQuote notEscape => exact .raw trivial notQuote notEscape
  | escape simple => exact .escape simple
  | unicode hex single isChar => exact .unicode hex single isChar
  | pair hex isHigh hexLow isLow isChar => exact .pair hex isHigh hexLow (reader_low isLow) isChar

theorem Contents.reader (contents : Contents standard input content rest) : Contents reader input content rest := by
  induction contents with
  | close => exact .close
  | more piece _ ih => exact .more piece.reader ih

theorem Derives.reader {goal : Goal} (derives : Derives standard goal input rest) : Derives reader goal input rest := by
  induction derives with
  | null => exact .null
  | true => exact .true
  | false => exact .false
  | string contents => exact .string contents.reader
  | number number => exact .number (reader_number number)
  | emptyArray blanks => exact .emptyArray blanks
  | array _ ih => exact .array ih
  | emptyObject blanks => exact .emptyObject blanks
  | object _ ih => exact .object ih
  | lastItem blanks _ close ih => exact .lastItem blanks ih close
  | item blanks _ comma _ valueHypothesis itemsHypothesis => exact .item blanks valueHypothesis comma itemsHypothesis
  | lastMember opening contents colon blanks _ close ih =>
    exact .lastMember opening contents.reader colon blanks ih close
  | member opening contents colon blanks _ comma _ valueHypothesis membersHypothesis =>
    exact .member opening contents.reader colon blanks valueHypothesis comma membersHypothesis

theorem Denotes.reader (denotes : Denotes standard text value) : Denotes reader text value := by
  obtain ⟨start, after, blanks, derives, closing⟩ := denotes
  exact ⟨start, after, blanks, derives.reader, closing⟩

/-- The reader ends, without a panic, with the value of a JSON text, and with an error for any other text. -/
def Right (text : List Char) : Prop :=
  match parse text with
  | .ok value => Denotes standard text value
  | .error (.message _) => ∀ value, ¬Denotes standard text value
  | .error .panic => False
  | .error .running => False

/-- The text is not one of the reader's dialect only, and does not lead up to a high surrogate and a code point that is too
low behind it. -/
structure Plain (text : List Char) : Prop where
  steady : ¬Stumbles .value text
  standard : ∀ value, Denotes reader text value → Denotes standard text value

end Metrale.Grammar.JsonValue
