import Metrale.Grammar.Schema.JsonStrings

/-! # What the JSON reader takes

Each function of the reader is the relation of the grammar in the reader's dialect, and panics where that stumbles; this is
by induction on the fuel, of which two for each character are enough. -/

namespace Metrale.Grammar.JsonValue

open Foundation

variable {Result : Type} {source after : Source} {input rest middle content : List Char} {char : Char} {codepoint : Nat}

/-! ## Exact readings -/

/-- The reading is the relation, where what is left may follow it, and panics just where it stumbles. -/
structure Exact (read : Except Failure (Result × Source)) (derives : Result → List Char → Prop) (stumbles : Prop)
    (follows : List Char → Prop) : Prop where
  sound : ∀ value after, read = .ok (value, after) → derives value after.rest
  complete : ∀ value rest, derives value rest → follows rest → Yields read value rest
  fails : ∀ failure, read = .error failure → failure = .panic ∧ stumbles ∨ ∃ text, failure = .message text
  panics : stumbles → read = .error .panic

theorem parseString_exact (whole : source.rest = '"' :: input) :
    Exact (parseString source) (fun content rest => Contents reader input content rest) (ContentsStumble input) fun _ => True := by
  have behind : (source.advance 1).rest = input := by rw [advance_rest, whole]; rfl
  have opened : parseString source = parseContents ((source.advance 1).rest.length + 1) (source.advance 1) := by
    rw [parseString, expect_eq_ok.mpr ⟨by rw [whole]; rfl, rfl⟩]
    rfl
  have enough := Nat.lt_succ_self (source.advance 1).rest.length
  rw [opened, ← behind]
  exact {
    sound := fun content after read => (parseContents_yields enough).mp ⟨after, read, rfl⟩
    complete := fun content rest contents _ => (parseContents_yields enough).mpr contents
    fails := fun failure failed => parseContents_fails enough failed
    panics := fun stumbles => parseContents_panics enough stumbles }

theorem parseString_fails {failure : Failure} (other : source.rest.head? ≠ some '"') (failed : parseString source = .error failure) :
    ∃ text, failure = .message text := by
  obtain failed | ⟨_, opened, _⟩ := bind_eq_error.mp failed
  · exact expect_fails failed
  · exact absurd (expect_eq_ok.mp opened).1 other

/-! ## Numbers -/

def Follows (rest : List Char) : Prop := ∀ char ∈ rest.head?, inNumber char = false

theorem takeWhile_append_of_stop {text : List Char} {inside : Char → Bool} (all : text.all inside)
    (stops : ∀ char ∈ rest.head?, inside char = false) : (text ++ rest).takeWhile inside = text := by
  rw [List.takeWhile_append_of_pos (List.all_eq_true.mp all)]
  cases rest with
  | nil => simp
  | cons char rest => simp [stops char rfl]

theorem numberText_minus (tail : List Char) : numberText ('-' :: tail) = '-' :: tail.takeWhile inNumber := rfl

theorem numberText_unsigned (unsigned : input.head? ≠ some '-') : numberText input = input.takeWhile inNumber := by
  unfold numberText
  split
  · exact absurd rfl unsigned
  · rfl

theorem afterMinus_unsigned (unsigned : input.head? ≠ some '-') : afterMinus input = input := by
  unfold afterMinus
  split
  · exact absurd rfl unsigned
  · rfl

theorem numberText_append {text : List Char} (number : reader.number text) (follows : Follows rest) :
    numberText (text ++ rest) = text := by
  obtain ⟨⟨first, isFirst, start⟩, all, -⟩ := number
  cases text with
  | nil => cases isFirst
  | cons char tail =>
    by_cases minus : char = '-'
    · subst minus
      exact congrArg _ (takeWhile_append_of_stop all follows)
    · have unsigned : (char :: tail).head? ≠ some '-' := fun same => minus (Option.some_inj.mp same)
      rw [afterMinus_unsigned unsigned] at all
      rw [numberText_unsigned (by exact unsigned)]
      exact takeWhile_append_of_stop all follows

/-- The text of a number is the front of the input, all of it behind the sign characters of numbers. -/
theorem numberText_spec (input : List Char) :
    (∃ rest, input = numberText input ++ rest) ∧ (afterMinus (numberText input)).all inNumber := by
  by_cases signed : input.head? = some '-'
  · cases input with
    | nil => cases signed
    | cons char tail =>
      cases signed
      rw [numberText_minus]
      exact ⟨⟨tail.dropWhile inNumber, by rw [List.cons_append, List.takeWhile_append_dropWhile]⟩, List.all_takeWhile⟩
  · rw [numberText_unsigned signed]
    refine ⟨⟨input.dropWhile inNumber, List.takeWhile_append_dropWhile.symm⟩, ?_⟩
    have unsigned : (input.takeWhile inNumber).head? ≠ some '-' := by
      cases input with
      | nil => exact signed
      | cons char tail =>
        rw [List.takeWhile_cons]
        split
        · exact signed
        · simp
    rw [afterMinus_unsigned unsigned]
    exact List.all_takeWhile

theorem numberText_head {first : Char} (start : first = '-' ∨ isDigit first = true) (tail : List Char) :
    (numberText (first :: tail)).head? = some first := by
  by_cases minus : first = '-'
  · subst minus
    rfl
  · have digit : inNumber first = true := by simp [inNumber, start.resolve_left minus]
    have unsigned : (first :: tail).head? ≠ some '-' := fun same => minus (Option.some_inj.mp same)
    rw [numberText_unsigned unsigned, List.takeWhile_cons_of_pos digit]
    rfl

theorem parseNumber_exact (start : ∃ first ∈ source.rest.head?, first = '-' ∨ isDigit first) :
    Exact (parseNumber source) (fun value rest => ∃ text, reader.number text ∧ value = .number text (asI64 text) ∧ source.rest = text ++ rest)
      False Follows where
  sound := fun value after read => by
    unfold parseNumber at read
    dsimp only at read
    split at read
    · next syn =>
      cases read
      obtain ⟨⟨rest, whole⟩, all⟩ := numberText_spec source.rest
      obtain ⟨first, isFirst, sign⟩ := start
      obtain ⟨tail, split⟩ := List.head?_eq_some_iff.mp isFirst
      have head : (numberText source.rest).head? = some first := by rw [split, numberText_head sign]
      refine ⟨_, ⟨⟨first, head, sign⟩, all, syn⟩, rfl, ?_⟩
      rw [advance_rest]
      generalize numberText source.rest = literal at whole
      rw [whole, List.drop_left]
    · cases read
  complete := fun value rest derives follows => by
    obtain ⟨text, number, rfl, whole⟩ := derives
    have literal : numberText source.rest = text := by rw [whole, numberText_append number follows]
    unfold parseNumber
    dsimp only
    rw [literal, if_pos number.2.2, yields_ok]
    refine ⟨rfl, ?_⟩
    rw [advance_rest, whole, List.drop_left]
  fails := fun failure failed => by
    unfold parseNumber at failed
    dsimp only at failed
    split at failed
    · cases failed
    · cases failed
      exact .inr ⟨_, rfl⟩
  panics := False.elim

/-! ## Literals -/

theorem matchesLiteral_eq_some {literal : List Char} : matchesLiteral literal source = some after ↔
    (∃ rest, source.rest = literal ++ rest) ∧ after = source.advance literal.length := by
  unfold matchesLiteral
  split
  · next found =>
    have split : source.rest = literal ++ source.rest.drop literal.length := by
      conv_lhs => rw [← List.take_append_drop literal.length source.rest, found]
    constructor
    · intro same
      cases same
      exact ⟨⟨_, split⟩, rfl⟩
    · rintro ⟨-, rfl⟩
      rfl
  · next other =>
    refine iff_of_false (fun same => by cases same) fun found => other ?_
    obtain ⟨⟨rest, whole⟩, -⟩ := found
    rw [whole, List.take_left]

theorem number_head {text : List Char} (number : reader.number text) :
    ∃ first tail, text = first :: tail ∧ (first = '-' ∨ isDigit first = true) := by
  obtain ⟨⟨first, isFirst, sign⟩, -⟩ := number
  obtain ⟨tail, whole⟩ := List.head?_eq_some_iff.mp isFirst
  exact ⟨first, tail, whole, sign⟩

theorem digit_ne {other : Char} (digit : isDigit char = true) (noDigit : isDigit other = false) : char ≠ other := by
  rintro rfl
  rw [digit] at noDigit
  cases noDigit

theorem value_head {value : JsonValue} (derives : Derives reader (.value value) input rest) : ∃ first tail, input = first :: tail ∧
    isBlank first = false ∧ first ≠ ']' ∧ first ≠ '\x7d' := by
  cases derives with
  | number number =>
    obtain ⟨first, tail, rfl, sign⟩ := number_head number
    refine ⟨first, tail ++ rest, rfl, ?_⟩
    obtain rfl | digit := sign
    · decide
    · have blank : isBlank first = false := by
        simp [isBlank, @digit_ne _ ' ' digit rfl, @digit_ne _ '\t' digit rfl, @digit_ne _ '\n' digit rfl, @digit_ne _ '\r' digit rfl]
      exact ⟨blank, digit_ne digit rfl, digit_ne digit rfl⟩
  | _ => exact ⟨_, _, rfl, by decide, by decide, by decide⟩

theorem parseBool_exact (start : source.rest.head? = some 't' ∨ source.rest.head? = some 'f') :
    Exact (parseBool source) (fun value rest => Derives reader (.value value) source.rest rest) False fun _ => True where
  sound := fun value after read => by
    unfold parseBool at read
    dsimp only at read
    split at read
    · next isTrue =>
      obtain ⟨⟨rest, whole⟩, rfl⟩ := matchesLiteral_eq_some.mp isTrue
      cases read
      rw [advance_rest, whole]
      exact .true
    · next _ isFalse =>
      obtain ⟨⟨rest, whole⟩, rfl⟩ := matchesLiteral_eq_some.mp isFalse
      cases read
      rw [advance_rest, whole]
      exact .false
    · cases read
  complete := fun value rest derives _ => by
    generalize whole : source.rest = input at derives
    cases derives with
    | true =>
      have found : matchesLiteral ['t', 'r', 'u', 'e'] source = some (source.advance 4) :=
        matchesLiteral_eq_some.mpr ⟨⟨rest, whole⟩, rfl⟩
      simp [parseBool, found, whole]
    | false =>
      have other : matchesLiteral ['t', 'r', 'u', 'e'] source = none := by simp [matchesLiteral, whole]
      have found : matchesLiteral ['f', 'a', 'l', 's', 'e'] source = some (source.advance 5) :=
        matchesLiteral_eq_some.mpr ⟨⟨rest, whole⟩, rfl⟩
      simp [parseBool, other, found, whole]
    | number number =>
      obtain ⟨first, tail, rfl, sign⟩ := number_head number
      rw [whole] at start
      obtain same | same := start
      · cases same
        simp [isDigit] at sign
      · cases same
        simp [isDigit] at sign
    | _ =>
      rw [whole] at start
      simp at start
  fails := fun failure failed => by
    unfold parseBool at failed
    dsimp only at failed
    split at failed
    · cases failed
    · cases failed
    · cases failed
      exact .inr ⟨_, rfl⟩
  panics := False.elim

theorem parseNull_exact (start : source.rest.head? = some 'n') :
    Exact (parseNull source) (fun value rest => Derives reader (.value value) source.rest rest) False fun _ => True where
  sound := fun value after read => by
    unfold parseNull at read
    dsimp only at read
    split at read
    · next isNull =>
      obtain ⟨⟨rest, whole⟩, rfl⟩ := matchesLiteral_eq_some.mp isNull
      cases read
      rw [advance_rest, whole]
      exact .null
    · cases read
  complete := fun value rest derives _ => by
    generalize whole : source.rest = input at derives
    cases derives with
    | null =>
      have found : matchesLiteral ['n', 'u', 'l', 'l'] source = some (source.advance 4) :=
        matchesLiteral_eq_some.mpr ⟨⟨rest, whole⟩, rfl⟩
      simp [parseNull, found, whole]
    | number number =>
      obtain ⟨first, tail, rfl, sign⟩ := number_head number
      rw [whole] at start
      cases start
      simp [isDigit] at sign
    | _ =>
      rw [whole] at start
      simp at start
  fails := fun failure failed => by
    unfold parseNull at failed
    dsimp only at failed
    split at failed
    · cases failed
    · cases failed
      exact .inr ⟨_, rfl⟩
  panics := False.elim

/-! ## Arrays and objects -/

theorem skipWs_skipWs (source : Source) : skipWs (skipWs source) = skipWs source := by
  have none : ((skipWs source).rest.takeWhile isBlank).length = 0 := by
    rw [skipWs_rest, List.length_eq_zero_iff, List.takeWhile_eq_nil_iff]
    intro some
    exact List.dropWhile_get_zero_not isBlank _ some
  rw [skipWs, none]
  rfl

theorem ws_cons (blanks : Ws input (char :: rest)) (whole : source.rest = input) (proper : isBlank char = false) :
    (skipWs source).rest = char :: rest := by
  subst whole
  exact skipWs_of_ws blanks fun first isFirst => by
    cases isFirst
    exact proper

theorem stumbles_head {place : Place} (stumbles : Stumbles place input) : ∃ first tail, Ws input (first :: tail) ∧
    isBlank first = false ∧ first ≠ ']' ∧ first ≠ '\x7d' := by
  induction stumbles with
  | item _ ih => exact ih
  | laterItem blanks derives =>
    obtain ⟨first, tail, rfl, proper⟩ := value_head derives
    exact ⟨first, tail, blanks, proper⟩
  | string blanks | array blanks | object blanks | key blanks | member blanks | laterMember blanks =>
    exact ⟨_, _, blanks, by decide, by decide, by decide⟩

theorem items_head {items : List JsonValue} (derives : Derives reader (.items items) input rest) :
    ∃ first tail, Ws input (first :: tail) ∧ isBlank first = false ∧ first ≠ ']' := by
  cases derives with
  | lastItem blanks value | item blanks value =>
    obtain ⟨first, tail, rfl, proper, notClose, -⟩ := value_head value
    exact ⟨first, tail, blanks, proper, notClose⟩

theorem members_head {members : List (List Char × JsonValue)} (derives : Derives reader (.members members) input rest) :
    ∃ tail, Ws input ('"' :: tail) := by
  cases derives with
  | lastMember blanks | member blanks => exact ⟨_, blanks⟩

theorem ws_close (blanks : Ws input (char :: rest)) (proper : isBlank char = false) (whole : source.rest = input) {other : Char}
    (different : char ≠ other) : (skipWs source).rest.head? ≠ some other := by
  rw [ws_cons blanks whole proper]
  exact fun same => different (Option.some_inj.mp same)

theorem array_iff {value : JsonValue} : Derives reader (.value value) ('[' :: input) rest ↔
    value = .array [] ∧ Ws input (']' :: rest) ∨ ∃ items, value = .array items ∧ Derives reader (.items items) input rest := by
  constructor
  · intro derives
    generalize whole : '[' :: input = text at derives
    cases derives with
    | emptyArray blanks =>
      cases whole
      exact .inl ⟨rfl, blanks⟩
    | array derives =>
      cases whole
      exact .inr ⟨_, rfl, derives⟩
    | number number =>
      obtain ⟨first, tail, rfl, sign⟩ := number_head number
      cases whole
      simp [isDigit] at sign
    | _ => cases whole
  · rintro (⟨rfl, blanks⟩ | ⟨items, rfl, derives⟩)
    · exact .emptyArray blanks
    · exact .array derives

theorem object_iff {value : JsonValue} : Derives reader (.value value) ('\x7b' :: input) rest ↔
    value = .object [] ∧ Ws input ('\x7d' :: rest) ∨
      ∃ members, value = .object (members.foldl insertEntry []) ∧ Derives reader (.members members) input rest := by
  constructor
  · intro derives
    generalize whole : '\x7b' :: input = text at derives
    cases derives with
    | emptyObject blanks =>
      cases whole
      exact .inl ⟨rfl, blanks⟩
    | object derives =>
      cases whole
      exact .inr ⟨_, rfl, derives⟩
    | number number =>
      obtain ⟨first, tail, rfl, sign⟩ := number_head number
      cases whole
      simp [isDigit] at sign
    | _ => cases whole
  · rintro (⟨rfl, blanks⟩ | ⟨members, rfl, derives⟩)
    · exact .emptyObject blanks
    · exact .object derives

theorem string_iff {value : JsonValue} : Derives reader (.value value) ('"' :: input) rest ↔
    ∃ content, value = .string content ∧ Contents reader input content rest := by
  constructor
  · intro derives
    generalize whole : '"' :: input = text at derives
    cases derives with
    | string contents =>
      cases whole
      exact ⟨_, rfl, contents⟩
    | number number =>
      obtain ⟨first, tail, rfl, sign⟩ := number_head number
      cases whole
      simp [isDigit] at sign
    | _ => cases whole
  · rintro ⟨content, rfl, contents⟩
    exact .string contents

section loops

variable {items : Source → Except Failure (List JsonValue × Source)}
  {members : Source → Except Failure (List (List Char × JsonValue) × Source)}

theorem bracket_exact {Inner : Type} {close : Char} {loop : Source → Except Failure (Inner × Source)} {make : Inner → JsonValue}
    {empty : JsonValue} {derives : Inner → List Char → Prop} {stumbles : Prop} (proper : isBlank close = false)
    (inner : Exact (loop (skipWs source)) derives stumbles fun _ => True)
    (notDerived : ∀ value rest, derives value rest → (skipWs source).rest.head? ≠ some close)
    (notStumbles : stumbles → (skipWs source).rest.head? ≠ some close) :
    Exact (if (skipWs source).rest.head? = some close then .ok (empty, (skipWs source).advance 1)
        else loop (skipWs source) >>= fun found => .ok (make found.1, found.2))
      (fun value rest => value = empty ∧ Ws source.rest (close :: rest) ∨ ∃ found, value = make found ∧ derives found rest)
      stumbles fun _ => True := by
  by_cases closed : (skipWs source).rest.head? = some close
  · rw [if_pos closed]
    have blanks := ws_skipWs source
    rw [head_eq_some.mp closed] at blanks
    exact {
      sound := fun value after read => by
        cases read
        exact .inl ⟨rfl, blanks⟩
      complete := fun value rest derived _ => by
        obtain ⟨rfl, blanks⟩ | ⟨found, -, derived⟩ := derived
        · rw [yields_ok, advance_rest, ws_cons blanks rfl proper]
          exact ⟨rfl, rfl⟩
        · exact absurd closed (notDerived found rest derived)
      fails := fun failure failed => by cases failed
      panics := fun stumbling => absurd closed (notStumbles stumbling) }
  · rw [if_neg closed]
    exact {
      sound := fun value after read => by
        obtain ⟨⟨found, last⟩, isInner, same⟩ := bind_eq_ok.mp read
        cases same
        exact .inr ⟨found, rfl, inner.sound _ _ isInner⟩
      complete := fun value rest derived _ => by
        obtain ⟨-, blanks⟩ | ⟨found, rfl, derived⟩ := derived
        · refine absurd ?_ closed
          rw [ws_cons blanks rfl proper]
          rfl
        · obtain ⟨last, isInner, same⟩ := inner.complete _ _ derived trivial
          exact yields_bind.mpr ⟨_, isInner, yields_ok.mpr ⟨rfl, same.symm⟩⟩
      fails := fun failure failed => by
        obtain isInner | ⟨_, _, same⟩ := bind_eq_error.mp failed
        · exact inner.fails failure isInner
        · cases same
      panics := fun stumbling => bind_eq_error.mpr (.inl (inner.panics stumbling)) }

theorem parseArray_exact (whole : source.rest = '[' :: input)
    (inner : Exact (items (skipWs (source.advance 1))) (fun items rest => Derives reader (.items items) input rest)
      (Stumbles .items input) fun _ => True) :
    Exact (parseArray items source) (fun value rest => Derives reader (.value value) source.rest rest) (Stumbles .items input)
      fun _ => True := by
  have behind : (source.advance 1).rest = input := by rw [advance_rest, whole]; rfl
  have bracket := @bracket_exact _ _ ']' items .array (.array []) _ _ (by decide) inner
    (fun items rest derives => by
      obtain ⟨first, tail, blanks, proper, other⟩ := items_head derives
      exact ws_close blanks proper behind other)
    fun stumbles => by
      obtain ⟨first, tail, blanks, proper, other, -⟩ := stumbles_head stumbles
      exact ws_close blanks proper behind other
  rw [behind] at bracket
  simp only [whole, array_iff]
  rw [parseArray, expect_eq_ok.mpr ⟨by rw [whole]; rfl, rfl⟩]
  exact bracket

def Joined (entries : List (List Char × JsonValue)) (input : List Char) (joined : List (List Char × JsonValue))
    (rest : List Char) : Prop :=
  ∃ members, joined = members.foldl insertEntry entries ∧ Derives reader (.members members) input rest

theorem parseObject_exact (whole : source.rest = '\x7b' :: input)
    (inner : Exact (members (skipWs (source.advance 1))) (Joined [] input) (Stumbles .members input) fun _ => True) :
    Exact (parseObject members source) (fun value rest => Derives reader (.value value) source.rest rest) (Stumbles .members input)
      fun _ => True := by
  have behind : (source.advance 1).rest = input := by rw [advance_rest, whole]; rfl
  have bracket := @bracket_exact _ _ '\x7d' members .object (.object []) _ _ (by decide) inner
    (fun joined rest derives => by
      obtain ⟨members, -, derives⟩ := derives
      obtain ⟨tail, blanks⟩ := members_head derives
      exact ws_close blanks (by decide) behind (by decide))
    fun stumbles => by
      obtain ⟨first, tail, blanks, proper, -, other⟩ := stumbles_head stumbles
      exact ws_close blanks proper behind other
  rw [behind] at bracket
  have joined (value : JsonValue) (rest : List Char) :
      (∃ members, value = .object (members.foldl insertEntry []) ∧ Derives reader (.members members) input rest) ↔
        ∃ entries, value = .object entries ∧ Joined [] input entries rest :=
    ⟨fun ⟨members, same, derives⟩ => ⟨_, same, members, rfl, derives⟩,
      fun ⟨_, same, members, isJoined, derives⟩ => ⟨members, isJoined ▸ same, derives⟩⟩
  simp only [whole, object_iff, joined]
  rw [parseObject, expect_eq_ok.mpr ⟨by rw [whole]; rfl, rfl⟩]
  exact bracket

def TokenStumbles (input : List Char) : Prop :=
  (∃ start, input = '"' :: start ∧ ContentsStumble start) ∨ (∃ start, input = '[' :: start ∧ Stumbles .items start) ∨
    ∃ start, input = '\x7b' :: start ∧ Stumbles .members start

theorem Exact.weaken {read : Except Failure (Result × Source)} {derives : Result → List Char → Prop} {stumbles stumbling : Prop}
    {follows narrower : List Char → Prop} (both : Exact read derives stumbles follows) (same : stumbles ↔ stumbling)
    (narrow : ∀ rest, narrower rest → follows rest) : Exact read derives stumbling narrower where
  sound := both.sound
  complete value rest derived isNarrow := both.complete value rest derived (narrow rest isNarrow)
  fails failure failed := (both.fails failure failed).imp_left fun panics => ⟨panics.1, same.mp panics.2⟩
  panics stumbles := both.panics (same.mpr stumbles)

theorem exact_err {text : String} {derives : Result → List Char → Prop} {stumbles : Prop} {follows : List Char → Prop}
    (notDerived : ∀ value rest, ¬derives value rest) (notStumbles : ¬stumbles) : Exact (err text) derives stumbles follows where
  sound := fun value after read => by cases read
  complete := fun value rest derived _ => absurd derived (notDerived value rest)
  fails := fun failure failed => by
    cases failed
    exact .inr ⟨_, rfl⟩
  panics stumbling := absurd stumbling notStumbles

theorem number_iff {value : JsonValue} {tail : List Char} (notBrace : char ≠ '\x7b') (notBracket : char ≠ '[') (notQuote : char ≠ '"')
    (notTrue : char ≠ 't') (notFalse : char ≠ 'f') (notNull : char ≠ 'n') : Derives reader (.value value) (char :: tail) rest ↔
      ∃ text, reader.number text ∧ value = .number text (asI64 text) ∧ char :: tail = text ++ rest := by
  constructor
  · intro derives
    generalize whole : char :: tail = input at derives
    cases derives with
    | number number => exact ⟨_, number, rfl, rfl⟩
    | _ =>
      cases whole
      contradiction
  · rintro ⟨text, number, rfl, whole⟩
    rw [whole]
    exact .number number

theorem parseToken_exact
    (itemsExact : ∀ input, source.rest = '[' :: input → Exact (items (skipWs (source.advance 1)))
      (fun items rest => Derives reader (.items items) input rest) (Stumbles .items input) fun _ => True)
    (membersExact : ∀ input, source.rest = '\x7b' :: input → Exact (members (skipWs (source.advance 1))) (Joined [] input)
      (Stumbles .members input) fun _ => True) :
    Exact (parseToken items members source) (fun value rest => Derives reader (.value value) source.rest rest)
      (TokenStumbles source.rest) Follows := by
  unfold parseToken
  dsimp only
  split
  · next none =>
    rw [none]
    refine exact_err (fun value rest derives => ?_) (by simp [TokenStumbles])
    obtain ⟨first, tail, whole, -⟩ := value_head derives
    cases whole
  · next tail whole =>
    exact (parseObject_exact whole (membersExact tail whole)).weaken (by simp [TokenStumbles, whole]) fun _ _ => trivial
  · next tail whole =>
    exact (parseArray_exact whole (itemsExact tail whole)).weaken (by simp [TokenStumbles, whole]) fun _ _ => trivial
  · next tail whole =>
    have string := parseString_exact whole
    have stumbles : ContentsStumble tail ↔ TokenStumbles ('"' :: tail) := by simp [TokenStumbles]
    simp only [whole, string_iff]
    exact {
      sound := fun value after read => by
        obtain ⟨⟨content, last⟩, isString, same⟩ := bind_eq_ok.mp read
        cases same
        exact ⟨content, rfl, string.sound _ _ isString⟩
      complete := fun value rest derived _ => by
        obtain ⟨content, rfl, contents⟩ := derived
        obtain ⟨last, isString, same⟩ := string.complete _ _ contents trivial
        exact yields_bind.mpr ⟨_, isString, yields_ok.mpr ⟨rfl, same.symm⟩⟩
      fails := fun failure failed => by
        obtain isString | ⟨_, _, same⟩ := bind_eq_error.mp failed
        · exact (string.fails failure isString).imp_left fun panics => ⟨panics.1, stumbles.mp panics.2⟩
        · cases same
      panics := fun stumbling => bind_eq_error.mpr (.inl (string.panics (stumbles.mpr stumbling))) }
  · next tail whole =>
    exact (parseBool_exact (.inl (by rw [whole]; rfl))).weaken (by simp [TokenStumbles, whole]) fun _ _ => trivial
  · next tail whole =>
    exact (parseBool_exact (.inr (by rw [whole]; rfl))).weaken (by simp [TokenStumbles, whole]) fun _ _ => trivial
  · next tail whole =>
    exact (parseNull_exact (by rw [whole]; rfl)).weaken (by simp [TokenStumbles, whole]) fun _ _ => trivial
  · next char tail notBrace notBracket notQuote notTrue notFalse notNull whole =>
    have numbers (value : JsonValue) (rest : List Char) :=
      @number_iff rest char value tail notBrace notBracket notQuote notTrue notFalse notNull
    have noStumble : ¬TokenStumbles source.rest := by
      rw [whole]
      rintro (⟨_, same, -⟩ | ⟨_, same, -⟩ | ⟨_, same, -⟩)
      · exact notQuote (List.cons.inj same).1
      · exact notBracket (List.cons.inj same).1
      · exact notBrace (List.cons.inj same).1
    simp only [whole, numbers] at noStumble ⊢
    split
    · next sign =>
      have number := parseNumber_exact ⟨char, by rw [whole]; rfl, by simpa using sign⟩
      rw [whole] at number
      exact number.weaken (iff_of_false id noStumble) fun _ follows => follows
    · next other =>
      refine exact_err (fun value rest derives => other ?_) noStumble
      obtain ⟨text, number, -, same⟩ := derives
      obtain ⟨first, _, rfl, sign⟩ := number_head number
      cases same
      simpa using sign

end loops

/-! ## The fuel -/

theorem Derives.length {goal : Goal} (derives : Derives reader goal input rest) : rest.length < input.length := by
  induction derives with
  | null | true | false =>
    simp only [List.length_cons]
    omega
  | string contents => exact Nat.lt_succ_of_lt contents.length
  | number number =>
    obtain ⟨first, tail, rfl, -⟩ := number_head number
    simp only [List.length_append, List.length_cons]
    omega
  | emptyArray blanks | emptyObject blanks =>
    have shorter := blanks.length
    simp only [List.length_cons] at shorter ⊢
    omega
  | array _ ih | object _ ih => exact Nat.lt_succ_of_lt ih
  | lastItem blanks _ closes ih =>
    have first := blanks.length
    have last := closes.length
    simp only [List.length_cons] at last
    omega
  | item blanks _ comma _ valueHypothesis itemsHypothesis =>
    have first := blanks.length
    have last := comma.length
    simp only [List.length_cons] at last
    omega
  | lastMember blanks contents colon valueBlanks _ closes ih =>
    have first := blanks.length
    have key := contents.length
    have second := colon.length
    have third := valueBlanks.length
    have last := closes.length
    simp only [List.length_cons] at first second last
    omega
  | member blanks contents colon valueBlanks _ comma _ valueHypothesis membersHypothesis =>
    have first := blanks.length
    have key := contents.length
    have second := colon.length
    have third := valueBlanks.length
    have last := comma.length
    simp only [List.length_cons] at first second last
    omega

def ValueExact (fuel : Nat) (source : Source) : Prop :=
  Exact (parseValue fuel source) (fun value rest => ∃ start, Ws source.rest start ∧ Derives reader (.value value) start rest)
    (Stumbles .value source.rest) Follows

def ItemsExact (fuel : Nat) (source : Source) : Prop :=
  Exact (parseItems fuel source) (fun items rest => Derives reader (.items items) source.rest rest) (Stumbles .items source.rest)
    fun _ => True

def MembersExact (fuel : Nat) (entries : List (List Char × JsonValue)) (source : Source) : Prop :=
  Exact (parseMembers fuel entries source) (Joined entries source.rest) (Stumbles .members source.rest) fun _ => True

section fuel

variable {fuel : Nat} {entries : List (List Char × JsonValue)}

theorem parseValue_blank (fuel : Nat) (source : Source) : parseValue fuel (skipWs source) = parseValue fuel source := by
  cases fuel with
  | zero => rfl
  | succ fuel => rw [parseValue, parseValue, skipWs_skipWs]

theorem parseItems_blank (fuel : Nat) (source : Source) : parseItems fuel (skipWs source) = parseItems fuel source := by
  cases fuel with
  | zero => rfl
  | succ fuel => rw [parseItems, parseItems, parseValue_blank]

theorem parseMembers_blank (fuel : Nat) (source : Source) :
    parseMembers fuel entries (skipWs source) = parseMembers fuel entries source := by
  cases fuel with
  | zero => rfl
  | succ fuel => rw [parseMembers, parseMembers, skipWs_skipWs]

theorem stumbles_value : Stumbles .value source.rest ↔ TokenStumbles (skipWs source).rest := by
  constructor
  · intro stumbles
    cases stumbles with
    | string blanks contents => exact .inl ⟨_, ws_cons blanks rfl (by decide), contents⟩
    | array blanks items => exact .inr (.inl ⟨_, ws_cons blanks rfl (by decide), items⟩)
    | object blanks members => exact .inr (.inr ⟨_, ws_cons blanks rfl (by decide), members⟩)
  · have blanks := ws_skipWs source
    rintro (⟨start, whole, contents⟩ | ⟨start, whole, items⟩ | ⟨start, whole, members⟩)
    · exact .string (whole ▸ blanks) contents
    · exact .array (whole ▸ blanks) items
    · exact .object (whole ▸ blanks) members

theorem value_step (items : ∀ shorter : Source, shorter.rest.length < source.rest.length → ItemsExact fuel shorter)
    (members : ∀ shorter : Source, shorter.rest.length < source.rest.length → MembersExact fuel [] shorter) :
    ValueExact (fuel + 1) source := by
  have shrinks {char : Char} {input : List Char} (whole : (skipWs source).rest = char :: input) :
      ((skipWs source).advance 1).rest.length < source.rest.length := by
    have bound := (ws_skipWs source).length
    rw [whole] at bound
    rw [advance_rest, whole]
    exact bound
  have token : Exact (parseToken (parseItems fuel) (parseMembers fuel []) (skipWs source)) _ _ Follows :=
    parseToken_exact
      (fun input whole => by
        have inner := items _ (shrinks whole)
        rw [ItemsExact, ← parseItems_blank, advance_rest, whole] at inner
        exact inner)
      (fun input whole => by
        have inner := members _ (shrinks whole)
        rw [MembersExact, ← parseMembers_blank, advance_rest, whole] at inner
        exact inner)
  exact {
    sound := fun value after read => ⟨_, ws_skipWs source, token.sound value after read⟩
    complete := fun value rest derived follows => by
      obtain ⟨start, blanks, derives⟩ := derived
      obtain ⟨first, tail, rfl, proper, -⟩ := value_head derives
      exact token.complete value rest (ws_cons blanks rfl proper ▸ derives) follows
    fails := fun failure failed => (token.fails failure failed).imp_left fun panics => ⟨panics.1, stumbles_value.mpr panics.2⟩
    panics := fun stumbles => token.panics (stumbles_value.mp stumbles) }

theorem follows_of_ws (blanks : Ws input rest) (follows : Follows rest) : Follows input := by
  obtain ⟨front, all, rfl⟩ := blanks
  cases front with
  | nil => exact follows
  | cons char front =>
    intro first isFirst
    cases isFirst
    have blank := List.all_eq_true.mp all char List.mem_cons_self
    simp only [isBlank, Bool.or_eq_true, beq_iff_eq] at blank
    obtain ((rfl | rfl) | rfl) | rfl := blank <;> rfl

theorem follows_cons (proper : inNumber char = false) : Follows (char :: rest) := by
  intro first isFirst
  cases isFirst
  exact proper

/-- What `parse_array` does behind an item. -/
def itemsEnd (fuel : Nat) (found : JsonValue × Source) : Except Failure (List JsonValue × Source) :=
  let pos := (skipWs found.2).pos
  match (skipWs found.2).rest with
  | ',' :: _ => parseItems fuel ((skipWs found.2).advance 1) >>= fun more => .ok (found.1 :: more.1, more.2)
  | ']' :: _ => .ok ([found.1], (skipWs found.2).advance 1)
  | _ => err s!"expected ',' or ']' at {pos}"

theorem items_step (value : ValueExact fuel source)
    (later : ∀ shorter : Source, shorter.rest.length < source.rest.length → ItemsExact fuel shorter) :
    ItemsExact (fuel + 1) source := by
  have shrinks {start : List Char} {item : JsonValue} {last : Source} {next : List Char} (blanks : Ws source.rest start)
      (derives : Derives reader (.value item) start last.rest) (comma : (skipWs last).rest = ',' :: next) :
      ((skipWs last).advance 1).rest.length < source.rest.length := by
    have first := blanks.length
    have second := derives.length
    have third := (ws_skipWs last).length
    rw [comma] at third
    rw [advance_rest, comma]
    simp only [List.length_cons, List.drop_one, List.tail_cons] at third ⊢
    omega
  have unfolded : parseItems (fuel + 1) source = parseValue fuel source >>= itemsEnd fuel := by
    rw [parseItems]
    rfl
  rw [ItemsExact, unfolded]
  exact {
    sound := fun items after read => by
      obtain ⟨⟨item, last⟩, isValue, behind⟩ := bind_eq_ok.mp read
      obtain ⟨start, blanks, derives⟩ := value.sound _ _ isValue
      have closing := ws_skipWs last
      unfold itemsEnd at behind
      dsimp only at behind
      split at behind
      · next next comma =>
        obtain ⟨⟨items, other⟩, isLater, same⟩ := bind_eq_ok.mp behind
        cases same
        have inner := (later _ (shrinks blanks derives comma)).sound _ _ isLater
        rw [advance_rest, comma] at inner
        rw [comma] at closing
        exact .item blanks derives closing inner
      · next next close =>
        cases behind
        rw [close] at closing
        rw [advance_rest, close]
        exact .lastItem blanks derives closing
      · cases behind
    complete := fun items rest derived _ => by
      cases derived with
      | lastItem blanks derives close =>
        obtain ⟨last, isValue, rfl⟩ := value.complete _ _ ⟨_, blanks, derives⟩ (follows_of_ws close (follows_cons rfl))
        refine yields_bind.mpr ⟨_, isValue, ?_⟩
        unfold itemsEnd
        dsimp only
        have closed := ws_cons close rfl (by decide)
        rw [closed]
        refine yields_ok.mpr ⟨rfl, ?_⟩
        rw [advance_rest, closed]
        rfl
      | item blanks derives comma more =>
        obtain ⟨last, isValue, rfl⟩ := value.complete _ _ ⟨_, blanks, derives⟩ (follows_of_ws comma (follows_cons rfl))
        refine yields_bind.mpr ⟨_, isValue, ?_⟩
        unfold itemsEnd
        dsimp only
        have next := ws_cons comma rfl (by decide)
        rw [next]
        have inner := later _ (shrinks blanks derives next)
        rw [ItemsExact, advance_rest, next] at inner
        obtain ⟨other, isLater, same⟩ := inner.complete _ _ more trivial
        exact yields_bind.mpr ⟨_, isLater, yields_ok.mpr ⟨rfl, same.symm⟩⟩
    fails := fun failure failed => by
      obtain isValue | ⟨⟨item, last⟩, isValue, behind⟩ := bind_eq_error.mp failed
      · exact (value.fails failure isValue).imp_left fun panics => ⟨panics.1, .item panics.2⟩
      · obtain ⟨start, blanks, derives⟩ := value.sound _ _ isValue
        have closing := ws_skipWs last
        unfold itemsEnd at behind
        dsimp only at behind
        split at behind
        · next next comma =>
          obtain isLater | ⟨_, _, same⟩ := bind_eq_error.mp behind
          · have inner := later _ (shrinks blanks derives comma)
            rw [ItemsExact, advance_rest, comma] at inner
            rw [comma] at closing
            exact (inner.fails failure isLater).imp_left fun panics => ⟨panics.1, .laterItem blanks derives closing panics.2⟩
          · cases same
        · cases behind
        · cases behind
          exact .inr ⟨_, rfl⟩
    panics := fun stumbles => by
      cases stumbles with
      | item stumbles => exact bind_eq_error.mpr (.inl (value.panics stumbles))
      | laterItem blanks derives comma more =>
        obtain ⟨last, isValue, rfl⟩ := value.complete _ _ ⟨_, blanks, derives⟩ (follows_of_ws comma (follows_cons rfl))
        refine bind_eq_error.mpr (.inr ⟨_, isValue, ?_⟩)
        unfold itemsEnd
        dsimp only
        have next := ws_cons comma rfl (by decide)
        rw [next]
        have inner := later _ (shrinks blanks derives next)
        rw [ItemsExact, advance_rest, next] at inner
        exact bind_eq_error.mpr (.inl (inner.panics more)) }

def parseKey (source : Source) : Except Failure (List Char × Source) :=
  parseString (skipWs source) >>= fun found => expect ':' (skipWs found.2) >>= fun behind => .ok (found.1, behind)

theorem parseKey_exact (source : Source) : Exact (parseKey source)
    (fun key rest => ∃ start afterKey, Ws source.rest ('"' :: start) ∧ Contents reader start key afterKey ∧ Ws afterKey (':' :: rest))
    (∃ start, Ws source.rest ('"' :: start) ∧ ContentsStumble start) fun _ => True := by
  by_cases quoted : (skipWs source).rest.head? = some '"'
  · have whole := head_eq_some.mp quoted
    have string := parseString_exact whole
    have blanks := ws_skipWs source
    rw [whole] at blanks
    have start_eq {start : List Char} (other : Ws source.rest ('"' :: start)) : start = ((skipWs source).advance 1).rest := by
      have same := (ws_cons other rfl (by decide)).symm.trans whole
      exact (List.cons.inj same).2
    exact {
      sound := fun key after read => by
        obtain ⟨⟨content, last⟩, isString, behind⟩ := bind_eq_ok.mp read
        obtain ⟨colon, isColon, same⟩ := bind_eq_ok.mp behind
        cases same
        obtain ⟨head, rfl⟩ := expect_eq_ok.mp isColon
        have closing := ws_skipWs last
        rw [head_eq_some.mp head] at closing
        exact ⟨_, _, blanks, string.sound _ _ isString, closing⟩
      complete := fun key rest derived _ => by
        obtain ⟨start, afterKey, opening, contents, colon⟩ := derived
        obtain rfl := start_eq opening
        obtain ⟨last, isString, rfl⟩ := string.complete _ _ contents trivial
        have found := ws_cons colon rfl (by decide)
        refine yields_bind.mpr ⟨_, isString, yields_bind.mpr ⟨_, expect_eq_ok.mpr ⟨by rw [found]; rfl, rfl⟩, yields_ok.mpr ⟨rfl, ?_⟩⟩⟩
        rw [advance_rest, found]
        rfl
      fails := fun failure failed => by
        obtain isString | ⟨_, _, behind⟩ := bind_eq_error.mp failed
        · exact (string.fails failure isString).imp_left fun panics => ⟨panics.1, _, blanks, panics.2⟩
        · obtain noColon | ⟨_, _, same⟩ := bind_eq_error.mp behind
          · exact .inr (expect_fails noColon)
          · cases same
      panics := fun stumbles => by
        obtain ⟨start, opening, contents⟩ := stumbles
        obtain rfl := start_eq opening
        exact bind_eq_error.mpr (.inl (string.panics contents)) }
  · have noString {start : List Char} (opening : Ws source.rest ('"' :: start)) : False := by
      rw [ws_cons opening rfl (by decide)] at quoted
      exact quoted rfl
    have fails (failure : Failure) (failed : parseKey source = .error failure) : ∃ text, failure = .message text := by
      obtain isString | ⟨_, isString, _⟩ := bind_eq_error.mp failed
      · exact parseString_fails quoted isString
      · obtain ⟨_, opened, _⟩ := bind_eq_ok.mp isString
        exact absurd (expect_eq_ok.mp opened).1 quoted
    exact {
      sound := fun key after read => by
        obtain ⟨_, isString, _⟩ := bind_eq_ok.mp read
        obtain ⟨_, opened, _⟩ := bind_eq_ok.mp isString
        exact absurd (expect_eq_ok.mp opened).1 quoted
      complete := fun key rest derived _ => by
        obtain ⟨start, afterKey, opening, -⟩ := derived
        exact (noString opening).elim
      fails := fun failure failed => .inr (fails failure failed)
      panics := fun stumbles => by
        obtain ⟨start, opening, -⟩ := stumbles
        exact (noString opening).elim }

/-- What `parse_object` does behind a member. -/
def membersEnd (fuel : Nat) (entries : List (List Char × JsonValue)) (key : List Char) (found : JsonValue × Source) :
    Except Failure (List (List Char × JsonValue) × Source) :=
  let pos := (skipWs found.2).pos
  match (skipWs found.2).rest with
  | ',' :: _ => parseMembers fuel (insertEntry entries (key, found.1)) ((skipWs found.2).advance 1)
  | '\x7d' :: _ => .ok (insertEntry entries (key, found.1), (skipWs found.2).advance 1)
  | _ => err s!"expected ',' or '\x7d' at {pos}"

theorem members_step (value : ∀ shorter : Source, shorter.rest.length < source.rest.length → ValueExact fuel shorter)
    (later : ∀ entries (shorter : Source), shorter.rest.length < source.rest.length → MembersExact fuel entries shorter) :
    MembersExact (fuel + 1) entries source := by
  have keyExact := parseKey_exact source
  have keyShrinks {start afterKey : List Char} {key : List Char} {colon : Source} (blanks : Ws source.rest ('"' :: start))
      (contents : Contents reader start key afterKey) (behind : Ws afterKey (':' :: colon.rest)) :
      colon.rest.length < source.rest.length := by
    have first := blanks.length
    have second := contents.length
    have third := behind.length
    simp only [List.length_cons] at first third
    omega
  have nextShrinks {colon last : Source} {start next : List Char} {item : JsonValue} (shorter : colon.rest.length < source.rest.length)
      (blanks : Ws colon.rest start) (derives : Derives reader (.value item) start last.rest)
      (comma : (skipWs last).rest = ',' :: next) : ((skipWs last).advance 1).rest.length < source.rest.length := by
    have first := blanks.length
    have second := derives.length
    have third := (ws_skipWs last).length
    rw [comma] at third
    rw [advance_rest, comma]
    simp only [List.length_cons, List.drop_one, List.tail_cons] at third ⊢
    omega
  have unfolded : parseMembers (fuel + 1) entries source =
      parseKey source >>= fun key => parseValue fuel key.2 >>= membersEnd fuel entries key.1 := by
    rw [parseMembers, parseKey, bind_assoc]
    congr 1
    funext key
    rw [bind_assoc]
    rfl
  rw [MembersExact, unfolded]
  exact {
    sound := fun joined after read => by
      obtain ⟨⟨key, colon⟩, isKey, valued⟩ := bind_eq_ok.mp read
      obtain ⟨start, afterKey, opening, contents, colonBlanks⟩ := keyExact.sound _ _ isKey
      have shorter := keyShrinks opening contents colonBlanks
      obtain ⟨⟨item, last⟩, isValue, behind⟩ := bind_eq_ok.mp valued
      obtain ⟨valueStart, blanks, derives⟩ := (value colon shorter).sound _ _ isValue
      have closing := ws_skipWs last
      unfold membersEnd at behind
      dsimp only at behind
      split at behind
      · next next comma =>
        obtain ⟨members, rfl, inner⟩ := (later _ _ (nextShrinks shorter blanks derives comma)).sound _ _ behind
        rw [advance_rest, comma] at inner
        rw [comma] at closing
        exact ⟨(key, item) :: members, rfl, .member opening contents colonBlanks blanks derives closing inner⟩
      · next next close =>
        cases behind
        rw [close] at closing
        rw [advance_rest, close]
        exact ⟨[(key, item)], rfl, .lastMember opening contents colonBlanks blanks derives closing⟩
      · cases behind
    complete := fun joined rest derived _ => by
      obtain ⟨members, rfl, derived⟩ := derived
      cases derived with
      | lastMember opening contents colonBlanks blanks derives close =>
        obtain ⟨colon, isKey, rfl⟩ := keyExact.complete _ _ ⟨_, _, opening, contents, colonBlanks⟩ trivial
        have shorter := keyShrinks opening contents colonBlanks
        obtain ⟨last, isValue, rfl⟩ := (value colon shorter).complete _ _ ⟨_, blanks, derives⟩ (follows_of_ws close (follows_cons rfl))
        refine yields_bind.mpr ⟨_, isKey, yields_bind.mpr ⟨_, isValue, ?_⟩⟩
        unfold membersEnd
        dsimp only
        have closed := ws_cons close rfl (by decide)
        rw [closed]
        refine yields_ok.mpr ⟨rfl, ?_⟩
        rw [advance_rest, closed]
        rfl
      | member opening contents colonBlanks blanks derives comma more =>
        obtain ⟨colon, isKey, rfl⟩ := keyExact.complete _ _ ⟨_, _, opening, contents, colonBlanks⟩ trivial
        have shorter := keyShrinks opening contents colonBlanks
        obtain ⟨last, isValue, rfl⟩ := (value colon shorter).complete _ _ ⟨_, blanks, derives⟩ (follows_of_ws comma (follows_cons rfl))
        refine yields_bind.mpr ⟨_, isKey, yields_bind.mpr ⟨_, isValue, ?_⟩⟩
        unfold membersEnd
        dsimp only
        have next := ws_cons comma rfl (by decide)
        rw [next]
        have inner := fun entries => later entries _ (nextShrinks shorter blanks derives next)
        simp only [MembersExact, advance_rest, next] at inner
        exact (inner _).complete _ _ ⟨_, rfl, more⟩ trivial
    fails := fun failure failed => by
      obtain isKey | ⟨⟨key, colon⟩, isKey, valued⟩ := bind_eq_error.mp failed
      · refine (keyExact.fails failure isKey).imp_left fun panics => ?_
        obtain ⟨isPanic, start, opening, contents⟩ := panics
        exact ⟨isPanic, .key opening contents⟩
      · obtain ⟨start, afterKey, opening, contents, colonBlanks⟩ := keyExact.sound _ _ isKey
        have shorter := keyShrinks opening contents colonBlanks
        obtain isValue | ⟨⟨item, last⟩, isValue, behind⟩ := bind_eq_error.mp valued
        · exact ((value colon shorter).fails failure isValue).imp_left fun panics =>
            ⟨panics.1, .member opening contents colonBlanks panics.2⟩
        · obtain ⟨valueStart, blanks, derives⟩ := (value colon shorter).sound _ _ isValue
          have closing := ws_skipWs last
          unfold membersEnd at behind
          dsimp only at behind
          split at behind
          · next next comma =>
            have inner := later (insertEntry entries (key, item)) _ (nextShrinks shorter blanks derives comma)
            rw [MembersExact, advance_rest, comma] at inner
            rw [comma] at closing
            exact (inner.fails failure behind).imp_left fun panics =>
              ⟨panics.1, .laterMember opening contents colonBlanks blanks derives closing panics.2⟩
          · cases behind
          · cases behind
            exact .inr ⟨_, rfl⟩
    panics := fun stumbles => by
      cases stumbles with
      | key opening contents => exact bind_eq_error.mpr (.inl (keyExact.panics ⟨_, opening, contents⟩))
      | @member _ _ _ _ colonText opening contents colonBlanks stumbles =>
        obtain ⟨colon, isKey, rfl⟩ := keyExact.complete _ _ ⟨_, _, opening, contents, colonBlanks⟩ trivial
        have shorter := keyShrinks opening contents colonBlanks
        exact bind_eq_error.mpr (.inr ⟨_, isKey, bind_eq_error.mpr (.inl ((value colon shorter).panics stumbles))⟩)
      | laterMember opening contents colonBlanks blanks derives comma more =>
        obtain ⟨colon, isKey, rfl⟩ := keyExact.complete _ _ ⟨_, _, opening, contents, colonBlanks⟩ trivial
        have shorter := keyShrinks opening contents colonBlanks
        obtain ⟨last, isValue, rfl⟩ := (value colon shorter).complete _ _ ⟨_, blanks, derives⟩ (follows_of_ws comma (follows_cons rfl))
        refine bind_eq_error.mpr (.inr ⟨_, isKey, bind_eq_error.mpr (.inr ⟨_, isValue, ?_⟩)⟩)
        unfold membersEnd
        dsimp only
        have next := ws_cons comma rfl (by decide)
        rw [next]
        have inner := fun entries => later entries _ (nextShrinks shorter blanks derives next)
        simp only [MembersExact, advance_rest, next] at inner
        exact (inner _).panics more }

theorem reads_exact (fuel : Nat) : (∀ source : Source, 2 * source.rest.length + 1 ≤ fuel → ValueExact fuel source) ∧
    (∀ source : Source, 2 * source.rest.length + 2 ≤ fuel → ItemsExact fuel source) ∧
    ∀ entries (source : Source), 2 * source.rest.length + 2 ≤ fuel → MembersExact fuel entries source := by
  induction fuel with
  | zero => exact ⟨fun _ enough => by omega, fun _ enough => by omega, fun _ _ enough => by omega⟩
  | succ fuel ih =>
    obtain ⟨values, items, members⟩ := ih
    refine ⟨fun source enough => ?_, fun source enough => ?_, fun entries source enough => ?_⟩
    · exact value_step (fun shorter less => items shorter (by omega)) fun shorter less => members [] shorter (by omega)
    · exact items_step (values source (by omega)) fun shorter less => items shorter (by omega)
    · exact members_step (fun shorter less => values shorter (by omega)) fun entries shorter less => members entries shorter (by omega)

end fuel

/-! ## Whole texts -/

variable {text : List Char} {value : JsonValue}

/-- The closing of `parse`. -/
def parseEnd (found : JsonValue × Source) : Except Failure JsonValue :=
  let pos := (skipWs found.2).pos
  if (skipWs found.2).rest = [] then .ok found.1 else err s!"trailing characters at position {pos}"

theorem parse_eq (text : List Char) : parse text = parseValue (2 * text.length + 2) ⟨0, text⟩ >>= parseEnd := by
  rw [← parseValue_blank]
  rfl

theorem valueExact_text (text : List Char) : ValueExact (2 * text.length + 2) ⟨0, text⟩ :=
  (reads_exact _).1 ⟨0, text⟩ (Nat.le_succ _)

theorem parse_eq_ok : parse text = .ok value ↔ Denotes reader text value := by
  rw [parse_eq]
  constructor
  · intro read
    obtain ⟨⟨found, last⟩, isValue, behind⟩ := bind_eq_ok.mp read
    obtain ⟨start, blanks, derives⟩ := (valueExact_text text).sound _ _ isValue
    have closing := ws_skipWs last
    unfold parseEnd at behind
    dsimp only at behind
    split at behind
    · next none =>
      cases behind
      rw [none] at closing
      exact ⟨start, last.rest, blanks, derives, closing⟩
    · cases behind
  · rintro ⟨start, after, blanks, derives, closing⟩
    obtain ⟨last, isValue, rfl⟩ :=
      (valueExact_text text).complete _ _ ⟨start, blanks, derives⟩ (follows_of_ws closing fun _ none => by cases none)
    have none := skipWs_of_ws closing fun _ none => by cases none
    exact bind_eq_ok.mpr ⟨_, isValue, if_pos none⟩

theorem parse_fails {failure : Failure} (failed : parse text = .error failure) :
    failure = .panic ∧ Stumbles .value text ∨ ∃ message, failure = .message message := by
  rw [parse_eq] at failed
  obtain isValue | ⟨found, _, behind⟩ := bind_eq_error.mp failed
  · exact (valueExact_text text).fails failure isValue
  · unfold parseEnd at behind
    dsimp only at behind
    split at behind
    · cases behind
    · cases behind
      exact .inr ⟨_, rfl⟩

theorem parse_panics (stumbles : Stumbles .value text) : parse text = .error .panic := by
  rw [parse_eq]
  exact bind_eq_error.mpr (.inl ((valueExact_text text).panics stumbles))

end Metrale.Grammar.JsonValue
