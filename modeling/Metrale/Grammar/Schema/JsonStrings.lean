import Metrale.Grammar.Schema.JsonGrammar

/-! # The strings that the JSON reader takes

`Yields` says what a reading answers and leaves.  The functions on strings are the relations of the grammar in the reader's
dialect, and panic where those stumble. -/

namespace Metrale.Grammar.JsonValue

open Foundation

variable {Result : Type} {source after : Source} {input rest middle content : List Char} {char : Char} {codepoint : Nat}

def Yields (read : Except Failure (Result × Source)) (value : Result) (rest : List Char) : Prop :=
  ∃ after, read = .ok (value, after) ∧ after.rest = rest

section yields

variable {read : Except Failure (Result × Source)} {value : Result}

@[simp] theorem yields_ok {answered : Result} : Yields (.ok (answered, after)) value rest ↔ value = answered ∧ rest = after.rest := by
  constructor
  · rintro ⟨_, same, rfl⟩
    cases same
    exact ⟨rfl, rfl⟩
  · rintro ⟨rfl, rfl⟩
    exact ⟨_, rfl, rfl⟩

@[simp] theorem not_yields_error {failure : Failure} : ¬Yields (.error failure) value rest := by
  rintro ⟨_, same, _⟩
  cases same

@[simp] theorem not_yields_err {text : String} : ¬Yields (err text) value rest := not_yields_error

theorem yields_bind {First : Type} {first : Except Failure First} {next : First → Except Failure (Result × Source)} :
    Yields (first >>= next) value rest ↔ ∃ found, first = .ok found ∧ Yields (next found) value rest := by
  constructor
  · rintro ⟨after, read, same⟩
    obtain ⟨found, isFirst, isNext⟩ := bind_eq_ok.mp read
    exact ⟨found, isFirst, after, isNext, same⟩
  · rintro ⟨found, isFirst, after, isNext, same⟩
    exact ⟨after, bind_eq_ok.mpr ⟨found, isFirst, isNext⟩, same⟩

end yields

/-! ## Blanks -/

@[simp] theorem advance_rest (count : Nat) : (source.advance count).rest = source.rest.drop count := rfl

theorem skipWs_rest (source : Source) : (skipWs source).rest = source.rest.dropWhile isBlank := by
  have whole : source.rest.takeWhile isBlank ++ source.rest.dropWhile isBlank = source.rest := List.takeWhile_append_dropWhile
  rw [skipWs, advance_rest]
  nth_rewrite 2 [← whole]
  exact List.drop_left

theorem ws_skipWs (source : Source) : Ws source.rest (skipWs source).rest := by
  refine ⟨source.rest.takeWhile isBlank, List.all_takeWhile, ?_⟩
  rw [skipWs_rest, List.takeWhile_append_dropWhile]

theorem skipWs_of_ws (blanks : Ws source.rest rest) (stops : ∀ char ∈ rest.head?, isBlank char = false) :
    (skipWs source).rest = rest := by
  obtain ⟨front, all, whole⟩ := blanks
  rw [skipWs_rest, whole, List.dropWhile_append_of_pos (List.all_eq_true.mp all)]
  cases rest with
  | nil => rfl
  | cons char rest => exact List.dropWhile_cons_of_neg (by simp [stops char rfl])

theorem Ws.length (blanks : Ws input rest) : rest.length ≤ input.length := by
  obtain ⟨front, -, rfl⟩ := blanks
  rw [List.length_append]
  omega

/-! ## Strings -/

theorem parseHex_yields {count start : Nat} :
    Yields (parseHex start count source) codepoint rest ↔ Hex count start source.rest codepoint rest := by
  induction count generalizing start source with
  | zero =>
    constructor
    · rintro ⟨after, same, rfl⟩
      cases same
      exact .done
    · intro hex
      cases hex
      exact ⟨source, rfl, rfl⟩
  | succ count ih =>
    rw [parseHex]
    split
    · next none =>
      rw [none]
      exact iff_of_false (fun ⟨_, same, _⟩ => by cases same) fun hex => by cases hex
    · next char text some =>
      have tail : (source.advance 1).rest = text := by rw [advance_rest, some, List.drop_one, List.tail_cons]
      rw [some]
      split
      · next bad =>
        refine iff_of_false (fun ⟨_, same, _⟩ => by cases same) fun hex => ?_
        cases hex with
        | more good _ => cases bad.symm.trans good
      · next digit good =>
        rw [ih, tail]
        constructor
        · exact .more good
        · intro hex
          cases hex with
          | more same hex =>
            cases good.symm.trans same
            exact hex

theorem parseHex_fails {count start : Nat} {failure : Failure} (failed : parseHex start count source = .error failure) :
    ∃ text, failure = .message text := by
  induction count generalizing start source with
  | zero => cases failed
  | succ count ih =>
    rw [parseHex] at failed
    split at failed
    · cases failed
      exact ⟨_, rfl⟩
    · split at failed
      · cases failed
        exact ⟨_, rfl⟩
      · exact ih failed

theorem parseHex4_ok (read : parseHex4 source = .ok (codepoint, after)) {other : Nat} :
    Hex4 source.rest other rest ↔ other = codepoint ∧ rest = after.rest := by
  have yields : Yields (parseHex4 source) other rest ↔ Hex4 source.rest other rest := parseHex_yields
  rw [← yields, read, yields_ok]

theorem head_eq_some : source.rest.head? = some char ↔ source.rest = char :: (source.advance 1).rest := by
  rw [advance_rest, List.drop_one]
  cases source.rest with
  | nil => simp
  | cons first rest => simp

theorem pushed_yields {message : String} : Yields (pushed message codepoint source) char rest ↔
    fromU32 codepoint = some char ∧ rest = source.rest := by
  unfold pushed
  cases fromU32 codepoint with
  | none => simp
  | some found => rw [yields_ok, Option.some_inj, eq_comm]

theorem expect_eq_ok : expect char source = .ok after ↔ source.rest.head? = some char ∧ after = source.advance 1 := by
  unfold expect
  split
  · next found => simp [found, eq_comm]
  · next other => exact iff_of_false (fun same => by cases same) fun found => other found.1

theorem parsePair_yields {high : Nat} : Yields (parsePair high source) char rest ↔ ∃ low middle,
    source.rest = '\\' :: 'u' :: middle ∧ Hex4 middle low rest ∧ 0xDC00 ≤ low ∧ fromU32 (pairCodepoint high low) = some char := by
  unfold parsePair
  split
  · next again =>
    simp only [yields_bind, expect_eq_ok]
    constructor
    · rintro ⟨_, ⟨escape, rfl⟩, ⟨low, last⟩, hex, pushes⟩
      have whole := (head_eq_some.mp again).trans (congrArg _ (head_eq_some.mp escape))
      dsimp only at pushes
      split at pushes
      · exact absurd pushes not_yields_error
      · next isLow =>
        obtain ⟨isChar, rfl⟩ := pushed_yields.mp pushes
        exact ⟨low, _, whole, (parseHex4_ok hex).mpr ⟨rfl, rfl⟩, not_lt.mp isLow, isChar⟩
    · rintro ⟨low, middle, whole, hex, isLow, isChar⟩
      have tail : (source.advance 1).rest = 'u' :: middle := by rw [advance_rest, whole]; rfl
      have hex : Hex4 ((source.advance 1).advance 1).rest low rest := by rwa [advance_rest, tail]
      obtain ⟨last, read, rfl⟩ := parseHex_yields.mpr hex
      refine ⟨_, ⟨by rw [tail]; rfl, rfl⟩, _, read, ?_⟩
      dsimp only
      rw [if_neg (not_lt.mpr isLow)]
      exact pushed_yields.mpr ⟨isChar, rfl⟩
  · next other =>
    refine iff_of_false not_yields_err ?_
    rintro ⟨low, middle, whole, -⟩
    rw [whole] at other
    exact other rfl

theorem piece_unicode : Piece reader ('\\' :: 'u' :: input) char rest ↔
    (∃ codepoint, Hex4 input codepoint rest ∧ isHigh codepoint = false ∧ fromU32 codepoint = some char) ∨
      ∃ high low middle, Hex4 input high ('\\' :: 'u' :: middle) ∧ isHigh high = true ∧ Hex4 middle low rest ∧ 0xDC00 ≤ low ∧
        fromU32 (pairCodepoint high low) = some char := by
  constructor
  · intro piece
    cases piece with
    | raw _ _ proper => exact absurd rfl proper
    | escape simple => cases simple
    | unicode hex single isChar => exact .inl ⟨_, hex, single, isChar⟩
    | pair hex isHigh hexLow isLow isChar => exact .inr ⟨_, _, _, hex, isHigh, hexLow, isLow, isChar⟩
  · rintro (⟨codepoint, hex, single, isChar⟩ | ⟨high, low, middle, hex, isHigh, hexLow, isLow, isChar⟩)
    · exact .unicode hex single isChar
    · exact .pair hex isHigh hexLow isLow isChar

theorem parseUnicode_yields : Yields (parseUnicode source) char rest ↔ Piece reader ('\\' :: 'u' :: source.rest) char rest := by
  rw [piece_unicode]
  simp only [parseUnicode, yields_bind]
  constructor
  · rintro ⟨⟨codepoint, middle⟩, hex, pushes⟩
    dsimp only at pushes
    split at pushes
    · next high =>
      obtain ⟨low, last, whole, hexLow, isLow, isChar⟩ := parsePair_yields.mp pushes
      exact .inr ⟨codepoint, low, last, (parseHex4_ok hex).mpr ⟨rfl, whole.symm⟩, high, hexLow, isLow, isChar⟩
    · next single =>
      obtain ⟨isChar, rfl⟩ := pushed_yields.mp pushes
      exact .inl ⟨codepoint, (parseHex4_ok hex).mpr ⟨rfl, rfl⟩, Bool.eq_false_iff.mpr single, isChar⟩
  · rintro (⟨codepoint, hex, single, isChar⟩ | ⟨high, low, middle, hex, isHigh, hexLow, isLow, isChar⟩)
    · obtain ⟨last, read, rfl⟩ := parseHex_yields.mpr hex
      refine ⟨_, read, ?_⟩
      dsimp only
      rw [if_neg (Bool.eq_false_iff.mp single)]
      exact pushed_yields.mpr ⟨isChar, rfl⟩
    · obtain ⟨last, read, whole⟩ := parseHex_yields.mpr hex
      refine ⟨_, read, ?_⟩
      dsimp only
      rw [if_pos isHigh]
      exact parsePair_yields.mpr ⟨low, middle, whole, hexLow, isLow, isChar⟩

/-! ### Panics in strings -/

theorem pushed_fails {message : String} {failure : Failure} (failed : pushed message codepoint source = .error failure) :
    ∃ text, failure = .message text := by
  unfold pushed at failed
  split at failed
  · cases failed
  · cases failed
    exact ⟨_, rfl⟩

theorem expect_fails {failure : Failure} (failed : expect char source = .error failure) : ∃ text, failure = .message text := by
  unfold expect at failed
  split at failed
  · cases failed
  · cases failed
    exact ⟨_, rfl⟩

def PairStumbles (input : List Char) : Prop :=
  ∃ low middle rest, input = '\\' :: 'u' :: middle ∧ Hex4 middle low rest ∧ low < 0xDC00

theorem parsePair_fails {high : Nat} {failure : Failure} (failed : parsePair high source = .error failure) :
    failure = .panic ∧ PairStumbles source.rest ∨ ∃ text, failure = .message text := by
  unfold parsePair at failed
  split at failed
  · next again =>
    obtain noEscape | ⟨_, escape, behind⟩ := bind_eq_error.mp failed
    · exact .inr (expect_fails noEscape)
    · obtain noHex | ⟨⟨low, last⟩, read, pushes⟩ := bind_eq_error.mp behind
      · exact .inr (parseHex_fails noHex)
      · obtain ⟨head, rfl⟩ := expect_eq_ok.mp escape
        have whole := (head_eq_some.mp again).trans (congrArg _ (head_eq_some.mp head))
        dsimp only at pushes
        split at pushes
        · next isLow =>
          cases pushes
          exact .inl ⟨rfl, low, _, _, whole, (parseHex4_ok read).mpr ⟨rfl, rfl⟩, isLow⟩
        · exact .inr (pushed_fails pushes)
  · cases failed
    exact .inr ⟨_, rfl⟩

theorem parsePair_panics {high : Nat} (stumbles : PairStumbles source.rest) : parsePair high source = .error .panic := by
  obtain ⟨low, middle, rest, whole, hex, isLow⟩ := stumbles
  have tail : (source.advance 1).rest = 'u' :: middle := by rw [advance_rest, whole]; rfl
  have hex : Hex4 ((source.advance 1).advance 1).rest low rest := by rwa [advance_rest, tail]
  obtain ⟨last, read, -⟩ := parseHex_yields.mpr hex
  rw [parsePair, if_pos (by rw [whole]; rfl)]
  refine bind_eq_error.mpr (.inr ⟨_, expect_eq_ok.mpr ⟨by rw [tail]; rfl, rfl⟩, ?_⟩)
  exact bind_eq_error.mpr (.inr ⟨_, read, if_pos isLow⟩)

def UnicodeStumbles (input : List Char) : Prop := ∃ high middle, Hex4 input high middle ∧ isHigh high = true ∧ PairStumbles middle

theorem parseUnicode_fails {failure : Failure} (failed : parseUnicode source = .error failure) :
    failure = .panic ∧ UnicodeStumbles source.rest ∨ ∃ text, failure = .message text := by
  obtain failed | ⟨⟨codepoint, middle⟩, read, failed⟩ := bind_eq_error.mp failed
  · exact .inr (parseHex_fails failed)
  · dsimp only at failed
    split at failed
    · next high =>
      obtain ⟨isPanic, stumbles⟩ | message := parsePair_fails failed
      · exact .inl ⟨isPanic, codepoint, _, (parseHex4_ok read).mpr ⟨rfl, rfl⟩, high, stumbles⟩
      · exact .inr message
    · exact .inr (pushed_fails failed)

theorem parseUnicode_panics (stumbles : UnicodeStumbles source.rest) : parseUnicode source = .error .panic := by
  obtain ⟨high, middle, hex, isHigh, stumbles⟩ := stumbles
  obtain ⟨last, read, rfl⟩ := parseHex_yields.mpr hex
  refine bind_eq_error.mpr (.inr ⟨_, read, ?_⟩)
  dsimp only
  rw [if_pos isHigh]
  exact parsePair_panics stumbles

/-! ### Escapes and whole strings -/

theorem parseEscape_yields : Yields (parseEscape source) char rest ↔ Piece reader ('\\' :: source.rest) char rest := by
  unfold parseEscape
  split
  · next none =>
    rw [none]
    refine iff_of_false not_yields_err fun piece => ?_
    cases piece with
    | raw _ _ proper => exact proper rfl
  · next tail whole =>
    have behind : (source.advance 1).rest = tail := by rw [advance_rest, whole]; rfl
    rw [parseUnicode_yields, behind, whole]
  · next escape tail other whole =>
    have behind : (source.advance 1).rest = tail := by rw [advance_rest, whole]; rfl
    have simple : Piece reader ('\\' :: escape :: tail) char rest ↔ simpleEscape escape = some char ∧ rest = tail := by
      constructor
      · intro piece
        cases piece with
        | raw _ _ proper => exact absurd rfl proper
        | escape simple => exact ⟨simple, rfl⟩
        | unicode => exact (other rfl).elim
        | pair => exact (other rfl).elim
      · rintro ⟨simple, rfl⟩
        exact .escape simple
    rw [whole, simple]
    cases simpleEscape escape with
    | none => simp
    | some found => rw [yields_ok, behind, Option.some_inj, eq_comm]

theorem parseEscape_fails {failure : Failure} (failed : parseEscape source = .error failure) :
    (failure = .panic ∧ ∃ tail, source.rest = 'u' :: tail ∧ UnicodeStumbles tail) ∨ ∃ text, failure = .message text := by
  unfold parseEscape at failed
  split at failed
  · cases failed
    exact .inr ⟨_, rfl⟩
  · next tail whole =>
    have behind : (source.advance 1).rest = tail := by rw [advance_rest, whole]; rfl
    obtain ⟨isPanic, stumbles⟩ | message := parseUnicode_fails failed
    · exact .inl ⟨isPanic, tail, whole, behind ▸ stumbles⟩
    · exact .inr message
  · split at failed
    · cases failed
    · cases failed
      exact .inr ⟨_, rfl⟩

theorem parseEscape_panics (whole : source.rest = 'u' :: input) (stumbles : UnicodeStumbles input) :
    parseEscape source = .error .panic := by
  have behind : (source.advance 1).rest = input := by rw [advance_rest, whole]; rfl
  unfold parseEscape
  rw [whole]
  exact parseUnicode_panics (behind.symm ▸ stumbles)

theorem Hex.length {count start : Nat} (hex : Hex count start input codepoint rest) : rest.length ≤ input.length := by
  induction hex with
  | done => exact Nat.le_refl _
  | more _ _ ih => exact ih.trans (Nat.le_succ _)

theorem Piece.length {dialect : Dialect} (piece : Piece dialect input char rest) : rest.length < input.length := by
  cases piece with
  | raw => exact Nat.lt_succ_self _
  | escape => exact Nat.lt_succ_of_lt (Nat.lt_succ_self _)
  | unicode hex => exact Nat.lt_succ_of_lt (Nat.lt_succ_of_le hex.length)
  | pair hex _ hexLow =>
    have first := hex.length
    have second := hexLow.length
    simp only [List.length_cons] at first ⊢
    omega

theorem Contents.length {dialect : Dialect} (contents : Contents dialect input content rest) : rest.length < input.length := by
  induction contents with
  | close => exact Nat.lt_succ_self _
  | more piece _ ih => exact ih.trans piece.length

section loop

variable {fuel : Nat} {read : Except Failure (Char × Source)}

def moreContents (fuel : Nat) (read : Except Failure (Char × Source)) : Except Failure (List Char × Source) :=
  read >>= fun found => parseContents fuel found.2 >>= fun more => .ok (found.1 :: more.1, more.2)

theorem moreContents_yields (isPiece : ∀ char rest, Yields read char rest ↔ Piece reader input char rest)
    (inside : input.head? ≠ some '"') (loop : ∀ after content, after.rest.length < input.length →
      (Yields (parseContents fuel after) content rest ↔ Contents reader after.rest content rest)) :
    Yields (moreContents fuel read) content rest ↔ Contents reader input content rest := by
  simp only [moreContents, yields_bind]
  constructor
  · rintro ⟨⟨char, middle⟩, isRead, ⟨content, last⟩, isLoop, same⟩
    obtain ⟨rfl, rfl⟩ := yields_ok.mp same
    have piece := (isPiece char middle.rest).mp ⟨middle, isRead, rfl⟩
    exact .more piece ((loop middle content piece.length).mp ⟨last, isLoop, rfl⟩)
  · intro contents
    cases contents with
    | close => exact absurd rfl inside
    | more piece contents =>
      obtain ⟨middle, isRead, rfl⟩ := (isPiece _ _).mpr piece
      obtain ⟨last, isLoop, same⟩ := (loop middle _ piece.length).mpr contents
      exact ⟨_, isRead, _, isLoop, yields_ok.mpr ⟨rfl, same.symm⟩⟩

theorem piece_raw (tail : List Char) (notQuote : char ≠ '"') (notEscape : char ≠ '\\') {other : Char} :
    Piece reader (char :: tail) other rest ↔ other = char ∧ rest = tail := by
  constructor
  · intro piece
    cases piece with
    | raw => exact ⟨rfl, rfl⟩
    | escape => exact absurd rfl notEscape
    | unicode => exact absurd rfl notEscape
    | pair => exact absurd rfl notEscape
  · rintro ⟨rfl, rfl⟩
    exact .raw trivial notQuote notEscape

theorem parseContents_yields (enough : source.rest.length < fuel) :
    Yields (parseContents fuel source) content rest ↔ Contents reader source.rest content rest := by
  induction fuel generalizing source content with
  | zero => omega
  | succ fuel ih =>
    have loop : ∀ after content, after.rest.length < source.rest.length →
        (Yields (parseContents fuel after) content rest ↔ Contents reader after.rest content rest) :=
      fun after content shorter => ih (by omega)
    unfold parseContents
    split
    · next none =>
      rw [none]
      refine iff_of_false not_yields_err fun contents => ?_
      cases contents with
      | more piece => cases piece
    · next tail whole =>
      rw [yields_ok, advance_rest, whole]
      constructor
      · rintro ⟨rfl, rfl⟩
        exact .close
      · intro contents
        cases contents with
        | close => exact ⟨rfl, rfl⟩
        | more piece =>
          cases piece with
          | raw _ notQuote => exact absurd rfl notQuote
    · next tail whole =>
      change Yields (moreContents fuel (parseEscape (source.advance 1))) content rest ↔ _
      refine moreContents_yields (fun char rest => ?_) (by rw [whole]; simp) loop
      rw [parseEscape_yields, advance_rest, whole]
      rfl
    · next char tail notQuote notEscape whole =>
      change Yields (moreContents fuel (.ok (char, source.advance 1))) content rest ↔ _
      refine moreContents_yields (fun char rest => ?_) ?_ loop
      · rw [whole, piece_raw tail notQuote notEscape, yields_ok, advance_rest, whole]
        rfl
      · rw [whole]
        exact fun same => notQuote (Option.some_inj.mp same)

theorem moreContents_fails {failure : Failure} (failed : moreContents fuel read = .error failure) :
    read = .error failure ∨ ∃ char middle, read = .ok (char, middle) ∧ parseContents fuel middle = .error failure := by
  obtain isRead | ⟨⟨char, middle⟩, isRead, behind⟩ := bind_eq_error.mp failed
  · exact .inl isRead
  · obtain isLoop | ⟨_, _, same⟩ := bind_eq_error.mp behind
    · exact .inr ⟨char, middle, isRead, isLoop⟩
    · cases same

theorem parseContents_fails {failure : Failure} (enough : source.rest.length < fuel)
    (failed : parseContents fuel source = .error failure) :
    failure = .panic ∧ ContentsStumble source.rest ∨ ∃ text, failure = .message text := by
  induction fuel generalizing source with
  | zero => omega
  | succ fuel ih =>
    unfold parseContents at failed
    split at failed
    · cases failed
      exact .inr ⟨_, rfl⟩
    · cases failed
    · next tail whole =>
      have behind : (source.advance 1).rest = tail := by rw [advance_rest, whole]; rfl
      obtain isRead | ⟨char, middle, isRead, isLoop⟩ := moreContents_fails failed
      · obtain ⟨isPanic, input, escape, high, last, hex, isHigh, low, middle, rest, rfl, hexLow, isLow⟩ | message :=
          parseEscape_fails isRead
        · rw [whole, ← behind, escape]
          exact .inl ⟨isPanic, .pair hex isHigh hexLow isLow⟩
        · exact .inr message
      · have piece := parseEscape_yields.mp ⟨middle, isRead, rfl⟩
        rw [behind, ← whole] at piece
        have shorter := piece.length
        obtain ⟨isPanic, stumbles⟩ | message := ih (by omega) isLoop
        · exact .inl ⟨isPanic, .more piece stumbles⟩
        · exact .inr message
    · next char tail notQuote notEscape whole =>
      have failed : moreContents fuel (.ok (char, source.advance 1)) = .error failure := failed
      obtain isRead | ⟨_, middle, isRead, isLoop⟩ := moreContents_fails failed
      · cases isRead
      · cases isRead
        have piece : Piece reader source.rest char (source.advance 1).rest := by
          rw [advance_rest, whole]
          exact .raw trivial notQuote notEscape
        have shorter := piece.length
        obtain ⟨isPanic, stumbles⟩ | message := ih (by omega) isLoop
        · exact .inl ⟨isPanic, .more piece stumbles⟩
        · exact .inr message

theorem parseContents_escape (whole : source.rest = '\\' :: input) :
    parseContents (fuel + 1) source = moreContents fuel (parseEscape (source.advance 1)) := by
  unfold parseContents
  rw [whole]
  rfl

theorem parseContents_piece (piece : Piece reader source.rest char rest) : ∃ read middle, read = .ok (char, middle) ∧
    middle.rest = rest ∧ parseContents (fuel + 1) source = moreContents fuel read := by
  by_cases escaped : ∃ tail, source.rest = '\\' :: tail
  · obtain ⟨tail, whole⟩ := escaped
    have behind : (source.advance 1).rest = tail := by rw [advance_rest, whole]; rfl
    rw [whole, ← behind] at piece
    obtain ⟨middle, isRead, same⟩ := parseEscape_yields.mpr piece
    exact ⟨_, middle, isRead, same, parseContents_escape whole⟩
  · generalize whole : source.rest = text at piece
    cases piece with
    | raw _ notQuote notEscape =>
      refine ⟨_, source.advance 1, rfl, by rw [advance_rest, whole]; rfl, ?_⟩
      unfold parseContents
      split
      · next none => cases none.symm.trans whole
      · next quote =>
        cases quote.symm.trans whole
        exact absurd rfl notQuote
      · next tail escape => exact absurd ⟨tail, escape⟩ escaped
      · next same =>
        cases same.symm.trans whole
        rfl
    | _ => exact absurd ⟨_, whole⟩ escaped

theorem parseContents_panics (enough : source.rest.length < fuel) (stumbles : ContentsStumble source.rest) :
    parseContents fuel source = .error .panic := by
  generalize whole : source.rest = input at stumbles
  induction stumbles generalizing source fuel with
  | @pair tail _ _ _ _ hex isHigh hexLow isLow =>
    obtain ⟨fuel, rfl⟩ := Nat.exists_eq_succ_of_ne_zero (Nat.ne_zero_of_lt enough)
    have behind : (source.advance 1).rest = 'u' :: tail := by rw [advance_rest, whole]; rfl
    rw [Nat.succ_eq_add_one, parseContents_escape whole, moreContents,
      parseEscape_panics behind ⟨_, _, hex, isHigh, _, _, _, rfl, hexLow, isLow⟩]
    rfl
  | more piece _ ih =>
    obtain ⟨fuel, rfl⟩ := Nat.exists_eq_succ_of_ne_zero (Nat.ne_zero_of_lt enough)
    rw [← whole] at piece
    have shorter := piece.length
    obtain ⟨read, middle, rfl, rfl, same⟩ := @parseContents_piece _ _ _ fuel piece
    rw [Nat.succ_eq_add_one, same, moreContents]
    exact bind_eq_error.mpr (.inr ⟨_, rfl, bind_eq_error.mpr (.inl (ih (shorter.trans_le (Nat.le_of_lt_succ enough)) rfl))⟩)

end loop

end Metrale.Grammar.JsonValue
