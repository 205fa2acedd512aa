import Mathlib.Data.List.Basic
import Mathlib.Data.Char

/-! # Searching a text

A text is a list of characters.  A search gives the parts before and after what it finds; an offset into a text counts
bytes of UTF-8, and a cut at an offset fails beyond the end and inside a character. -/

namespace Metrale.Foundation

section Search

variable {Symbol : Type*} [DecidableEq Symbol]

/-- The parts before and after the first occurrence. -/
def splitFirst (needle : List Symbol) : List Symbol → Option (List Symbol × List Symbol)
  | [] => if needle = [] then some ([], []) else none
  | c :: text =>
    if needle.isPrefixOf (c :: text) then some ([], (c :: text).drop needle.length)
    else (splitFirst needle text).map fun parts => (c :: parts.1, parts.2)

/-- The parts before and after the last occurrence. -/
def splitLast (needle : List Symbol) : List Symbol → Option (List Symbol × List Symbol)
  | [] => if needle = [] then some ([], []) else none
  | c :: text =>
    match splitLast needle text with
    | some parts => some (c :: parts.1, parts.2)
    | none => if needle.isPrefixOf (c :: text) then some ([], (c :: text).drop needle.length) else none

def contains (needle text : List Symbol) : Bool := (splitFirst needle text).isSome

/-- The longest end of the text that begins the needle without being all of it, and what is before. -/
def splitPartial (needle : List Symbol) : List Symbol → Option (List Symbol × List Symbol)
  | [] => none
  | c :: text =>
    if (c :: text).isPrefixOf needle ∧ c :: text ≠ needle then some ([], c :: text)
    else (splitPartial needle text).map fun parts => (c :: parts.1, parts.2)

theorem prefix_split {needle text : List Symbol} (begins : needle.isPrefixOf text = true) :
    text = needle ++ text.drop needle.length := by
  obtain ⟨rest, rfl⟩ := List.isPrefixOf_iff_prefix.mp begins
  rw [List.drop_left]

theorem splitFirst_eq {needle text before after : List Symbol} (found : splitFirst needle text = some (before, after)) :
    text = before ++ needle ++ after := by
  induction text generalizing before with
  | nil =>
    rw [splitFirst] at found
    split at found
    · next empty =>
      cases found
      simp [empty]
    · cases found
  | cons c text ih =>
    rw [splitFirst] at found
    split at found
    · next begins =>
      cases found
      simpa using prefix_split begins
    · obtain ⟨parts, later, same⟩ := Option.map_eq_some_iff.mp found
      cases same
      rw [ih later]
      simp

theorem splitFirst_length {needle text before after : List Symbol}
    (found : splitFirst needle text = some (before, after)) :
    before.length + needle.length + after.length = text.length := by
  rw [splitFirst_eq found, List.length_append, List.length_append]

theorem splitFirst_isSome {needle text before after : List Symbol} (occurs : text = before ++ needle ++ after) :
    ∃ parts, splitFirst needle text = some parts := by
  induction before generalizing text with
  | nil =>
    cases text with
    | nil =>
      have empty : needle = [] := by simp_all
      exact ⟨_, by rw [splitFirst, if_pos empty]⟩
    | cons c text =>
      have begins : needle.isPrefixOf (c :: text) = true := List.isPrefixOf_iff_prefix.mpr ⟨after, by rw [occurs]; rfl⟩
      exact ⟨_, by rw [splitFirst, if_pos begins]⟩
  | cons c before ih =>
    subst occurs
    obtain ⟨parts, found⟩ := ih rfl
    change ∃ parts, splitFirst needle (c :: (before ++ needle ++ after)) = some parts
    rw [splitFirst, found]
    split
    · exact ⟨_, rfl⟩
    · exact ⟨_, rfl⟩

/-- No occurrence starts before the first. -/
theorem splitFirst_least {needle text before after other rest : List Symbol}
    (found : splitFirst needle text = some (before, after)) (occurs : text = other ++ needle ++ rest) :
    before.length ≤ other.length := by
  induction text generalizing before other with
  | nil =>
    rw [splitFirst] at found
    split at found
    · cases found
      exact Nat.zero_le _
    · cases found
  | cons c text ih =>
    rw [splitFirst] at found
    split at found
    · cases found
      exact Nat.zero_le _
    · next later =>
      obtain ⟨parts, foundLater, same⟩ := Option.map_eq_some_iff.mp found
      cases same
      cases other with
      | nil => exact absurd (List.isPrefixOf_iff_prefix.mpr ⟨rest, occurs.symm⟩) later
      | cons d other =>
        obtain ⟨-, tails⟩ := List.cons.inj occurs
        exact Nat.succ_le_succ (ih foundLater tails)

/-! ### Where no occurrence starts -/

/-- Where `back` follows, no occurrence starts in `front`. -/
def Clear (needle front back : List Symbol) : Prop :=
  ∀ other rest, front ++ back = other ++ needle ++ rest → front.length ≤ other.length

omit [DecidableEq Symbol] in
theorem Clear.append {needle first second back : List Symbol} (clear : Clear needle first (second ++ back))
    (clearSecond : Clear needle second back) : Clear needle (first ++ second) back := by
  intro other rest occurs
  rw [List.append_assoc] at occurs
  have longer := clear other rest occurs
  obtain ⟨more, rfl⟩ : first <+: other := by
    rw [List.append_assoc other] at occurs
    exact List.prefix_of_prefix_length_le ⟨_, rfl⟩ (occurs ▸ List.prefix_append other _) longer
  have behind := clearSecond more rest (by simpa [List.append_assoc] using occurs)
  simpa using behind

omit [DecidableEq Symbol] in
/-- A longer needle occurs where the shorter does. -/
theorem Clear.longer {needle front back : List Symbol} (clear : Clear needle front back) (more : List Symbol) :
    Clear (needle ++ more) front back := by
  intro other rest occurs
  exact clear other (more ++ rest) (by rw [occurs]; simp [List.append_assoc])

omit [DecidableEq Symbol] in
theorem Clear.of_absent {c : Symbol} {tail front : List Symbol} (absent : c ∉ front) (back : List Symbol) :
    Clear (c :: tail) front back := by
  intro other rest occurs
  by_contra shorter
  have here : (front ++ back)[other.length]? = some c := by simp [occurs]
  rw [List.getElem?_append_left (Nat.lt_of_not_le shorter)] at here
  exact absent (List.mem_of_getElem? here)

theorem Clear.of_free (c : Symbol) (tail : List Symbol) {front back : List Symbol} (free : contains (c :: tail) front = false)
    (apart : ∀ d ∈ back.head?, d ∉ tail) : Clear (c :: tail) front back := by
  intro other rest occurs
  by_contra shorter
  obtain ⟨more, rfl⟩ : other <+: front := by
    refine List.prefix_of_prefix_length_le ?_ (List.prefix_append front back) (by omega)
    exact occurs ▸ ⟨(c :: tail) ++ rest, by simp [List.append_assoc]⟩
  rw [List.append_assoc, List.append_assoc] at occurs
  have same := List.append_cancel_left occurs
  rcases List.append_eq_append_iff.mp same with ⟨overlap, needleSplit, backSplit⟩ | ⟨inside, moreSplit, -⟩
  · cases overlap with
    | nil =>
      have ends : other ++ more = other ++ (c :: tail) ++ [] := by rw [needleSplit]; simp
      obtain ⟨parts, found⟩ := splitFirst_isSome ends
      rw [contains, found] at free
      cases free
    | cons d overlap =>
      -- the needle goes on into `back`
      cases more with
      | nil => simp at shorter
      | cons e more =>
        obtain ⟨-, rfl⟩ := List.cons.inj needleSplit
        exact apart d (by simp [backSplit]) (by simp)
  · have occursInside : other ++ more = other ++ (c :: tail) ++ inside := by rw [moreSplit]; simp
    obtain ⟨parts, found⟩ := splitFirst_isSome occursInside
    rw [contains, found] at free
    cases free

/-- From no position on does the one begin the other. -/
def Mismatched (needle front : List Symbol) : Prop :=
  ∀ i < front.length, ¬(front.drop i).isPrefixOf needle ∧ ¬needle.isPrefixOf (front.drop i)

instance (needle front : List Symbol) : Decidable (Mismatched needle front) :=
  inferInstanceAs (Decidable (∀ i < front.length, ¬(front.drop i).isPrefixOf needle ∧ ¬needle.isPrefixOf (front.drop i)))

theorem Clear.of_mismatched {needle front : List Symbol} (mismatched : Mismatched needle front) (back : List Symbol) :
    Clear needle front back := by
  intro other rest occurs
  by_contra shorter
  rw [not_le] at shorter
  have same : front.drop other.length ++ back = needle ++ rest := by
    have dropped := congrArg (List.drop other.length) occurs
    rw [List.append_assoc, List.drop_left, List.drop_append_of_le_length (Nat.le_of_lt shorter)] at dropped
    exact dropped
  obtain ⟨frontDiffers, needleDiffers⟩ := mismatched other.length shorter
  rcases List.prefix_or_prefix_of_prefix (⟨back, rfl⟩ : front.drop other.length <+: _) (same ▸ List.prefix_append needle rest)
    with begins | begins
  · exact frontDiffers (List.isPrefixOf_iff_prefix.mpr begins)
  · exact needleDiffers (List.isPrefixOf_iff_prefix.mpr begins)

theorem splitFirst_clear {needle front back : List Symbol} (clear : Clear needle front (needle ++ back)) :
    splitFirst needle (front ++ (needle ++ back)) = some (front, back) := by
  obtain ⟨⟨before, after⟩, found⟩ := splitFirst_isSome (List.append_assoc front needle back).symm
  have least := splitFirst_least found (List.append_assoc front needle back).symm
  have split := splitFirst_eq found
  have longest := clear before after split
  rw [List.append_assoc before] at split
  obtain ⟨rfl, rest⟩ := List.append_inj split (Nat.le_antisymm longest least)
  rw [found, List.append_cancel_left rest]

end Search

/-! ## Offsets -/

def byteLength : List Char → Nat
  | [] => 0
  | c :: text => c.utf8Size + byteLength text

@[simp] theorem byteLength_append (text more : List Char) :
    byteLength (text ++ more) = byteLength text + byteLength more := by
  induction text with
  | nil => simp [byteLength]
  | cons c text ih => simp [byteLength, ih, Nat.add_assoc]

theorem byteLength_eq_zero {text : List Char} : byteLength text = 0 ↔ text = [] := by
  cases text with
  | nil => simp [byteLength]
  | cons c text =>
    have positive := Char.utf8Size_pos c
    simp only [byteLength, reduceCtorEq, iff_false]
    omega

/-- Of two beginnings of a text, the one of fewer bytes begins the other. -/
theorem prefix_of_byteLength_le {front shorter back rest : List Char} (same : shorter ++ rest = front ++ back)
    (shorterLength : byteLength shorter ≤ byteLength front) : shorter <+: front := by
  obtain shorterFirst | frontFirst := List.prefix_or_prefix_of_prefix (⟨rest, same⟩ : shorter <+: front ++ back)
    (List.prefix_append front back)
  · exact shorterFirst
  · obtain ⟨more, rfl⟩ := frontFirst
    rw [byteLength_append] at shorterLength
    obtain rfl := byteLength_eq_zero.mp (by omega : byteLength more = 0)
    exact ⟨[], by simp⟩

/-- The parts before and after an offset. -/
def cutAt : Nat → List Char → Option (List Char × List Char)
  | 0, text => some ([], text)
  | _ + 1, [] => none
  | n + 1, c :: text =>
    if c.utf8Size ≤ n + 1 then (cutAt (n + 1 - c.utf8Size) text).map fun parts => (c :: parts.1, parts.2) else none

/-- `text[from..to]` -/
def slice (text : List Char) (start stop : Nat) : Option (List Char) := do
  let upTo ← cutAt stop text
  let rest ← cutAt start upTo.1
  some rest.2

theorem cutAt_byteLength (before after : List Char) : cutAt (byteLength before) (before ++ after) = some (before, after) := by
  induction before with
  | nil => rw [byteLength, List.nil_append, cutAt]
  | cons c before ih =>
    obtain ⟨n, size⟩ : ∃ n, c.utf8Size + byteLength before = n + 1 :=
      Nat.exists_eq_add_one_of_ne_zero (by have := Char.utf8Size_pos c; omega)
    rw [byteLength, size, List.cons_append, cutAt, if_pos (by omega), ← size, Nat.add_sub_cancel_left,
      ih]
    rfl

theorem slice_byteLength (before middle after : List Char) :
    slice (before ++ middle ++ after) (byteLength before) (byteLength (before ++ middle)) = some middle := by
  rw [slice, cutAt_byteLength, Option.bind_eq_bind, Option.bind_some, cutAt_byteLength]
  rfl

def IsCharBoundary (text : List Char) (offset : Nat) : Prop := ∃ before after, text = before ++ after ∧ byteLength before = offset

theorem cutAt_eq_some {text before after : List Char} {offset : Nat} :
    cutAt offset text = some (before, after) ↔ text = before ++ after ∧ byteLength before = offset := by
  constructor
  · intro cut
    induction text generalizing offset before with
    | nil =>
      cases offset with
      | zero =>
        cases cut
        exact ⟨rfl, rfl⟩
      | succ n => cases cut
    | cons c text ih =>
      cases offset with
      | zero =>
        rw [cutAt] at cut
        cases cut
        exact ⟨rfl, rfl⟩
      | succ n =>
        rw [cutAt] at cut
        split at cut
        · next fits =>
          obtain ⟨parts, later, same⟩ := Option.map_eq_some_iff.mp cut
          cases same
          obtain ⟨rfl, length⟩ := ih later
          exact ⟨rfl, by rw [byteLength, length]; omega⟩
        · cases cut
  · rintro ⟨rfl, rfl⟩
    exact cutAt_byteLength before after

theorem cutAt_isSome {text : List Char} {offset : Nat} : (cutAt offset text).isSome ↔ IsCharBoundary text offset := by
  rw [Option.isSome_iff_exists]
  constructor
  · rintro ⟨⟨before, after⟩, cut⟩
    exact ⟨before, after, cutAt_eq_some.mp cut⟩
  · rintro ⟨before, after, cut⟩
    exact ⟨(before, after), cutAt_eq_some.mpr cut⟩

instance (text : List Char) (offset : Nat) : Decidable (IsCharBoundary text offset) :=
  decidable_of_iff _ cutAt_isSome

theorem isCharBoundary_byteLength (before after : List Char) : IsCharBoundary (before ++ after) (byteLength before) :=
  ⟨before, after, rfl, rfl⟩

theorem isCharBoundary_end (text : List Char) : IsCharBoundary text (byteLength text) := ⟨text, [], by simp, rfl⟩

namespace IsCharBoundary

variable {text : List Char} {offset : Nat}

theorem le (boundary : IsCharBoundary text offset) : offset ≤ byteLength text := by
  obtain ⟨before, after, rfl, rfl⟩ := boundary
  rw [byteLength_append]
  omega

theorem append (boundary : IsCharBoundary text offset) (more : List Char) : IsCharBoundary (text ++ more) offset := by
  obtain ⟨before, after, rfl, length⟩ := boundary
  exact ⟨before, after ++ more, List.append_assoc before after more, length⟩

/-- A boundary stays one where the text is cut behind it. -/
theorem of_append {front back : List Char} (boundary : IsCharBoundary (front ++ back) offset)
    (inside : offset ≤ byteLength front) : IsCharBoundary front offset := by
  obtain ⟨before, after, same, rfl⟩ := boundary
  obtain ⟨more, rfl⟩ := prefix_of_byteLength_le same.symm inside
  exact isCharBoundary_byteLength before more

end IsCharBoundary

/-- A cut succeeds between boundaries that are in order. -/
theorem slice_isSome {text : List Char} {start stop : Nat} :
    (slice text start stop).isSome ↔ start ≤ stop ∧ IsCharBoundary text start ∧ IsCharBoundary text stop := by
  rw [slice]
  constructor
  · intro cut
    obtain ⟨middle, known⟩ := Option.isSome_iff_exists.mp cut
    obtain ⟨⟨front, back⟩, upTo, known⟩ := Option.bind_eq_some_iff.mp known
    obtain ⟨⟨before, inner⟩, from_, -⟩ := Option.bind_eq_some_iff.mp known
    obtain ⟨rfl, rfl⟩ := cutAt_eq_some.mp upTo
    have inside := cutAt_isSome.mp (Option.isSome_of_eq_some from_)
    exact ⟨inside.le, inside.append back, isCharBoundary_byteLength front back⟩
  · rintro ⟨ordered, startFits, front, back, rfl, rfl⟩
    obtain ⟨parts, from_⟩ := Option.isSome_iff_exists.mp (cutAt_isSome.mpr (startFits.of_append ordered))
    rw [cutAt_byteLength, Option.bind_eq_bind, Option.bind_some, from_]
    rfl

theorem slice_front_isSome {front back : List Char} {start : Nat} :
    (slice (front ++ back) start (byteLength front)).isSome ↔ IsCharBoundary front start := by
  rw [slice_isSome]
  constructor
  · rintro ⟨ordered, fits, -⟩
    exact fits.of_append ordered
  · intro fits
    exact ⟨fits.le, fits.append back, isCharBoundary_byteLength front back⟩

theorem slice_whole_isSome {text : List Char} {start : Nat} :
    (slice text start (byteLength text)).isSome ↔ IsCharBoundary text start := by
  have front : (slice (text ++ []) start (byteLength text)).isSome ↔ IsCharBoundary text start := slice_front_isSome
  rwa [List.append_nil] at front

theorem slice_whole_front (front back : List Char) : slice (front ++ back) 0 (byteLength front) = some front :=
  slice_byteLength [] front back

def floorCharBoundary : List Char → Nat → Nat
  | [], _ => 0
  | c :: text, offset => if c.utf8Size ≤ offset then c.utf8Size + floorCharBoundary text (offset - c.utf8Size) else 0

/-- The floor is the end of a part of the text. -/
theorem floorCharBoundary_split (text : List Char) (offset : Nat) :
    ∃ before after, text = before ++ after ∧ byteLength before = floorCharBoundary text offset := by
  induction text generalizing offset with
  | nil => exact ⟨[], [], rfl, rfl⟩
  | cons c text ih =>
    rw [floorCharBoundary]
    split
    · obtain ⟨before, after, rfl, length⟩ := ih (offset - c.utf8Size)
      exact ⟨c :: before, after, rfl, congrArg _ length⟩
    · exact ⟨[], c :: text, rfl, rfl⟩

theorem floorCharBoundary_le (text : List Char) (offset : Nat) : floorCharBoundary text offset ≤ offset := by
  induction text generalizing offset with
  | nil => exact Nat.zero_le _
  | cons c text ih =>
    rw [floorCharBoundary]
    split
    · have := ih (offset - c.utf8Size)
      omega
    · exact Nat.zero_le _

theorem floorCharBoundary_mono (text : List Char) {offset later : Nat} (before : offset ≤ later) :
    floorCharBoundary text offset ≤ floorCharBoundary text later := by
  induction text generalizing offset later with
  | nil => exact Nat.le_refl _
  | cons c text ih =>
    rw [floorCharBoundary, floorCharBoundary]
    by_cases inside : c.utf8Size ≤ offset
    · rw [if_pos inside, if_pos (Nat.le_trans inside before)]
      exact Nat.add_le_add_left (ih (Nat.sub_le_sub_right before _)) _
    · rw [if_neg inside]
      exact Nat.zero_le _

/-- What follows does not move a floor within the text. -/
theorem floorCharBoundary_append {text : List Char} (more : List Char) {offset : Nat} (inside : offset ≤ byteLength text) :
    floorCharBoundary (text ++ more) offset = floorCharBoundary text offset := by
  induction text generalizing offset with
  | nil =>
    obtain rfl := Nat.le_zero.mp inside
    cases more with
    | nil => rfl
    | cons c more =>
      rw [List.nil_append]
      exact if_neg (Nat.not_le.mpr (Char.utf8Size_pos c))
  | cons c text ih =>
    rw [byteLength] at inside
    rw [List.cons_append, floorCharBoundary, floorCharBoundary, ih (by omega)]

theorem floorCharBoundary_byteLength (text : List Char) : floorCharBoundary text (byteLength text) = byteLength text := by
  induction text with
  | nil => rfl
  | cons c text ih =>
    rw [byteLength, floorCharBoundary, if_pos (Nat.le_add_right _ _), Nat.add_sub_cancel_left, ih]

/-! ## Replacement -/

/-- The text with every `needle` replaced, the next `skip` characters being of one that has been. -/
def replaceFrom (needle replacement : List Char) : Nat → List Char → List Char
  | _, [] => []
  | skip + 1, _ :: text => replaceFrom needle replacement skip text
  | 0, c :: text =>
    if needle.isPrefixOf (c :: text) then replacement ++ replaceFrom needle replacement (needle.length - 1) text
    else c :: replaceFrom needle replacement 0 text

/-- `replace`, of a needle that is not empty -/
def replaceAll (needle replacement text : List Char) : List Char := replaceFrom needle replacement 0 text

/-- A character at the end that is none of the needle's is kept. -/
theorem replaceFrom_last {needle replacement : List Char} {c : Char} (long : needle ≠ []) (other : c ∉ needle)
    {body : List Char} {skip : Nat} (inside : skip ≤ body.length) :
    ∃ front, replaceFrom needle replacement skip (body ++ [c]) = front ++ [c] := by
  induction body generalizing skip with
  | nil =>
    obtain rfl := Nat.le_zero.mp inside
    have notHere : ¬needle.isPrefixOf [c] = true := by
      intro begins
      obtain ⟨rest, whole⟩ := List.isPrefixOf_iff_prefix.mp begins
      cases needle with
      | nil => exact long rfl
      | cons d needle => exact other ((List.cons.inj whole).1 ▸ List.mem_cons_self)
    exact ⟨[], by rw [List.nil_append, replaceFrom, if_neg notHere, replaceFrom]⟩
  | cons d body ih =>
    rw [List.cons_append]
    cases skip with
    | succ skip => exact ih (Nat.le_of_succ_le_succ inside)
    | zero =>
      rw [replaceFrom]
      split
      · next begins =>
        obtain ⟨rest, whole⟩ := List.isPrefixOf_iff_prefix.mp begins
        -- a needle of the whole text would have `c`
        have short : needle.length ≤ body.length + 1 := by
          by_contra longer
          have same : needle = d :: (body ++ [c]) := by
            refine List.IsPrefix.eq_of_length_le ⟨rest, whole⟩ ?_
            simp only [List.length_cons, List.length_append, List.length_nil]
            omega
          exact other (same ▸ by simp)
        obtain ⟨front, ends⟩ := ih (Nat.sub_le_of_le_add short)
        exact ⟨replacement ++ front, by rw [ends, List.append_assoc]⟩
      · obtain ⟨front, ends⟩ := ih (Nat.zero_le _)
        exact ⟨d :: front, by rw [ends, List.cons_append]⟩

/-! ## Blanks -/

/-- `White_Space` -/
def isBlank (c : Char) : Bool :=
  let n := c.toNat
  (9 ≤ n && n ≤ 13) || n == 0x20 || n == 0x85 || n == 0xA0 || n == 0x1680 || (0x2000 ≤ n && n ≤ 0x200A) || n == 0x2028 ||
    n == 0x2029 || n == 0x202F || n == 0x205F || n == 0x3000

/-- `is_ascii_whitespace` -/
def isAsciiBlank (c : Char) : Bool := c == ' ' || c == '\t' || c == '\n' || c == '\x0c' || c == '\r'

def trimStart (text : List Char) : List Char := text.dropWhile isBlank

def trimEnd (text : List Char) : List Char := (text.reverse.dropWhile isBlank).reverse

def trim (text : List Char) : List Char := trimEnd (trimStart text)

/-- `trim_matches`, of a character -/
def trimMatches (c : Char) (text : List Char) : List Char :=
  ((text.dropWhile (· = c)).reverse.dropWhile (· = c)).reverse

def stripPrefix (start text : List Char) : Option (List Char) :=
  if start.isPrefixOf text then some (text.drop start.length) else none

def trimStartMatches (start text : List Char) : List Char :=
  Nat.repeat (fun rest => (stripPrefix start rest).getD rest) text.length text

end Metrale.Foundation
