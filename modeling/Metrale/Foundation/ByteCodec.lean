import Mathlib

/-! # Bytes that are written and read

A reader takes bytes from the front of what is left, or fails.  Three things are asked of a reader, and all of them are
kept when readers follow each other: what it reads from the bytes of a value (`Reads`), that nothing behind those bytes
matters (`Local`), and how much room it reserves for what it has not read yet (`Spends`). -/

namespace Metrale.Foundation

/-! ## Little-endian numbers -/

def leBytes : Nat → Nat → List UInt8
  | 0, _ => []
  | width + 1, number => UInt8.ofNat number :: leBytes width (number / 256)

def ofLeBytes : List UInt8 → Nat
  | [] => 0
  | byte :: bytes => byte.toNat + 256 * ofLeBytes bytes

@[simp]
theorem length_leBytes (width number : Nat) : (leBytes width number).length = width := by
  induction width generalizing number with
  | zero => rfl
  | succ width ih => simp [leBytes, ih]

theorem ofLeBytes_leBytes {width number : Nat} (fits : number < 256 ^ width) : ofLeBytes (leBytes width number) = number := by
  induction width generalizing number with
  | zero =>
    rw [Nat.pow_zero] at fits
    simp [leBytes, ofLeBytes, Nat.lt_one_iff.mp fits]
  | succ width ih =>
    have smaller : number / 256 < 256 ^ width := Nat.div_lt_of_lt_mul (by rwa [Nat.pow_succ, Nat.mul_comm] at fits)
    rw [leBytes, ofLeBytes, ih smaller, UInt8.toNat_ofNat']
    exact Nat.mod_add_div number 256

/-! ## Readers -/

/-- The bytes that are left, and the number of elements that room was reserved for. -/
structure Source where
  rest : List UInt8
  reserved : Nat

def Source.held (source : Source) : Nat := source.reserved + source.rest.length

abbrev Reading := EStateM Unit Source

namespace Reading

variable {α β : Type}

def fail : Reading α := fun source => .error () source

def take (count : Nat) : Reading (List UInt8) := fun source =>
  if count ≤ source.rest.length then .ok (source.rest.take count) { source with rest := source.rest.drop count }
  else .error () source

def reserve (count : Nat) : Reading Unit := fun source => .ok () { source with reserved := source.reserved + count }

def repeated (item : Reading α) : Nat → Reading (List α)
  | 0 => pure []
  | count + 1 => do
    let first ← item
    let others ← repeated item count
    pure (first :: others)

def ofOption : Option α → Reading α
  | none => fail
  | some value => pure value

def expect [DecidableEq α] (read : Reading α) (wanted : α) : Reading Unit := do
  let found ← read
  if found = wanted then pure () else fail

/-- From the bytes the value is read, whatever follows them. -/
def Reads (read : Reading α) (bytes : List UInt8) (value : α) : Prop :=
  ∀ rest reserved, ∃ after, read ⟨bytes ++ rest, reserved⟩ = .ok value ⟨rest, after⟩

/-- What was read is read from the bytes it took alone. -/
def Local (read : Reading α) : Prop :=
  ∀ source value after, read source = .ok value after → ∃ used, source.rest = used ++ after.rest ∧ Reads read used value

/-- What is left when a reader ends. -/
def Ends (done failed : Source → Prop) : EStateM.Result Unit Source α → Prop
  | .ok _ after => done after
  | .error _ after => failed after

/-- The room that is reserved, less the bytes that were read, grows by no more than this. -/
def Spends (done failed : Nat) (read : Reading α) : Prop :=
  ∀ source, Ends (fun after => after.held ≤ source.held + done) (fun after => after.held ≤ source.held + failed) (read source)

variable {read : Reading α} {next : α → Reading β} {bytes more : List UInt8} {value other : α} {result : β} {count done failed : Nat}

theorem bind_ok {source after : Source} : (read >>= next) source = .ok result after ↔
    ∃ value middle, read source = .ok value middle ∧ next value middle = .ok result after := by
  change EStateM.bind read next source = _ ↔ _
  rw [EStateM.bind]
  cases read source with
  | ok value middle => simp
  | error => simp

/-! ### What is read -/

theorem Reads.pure (value : α) : Reads (Pure.pure value) [] value := fun _ reserved => ⟨reserved, rfl⟩

theorem Reads.bind (first : Reads read bytes value) (second : Reads (next value) more result) :
    Reads (read >>= next) (bytes ++ more) result := by
  intro rest reserved
  obtain ⟨middle, taken⟩ := first (more ++ rest) reserved
  obtain ⟨after, final⟩ := second rest middle
  refine ⟨after, bind_ok.mpr ⟨value, ⟨more ++ rest, middle⟩, ?_, final⟩⟩
  rw [List.append_assoc, taken]

theorem Reads.map {γ : Type} (reads : Reads read bytes value) (change : α → γ) :
    Reads (do let found ← read; Pure.pure (change found)) bytes (change value) := by
  have whole : Reads (do let found ← read; Pure.pure (change found)) (bytes ++ []) (change value) :=
    reads.bind (Reads.pure (change value))
  rwa [List.append_nil] at whole

theorem Reads.expect [DecidableEq α] (reads : Reads read bytes value) : Reads (Reading.expect read value) bytes () := by
  have whole : Reads (Reading.expect read value) (bytes ++ []) () := by
    apply reads.bind
    rw [if_pos rfl]
    exact Reads.pure ()
  rwa [List.append_nil] at whole

theorem Reads.unique (reads : Reads read bytes value) {rest : List UInt8} {source after : Source} (front : source.rest = bytes ++ rest)
    (taken : read source = .ok other after) : other = value ∧ after.rest = rest := by
  obtain ⟨final, known⟩ := reads rest source.reserved
  rw [← front, taken] at known
  cases known
  exact ⟨rfl, rfl⟩

/-- A reader that goes on past the bytes of its first value reads that value from them. -/
theorem Reads.first (reads : Reads read bytes value) {rest : List UInt8} {source after : Source} (front : source.rest = bytes ++ rest)
    (taken : (read >>= next) source = .ok result after) : ∃ middle, middle.rest = rest ∧ next value middle = .ok result after := by
  obtain ⟨found, middle, known, ends⟩ := bind_ok.mp taken
  obtain ⟨rfl, left⟩ := reads.unique front known
  exact ⟨middle, left, ends⟩

theorem expect_ok [DecidableEq α] {source after : Source} {answer : Unit} :
    Reading.expect read value source = .ok answer after ↔ read source = .ok value after := by
  rw [Reading.expect, bind_ok]
  constructor
  · rintro ⟨found, middle, taken, checked⟩
    split at checked
    · next same =>
      cases checked
      rw [taken, same]
    · cases checked
  · intro taken
    exact ⟨value, after, taken, by rw [if_pos rfl]; rfl⟩

theorem reads_take (bytes : List UInt8) : Reads (take bytes.length) bytes bytes := by
  intro rest reserved
  exact ⟨reserved, by simp [take]⟩

theorem reads_reserve (count : Nat) : Reads (reserve count) [] () := fun _ reserved => ⟨reserved + count, rfl⟩

theorem reads_repeated {item : Reading α} {write : α → List UInt8} (values : List α)
    (each : ∀ value ∈ values, Reads item (write value) value) :
    Reads (repeated item values.length) (values.flatMap write) values := by
  induction values with
  | nil => exact Reads.pure []
  | cons first values ih =>
    have later := ih fun value among => each value (List.mem_cons_of_mem _ among)
    rw [List.flatMap_cons]
    refine (each first List.mem_cons_self).bind ?_
    have whole : Reads (do let others ← repeated item values.length; Pure.pure (first :: others)) _ _ :=
      later.bind (Reads.pure (first :: values))
    rwa [List.append_nil] at whole

/-! ### Nothing behind matters -/

theorem Local.pure (value : α) : Local (Pure.pure value) := by
  rintro source _ _ ⟨⟩
  exact ⟨[], rfl, Reads.pure value⟩

theorem Local.bind (first : Local read) (second : ∀ value, Local (next value)) : Local (read >>= next) := by
  intro source result after final
  obtain ⟨value, middle, taken, ends⟩ := bind_ok.mp final
  obtain ⟨front, split, reads⟩ := first source value middle taken
  obtain ⟨back, splitBack, readsBack⟩ := second value middle result after ends
  exact ⟨front ++ back, by rw [split, splitBack, List.append_assoc], reads.bind readsBack⟩

theorem local_fail : Local (fail : Reading α) := by
  rintro _ _ _ ⟨⟩

theorem local_take (count : Nat) : Local (take count) := by
  intro source value after taken
  rw [take] at taken
  split at taken
  · next enough =>
    cases taken
    refine ⟨source.rest.take count, by simp, ?_⟩
    simpa [enough] using reads_take (source.rest.take count)
  · cases taken

theorem local_reserve (count : Nat) : Local (reserve count) := by
  rintro source _ _ ⟨⟩
  exact ⟨[], rfl, reads_reserve count⟩

theorem Local.map {γ : Type} (within : Local read) (change : α → γ) : Local (do let found ← read; Pure.pure (change found)) :=
  within.bind fun found => Local.pure (change found)

theorem Local.expect [DecidableEq α] (within : Local read) (wanted : α) : Local (Reading.expect read wanted) :=
  within.bind fun found => by
    split
    · exact Local.pure ()
    · exact local_fail

theorem local_ofOption (found : Option α) : Local (ofOption found) := by
  cases found with
  | none => exact local_fail
  | some value => exact Local.pure value

theorem local_repeated {item : Reading α} (each : Local item) (count : Nat) : Local (repeated item count) := by
  induction count with
  | zero => exact Local.pure []
  | succ count ih => exact each.bind fun first => ih.bind fun others => Local.pure (first :: others)

/-! ### What is reserved -/

section Ends

variable {done failed done' failed' : Source → Prop}

theorem Ends.mono {outcome : EStateM.Result Unit Source α} (ends : Ends done failed outcome) (doneLe : ∀ after, done after → done' after)
    (failedLe : ∀ after, failed after → failed' after) : Ends done' failed' outcome := by
  cases outcome with
  | ok value after => exact doneLe after ends
  | error value after => exact failedLe after ends

theorem Ends.bind {source : Source} (first : Ends done failed (read source)) (failedLe : ∀ after, failed after → failed' after)
    (second : ∀ value middle, done middle → Ends done' failed' (next value middle)) : Ends done' failed' ((read >>= next) source) := by
  change Ends done' failed' (EStateM.bind read next source)
  rw [EStateM.bind]
  cases outcome : read source with
  | ok value middle =>
    rw [outcome] at first
    exact second value middle first
  | error value after =>
    rw [outcome] at first
    exact failedLe after first

end Ends

theorem Spends.mono (spends : Spends done failed read) {done' failed' : Nat} (doneLe : done ≤ done') (failedLe : failed ≤ failed') :
    Spends done' failed' read := fun source =>
  (spends source).mono (fun _ known => known.trans (Nat.add_le_add_left doneLe _)) fun _ known =>
    known.trans (Nat.add_le_add_left failedLe _)

theorem Spends.pure (value : α) : Spends 0 0 (Pure.pure value) := fun _ => Nat.le_refl _

theorem Spends.bind {doneNext failedNext : Nat} (first : Spends done failed read) (second : ∀ value, Spends doneNext failedNext (next value)) :
    Spends (done + doneNext) (max failed (done + failedNext)) (read >>= next) := by
  intro source
  apply (first source).bind
  · intro after known
    exact known.trans (Nat.add_le_add_left (Nat.le_max_left _ _) _)
  · intro value middle known
    refine (second value middle).mono ?_ ?_
    · intro after later
      omega
    · intro after later
      omega

theorem spends_fail : Spends 0 0 (fail : Reading α) := fun _ => Nat.le_refl _

theorem spends_take (count : Nat) : Spends 0 0 (take count) := by
  intro source
  rw [take]
  split
  · simp [Ends, Source.held]
  · exact Nat.le_refl _

theorem spends_reserve (count : Nat) : Spends count 0 (reserve count) := by
  intro source
  change source.reserved + count + source.rest.length ≤ source.reserved + source.rest.length + count
  omega

/-- What follows is in reach of the same cap. -/
theorem Spends.then {doneNext cap : Nat} (first : Spends 0 cap read) (second : ∀ value, Spends doneNext cap (next value)) :
    Spends doneNext cap (read >>= next) :=
  (first.bind second).mono (by simp) (by simp)

theorem spends_ofOption (found : Option α) : Spends 0 0 (ofOption found) := by
  cases found with
  | none => exact spends_fail
  | some value => exact Spends.pure value

theorem Spends.expect [DecidableEq α] (spends : Spends 0 0 read) (wanted : α) : Spends 0 0 (Reading.expect read wanted) :=
  spends.then fun found => by
    split
    · exact Spends.pure ()
    · exact spends_fail

/-- Nothing is reserved, and of what is read at least so many bytes are taken. -/
def Plain (least : Nat) (item : Reading α) : Prop :=
  ∀ source, Ends (fun after => after.reserved = source.reserved ∧ after.rest.length + least ≤ source.rest.length)
    (fun after => after.reserved = source.reserved ∧ after.rest.length ≤ source.rest.length) (item source)

theorem Plain.least {least less : Nat} (plain : Plain least read) (le : less ≤ least) : Plain less read := fun source =>
  (plain source).mono (fun _ known => ⟨known.1, by omega⟩) fun _ known => known

theorem Plain.spends {least : Nat} (plain : Plain least read) : Spends 0 0 read := by
  intro source
  refine (plain source).mono ?_ ?_
  · rintro after ⟨reserved, taken⟩
    unfold Source.held
    omega
  · rintro after ⟨reserved, taken⟩
    unfold Source.held
    omega

theorem plain_take (count : Nat) : Plain count (take count) := by
  intro source
  rw [take]
  split
  · next enough => exact ⟨rfl, by rw [List.length_drop]; omega⟩
  · exact ⟨rfl, Nat.le_refl _⟩

theorem Plain.pure (value : α) : Plain 0 (Pure.pure value) := fun _ => ⟨rfl, Nat.le_refl _⟩

theorem Plain.bind {least leastNext : Nat} (first : Plain least read) (second : ∀ value, Plain leastNext (next value)) :
    Plain (least + leastNext) (read >>= next) := by
  intro source
  apply (first source).bind
  · exact fun _ known => known
  · intro value middle known
    refine (second value middle).mono ?_ ?_
    · rintro after ⟨reserved, taken⟩
      exact ⟨reserved.trans known.1, by omega⟩
    · rintro after ⟨reserved, taken⟩
      exact ⟨reserved.trans known.1, by omega⟩

theorem Plain.repeated {item : Reading α} (plain : Plain 1 item) (count : Nat) : Plain count (Reading.repeated item count) := by
  induction count with
  | zero => exact Plain.pure []
  | succ count ih =>
    have whole := plain.bind fun first => ih.bind fun others => Plain.pure (first :: others)
    rwa [Nat.add_zero, Nat.add_comm] at whole

/-- Room for a count that was read, up to a cap, is paid for by the items that follow, or the reader fails. -/
theorem Plain.spends_counted {item : Reading α} (plain : Plain 1 item) (count cap : Nat) :
    Spends 0 cap (do reserve (min count cap); Reading.repeated item count) := by
  intro source
  refine (plain.repeated count { source with reserved := source.reserved + min count cap }).mono ?_ ?_
  · rintro after ⟨reserved, taken⟩
    dsimp only at reserved taken
    unfold Source.held
    omega
  · rintro after ⟨reserved, taken⟩
    dsimp only at reserved taken
    unfold Source.held
    omega

theorem spends_repeated {item : Reading α} (each : Spends 0 failed item) (count : Nat) :
    Spends 0 failed (Reading.repeated item count) := by
  induction count with
  | zero => exact (Spends.pure []).mono (Nat.le_refl _) (Nat.zero_le _)
  | succ count ih =>
    exact each.then fun first => ih.then fun others =>
      (Spends.pure (first :: others)).mono (Nat.le_refl _) (Nat.zero_le _)

end Reading

end Metrale.Foundation
