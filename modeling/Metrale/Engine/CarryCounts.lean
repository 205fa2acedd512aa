import Metrale.Engine.GdnCarry

/-! # What each carry operation does to the counts

Each operation has one specification: which counts it clears or raises, and what it leaves listed. -/

namespace Metrale.Engine

open Metrale.Foundation

variable {bufs b : CarryBufs} {mirror : List UInt32} {layers layer slot other : Nat} {answers : Answers}

/-! ## Counts -/

theorem cell_inj {slots l m : Nat} (inside : slot < slots) (otherInside : other < slots)
    (same : l * slots + slot = m * slots + other) : l = m ∧ slot = other := by
  have positive : 0 < slots := by omega
  have layersSame := congrArg (· / slots) same
  have slotsSame := congrArg (· % slots) same
  simp only [Nat.add_comm (_ * slots), Nat.add_mul_div_right _ _ positive, Nat.div_eq_of_lt inside,
    Nat.div_eq_of_lt otherInside] at layersSame
  simp only [Nat.add_comm (_ * slots), Nat.add_mul_mod_self_right, Nat.mod_eq_of_lt inside,
    Nat.mod_eq_of_lt otherInside] at slotsSame
  omega

theorem cell_inside {slots : Nat} (inside : slot < slots) (below : layer < layers) :
    layer * slots + slot < layers * slots := by
  calc layer * slots + slot < layer * slots + slots := by omega
    _ = (layer + 1) * slots := by rw [Nat.succ_mul]
    _ ≤ layers * slots := Nat.mul_le_mul_right _ below

@[simp] theorem updateLayers_length (slots : Nat) (change : Nat → UInt32 → UInt32) :
    (updateLayers slots slot change layers mirror).length = mirror.length := by
  induction layers with
  | zero => rfl
  | succ layers ih => rw [updateLayers, List.length_set, ih]

theorem count_updateLayers {change : Nat → UInt32 → UInt32} (size : mirror.length = bufs.layers * bufs.slots)
    (within : layers ≤ bufs.layers) (inside : slot < bufs.slots) (otherInside : other < bufs.slots) :
    bufs.count (updateLayers bufs.slots slot change layers mirror) layer other =
      if layer < layers ∧ other = slot then change layer (bufs.count mirror layer other)
      else bufs.count mirror layer other := by
  induction layers with
  | zero => simp [updateLayers]
  | succ layers ih =>
    have earlier := ih (by omega)
    unfold CarryBufs.count at earlier ⊢
    rw [updateLayers, getD_set]
    by_cases here : layer * bufs.slots + other = layers * bufs.slots + slot
    · obtain ⟨rfl, rfl⟩ := cell_inj otherInside inside here
      have inRange : layer * bufs.slots + other < (updateLayers bufs.slots other change layer mirror).length := by
        rw [updateLayers_length, size]
        exact cell_inside inside within
      rw [if_pos ⟨rfl, inRange⟩, if_pos ⟨Nat.lt_succ_self _, rfl⟩, earlier,
        if_neg fun before => Nat.lt_irrefl _ before.1]
    · rw [if_neg fun at_ => here at_.1, earlier]
      refine if_congr ⟨fun before => ⟨by omega, before.2⟩, fun before => ⟨?_, before.2⟩⟩ rfl rfl
      have differs : layer ≠ layers := by
        rintro rfl
        exact here (by rw [before.2])
      omega

theorem holds_iff : bufs.holds mirror slot = true ↔ ∃ layer < bufs.layers, bufs.count mirror layer slot ≠ 0 := by
  simp [CarryBufs.holds, List.any_eq_true]

/-! ## Device operations -/

def Succeeds (operations : Nat) (answers : Answers) : Prop := ∀ answer ∈ answers.take operations, answer = .ok ()

theorem asks_ok {operations : Nat} (succeeds : Succeeds operations answers) : ∃ rest, asks operations answers = .ok rest := by
  induction operations generalizing answers with
  | zero => exact ⟨answers, rfl⟩
  | succ operations ih =>
    cases answers with
    | nil =>
      obtain ⟨rest, asked⟩ := @ih [] (fun _ none => (by simp at none))
      exact ⟨rest, asked⟩
    | cons answer answers =>
      obtain rfl := succeeds answer (by simp)
      obtain ⟨rest, asked⟩ := @ih answers fun other listed => succeeds other (by simp [listed])
      exact ⟨rest, asked⟩

theorem succeeds_of_asks {operations : Nat} {rest : Answers} (asked : asks operations answers = .ok rest) :
    Succeeds operations answers := by
  induction operations generalizing answers with
  | zero => exact fun _ none => (by cases none)
  | succ operations ih =>
    cases answers with
    | nil => exact fun _ none => (by cases none)
    | cons answer answers =>
      cases answer with
      | error e => cases asked
      | ok _ =>
        intro other listed
        rw [List.take_succ_cons] at listed
        obtain rfl | listed := List.mem_cons.mp listed
        · rfl
        · exact ih asked other listed

/-! ## The rows of the table -/

structure SlotStates.Fits (bufs : CarryBufs) (r : SlotStates) : Prop where
  slot : r.slot < bufs.slots
  layers : r.h.length = bufs.layers

theorem mapM_length {Datum Written : Type} {write : Datum → Except String Written} {data : List Datum}
    {written : List Written} (done : data.mapM write = .ok written) : written.length = data.length := by
  induction data generalizing written with
  | nil =>
    cases done
    rfl
  | cons datum data ih =>
    rw [List.mapM_cons] at done
    cases first : write datum with
    | error e =>
      rw [first] at done
      cases done
    | ok result =>
      rw [first] at done
      cases later : data.mapM write with
      | error e =>
        rw [later] at done
        cases done
      | ok results =>
        rw [later] at done
        cases done
        rw [List.length_cons, List.length_cons, ih later]

theorem slotStates_fits {seq : CarrySeq} {r : SlotStates} (found : bufs.slotStates seq = .ok r) : r.Fits bufs := by
  unfold CarryBufs.slotStates at found
  cases states : (List.range bufs.layers).mapM seq.layerState with
  | error e =>
    rw [states] at found
    cases found
  | ok given =>
    rw [states] at found
    cases found
    refine ⟨Nat.lt_succ_of_le (Nat.min_le_right _ _), ?_⟩
    rw [List.length_map, mapM_length states, List.length_range]

/-! ## Flushing -/

theorem count_clear {selected : List SlotStates} (size : mirror.length = bufs.layers * bufs.slots)
    (fits : ∀ r ∈ selected, r.Fits bufs) (below : layer < bufs.layers) (inside : slot < bufs.slots) :
    bufs.count (selected.foldl
      (fun mirror r => updateLayers bufs.slots r.slot (fun _ _ => 0) bufs.layers mirror) mirror) layer slot =
      if ∃ r ∈ selected, r.slot = slot then 0 else bufs.count mirror layer slot := by
  induction selected generalizing mirror with
  | nil => simp
  | cons r selected ih =>
    rw [List.foldl_cons, ih ((updateLayers_length _ _).trans size)
      fun other listed => fits other (List.mem_cons_of_mem _ listed),
      count_updateLayers size (Nat.le_refl _) (fits r List.mem_cons_self).slot inside]
    by_cases later : ∃ r ∈ selected, r.slot = slot
    · obtain ⟨other, listed, same⟩ := later
      rw [if_pos ⟨other, listed, same⟩, if_pos ⟨other, List.mem_cons_of_mem _ listed, same⟩]
    · rw [if_neg later]
      by_cases here : r.slot = slot
      · rw [if_pos ⟨below, here.symm⟩, if_pos ⟨r, List.mem_cons_self, here⟩]
      · rw [if_neg fun at_ => here at_.2.symm, if_neg]
        rintro ⟨other, listed, same⟩
        obtain rfl | listed := List.mem_cons.mp listed
        · exact here same
        · exact later ⟨other, listed, same⟩

theorem clear_length {selected : List SlotStates} :
    (selected.foldl (fun mirror r => updateLayers bufs.slots r.slot (fun _ _ => 0) bufs.layers mirror) mirror).length =
      mirror.length := by
  induction selected generalizing mirror with
  | nil => rfl
  | cons r selected ih => rw [List.foldl_cons, ih, updateLayers_length]

/-! ## Verdicts -/

namespace LastCarry

variable {last : LastCarry} {rows : List VerdictRow}

def accepted (last : LastCarry) (rows : List VerdictRow) (layer slot : Nat) : UInt32 :=
  rows.foldr (fun row rest => (if row.1.1.slot = slot ∧ last.engages row.2 layer then row.1.2 else 0) + rest) 0

theorem count_countRows {row : VerdictRow} (size : mirror.length = bufs.layers * bufs.slots) (fits : row.1.1.Fits bufs)
    (below : layer < bufs.layers) (inside : slot < bufs.slots) :
    bufs.count (last.countRows bufs.slots mirror row) layer slot =
      bufs.count mirror layer slot + if row.1.1.slot = slot ∧ last.engages row.2 layer then row.1.2 else 0 := by
  rw [countRows, count_updateLayers size (Nat.le_of_eq fits.layers) fits.slot inside, fits.layers]
  by_cases same : row.1.1.slot = slot
  · rw [if_pos ⟨below, same.symm⟩]
    by_cases engaged : last.engages row.2 layer
    · rw [if_pos engaged, if_pos ⟨same, engaged⟩]
    · rw [if_neg engaged, if_neg fun here => engaged here.2, UInt32.add_zero]
  · rw [if_neg fun here => same here.2.symm, if_neg fun here => same here.1, UInt32.add_zero]

theorem countRows_length (last : LastCarry) (slots : Nat) (row : VerdictRow) :
    (last.countRows slots mirror row).length = mirror.length := updateLayers_length _ _

theorem foldl_countRows_length : (rows.foldl (last.countRows bufs.slots) mirror).length = mirror.length := by
  induction rows generalizing mirror with
  | nil => rfl
  | cons row rows ih => rw [List.foldl_cons, ih, countRows_length]

theorem count_foldl (size : mirror.length = bufs.layers * bufs.slots) (fits : ∀ row ∈ rows, row.1.1.Fits bufs)
    (below : layer < bufs.layers) (inside : slot < bufs.slots) :
    bufs.count (rows.foldl (last.countRows bufs.slots) mirror) layer slot =
      bufs.count mirror layer slot + last.accepted rows layer slot := by
  induction rows generalizing mirror with
  | nil => exact (UInt32.add_zero _).symm
  | cons row rows ih =>
    rw [List.foldl_cons, ih ((last.countRows_length _ _).trans size)
      fun other listed => fits other (List.mem_cons_of_mem _ listed),
      count_countRows size (fits row List.mem_cons_self) below inside, UInt32.add_assoc]
    rfl

def Engaged (last : LastCarry) (bufs : CarryBufs) (row : VerdictRow) : Prop :=
  ∃ layer < bufs.layers, last.engages row.2 layer = true

theorem accepted_eq_zero (idle : ∀ row ∈ rows, row.1.1.slot = slot → ¬ last.Engaged bufs row)
    (below : layer < bufs.layers) : last.accepted rows layer slot = 0 := by
  induction rows with
  | nil => rfl
  | cons row rows ih =>
    have rest := ih fun other listed => idle other (List.mem_cons_of_mem _ listed)
    rw [accepted, List.foldr_cons, if_neg fun here => idle row List.mem_cons_self here.1
      ⟨layer, below, here.2⟩, UInt32.zero_add]
    exact rest

theorem commitRows_cases {slots : Nat} {reply : Except String Unit} {after : List UInt32}
    (done : last.commitRows slots mirror rows = some (reply, after)) :
    (reply = .ok () ∧ (∀ row ∈ rows, last.valid row = true) ∧ after = rows.foldl (last.countRows slots) mirror) ∨
    ∃ e earlier bad later, reply = .error e ∧ rows = earlier ++ bad :: later ∧
      (∀ row ∈ earlier, last.valid row = true) ∧ last.valid bad = false ∧
      after = earlier.foldl (last.countRows slots) mirror := by
  induction rows generalizing mirror with
  | nil =>
    cases done
    exact .inl ⟨rfl, fun _ none => (by cases none), rfl⟩
  | cons row rows ih =>
    rw [commitRows] at done
    cases run : last.ks[row.2]? with
    | none =>
      rw [run] at done
      cases done
    | some k =>
      simp only [run] at done
      by_cases valid : last.valid row
      · rw [if_neg (not_not_intro valid)] at done
        obtain ⟨replied, all, counted⟩ | ⟨e, earlier, bad, later, replied, split, all, invalid, counted⟩ :=
          ih done
        · refine .inl ⟨replied, fun other listed => ?_, counted⟩
          obtain rfl | listed := List.mem_cons.mp listed
          · exact valid
          · exact all other listed
        · refine .inr ⟨e, row :: earlier, bad, later, replied, congrArg (row :: ·) split, fun other listed => ?_,
            invalid, counted⟩
          obtain rfl | listed := List.mem_cons.mp listed
          · exact valid
          · exact all other listed
      · rw [if_pos valid] at done
        cases done
        exact .inr ⟨_, [], row, rows, rfl, rfl, fun _ none => (by cases none), (Bool.not_eq_true _).mp valid, rfl⟩

end LastCarry

end Metrale.Engine
