import Metrale.Engine.CarryCounts

/-! # Carried rows are never orphaned

The account of a layer and a slot is what the committed verdicts accepted there since its count was last zero.  A
failed fold has already taken its slots off the list, and a failed commit has already counted its rows; in a run
without these every counted slot is listed once and each count is its account. -/

namespace Metrale.Engine

open Metrale.Foundation

variable {model : CarryModel} {inner after : CarryInner} {answers : Answers} {which : SlotStates → Bool}

namespace CarryInner

/-- Every slot with a count is listed once.  The other fields are what the bound buffers give. -/
structure Listed (model : CarryModel) (inner : CarryInner) : Prop where
  unprobed : inner.probed = false → inner.bufs = none
  unbound : inner.bufs = none → inner.pending = [] ∧ inner.mirror = []
  bound : ∀ b, inner.bufs = some b → b = model.bufs ∧ inner.mirror.length = model.bufs.layers * model.bufs.slots
  pending : ∀ r ∈ inner.pending, r.Fits model.bufs
  last : ∀ last, inner.last = some last → ∀ r ∈ last.seqs, r.Fits model.bufs
  listed : ∀ layer < model.bufs.layers, ∀ slot < model.bufs.slots,
    model.bufs.count inner.mirror layer slot ≠ 0 → inner.pending.countP (·.slot = slot) = 1

def Lowers (model : CarryModel) (before after : CarryInner) : Prop :=
  ∀ layer < model.bufs.layers, ∀ slot < model.bufs.slots,
    model.bufs.count after.mirror layer slot = 0 ∨
      model.bufs.count after.mirror layer slot = model.bufs.count before.mirror layer slot

/-- The fold's device operations succeed, if it selects a slot that some layer counts. -/
def FoldKept (model : CarryModel) (inner : CarryInner) (which : SlotStates → Bool) (answers : Answers) : Prop :=
  (∃ r ∈ inner.pending, which r = true ∧ model.bufs.holds inner.mirror r.slot = true) →
    Succeeds (foldOperations (inner.pending.filter which)) answers

theorem Lowers.refl (model : CarryModel) (inner : CarryInner) : Lowers model inner inner :=
  fun _ _ _ _ => .inr rfl

theorem Lowers.trans {middle : CarryInner} (earlier : Lowers model inner middle) (later : Lowers model middle after) :
    Lowers model inner after := by
  intro layer below slot inside
  obtain cleared | same := later layer below slot inside
  · exact .inl cleared
  · rw [same]
    exact earlier layer below slot inside

theorem Listed.withoutLast (good : Listed model inner) : Listed model { inner with last := none } :=
  { good with last := fun _ none => (by cases none) }

theorem Listed.withoutCommitted (good : Listed model inner) (committed : List Nat) :
    Listed model { inner with committed } := { good with }

/-! ## Flushing -/

theorem countP_filter_split (pending : List SlotStates) (which : SlotStates → Bool) (slot : Nat) :
    pending.countP (·.slot = slot) = (pending.filter which).countP (·.slot = slot) +
      (pending.filter fun r => !which r).countP (·.slot = slot) :=
  List.countP_eq_countP_filter_add pending _ which

theorem Listed.flush {reply : Except String Answers} (good : Listed model inner) (kept : FoldKept model inner which answers)
    (flushed : inner.flushLocked which answers = some (reply, after)) : Listed model after ∧ Lowers model inner after := by
  rw [flushLocked, List.partition_eq_filter_filter] at flushed
  obtain ⟨b, bound, folded⟩ := Option.map_eq_some_iff.mp flushed
  obtain ⟨rfl, size⟩ := good.bound b bound
  have selectedFits : ∀ r ∈ inner.pending.filter which, r.Fits model.bufs :=
    fun r listed => good.pending r (List.mem_filter.mp listed).1
  have keptFits : ∀ r ∈ inner.pending.filter fun r => !which r, r.Fits model.bufs :=
    fun r listed => good.pending r (List.mem_filter.mp listed).1
  cases asked : asks (foldOperations (inner.pending.filter which)) answers with
  | error e =>
    -- nothing that is counted was taken off the list
    have idle : ∀ r ∈ inner.pending.filter which, model.bufs.holds inner.mirror r.slot = false := by
      intro r listed
      obtain ⟨pending, selected⟩ := List.mem_filter.mp listed
      cases counted : model.bufs.holds inner.mirror r.slot with
      | false => rfl
      | true =>
        obtain ⟨rest, succeeded⟩ := asks_ok (kept ⟨r, pending, selected, counted⟩)
        rw [asked] at succeeded
        cases succeeded
    simp only [asked] at folded
    cases folded
    refine ⟨{ good with
      unbound := fun unbound => (by rw [bound] at unbound; cases unbound)
      pending := keptFits
      listed := fun layer below slot inside counted => ?_ }, .refl model _⟩
    have split := countP_filter_split inner.pending which slot
    have untouched : (inner.pending.filter which).countP (·.slot = slot) = 0 := by
      refine List.countP_eq_zero.mpr fun r listed same => ?_
      have uncounted := idle r listed
      rw [of_decide_eq_true same, holds_iff.mpr ⟨layer, below, counted⟩] at uncounted
      cases uncounted
    rw [good.listed layer below slot inside counted, untouched, Nat.zero_add] at split
    exact split.symm
  | ok rest =>
    simp only [asked] at folded
    cases folded
    have cleared := fun layer below slot inside =>
      @count_clear model.bufs _ layer slot _ size selectedFits below inside
    refine ⟨{ good with
      unbound := fun unbound => (by rw [bound] at unbound; cases unbound)
      bound := fun b given => ⟨(good.bound b given).1, clear_length.trans size⟩
      pending := keptFits
      listed := fun layer below slot inside counted => ?_ }, fun layer below slot inside => ?_⟩
    · change model.bufs.count (List.foldl _ _ _) layer slot ≠ 0 at counted
      rw [cleared layer below slot inside] at counted
      have unselected : ¬ ∃ r ∈ inner.pending.filter which, r.slot = slot := fun selected => by
        rw [if_pos selected] at counted
        exact counted rfl
      rw [if_neg unselected] at counted
      have split := countP_filter_split inner.pending which slot
      have untouched : (inner.pending.filter which).countP (·.slot = slot) = 0 :=
        List.countP_eq_zero.mpr fun r listed same => unselected ⟨r, listed, of_decide_eq_true same⟩
      rw [good.listed layer below slot inside counted, untouched, Nat.zero_add] at split
      exact split.symm
    · change model.bufs.count (List.foldl _ _ _) layer slot = 0 ∨ model.bufs.count (List.foldl _ _ _) layer slot = _
      rw [cleared layer below slot inside]
      split
      · exact .inl rfl
      · exact .inr rfl

/-! ## Beginning a verify -/

theorem Listed.bind {reply : Except String (Bool × Answers)} (good : Listed model inner)
    (bound : inner.bind model answers = (reply, after)) :
    Listed model after ∧ Lowers model inner after ∧
      (after = inner ∧ (∀ carries rest, reply = .ok (carries, rest) → rest = answers) ∨ after.pending = []) ∧ ∀ rest, reply = .ok (false, rest) → after.bufs = none := by
  unfold CarryInner.bind at bound
  cases probed : inner.probed with
  | true =>
    rw [if_pos probed] at bound
    cases bound
    refine ⟨good, .refl model _, .inl ⟨rfl, fun carries rest same => ?_⟩, fun rest declined => ?_⟩
    · cases same
      rfl
    · cases bufs : inner.bufs with
      | none => rfl
      | some b =>
        rw [bufs] at declined
        cases declined
  | false =>
    have unbound := good.unprobed probed
    obtain ⟨nothing, empty⟩ := good.unbound unbound
    have probedGood : Listed model { inner with probed := true } := { good with unprobed := fun not => (by cases not) }
    simp only [probed, Bool.false_eq_true, if_false] at bound
    by_cases carries : model.carries
    · rw [if_neg (not_not_intro carries)] at bound
      cases asked : asks 11 answers with
      | error e =>
        simp only [asked] at bound
        cases bound
        exact ⟨probedGood, .refl model _, .inr nothing, fun rest declined => (by cases declined)⟩
      | ok rest =>
        simp only [asked] at bound
        cases bound
        have zero : ∀ layer slot, model.bufs.count (List.replicate (model.bufs.layers * model.bufs.slots) 0) layer slot =
            0 := by
          intro layer slot
          rw [CarryBufs.count, List.getD_eq_getElem?_getD, List.getElem?_replicate]
          split <;> rfl
        refine ⟨{ probedGood with
          unprobed := fun not => (by cases not)
          unbound := fun none => (by cases none)
          bound := fun b given => ?_
          listed := fun layer _ slot _ counted => absurd (zero layer slot) counted },
          fun layer _ slot _ => .inl (zero layer slot), .inr nothing, fun rest declined => (by cases declined)⟩
        cases given
        exact ⟨rfl, List.length_replicate⟩
    · rw [if_pos carries] at bound
      cases bound
      exact ⟨probedGood, .refl model _, .inr nothing, fun rest _ => unbound⟩

theorem foldKept_of_none (none : inner.pending = []) : FoldKept model inner which answers := by
  rintro ⟨r, listed, -⟩
  rw [none] at listed
  cases listed

theorem Listed.declineCarry {reply : Except String Bool} (good : Listed model inner)
    (kept : FoldKept model inner (fun _ => true) answers) (declined : inner.declineCarry answers = some (reply, after)) :
    Listed model after ∧ Lowers model inner after := by
  unfold CarryInner.declineCarry at declined
  split at declined
  · cases declined
    exact ⟨good, .refl model _⟩
  · obtain ⟨⟨flushed, folded⟩, done, same⟩ := Option.map_eq_some_iff.mp declined
    cases same
    exact good.flush kept done

theorem Listed.acceptCarry {reply : Except String Bool} {seqs : List CarrySeq} {ks : List Nat} (good : Listed model inner)
    (kept : ∀ deep, eagerDeep model.bufs inner.mirror (ks.splitBy (· == ·)) seqs = some deep →
      FoldKept model inner (fun r => deep.contains r.slot) answers)
    (accepted : inner.acceptCarry model.bufs seqs ks answers = some (reply, after)) :
    Listed model after ∧ Lowers model inner after := by
  obtain ⟨deep, found, accepted⟩ := Option.bind_eq_some_iff.mp accepted
  split at accepted
  · cases accepted
    exact ⟨good, .refl model _⟩
  · obtain ⟨⟨flushed, folded⟩, done, same⟩ := Option.map_eq_some_iff.mp accepted
    cases same
    exact good.flush (kept deep found) done

/-- The slots that the beginning of a verify folds: all, if it does not carry, else those too deep. -/
def beginFolds (model : CarryModel) (inner : CarryInner) (requested : Bool) (seqs : List CarrySeq) (ks : List Nat)
    (r : SlotStates) : Bool :=
  if ¬ requested ∨ ¬ model.enabled then true
  else (inner.bufs.bind fun b => eagerDeep b inner.mirror (ks.splitBy (· == ·)) seqs).any fun deep => deep.contains r.slot

theorem Listed.begin {reply : Except String Bool} {requested : Bool} {seqs : List CarrySeq} {ks : List Nat}
    (good : Listed model inner) (kept : FoldKept model inner (inner.beginFolds model requested seqs ks) answers)
    (begun : inner.begin model requested seqs ks answers = some (reply, after)) :
    Listed model after ∧ Lowers model inner after := by
  unfold CarryInner.begin at begun
  have fresh := good.withoutLast
  by_cases declines : ¬ requested ∨ ¬ model.enabled
  · rw [if_pos declines] at begun
    have all : inner.beginFolds model requested seqs ks = fun _ => true := by
      funext r
      rw [beginFolds, if_pos declines]
    rw [all] at kept
    exact fresh.declineCarry kept begun
  · simp only [if_neg declines] at begun
    cases bound : CarryInner.bind model { inner with last := none } answers with
    | mk bindReply bindAfter =>
      obtain ⟨boundGood, lowers, untouched, unbound⟩ := fresh.bind bound
      rw [bound] at begun
      cases bindReply with
      | error e =>
        cases begun
        exact ⟨boundGood, lowers⟩
      | ok given =>
        obtain ⟨carries, rest⟩ := given
        cases carries with
        | false =>
          have nothing := (boundGood.unbound (unbound rest rfl)).1
          obtain ⟨declined, lowered⟩ := boundGood.declineCarry (foldKept_of_none nothing) begun
          exact ⟨declined, lowers.trans lowered⟩
        | true =>
          obtain ⟨b, bufs, accepted⟩ := Option.bind_eq_some_iff.mp begun
          obtain ⟨rfl, -⟩ := boundGood.bound b bufs
          have deepKept : ∀ deep, eagerDeep model.bufs bindAfter.mirror (ks.splitBy (· == ·)) seqs = some deep →
              FoldKept model bindAfter (fun r => deep.contains r.slot) rest := by
            intro deep found
            obtain ⟨rfl, answered⟩ | nothing := untouched
            · obtain rfl := answered true rest rfl
              have folds : inner.beginFolds model requested seqs ks = fun r => deep.contains r.slot := by
                funext r
                rw [beginFolds, if_neg declines, show inner.bufs = some model.bufs from bufs, Option.bind_some, found]
                rfl
              rw [folds] at kept
              exact kept
            · exact foldKept_of_none nothing
          obtain ⟨done, lowered⟩ := boundGood.acceptCarry deepKept accepted
          exact ⟨done, lowers.trans lowered⟩

/-! ## Ending a verify -/

theorem countP_keep (pending : List SlotStates) (keep : Nat → Bool) (slot : Nat) :
    (pending.filter fun p => keep p.slot).countP (·.slot = slot) =
      if keep slot then pending.countP (·.slot = slot) else 0 := by
  rw [List.countP_filter]
  split
  · next kept =>
    refine List.countP_congr fun p _ => ?_
    simp only [Bool.and_eq_true, decide_eq_true_eq]
    exact ⟨And.left, fun same => ⟨same, same ▸ kept⟩⟩
  · next gone =>
    refine List.countP_eq_zero.mpr fun p _ both => gone ?_
    simp only [Bool.and_eq_true, decide_eq_true_eq] at both
    exact both.1 ▸ both.2

theorem Listed.endRow {r : SlotStates} {change : Nat → UInt32 → UInt32} {mirror : List UInt32} (good : Listed model inner)
    (bound : inner.bufs = some model.bufs) (fits : r.Fits model.bufs)
    (lowers : ∀ layer rows, change layer rows = 0 ∨ change layer rows = rows)
    (changed : updateLayers model.bufs.slots r.slot change model.bufs.layers inner.mirror = mirror) :
    let others := inner.pending.filter fun p => p.slot ≠ r.slot
    let pending := if model.bufs.holds mirror r.slot then others ++ [r] else others
    Listed model { inner with mirror, pending } ∧ Lowers model inner { inner with mirror, pending } := by
  intro others pending
  have size := (good.bound _ bound).2
  have counts : ∀ layer < model.bufs.layers, ∀ slot < model.bufs.slots, model.bufs.count mirror layer slot =
      if layer < model.bufs.layers ∧ slot = r.slot then change layer (model.bufs.count inner.mirror layer slot)
      else model.bufs.count inner.mirror layer slot := by
    intro layer below slot inside
    rw [← changed]
    exact count_updateLayers size (Nat.le_refl _) fits.slot inside
  have othersCount : ∀ slot, others.countP (·.slot = slot) =
      if slot ≠ r.slot then inner.pending.countP (·.slot = slot) else 0 := by
    intro slot
    simpa [others] using countP_keep inner.pending (fun kept => decide (kept ≠ r.slot)) slot
  have othersFit : ∀ p ∈ others, p.Fits model.bufs := fun p listed => good.pending p (List.mem_filter.mp listed).1
  refine ⟨{ good with
    unbound := fun unbound => (by rw [bound] at unbound; cases unbound)
    bound := fun b given => ⟨(good.bound b given).1, ?_⟩
    pending := fun p listed => ?_
    listed := fun layer below slot inside counted => ?_ }, fun layer below slot inside => ?_⟩
  · rw [← changed]
    exact (updateLayers_length _ _).trans size
  · change p ∈ if _ then _ else _ at listed
    split at listed
    · obtain other | new := List.mem_append.mp listed
      · exact othersFit p other
      · rw [List.mem_singleton.mp new]
        exact fits
    · exact othersFit p listed
  · change model.bufs.count mirror layer slot ≠ 0 at counted
    change (if _ then _ else _ : List SlotStates).countP _ = 1
    by_cases here : slot = r.slot
    · rw [here] at counted ⊢
      rw [if_pos (holds_iff.mpr ⟨layer, below, counted⟩), List.countP_append, othersCount, if_neg (not_not_intro rfl)]
      simp
    · rw [counts layer below slot inside, if_neg fun same => here same.2] at counted
      have once := othersCount slot
      rw [if_pos here, good.listed layer below slot inside counted] at once
      split
      · have elsewhere : r.slot ≠ slot := fun same => here same.symm
        rw [List.countP_append, once]
        simp [elsewhere]
      · exact once
  · change model.bufs.count mirror layer slot = 0 ∨ model.bufs.count mirror layer slot = _
    rw [counts layer below slot inside]
    split
    · exact lowers layer _
    · exact .inr rfl

theorem Listed.endRows {words : Nat → UInt32} {seqs : List CarrySeq} {position : Nat}
    {reply : Except String (List SlotStates)} (good : Listed model inner) (bound : inner.bufs = some model.bufs)
    (done : inner.endRows model.bufs words seqs position = some (reply, after)) :
    Listed model after ∧ Lowers model inner after ∧ ∀ rows, reply = .ok rows → ∀ r ∈ rows, r.Fits model.bufs := by
  induction seqs generalizing inner position reply with
  | nil =>
    cases done
    exact ⟨good, .refl model _, fun rows same r listed => (by cases same; cases listed)⟩
  | cons seq seqs ih =>
    rw [CarryInner.endRows] at done
    cases found : model.bufs.slotStates seq with
    | error e =>
      simp only [found] at done
      cases done
      exact ⟨good, .refl model _, fun rows same => (by cases same)⟩
    | ok r =>
      have fits := slotStates_fits found
      simp only [found] at done
      split at done
      · cases done
      · obtain ⟨⟨rest, last⟩, later, same⟩ := Option.map_eq_some_iff.mp done
        cases same
        have lowers : ∀ (layer : Nat) (rows : UInt32), (if words (layer * verifyWyTableSeqs + position) ≠ 1 then 0 else rows) = 0 ∨
            (if words (layer * verifyWyTableSeqs + position) ≠ 1 then 0 else rows) = rows := by
          intro layer rows
          split
          · exact .inl rfl
          · exact .inr rfl
        obtain ⟨rowGood, lowered⟩ := good.endRow bound fits lowers rfl
        obtain ⟨lastGood, rest_lowered, restFits⟩ := ih rowGood bound later
        refine ⟨lastGood, lowered.trans rest_lowered, fun rows same p listed => ?_⟩
        cases rest with
        | error e => cases same
        | ok others =>
          cases same
          obtain rfl | listed := List.mem_cons.mp listed
          · exact fits
          · exact restFits others rfl p listed

theorem Listed.endVerify {seqs : List CarrySeq} {ks : List Nat} {words : Nat → UInt32} {reply : Except String Unit}
    (good : Listed model inner) (done : inner.endVerify seqs ks words answers = some (reply, after)) :
    Listed model after ∧ Lowers model inner after := by
  obtain ⟨b, bound, done⟩ := Option.bind_eq_some_iff.mp done
  obtain ⟨rfl, -⟩ := good.bound b bound
  cases asked : ask answers with
  | error e =>
    simp only [asked] at done
    cases done
    exact ⟨good, .refl model _⟩
  | ok rest =>
    simp only [asked] at done
    obtain ⟨⟨rowsReply, settled⟩, rows, same⟩ := Option.map_eq_some_iff.mp done
    obtain ⟨settledGood, lowered, fits⟩ := good.endRows bound rows
    cases rowsReply with
    | error e =>
      cases same
      exact ⟨settledGood, lowered⟩
    | ok verified =>
      cases uploaded : uploadMirror rest with
      | error e =>
        simp only [uploaded] at same
        cases same
        exact ⟨settledGood, lowered⟩
      | ok _ =>
        simp only [uploaded] at same
        cases same
        refine ⟨{ settledGood with last := fun last given => ?_ }, lowered⟩
        cases given
        exact fits verified rfl

/-! ## Committing a verdict -/

/-- A row is counted: it and all before it are valid, and some layer engaged for it. -/
def Counts (model : CarryModel) (last : LastCarry) (rows : List VerdictRow) : Prop :=
  ∃ earlier row later, rows = earlier ++ row :: later ∧ (∀ other ∈ earlier ++ [row], last.valid other = true) ∧
    last.Engaged model.bufs row

def Completes (model : CarryModel) (last : LastCarry) (rows : List VerdictRow) (answers : Answers) : Prop :=
  (∀ row ∈ rows, last.valid row = true) ∧ Succeeds (last.commitOperations model model.bufs rows) answers

/-- A verdict of which some row is counted completes, and no slot that then has a count is shared. -/
def CommitKept (model : CarryModel) (inner : CarryInner) (slots : List Nat) (acceptedRows : List UInt32)
    (answers : Answers) : Prop :=
  ∀ last, inner.last = some last → last.matchesVerdict model.bufs slots acceptedRows = true →
    (Counts model last (last.rows acceptedRows) → Completes model last (last.rows acceptedRows) answers) ∧
    (Completes model last (last.rows acceptedRows) answers → ∀ r ∈ last.seqs,
      (model.bufs.holds inner.mirror r.slot = true ∨
        ∃ row ∈ last.rows acceptedRows, row.1.1.slot = r.slot ∧ last.Engaged model.bufs row) →
      last.seqs.countP (·.slot = r.slot) = 1)

def committedRows (inner : CarryInner) (acceptedRows : List UInt32) (layer slot : Nat) : UInt32 :=
  inner.last.elim 0 fun last => last.accepted (last.rows acceptedRows) layer slot

/-- The counts of a commit: the accepted rows are added on `Ok`, and nothing on an error. -/
def Accounts (model : CarryModel) (before : CarryInner) (acceptedRows : List UInt32) (reply : Except String Bool)
    (after : CarryInner) : Prop :=
  ∀ layer < model.bufs.layers, ∀ slot < model.bufs.slots, model.bufs.count after.mirror layer slot =
    model.bufs.count before.mirror layer slot +
      if reply.isOk then before.committedRows acceptedRows layer slot else 0

theorem rows_mem {last : LastCarry} {acceptedRows : List UInt32} {row : VerdictRow} (listed : row ∈ last.rows acceptedRows) :
    row.1.1 ∈ last.seqs := by
  have pair := List.fst_mem_of_mem_zipIdx listed
  exact (List.of_mem_zip pair).1

theorem Listed.idle {last : LastCarry} {rows : List VerdictRow} (good : Listed model inner)
    (bound : inner.bufs = some model.bufs) (fits : ∀ row ∈ rows, row.1.1.Fits model.bufs)
    (idle : ∀ row ∈ rows, ¬ last.Engaged model.bufs row) :
    Listed model { inner with mirror := rows.foldl (last.countRows model.bufs.slots) inner.mirror } ∧
      ∀ layer < model.bufs.layers, ∀ slot < model.bufs.slots,
        model.bufs.count (rows.foldl (last.countRows model.bufs.slots) inner.mirror) layer slot =
          model.bufs.count inner.mirror layer slot := by
  have size := (good.bound _ bound).2
  have counts : ∀ layer < model.bufs.layers, ∀ slot < model.bufs.slots,
      model.bufs.count (rows.foldl (last.countRows model.bufs.slots) inner.mirror) layer slot =
        model.bufs.count inner.mirror layer slot := by
    intro layer below slot inside
    rw [LastCarry.count_foldl size fits below inside, LastCarry.accepted_eq_zero (fun row listed _ => idle row listed)
      below, UInt32.add_zero]
  refine ⟨{ good with
    unbound := fun unbound => (by rw [bound] at unbound; cases unbound)
    bound := fun b given => ⟨(good.bound b given).1, LastCarry.foldl_countRows_length.trans size⟩
    listed := fun layer below slot inside counted => ?_ }, counts⟩
  change model.bufs.count (List.foldl _ _ _) layer slot ≠ 0 at counted
  rw [counts layer below slot inside] at counted
  exact good.listed layer below slot inside counted

theorem Listed.complete {last : LastCarry} {rows : List VerdictRow} {slots : List Nat} (good : Listed model inner)
    (bound : inner.bufs = some model.bufs) (fits : ∀ r ∈ last.seqs, r.Fits model.bufs)
    (verified : ∀ row ∈ rows, row.1.1 ∈ last.seqs)
    (shared : ∀ r ∈ last.seqs, (model.bufs.holds inner.mirror r.slot = true ∨
      ∃ row ∈ rows, row.1.1.slot = r.slot ∧ last.Engaged model.bufs row) → last.seqs.countP (·.slot = r.slot) = 1) :
    Listed model { inner with
      mirror := rows.foldl (last.countRows model.bufs.slots) inner.mirror
      committed := slots
      pending := (inner.pending.filter fun p => last.seqs.all fun r => r.slot ≠ p.slot) ++ last.seqs } := by
  have size := (good.bound _ bound).2
  refine { good with
    unbound := fun unbound => (by rw [bound] at unbound; cases unbound)
    bound := fun b given => ⟨(good.bound b given).1, LastCarry.foldl_countRows_length.trans size⟩
    pending := fun p listed => ?_
    listed := fun layer below slot inside counted => ?_ }
  · obtain older | newer := List.mem_append.mp listed
    · exact good.pending p (List.mem_filter.mp older).1
    · exact fits p newer
  change model.bufs.count (List.foldl _ _ _) layer slot ≠ 0 at counted
  rw [LastCarry.count_foldl size (fun row listed => fits _ (verified row listed)) below inside] at counted
  have older := countP_keep inner.pending (fun kept => last.seqs.all fun r => r.slot ≠ kept) slot
  rw [List.countP_append, older]
  by_cases here : ∃ r ∈ last.seqs, r.slot = slot
  · obtain ⟨r, listed, rfl⟩ := here
    have among : (last.seqs.all fun other => decide (other.slot ≠ r.slot)) = false := by
      refine List.all_eq_false.mpr ⟨r, listed, ?_⟩
      simp
    rw [if_neg (by rw [among]; exact Bool.false_ne_true), Nat.zero_add]
    refine shared r listed ?_
    by_cases before : model.bufs.count inner.mirror layer r.slot = 0
    · refine .inr ?_
      by_contra idle
      refine counted ?_
      rw [before, LastCarry.accepted_eq_zero (fun row listed same engaged => idle ⟨row, listed, same, engaged⟩) below]
      rfl
    · exact .inl (holds_iff.mpr ⟨layer, below, before⟩)
  · have apart : (last.seqs.all fun other => decide (other.slot ≠ slot)) = true := by
      refine List.all_eq_true.mpr fun other listed => decide_eq_true fun same => here ⟨other, listed, same⟩
    have none : last.seqs.countP (·.slot = slot) = 0 :=
      List.countP_eq_zero.mpr fun r listed same => here ⟨r, listed, of_decide_eq_true same⟩
    rw [LastCarry.accepted_eq_zero (fun row listed same _ => here ⟨_, verified row listed, same⟩) below,
      UInt32.add_zero] at counted
    rw [if_pos apart, none, good.listed layer below slot inside counted]

theorem Listed.commit {slots : List Nat} {acceptedRows : List UInt32} {reply : Except String Bool}
    (good : Listed model inner) (kept : CommitKept model inner slots acceptedRows answers)
    (done : inner.commit model slots acceptedRows answers = some (reply, after)) :
    Listed model after ∧ Accounts model inner acceptedRows reply after := by
  unfold CarryInner.commit at done
  cases verified : inner.last with
  | none =>
    simp only [verified] at done
    cases done
    refine ⟨{ good with last := fun last none => (by cases none) }, fun layer _ slot _ => ?_⟩
    rw [committedRows, verified]
    exact (UInt32.add_zero _).symm
  | some last =>
    have taken : Listed model { inner with committed := [], last := none } := (good.withoutCommitted []).withoutLast
    simp only [verified] at done
    by_cases matched : last.matchesVerdict model.bufs slots acceptedRows
    · rw [if_neg (not_not_intro matched)] at done
      obtain ⟨b, bound, done⟩ := Option.bind_eq_some_iff.mp done
      obtain ⟨rfl, size⟩ := good.bound b bound
      obtain ⟨⟨rowsReply, mirror⟩, counted, done⟩ := Option.map_eq_some_iff.mp done
      have seqsFit : ∀ r ∈ last.seqs, r.Fits model.bufs := good.last last verified
      have fits : ∀ row ∈ last.rows acceptedRows, row.1.1.Fits model.bufs :=
        fun row listed => seqsFit _ (rows_mem listed)
      obtain ⟨completes, shared⟩ := kept last verified matched
      obtain ⟨rfl, valid, rfl⟩ | ⟨e, earlier, bad, later, rfl, split, valid, invalid, rfl⟩ :=
        LastCarry.commitRows_cases counted
      · cases asked : asks (last.commitOperations model model.bufs (last.rows acceptedRows)) answers with
        | ok rest =>
          simp only [asked] at done
          cases done
          refine ⟨taken.complete bound seqsFit (fun row listed => rows_mem listed)
            (shared ⟨valid, succeeds_of_asks asked⟩), fun layer below slot inside => ?_⟩
          rw [committedRows, verified]
          exact LastCarry.count_foldl size fits below inside
        | error e =>
          -- the device failed, so no row was counted
          have idle : ∀ row ∈ last.rows acceptedRows, ¬ last.Engaged model.bufs row := by
            intro row listed engaged
            obtain ⟨earlier, later, split⟩ := List.append_of_mem listed
            have counted : Counts model last (last.rows acceptedRows) :=
              ⟨earlier, row, later, split, fun other member => valid other (by
                rw [split, List.append_cons]
                exact List.mem_append_left _ member), engaged⟩
            obtain ⟨rest, succeeded⟩ := asks_ok (completes counted).2
            rw [asked] at succeeded
            cases succeeded
          obtain ⟨idleGood, same⟩ := taken.idle bound fits idle
          simp only [asked] at done
          cases done
          exact ⟨idleGood, fun layer below slot inside =>
            (same layer below slot inside).trans (UInt32.add_zero _).symm⟩
      · cases done
        -- an invalid row stopped the verdict, so no row before it was counted
        have idle : ∀ row ∈ earlier, ¬ last.Engaged model.bufs row := by
          intro row listed engaged
          obtain ⟨front, back, rfl⟩ := List.append_of_mem listed
          have all := (completes ⟨front, row, back ++ bad :: later, by rw [split]; simp, fun other member =>
            valid other ?_, engaged⟩).1 bad (by rw [split]; simp)
          · rw [invalid] at all
            cases all
          · rw [List.append_cons]
            exact List.mem_append_left _ member
        obtain ⟨idleGood, same⟩ := taken.idle bound
          (fun row listed => fits row (by rw [split]; exact List.mem_append_left _ listed)) idle
        exact ⟨idleGood, fun layer below slot inside =>
          (same layer below slot inside).trans (UInt32.add_zero _).symm⟩
    · rw [if_pos matched] at done
      cases done
      exact ⟨taken, fun layer _ slot _ => (UInt32.add_zero _).symm⟩

end CarryInner

/-! ## Runs -/

inductive CarryCall where
  | bindNow (answers : Answers)
  | begin (requested : Bool) (seqs : List CarrySeq) (ks : List Nat) (answers : Answers)
  | endVerify (seqs : List CarrySeq) (ks : List Nat) (words : Nat → UInt32) (answers : Answers)
  | commit (slots : List Nat) (acceptedRows : List UInt32) (answers : Answers)
  | flushPending (answers : Answers)
  | takeCommitted (slot : Nat)

structure CarrySystem where
  inner : CarryInner
  account : Nat → Nat → UInt32

namespace CarrySystem

open CarryInner

def start : CarrySystem where
  inner := .default
  account := fun _ _ => 0

def settle (model : CarryModel) (system : CarrySystem) (inner : CarryInner) : CarrySystem where
  inner
  account := fun layer slot =>
    if model.bufs.count inner.mirror layer slot = 0 then 0 else system.account layer slot

/-- A verdict whose commit is `Ok` is added to the account; one whose commit is an error is not. -/
def settleCommit (system : CarrySystem) (acceptedRows : List UInt32) (reply : Except String Bool) (inner : CarryInner) :
    CarrySystem where
  inner
  account := fun layer slot => system.account layer slot +
    if reply.isOk then system.inner.committedRows acceptedRows layer slot else 0

inductive Step (model : CarryModel) (system : CarrySystem) : CarryCall → CarrySystem → Prop where
  | bindNow {answers reply after} (done : system.inner.bind model answers = (reply, after)) :
      Step model system (.bindNow answers) (system.settle model after)
  | begin {requested seqs ks answers reply after}
      (done : system.inner.begin model requested seqs ks answers = some (reply, after)) :
      Step model system (.begin requested seqs ks answers) (system.settle model after)
  | endVerify {seqs ks words answers reply after}
      (done : system.inner.endVerify seqs ks words answers = some (reply, after)) :
      Step model system (.endVerify seqs ks words answers) (system.settle model after)
  | commit {slots acceptedRows answers reply after}
      (done : system.inner.commit model slots acceptedRows answers = some (reply, after)) :
      Step model system (.commit slots acceptedRows answers) (system.settleCommit acceptedRows reply after)
  | flushPending {answers reply after} (done : system.inner.flushPending answers = some (reply, after)) :
      Step model system (.flushPending answers) (system.settle model after)
  | takeCommitted {slot reply after} (done : system.inner.takeCommitted slot = (reply, after)) :
      Step model system (.takeCommitted slot) (system.settle model after)

/-- No fold of a counted slot fails, and a verdict with a counted row completes and shares no counted slot. -/
def Kept (model : CarryModel) (system : CarrySystem) : CarryCall → Prop
  | .begin requested seqs ks answers => FoldKept model system.inner (system.inner.beginFolds model requested seqs ks) answers
  | .commit slots acceptedRows answers => CommitKept model system.inner slots acceptedRows answers
  | .flushPending answers => FoldKept model system.inner (fun _ => true) answers
  | .bindNow _ | .endVerify .. | .takeCommitted _ => True

/-- Each slot with a count in some layer is listed once, and each count is its account. -/
structure Sound (model : CarryModel) (system : CarrySystem) : Prop where
  listed : ∀ slot < model.bufs.slots, model.bufs.holds system.inner.mirror slot = true →
    system.inner.pending.countP (·.slot = slot) = 1
  balanced : ∀ layer < model.bufs.layers, ∀ slot < model.bufs.slots,
    model.bufs.count system.inner.mirror layer slot = system.account layer slot

structure Good (model : CarryModel) (system : CarrySystem) : Prop where
  listed : Listed model system.inner
  balanced : ∀ layer < model.bufs.layers, ∀ slot < model.bufs.slots,
    model.bufs.count system.inner.mirror layer slot = system.account layer slot

variable {system next : CarrySystem} {call : CarryCall}

theorem Good.sound (good : Good model system) : Sound model system where
  listed := fun slot inside held =>
    have ⟨layer, below, counted⟩ := holds_iff.mp held
    good.listed.listed layer below slot inside counted
  balanced := good.balanced

theorem Good.start : Good model start where
  listed :=
    { unprobed := fun _ => rfl
      unbound := fun _ => ⟨rfl, rfl⟩
      bound := fun _ none => (by cases none)
      pending := fun _ none => (by cases none)
      last := fun _ none => (by cases none)
      listed := fun _ _ _ _ counted => absurd List.getD_nil counted }
  balanced := fun _ _ _ _ => List.getD_nil

theorem Good.settle (good : Good model system) (kept : Listed model after ∧ Lowers model system.inner after) :
    Good model (system.settle model after) := by
  refine ⟨kept.1, fun layer below slot inside => ?_⟩
  change model.bufs.count after.mirror layer slot = if _ then _ else _
  obtain cleared | same := kept.2 layer below slot inside
  · rw [if_pos cleared, cleared]
  · rw [same, ← good.balanced layer below slot inside]
    split
    · next zero => exact zero
    · rfl

theorem Good.step (good : Good model system) (kept : Kept model system call) (taken : Step model system call next) :
    Good model next := by
  cases taken with
  | bindNow done =>
    obtain ⟨listed, lowers, -⟩ := good.listed.bind done
    exact good.settle ⟨listed, lowers⟩
  | begin done => exact good.settle (good.listed.begin kept done)
  | endVerify done => exact good.settle (good.listed.endVerify done)
  | commit done =>
    obtain ⟨listed, accounts⟩ := good.listed.commit kept done
    refine ⟨listed, fun layer below slot inside => ?_⟩
    exact (accounts layer below slot inside).trans (by rw [good.balanced layer below slot inside]; rfl)
  | flushPending done =>
    unfold flushPending at done
    split at done
    · cases done
      exact good.settle ⟨good.listed, .refl model _⟩
    · exact good.settle (good.listed.flush kept done)
  | @takeCommitted slot _ _ done =>
    unfold takeCommitted at done
    cases found : system.inner.committed.findIdx? (· == slot) with
    | none =>
      rw [found] at done
      cases done
      exact good.settle ⟨good.listed, .refl model _⟩
    | some position =>
      rw [found] at done
      cases done
      exact good.settle ⟨good.listed.withoutCommitted _, fun _ _ _ _ => .inr rfl⟩

/-- In every run of kept calls, a slot with pending rows is listed once, and only committed verdicts are counted. -/
theorem carried_rows_listed {calls : List CarryCall} (run : Run (Guarded (Kept model) (Step model)) start calls system) :
    Sound model system :=
  (run.guarded_invariant (Good model) .start fun _ _ _ good kept taken => good.step kept taken).sound

/-! One layer and one sequence: a verify carries two rows, and its verdict accepts both. -/

def exampleModel : CarryModel where
  enabled := true
  carries := true
  batched := true
  bufs := { layers := 1, mtpSlots := 1, convDim := 8, dConv := 4 }
  hIntermediate := fun _ slot row => 1024 + UInt64.ofNat (slot * 8 + row)
  convIntermediate := fun _ slot row => 2048 + UInt64.ofNat (slot * 8 + row)
  hStoredBytes := 64

def exampleSeq : CarrySeq where
  slotIdx := 0
  layerStates := fun _ => some (16, 32)

def exampleStates : SlotStates where
  slot := 0
  h := [16]
  conv := [32]

def exampleInner (rows : UInt32) (pending : List SlotStates) (last : Option LastCarry) (committed : List Nat) :
    CarryInner where
  probed := true
  bufs := some exampleModel.bufs
  mirror := [rows, 0]
  pending
  last
  committed

def exampleVerify : LastCarry where
  seqs := [exampleStates]
  ks := [2]
  engaged := fun _ => true

def exampleVerified : CarrySystem :=
  (start.settle exampleModel (exampleInner 0 [] none [])).settle exampleModel (exampleInner 0 [] (some exampleVerify) [])

def examplePending : CarrySystem :=
  exampleVerified.settleCommit [2] (.ok true) (exampleInner 2 [exampleStates] none [0])

def exampleCalls : List CarryCall := [.begin true [exampleSeq] [2] [], .endVerify [exampleSeq] [2] (fun _ => 1) []]

theorem exampleVerified_run : Run (Guarded (Kept exampleModel) (Step exampleModel)) start exampleCalls exampleVerified :=
  .extend (.single ⟨foldKept_of_none rfl, @Step.begin _ _ _ _ _ _ (.ok true) _ rfl⟩)
    ⟨trivial, @Step.endVerify _ _ _ _ _ _ (.ok ()) _ rfl⟩

theorem examplePending_run :
    Run (Guarded (Kept exampleModel) (Step exampleModel)) start (exampleCalls ++ [.commit [0] [2] []]) examplePending := by
  refine .extend exampleVerified_run ⟨fun last verified _ => ?_, .commit rfl⟩
  cases verified
  refine ⟨fun _ => ⟨by decide, fun _ none => (by cases none)⟩, fun _ r listed _ => ?_⟩
  obtain rfl := List.mem_singleton.mp listed
  rfl

theorem carried_rows_listed_pending : Sound exampleModel examplePending := carried_rows_listed examplePending_run

/-- A launch of the fold fails: the slot is off the list with two rows counted.  A verdict's upload fails: its rows
are counted all the same. -/
theorem carried_rows_orphaned :
    (¬ ∀ (calls : List CarryCall) (system : CarrySystem), Run (Step exampleModel) start calls system →
      ∀ slot < exampleModel.bufs.slots, exampleModel.bufs.holds system.inner.mirror slot = true →
        system.inner.pending.countP (·.slot = slot) = 1) ∧
    ¬ ∀ (calls : List CarryCall) (system : CarrySystem), Run (Step exampleModel) start calls system →
      ∀ layer < exampleModel.bufs.layers, ∀ slot < exampleModel.bufs.slots,
        exampleModel.bufs.count system.inner.mirror layer slot = system.account layer slot := by
  constructor
  · intro always
    have once := always _ _ (.extend examplePending_run.unguarded
      (@Step.flushPending _ _ [.ok (), .ok (), .ok (), .error "launch"] (.error "launch") (exampleInner 2 [] none [0]) rfl))
      0 (by decide) (by decide)
    cases once
  · intro always
    have balanced := always _ _ (.extend exampleVerified_run.unguarded
      (@Step.commit _ _ [0] [2] [.error "upload"] (.error "upload") (exampleInner 2 [] none []) rfl))
      0 (by decide) 0 (by decide)
    cases balanced

end CarrySystem

end Metrale.Engine
