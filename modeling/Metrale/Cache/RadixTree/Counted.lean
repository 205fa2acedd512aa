import Metrale.Cache.RadixTree.Calls

/-! # Paths that someone holds

`Counted` is the invariant of well-behaved clients: a cached prefix's count is the cache's own and
one for each path that covers it.  Taking a path, dropping it and storing one keep it, and so does
eviction, which takes no prefix that a path covers. -/

namespace Metrale.Cache

open Metrale.Foundation
open RadixTreeInner (InsertArgs)

/-- The first `blocks` blocks of `tokens`. -/
structure HeldPath where
  adapterId : AdapterId
  tokens : List Token
  blockSize : Nat
  blocks : Nat

namespace HeldPath

def Covers (held : HeldPath) (adapterId : AdapterId) (path : List Chunk) : Prop :=
  held.adapterId = adapterId ∧ OnPath held.tokens held.blockSize held.blocks path

instance (adapterId : AdapterId) (path : List Chunk) :
    DecidablePred fun held : HeldPath => held.Covers adapterId path :=
  fun _ => inferInstanceAs (Decidable (_ ∧ _))

def Fits (held : HeldPath) : Prop :=
  0 < held.blockSize ∧ held.blocks ≤ held.tokens.length / held.blockSize

end HeldPath

theorem onPath_congr {tokens others : List Token} {blockSize blocks : Nat}
    (agree : ∀ i, i ≤ blocks → trail others blockSize i = trail tokens blockSize i) {path : List Chunk} :
    OnPath others blockSize blocks path ↔ OnPath tokens blockSize blocks path := by
  simp only [OnPath]
  refine and_congr_right fun _ => and_congr_right fun le => ?_
  rw [agree _ le]

def holders (held : Multiset HeldPath) (adapterId : AdapterId) (path : List Chunk) : Nat :=
  held.countP fun one => one.Covers adapterId path

structure Counted (map : PrefixMap) (held : Multiset HeldPath) : Prop where
  count : ∀ adapterId path value, map adapterId path = some value →
    value.refs = 1 + holders held adapterId path
  present : ∀ one ∈ held, ∀ adapterId path, one.Covers adapterId path → (map adapterId path).isSome
  fits : ∀ one ∈ held, one.Fits

theorem holders_cons (one : HeldPath) (held : Multiset HeldPath) (adapterId : AdapterId)
    (path : List Chunk) :
    holders (one ::ₘ held) adapterId path =
      holders held adapterId path + if one.Covers adapterId path then 1 else 0 :=
  Multiset.countP_cons _ _ _

namespace Counted

variable {map : PrefixMap} {held : Multiset HeldPath} {one : HeldPath}

theorem empty : Counted (fun _ _ => none) 0 where
  count := fun _ _ _ stored => by cases stored
  present := fun one member => absurd member (Multiset.notMem_zero one)
  fits := fun one member => absurd member (Multiset.notMem_zero one)

theorem holders_eq_zero (counted : Counted map held) {adapterId : AdapterId} {path : List Chunk}
    (absent : map adapterId path = none) : holders held adapterId path = 0 := by
  refine Multiset.countP_eq_zero.mpr fun one member covers => ?_
  have present := counted.present one member adapterId path covers
  rw [absent] at present
  cases present

theorem acquire (counted : Counted map held) (fits : one.Fits)
    (reached : ∀ path, OnPath one.tokens one.blockSize one.blocks path →
      (map one.adapterId path).isSome) :
    Counted (RadixTree.acquired map one.adapterId one.tokens one.blockSize one.blocks)
      (one ::ₘ held) := by
  -- Taking counts removes no path, so what was held stays present.
  have grows : ∀ adapterId path, (map adapterId path).isSome →
      (RadixTree.acquired map one.adapterId one.tokens one.blockSize one.blocks adapterId path).isSome := by
    intro adapterId path stored
    simp only [RadixTree.acquired, PathMap.alter]
    split
    · rwa [Option.isSome_map]
    · exact stored
  constructor
  case count =>
    intro adapterId path value stored
    rw [holders_cons]
    simp only [RadixTree.acquired, PathMap.alter] at stored
    split at stored
    · next reached =>
      obtain ⟨old, found, rfl⟩ := Option.map_eq_some_iff.mp stored
      have covers : one.Covers adapterId path := ⟨reached.1.symm, reached.2⟩
      rw [if_pos covers, ← Nat.add_assoc, ← counted.count adapterId path old found]
      rfl
    · next free =>
      have notCovers : ¬ one.Covers adapterId path := fun covers => free ⟨covers.1.symm, covers.2⟩
      rw [if_neg notCovers]
      exact counted.count adapterId path value stored
  case present =>
    intro other member adapterId path covers
    apply grows
    rcases Multiset.mem_cons.mp member with rfl | old
    · rw [← covers.1]
      exact reached path covers.2
    · exact counted.present other old adapterId path covers
  case fits =>
    intro other member
    rcases Multiset.mem_cons.mp member with rfl | old
    · exact fits
    · exact counted.fits other old

theorem release (counted : Counted map (one ::ₘ held)) :
    Counted (RadixTree.released map one.adapterId one.tokens one.blockSize one.blocks) held := by
  constructor
  case count =>
    intro adapterId path value stored
    simp only [RadixTree.released, PathMap.alter] at stored
    split at stored
    · next reached =>
      obtain ⟨old, found, rfl⟩ := Option.map_eq_some_iff.mp stored
      have count := counted.count adapterId path old found
      have covers : one.Covers adapterId path := ⟨reached.1.symm, reached.2⟩
      rw [holders_cons, if_pos covers] at count
      show old.refs - 1 = _
      omega
    · next free =>
      have count := counted.count adapterId path value stored
      have notCovers : ¬ one.Covers adapterId path := fun covers => free ⟨covers.1.symm, covers.2⟩
      rwa [holders_cons, if_neg notCovers] at count
  case present =>
    intro other member adapterId path covers
    have stored := counted.present other (Multiset.mem_cons_of_mem member) adapterId path covers
    simp only [RadixTree.released, PathMap.alter]
    split
    · rwa [Option.isSome_map]
    · exact stored
  case fits => exact fun other member => counted.fits other (Multiset.mem_cons_of_mem member)

theorem insert {extended : HeldPath} {args : InsertArgs} (counted : Counted map (one ::ₘ held))
    (adapter : one.adapterId = args.adapterId) (sameAdapter : extended.adapterId = args.adapterId)
    (fits : extended.Fits)
    (extends_iff : ∀ path, OnPath extended.tokens extended.blockSize extended.blocks path ↔
      OnPath one.tokens one.blockSize one.blocks path ∨
        OnPath args.tokens args.blockSize args.numBlocks path ∧
          args.isSeqOwned (path.length - 1) = true)
    (once : ∀ path, OnPath one.tokens one.blockSize one.blocks path →
      args.isSeqOwned (path.length - 1) = true →
      ¬ OnPath args.tokens args.blockSize args.numBlocks path) :
    Counted (RadixTree.inserted map args) (extended ::ₘ held) := by
  have covers_iff : ∀ adapterId path, extended.Covers adapterId path ↔
      one.Covers adapterId path ∨ adapterId = args.adapterId ∧
        OnPath args.tokens args.blockSize args.numBlocks path ∧
          args.isSeqOwned (path.length - 1) = true := by
    intro adapterId path
    simp only [HeldPath.Covers]
    rw [extends_iff, adapter, sameAdapter, and_or_left]
    exact or_congr_right (and_congr_left' eq_comm)
  constructor
  case count =>
    intro adapterId path value stored
    rw [holders_cons]
    simp only [RadixTree.inserted, PathMap.alter] at stored
    split at stored
    · next reached =>
      -- Whether the block is owned decides whether the path grows over it.
      have grown : (if extended.Covers adapterId path then 1 else 0) =
          (if one.Covers adapterId path then 1 else 0) +
            if args.isSeqOwned (path.length - 1) = true then 1 else 0 := by
        by_cases owned : args.isSeqOwned (path.length - 1) = true
        · have notOne : ¬ one.Covers adapterId path := fun covers =>
            once path covers.2 owned reached.2
          rw [if_pos ((covers_iff _ _).mpr (.inr ⟨reached.1, reached.2, owned⟩)), if_neg notOne,
            if_pos owned]
        · have same : extended.Covers adapterId path ↔ one.Covers adapterId path := by
            rw [covers_iff]
            exact ⟨fun either => either.resolve_right fun now => owned now.2.2, .inl⟩
          rw [if_neg owned, Nat.add_zero, if_congr same rfl rfl]
      rw [grown]
      cases found : map adapterId path with
      | some old =>
        have count := counted.count adapterId path old found
        rw [holders_cons] at count
        rw [found] at stored
        cases stored
        show (if old.refs = 0 then 1 else old.refs) + _ = _
        rw [if_neg (by omega), count]
        omega
      | none =>
        have nobody := counted.holders_eq_zero found
        rw [holders_cons] at nobody
        rw [found] at stored
        cases stored
        show (if _ then 2 else 1) = _
        split <;> omega
    · next free =>
      have same : extended.Covers adapterId path ↔ one.Covers adapterId path := by
        rw [covers_iff]
        exact ⟨fun either => either.resolve_right fun now => free ⟨now.1, now.2.1⟩, .inl⟩
      rw [if_congr same rfl rfl, ← holders_cons]
      exact counted.count adapterId path value stored
  case present =>
    intro other member adapterId path covers
    simp only [RadixTree.inserted, PathMap.alter]
    split
    · cases map adapterId path <;> rfl
    · next free =>
      rcases Multiset.mem_cons.mp member with rfl | old
      · rcases (covers_iff _ _).mp covers with before | now
        · exact counted.present one (Multiset.mem_cons_self _ _) adapterId path before
        · exact absurd ⟨now.1, now.2.1⟩ free
      · exact counted.present other (Multiset.mem_cons_of_mem old) adapterId path covers
  case fits =>
    intro other member
    rcases Multiset.mem_cons.mp member with rfl | old
    · exact fits
    · exact counted.fits other (Multiset.mem_cons_of_mem old)

theorem idle (counted : Counted map held) (adapterId : AdapterId) (tokens : List Token) {blockSize : Nat}
    (positive : 0 < blockSize) : Counted map (⟨adapterId, tokens, blockSize, 0⟩ ::ₘ held) := by
  have same := @acquire _ _ ⟨adapterId, tokens, blockSize, 0⟩ counted ⟨positive, Nat.zero_le _⟩
    fun path member => absurd member RadixTree.not_onPath_zero
  rwa [RadixTree.acquired_zero] at same

theorem replace (counted : Counted map (one ::ₘ held)) {others : List Token}
    (agree : ∀ i, i ≤ one.blocks → trail others one.blockSize i = trail one.tokens one.blockSize i)
    (inside : one.blocks ≤ others.length / one.blockSize) :
    Counted map ({ one with tokens := others } ::ₘ held) := by
  have covers_iff : ∀ adapterId path,
      ({ one with tokens := others } : HeldPath).Covers adapterId path ↔ one.Covers adapterId path :=
    fun adapterId path => and_congr_right fun _ => onPath_congr agree
  constructor
  case count =>
    intro adapterId path value stored
    have count := counted.count adapterId path value stored
    rw [holders_cons] at count
    rw [count, holders_cons, if_congr (covers_iff adapterId path) rfl rfl]
  case present =>
    intro other member adapterId path covers
    rcases Multiset.mem_cons.mp member with rfl | old
    · exact counted.present one (Multiset.mem_cons_self _ _) adapterId path ((covers_iff _ _).mp covers)
    · exact counted.present other (Multiset.mem_cons_of_mem old) adapterId path covers
  case fits =>
    intro other member
    rcases Multiset.mem_cons.mp member with rfl | old
    · exact ⟨(counted.fits one (Multiset.mem_cons_self _ _)).1, inside⟩
    · exact counted.fits other (Multiset.mem_cons_of_mem old)

theorem insert_unowned (counted : Counted map (one ::ₘ held)) {args : InsertArgs}
    (adapter : one.adapterId = args.adapterId)
    (unowned : ∀ i, i < args.numBlocks → i * args.blockSize < args.matchedTokens) :
    Counted (RadixTree.inserted map args) (one ::ₘ held) := by
  have notOwned : ∀ path, OnPath args.tokens args.blockSize args.numBlocks path →
      ¬ args.isSeqOwned (path.length - 1) = true := by
    rintro path ⟨proper, le, _⟩ owned
    have pos : 0 < path.length := List.length_pos_iff.mpr proper
    have below := unowned (path.length - 1) (by omega)
    rw [InsertArgs.isSeqOwned, decide_eq_true_eq] at owned
    omega
  refine counted.insert adapter adapter (counted.fits one (Multiset.mem_cons_self _ _)) ?_ ?_
  · intro path
    exact ⟨.inl, fun either => either.resolve_right fun now => notOwned path now.1 now.2⟩
  · exact fun path _ owned reached => notOwned path reached owned

theorem insert_rest (counted : Counted map (one ::ₘ held)) {args : InsertArgs} {tokens : List Token}
    (adapter : one.adapterId = args.adapterId) (size : one.blockSize = args.blockSize)
    (agreeHeld : ∀ i, i ≤ one.blocks → trail tokens args.blockSize i = trail one.tokens args.blockSize i)
    (agreeStored : ∀ i, i ≤ args.numBlocks →
      trail tokens args.blockSize i = trail args.tokens args.blockSize i)
    (inside : max one.blocks args.numBlocks ≤ tokens.length / args.blockSize)
    (rest : ∀ i, i < args.numBlocks → (args.matchedTokens ≤ i * args.blockSize ↔ one.blocks ≤ i)) :
    Counted (RadixTree.inserted map args)
      (⟨args.adapterId, tokens, args.blockSize, max one.blocks args.numBlocks⟩ ::ₘ held) := by
  have owned : ∀ path, OnPath args.tokens args.blockSize args.numBlocks path →
      (args.isSeqOwned (path.length - 1) = true ↔ one.blocks < path.length) := by
    rintro path ⟨proper, le, _⟩
    have pos : 0 < path.length := List.length_pos_iff.mpr proper
    rw [InsertArgs.isSeqOwned, decide_eq_true_eq, rest _ (by omega)]
    omega
  refine counted.insert adapter rfl ⟨?_, inside⟩ ?_ ?_
  · rw [← size]
    exact (counted.fits one (Multiset.mem_cons_self _ _)).1
  · intro path
    rw [size]
    -- Along the tokens, the held and the stored path are the two parts of the longer one.
    constructor
    · rintro ⟨proper, le, same⟩
      change path.length ≤ max one.blocks args.numBlocks at le
      by_cases old : path.length ≤ one.blocks
      · exact .inl ⟨proper, old, same.trans (agreeHeld _ old)⟩
      · have short : path.length ≤ args.numBlocks := by omega
        have reached : OnPath args.tokens args.blockSize args.numBlocks path :=
          ⟨proper, short, same.trans (agreeStored _ short)⟩
        exact .inr ⟨reached, (owned path reached).mpr (Nat.lt_of_not_le old)⟩
    · rintro (⟨proper, le, same⟩ | ⟨⟨proper, le, same⟩, _⟩)
      · exact ⟨proper, Nat.le_trans le (Nat.le_max_left _ _), same.trans (agreeHeld _ le).symm⟩
      · exact ⟨proper, Nat.le_trans le (Nat.le_max_right _ _), same.trans (agreeStored _ le).symm⟩
  · rintro path ⟨_, le, _⟩ isOwned reached
    exact absurd le (Nat.not_le_of_lt ((owned path reached).mp isOwned))

theorem keeps (counted : Counted map held) (closed : map.Closed) {after : PrefixMap}
    (pruned : PathMap.Pruned RadixTree.Unheld map after) (member : one ∈ held)
    {adapterId : AdapterId} {path : List Chunk} (covers : one.Covers adapterId path) :
    after adapterId path = map adapterId path := by
  obtain ⟨value, stored⟩ :=
    Option.isSome_iff_exists.mp (counted.present one member adapterId path covers)
  have count := counted.count adapterId path value stored
  have positive : 0 < holders held adapterId path := Multiset.countP_pos_of_mem member covers
  rw [stored]
  exact pruned.keeps_stored closed stored fun unheld => by
    simp only [RadixTree.Unheld] at unheld
    omega

theorem prune (counted : Counted map held) (closed : map.Closed) {after : PrefixMap}
    (pruned : PathMap.Pruned RadixTree.Unheld map after) : Counted after held where
  count := fun adapterId path value stored =>
    counted.count adapterId path value (pruned.restricts stored)
  present := by
    intro one member adapterId path covers
    rw [counted.keeps closed pruned member covers]
    exact counted.present one member adapterId path covers
  fits := counted.fits

end Counted

/-! ## What a counted tree promises -/

namespace RadixTreeInner

variable {tree : RadixTreeInner} {held : Multiset HeldPath} {one : HeldPath}

theorem refCount_eq (wf : tree.WellFormed) (counted : Counted tree.cached held) {id : NodeId}
    (linked : (tree.node id).parent ≠ none) :
    ∃ adapterId path, tree.find adapterId path = some id ∧
      (tree.node id).refCount = 1 + holders held adapterId path := by
  obtain ⟨adapterId, path, found⟩ := wf.reached linked
  have proper := (wf.find_isSome_parent found).mp linked
  exact ⟨adapterId, path, found, counted.count adapterId path _ (cached_of_find found proper)⟩

theorem find_held_evict (wf : tree.WellFormed) (counted : Counted tree.cached held)
    (member : one ∈ held) (numBlocks : Nat) {i : Nat} (below : i < one.blocks) :
    ∃ id, tree.find one.adapterId (trail one.tokens one.blockSize (i + 1)) = some id ∧
      (RadixTree.evict tree numBlocks).2.find one.adapterId
        (trail one.tokens one.blockSize (i + 1)) = some id := by
  have covers : one.Covers one.adapterId (trail one.tokens one.blockSize (i + 1)) :=
    ⟨rfl, onPath_iff.mpr ⟨i, below, rfl⟩⟩
  have pruned := (RadixTree.evict_spec wf numBlocks).2
  obtain ⟨value, stored⟩ := Option.isSome_iff_exists.mp (counted.present one member _ _ covers)
  rw [← counted.keeps tree.cached_closed pruned member covers] at stored
  obtain ⟨_, id, found, _⟩ := cached_eq_some_iff.mp stored
  exact ⟨id, find_of_find_evict wf numBlocks found, found⟩

theorem walk_held (wf : tree.WellFormed) (counted : Counted tree.cached held) (member : one ∈ held) :
    one.blocks * one.blockSize ≤ (tree.walk one.tokens one.blockSize one.adapterId).matchedTokens := by
  obtain ⟨positive, inside⟩ := counted.fits one member
  obtain ⟨depth, answers⟩ := walk_longest wf one.tokens positive one.adapterId
  have deep : one.blocks ≤ depth := by
    refine answers.longest.le_of_reached inside fun i below => ?_
    obtain ⟨value, stored⟩ := Option.isSome_iff_exists.mp
      (counted.present one member _ _ ⟨rfl, onPath_iff.mpr ⟨i, below, rfl⟩⟩)
    have count := counted.count _ _ value stored
    exact ⟨value, stored, by omega⟩
  refine Nat.le_trans (Nat.mul_le_mul_right _ deep) ?_
  rw [← answers.aligned]
  exact Nat.div_mul_le_self _ _

theorem counted_pinPrefix (wf : tree.WellFormed) (counted : Counted tree.cached held)
    (tokens : List Token) {blockSize : Nat} (positive : 0 < blockSize) (adapterId : AdapterId) :
    (RadixTree.pinPrefix tree tokens blockSize adapterId).2.WellFormed ∧
    Counted (RadixTree.pinPrefix tree tokens blockSize adapterId).2.cached
      (⟨adapterId, tokens, blockSize,
        (tree.walk tokens blockSize adapterId).matchedTokens / blockSize⟩ ::ₘ held) := by
  obtain ⟨depth, answers, wfAfter, cached⟩ := RadixTree.pinPrefix_spec wf tokens adapterId positive
  refine ⟨wfAfter, ?_⟩
  rw [cached, answers.aligned]
  refine @Counted.acquire _ _ ⟨adapterId, tokens, blockSize, depth⟩ counted
    ⟨positive, answers.longest.le_bound⟩ ?_
  intro path member
  obtain ⟨i, below, rfl⟩ := onPath_iff.mp member
  obtain ⟨value, stored, _⟩ := answers.longest.reached i below
  exact Option.isSome_iff_exists.mpr ⟨value, stored⟩

theorem lookup_ends (wf : tree.WellFormed) (counted : Counted tree.cached held) (tokens : List Token)
    {blockSize : Nat} (positive : 0 < blockSize) (adapterId : AdapterId) :
    let matched := (RadixTree.lookup tree tokens blockSize adapterId).1.matchedTokens / blockSize
    tokens.length / blockSize ≤ matched ∨
      (RadixTree.lookup tree tokens blockSize adapterId).2.cached adapterId
        (trail tokens blockSize (matched + 1)) = none := by
  obtain ⟨depth, answers, _, cached⟩ := RadixTree.lookup_spec wf tokens adapterId positive
  show tokens.length / blockSize ≤ (tree.walk tokens blockSize adapterId).matchedTokens / blockSize ∨
    (RadixTree.lookup tree tokens blockSize adapterId).2.cached adapterId (trail tokens blockSize
      ((tree.walk tokens blockSize adapterId).matchedTokens / blockSize + 1)) = none
  rw [answers.aligned]
  by_cases short : depth < tokens.length / blockSize
  · right
    have outside : ¬ OnPath tokens blockSize depth (trail tokens blockSize (depth + 1)) := by
      rw [onPath_trail]
      omega
    rw [cached, RadixTree.acquired, PathMap.alter_of_not_on _ _ outside]
    cases stored : tree.cached adapterId (trail tokens blockSize (depth + 1)) with
    | none => rfl
    | some value =>
      have count := counted.count _ _ value stored
      exact absurd ⟨value, stored, by omega⟩ (answers.longest.stopped short)
  · exact .inl (Nat.le_of_not_lt short)

theorem counted_releaseMatched (wf : tree.WellFormed) (counted : Counted tree.cached (one ::ₘ held))
    (matchedTokens : Nat) (all : matchedTokens / one.blockSize = one.blocks) :
    (RadixTree.releaseMatched tree one.tokens one.blockSize matchedTokens one.adapterId).WellFormed ∧
    Counted (RadixTree.releaseMatched tree one.tokens one.blockSize matchedTokens one.adapterId).cached
      held := by
  obtain ⟨wfAfter, cached⟩ :=
    @RadixTree.releaseMatched_spec _ wf one.tokens one.blockSize one.adapterId matchedTokens
  have inside := (counted.fits one (Multiset.mem_cons_self _ _)).2
  refine ⟨wfAfter, ?_⟩
  rw [cached, all, Nat.min_eq_left inside]
  exact counted.release

/-- Releasing more blocks than are held drops no more where the first further block has no node. -/
theorem counted_release (wf : tree.WellFormed) (counted : Counted tree.cached (one ::ₘ held))
    {tokens : List Token}
    (agree : ∀ i, i ≤ one.blocks → trail tokens one.blockSize i = trail one.tokens one.blockSize i)
    (inside : one.blocks ≤ tokens.length / one.blockSize)
    (ends : tokens.length / one.blockSize ≤ one.blocks ∨
      tree.cached one.adapterId (trail tokens one.blockSize (one.blocks + 1)) = none) :
    (RadixTree.release tree tokens one.blockSize one.adapterId).WellFormed ∧
    (RadixTree.release tree tokens one.blockSize one.adapterId).cached =
      RadixTree.released tree.cached one.adapterId one.tokens one.blockSize one.blocks ∧
    Counted (RadixTree.release tree tokens one.blockSize one.adapterId).cached held := by
  obtain ⟨wfAfter, cached⟩ := @RadixTree.release_spec _ wf tokens one.blockSize one.adapterId
  -- Up to the held depth both lists of tokens have the same trails.
  have same : RadixTree.released tree.cached one.adapterId tokens one.blockSize
      (tokens.length / one.blockSize) =
      RadixTree.released tree.cached one.adapterId one.tokens one.blockSize one.blocks := by
    funext adapterId path
    unfold RadixTree.released PathMap.alter
    by_cases short : path.length ≤ one.blocks
    · have reached : OnPath tokens one.blockSize (tokens.length / one.blockSize) path ↔
          OnPath one.tokens one.blockSize one.blocks path := by
        rw [← onPath_congr agree]
        exact ⟨fun ⟨proper, _, on⟩ => ⟨proper, short, on⟩,
          fun ⟨proper, le, on⟩ => ⟨proper, Nat.le_trans le inside, on⟩⟩
      simp only [reached]
    · -- A stored path this long would go through the block that has no node.
      have outside : ¬ OnPath one.tokens one.blockSize one.blocks path := fun member => short member.2.1
      rw [if_neg (fun both : adapterId = one.adapterId ∧ OnPath one.tokens one.blockSize one.blocks path =>
        outside both.2)]
      split
      · next member =>
        obtain ⟨rfl, _, le, on⟩ := member
        rcases ends with all | absent
        · exact absurd (Nat.le_trans le all) short
        · cases found : tree.cached one.adapterId path with
          | none => rfl
          | some value =>
            rw [on] at found
            have through := find_trail_of_le (Nat.succ_le_of_lt (Nat.lt_of_not_le short)) <| by
              obtain ⟨_, id, reached, _⟩ := cached_eq_some_iff.mp found
              exact Option.isSome_iff_exists.mpr ⟨id, reached⟩
            rcases cached_eq_none_iff.mp absent with root | unlinked
            · cases root
            · rw [unlinked] at through
              cases through
      · rfl
  rw [cached, same]
  exact ⟨wfAfter, rfl, counted.release⟩

end RadixTreeInner

end Metrale.Cache
