import Metrale.Grammar.Matcher.Matcher

/-! # The next-token mask (`matcher/fill.rs`, `matcher/bitmask.rs`, `compiler/mask.rs`, `support/int_set.rs`)

Each of the latest states has a mask, which splits the vocabulary into accepted, rejected and uncertain tokens.  The
uncertain ones are tried on the parser itself, over a row for the state alone; the rows of one token serve the next
as far as the two agree.  All that is popped again.

The masks come out of a cache that every matcher of the compiled grammar shares.  What it answers for a state, and
for whether the rule is the root, is a parameter.  A bit mask is the list of the bits of its words; an index past a
vocabulary or a mask panics in the source. -/

namespace Metrale.Grammar

inductive StoreType where
  | accepted
  | rejected
  | acceptedBitset
deriving DecidableEq

/-- The indices are those of the sorted vocabulary, the bits those of the token ids. -/
structure AdaptiveTokenMask where
  storeType : StoreType
  acceptedIndices : List Nat
  rejectedIndices : List Nat
  acceptedBitset : List Bool
  uncertainIndices : List Nat
deriving DecidableEq

abbrev MaskCache := ParserState → Bool → AdaptiveTokenMask

/-! ## Sorted sets (`int_set.rs`) -/

def intsetUnion : List Nat → List Nat → List Nat
  | [], rhs => rhs
  | first :: lhs, rhs =>
    let later := rhs.dropWhile (· < first)
    rhs.takeWhile (· < first) ++ first :: intsetUnion lhs (later.dropWhile (· == first))

/-- `none` is the universal set, which the source writes `{-1}`. -/
def intsetIntersection (lhs : Option (List Nat)) (rhs : List Nat) : Option (List Nat) :=
  match lhs with
  | none => some rhs
  | some lhs => some (lhs.filter rhs.contains)

/-! ## Bits (`bitmask.rs`) -/

def bitsPerWord : Nat := 32

def bitmaskSize (vocabSize : Nat) : Nat := (vocabSize + bitsPerWord - 1) / bitsPerWord

def clearBits (vocabSize : Nat) : List Bool := List.replicate (bitmaskSize vocabSize * bitsPerWord) false

/-- The padding stays clear. -/
def fillBits (vocabSize : Nat) : List Bool :=
  List.replicate vocabSize true ++ List.replicate (bitmaskSize vocabSize * bitsPerWord - vocabSize) false

def setBit (bits : List Bool) (id : Int) (value : Bool) : Option (List Bool) :=
  if 0 ≤ id ∧ id < bits.length then some (bits.set id.toNat value) else none

def setBits (value : Bool) (ids : List Int) (bits : List Bool) : Option (List Bool) :=
  ids.foldlM (fun bits id => setBit bits id value) bits

def allSet (vocabSize : Nat) (bits : List Bool) : Bool := (List.range vocabSize).all fun id => bits.getD id false

/-! ## The partitions of the latest states -/

/-- `compute_partitions` after its loops. -/
structure Partitions where
  accepted : List Bool
  rejected : Option (List Nat)
  canReachEnd : Bool

/-- The loop over the uncertain tokens of a state.  `prevMatched` rows are those of `prevToken`. -/
structure Trial where
  parser : EarleyParser
  accepted : List Bool
  rejectedDelta : List Nat
  prevToken : Option (List UInt8)
  prevMatched : Nat
  lastRejectedRange : Nat

def commonPrefix (token prev : List UInt8) : Nat := ((token.zip prev).takeWhile fun (byte, other) => byte == other).length

def TokenizerInfo.sortedToken (info : TokenizerInfo) (index : Nat) : Nat × List UInt8 :=
  info.sortedDecodedVocab.getD index (0, [])

def TokenizerInfo.subtreeEnd (info : TokenizerInfo) (index : Nat) : Nat := info.trieSubtreeNodesRange.getD index 0

/-- Keeps the rows that the token shares with the one before, and rejects it where more is shared than was
matched. -/
def Trial.reuse (info : TokenizerInfo) (trial : Trial) (index : Nat) (token : List UInt8) : Option (Bool × Trial) :=
  match trial.prevToken with
  | none => some (true, trial)
  | some prev =>
    let lcp := commonPrefix token prev
    if trial.prevMatched < lcp then some (false, { trial with lastRejectedRange := info.subtreeEnd index })
    else if lcp < trial.prevMatched then
      (trial.parser.popRows (trial.prevMatched - lcp)).map fun parser =>
        (true, { trial with parser, prevMatched := lcp })
    else some (true, trial)

def Trial.advance (grammar : GrammarData) (info : TokenizerInfo) (trial : Trial) (index : Nat) (token : List UInt8) :
    Bool × Trial :=
  match trial.parser.advanceBytes grammar trial.prevMatched (token.drop trial.prevMatched) with
  | (true, prevMatched, parser) => (true, { trial with parser, prevMatched })
  | (false, prevMatched, parser) =>
    (false, { trial with parser, prevMatched, lastRejectedRange := info.subtreeEnd index })

def Trial.record (storeType : StoreType) (trial : Trial) (index id : Nat) (isAccepted : Bool) : Trial :=
  match storeType with
  | .rejected => if isAccepted then trial else { trial with rejectedDelta := trial.rejectedDelta ++ [index] }
  | _ => if isAccepted then { trial with accepted := trial.accepted.set id true } else trial

def Trial.step (grammar : GrammarData) (info : TokenizerInfo) (storeType : StoreType) (trial : Trial) (index : Nat) :
    Option Trial :=
  let (id, token) := info.sortedToken index
  if trial.accepted.getD id false then some trial
  else if index < trial.lastRejectedRange then
    some (if storeType = .rejected then { trial with rejectedDelta := trial.rejectedDelta ++ [index] } else trial)
  else do
    let (shared, reused) ← trial.reuse info index token
    let (isAccepted, advanced) := if shared then reused.advance grammar info index token else (false, reused)
    return { advanced.record storeType index id isAccepted with prevToken := some token }

def acceptStatic (info : TokenizerInfo) (accepted : List Bool) (mask : AdaptiveTokenMask) : List Bool :=
  match mask.storeType with
  | .acceptedBitset => accepted.mapIdx fun id slot => slot || mask.acceptedBitset.getD id false
  | .accepted => mask.acceptedIndices.foldl (fun accepted index => accepted.set (info.sortedToken index).1 true) accepted
  | .rejected => accepted

def resolveState (grammar : GrammarData) (info : TokenizerInfo)
    (parser : EarleyParser) (accepted : List Bool) (rejected : Option (List Nat)) (state : ParserState)
    (mask : AdaptiveTokenMask) : Option (EarleyParser × List Bool × Option (List Nat)) := do
  let trial ← mask.uncertainIndices.foldlM (Trial.step grammar info mask.storeType)
    ⟨parser.pushOneStateToCheck state, accepted, [], none, 0, 0⟩
  let popped ← trial.parser.popRows (trial.prevMatched + 1)
  return (popped, trial.accepted,
    if mask.storeType = .rejected then intsetIntersection rejected (intsetUnion trial.rejectedDelta mask.rejectedIndices)
    else rejected)

def resolveStates (grammar : GrammarData) (info : TokenizerInfo) :
    List (ParserState × AdaptiveTokenMask) → EarleyParser → List Bool → Option (List Nat) →
      Option (EarleyParser × List Bool × Option (List Nat))
  | [], parser, accepted, rejected => some (parser, accepted, rejected)
  | (state, mask) :: states, parser, accepted, rejected => do
    let (parser, accepted, rejected) ← resolveState grammar info parser accepted rejected state mask
    resolveStates grammar info states parser accepted rejected

/-- `canonical_mask_state`: the cache knows no positions. -/
def GrammarData.canonicalMaskState (grammar : GrammarData) (live : ParserState) : ParserState :=
  ⟨live.ruleId, grammar.bodyExprId live.ruleId, live.elementId, none, 0⟩

inductive FillError where
  | terminated
  | bufferTooSmall
  | badIndex
deriving DecidableEq

namespace GrammarMatcher

variable (masks : MaskCache) (matcher : GrammarMatcher)

def maskOf (live : ParserState) : AdaptiveTokenMask :=
  let canon := matcher.grammar.canonicalMaskState live
  masks canon (canon.ruleId == matcher.grammar.rootRuleId)

def computePartitions : Option (Partitions × GrammarMatcher) := do
  let states := matcher.parser.latestScanableStates.map fun live => (live, matcher.maskOf masks live)
  let accepted := (states.map Prod.snd).foldl (acceptStatic matcher.tokenizerInfo)
    (List.replicate matcher.tokenizerInfo.vocabSize false)
  let (parser, accepted, rejected) ←
    resolveStates matcher.grammar matcher.tokenizerInfo states matcher.parser accepted none
  return (⟨accepted, rejected, parser.completed⟩, { matcher with parser })

def setTokenBitmask (partitions : Partitions) : Option (List Bool) :=
  let vocabSize := matcher.tokenizerInfo.vocabSize
  match partitions.rejected with
  | none => do
    let acceptedIds := (List.range partitions.accepted.length).filter fun id => partitions.accepted.getD id false
    let bits ← setBits true (acceptedIds.map Int.ofNat) (clearBits vocabSize)
    if partitions.canReachEnd then setBits true matcher.stopTokenIds bits else some bits
  | some rejected => do
    let rejectedIds := (rejected.map fun index => (matcher.tokenizerInfo.sortedToken index).1).filter fun id =>
      !partitions.accepted.getD id false
    let bits ← setBits false (rejectedIds.map Int.ofNat) (fillBits vocabSize)
    let bits ← setBits false matcher.tokenizerInfo.specialTokenIds bits
    if partitions.canReachEnd then some bits else setBits false matcher.stopTokenIds bits

/-- Fills the slice of `bitmask` at `index`.  Answers whether some token is rejected, and the buffer. -/
def fillNextTokenBitmask (bitmask : List Bool) (index : Nat) :
    Option (Except FillError (Bool × List Bool) × GrammarMatcher) :=
  if matcher.stopTokenAccepted then some (.error .terminated, matcher)
  else
    let words := bitmaskSize matcher.tokenizerInfo.vocabSize
    let start := index * words
    if 18446744073709551616 ≤ start then some (.error .badIndex, matcher)
    else if bitmask.length < (start + words) * bitsPerWord then some (.error .bufferTooSmall, matcher)
    else do
      let (partitions, filled) ← matcher.computePartitions masks
      let bits ← matcher.setTokenBitmask partitions
      return (.ok (!allSet matcher.tokenizerInfo.vocabSize bits,
        bitmask.take (start * bitsPerWord) ++ bits ++ bitmask.drop ((start + words) * bitsPerWord)), filled)

end GrammarMatcher

/-! ## Jump-forward -/

def EarleyParser.acceptableByteMask (grammar : GrammarData) (parser : EarleyParser) (byte : UInt8) : Bool :=
  parser.latestScanableStates.any fun state => (grammar.edgesOf state).any fun edge =>
    match edge.edgeType with
    | .charRange min max => min % 256 ≤ byte.toNat && byte.toNat ≤ max % 256
    | _ => false

def allBytes : List UInt8 := (List.range 256).map UInt8.ofNat

/-- The loop, for at most so many rounds; `none` when it goes on. -/
def EarleyParser.jumpForward (grammar : GrammarData) : Nat → EarleyParser → Option (List UInt8 × EarleyParser)
  | 0, _ => none
  | rounds + 1, parser =>
    if parser.completed then some ([], parser)
    else
      match allBytes.filter (parser.acceptableByteMask grammar) with
      | [next] =>
        match parser.advance grammar next with
        | (true, advanced) => do
          let (result, last) ← jumpForward grammar rounds advanced
          return (next :: result, last)
        | (false, kept) => some ([], kept)
      | _ => some ([], parser)

/-- The source's loop has no bound. -/
def GrammarMatcher.findJumpForwardString (rounds : Nat) (matcher : GrammarMatcher) :
    Option (List UInt8 × GrammarMatcher) :=
  if matcher.stopTokenAccepted then some ([], matcher)
  else do
    let (result, last) ← matcher.parser.jumpForward matcher.grammar rounds
    if result.isEmpty then return (result, { matcher with parser := last })
    else
      let parser ← last.popRows result.length
      return (result, { matcher with parser })

end Metrale.Grammar
