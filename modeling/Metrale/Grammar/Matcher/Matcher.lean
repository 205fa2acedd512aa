import Metrale.Grammar.Earley.Parser

/-! # The matcher of a request (`matcher/matcher.rs`, `tokenizer/info.rs`)

A matcher feeds the bytes of each token to its parser, one row a byte, and keeps how many rows each step added, to
roll it back.  `none` is a panic.  The buffers that a fill works in are not part of the state. -/

namespace Metrale.Grammar

structure TokenizerInfo where
  vocabSize : Nat
  decodedVocab : List (List UInt8)
  sortedDecodedVocab : List (Nat × List UInt8)
  trieSubtreeNodesRange : List Nat
  stopTokenIds : List Int
  specialTokenIds : List Int
deriving DecidableEq

/-- `pop_last_states` with its assertion: the first row stays. -/
def EarleyParser.popRows (parser : EarleyParser) (count : Nat) : Option EarleyParser :=
  if count < parser.completable.length then some (parser.popLastStates count) else none

/-- The bytes from `consumed` on, until one is rejected.  Answers whether none was, and how many are consumed. -/
def EarleyParser.advanceBytes (grammar : GrammarData) (consumed : Nat) (parser : EarleyParser) :
    List UInt8 → Bool × Nat × EarleyParser
  | [] => (true, consumed, parser)
  | byte :: rest =>
    match parser.advance grammar byte with
    | (true, advanced) => advanced.advanceBytes grammar (consumed + 1) rest
    | (false, kept) => (false, consumed, kept)

/-- The history has the latest step first.  The stop tokens are the tokenizer's or those of the caller. -/
structure GrammarMatcher where
  grammar : GrammarData
  tokenizerInfo : TokenizerInfo
  parser : EarleyParser
  stopTokenIds : List Int
  terminateWithoutStopToken : Bool
  stopTokenAccepted : Bool
  tokenLengthHistory : List Nat

namespace GrammarMatcher

variable (matcher : GrammarMatcher)

def new (grammar : GrammarData) (tokenizerInfo : TokenizerInfo) (overrideStopTokens : Option (List Int))
    (terminateWithoutStopToken : Bool) : Option GrammarMatcher :=
  if overrideStopTokens = some [] then none
  else some
    { grammar, tokenizerInfo, terminateWithoutStopToken
      parser := .fromGrammar grammar
      stopTokenIds := overrideStopTokens.getD tokenizerInfo.stopTokenIds
      stopTokenAccepted := false
      tokenLengthHistory := [] }

def isTerminated : Bool :=
  if matcher.terminateWithoutStopToken then matcher.parser.completed else matcher.stopTokenAccepted

def acceptStopToken : Bool × GrammarMatcher :=
  if matcher.terminateWithoutStopToken then (false, matcher)
  else if !matcher.parser.completed then (false, matcher)
  else
    (true, { matcher with
      tokenLengthHistory := 0 :: matcher.tokenLengthHistory
      stopTokenAccepted := true })

def advanceBytesAsStep (bytes : List UInt8) : Option (Bool × GrammarMatcher) :=
  match matcher.parser.advanceBytes matcher.grammar 0 bytes with
  | (true, _, advanced) =>
    some (true, { matcher with
      parser := advanced
      tokenLengthHistory := bytes.length :: matcher.tokenLengthHistory })
  | (false, consumed, advanced) =>
    if 0 < consumed then (advanced.popRows consumed).map fun parser => (false, { matcher with parser })
    else some (false, { matcher with parser := advanced })

def acceptToken (tokenId : Int) : Option (Bool × GrammarMatcher) :=
  if matcher.stopTokenAccepted then some (false, matcher)
  else if tokenId < 0 ∨ (matcher.tokenizerInfo.vocabSize : Int) ≤ tokenId then some (false, matcher)
  else if tokenId ∈ matcher.stopTokenIds then some matcher.acceptStopToken
  else if tokenId ∈ matcher.tokenizerInfo.specialTokenIds then some (false, matcher)
  else matcher.advanceBytesAsStep (matcher.tokenizerInfo.decodedVocab.getD tokenId.toNat [])

def acceptBytes (bytes : List UInt8) : Option (Bool × GrammarMatcher) :=
  if matcher.stopTokenAccepted then some (false, matcher) else matcher.advanceBytesAsStep bytes

/-- One round of the loop of `rollback`: a step without rows was the stop token's. -/
def rollbackStep : Option GrammarMatcher :=
  match matcher.tokenLengthHistory with
  | [] => none
  | steps :: earlier =>
    let popped := { matcher with tokenLengthHistory := earlier }
    if steps = 0 then some { popped with stopTokenAccepted := false }
    else (popped.parser.popRows steps).map fun parser => { popped with parser }

def rollbackLoop : Nat → GrammarMatcher → Option GrammarMatcher
  | 0, matcher => some matcher
  | steps + 1, matcher => matcher.rollbackStep.bind (rollbackLoop steps)

/-- A negative number of steps is none. -/
def rollback (n : Int) : Option GrammarMatcher :=
  if n.toNat ≤ matcher.tokenLengthHistory.length then rollbackLoop n.toNat matcher else none

def numHistorySteps : Nat := matcher.tokenLengthHistory.length

def reset : GrammarMatcher :=
  { matcher with
    parser := .fromGrammar matcher.grammar
    stopTokenAccepted := false
    tokenLengthHistory := [] }

end GrammarMatcher

end Metrale.Grammar
