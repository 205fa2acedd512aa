import Metrale.Grammar.Matcher.Fill

/-! # Queries that look ahead (`matcher/completion.rs`, `matcher/coalesce.rs`, `compiler/coalesce.rs`)

The search for a completion advances the parser itself and backtracks on it; the forced chain accepts its tokens on
the matcher itself and rolls them back. -/

namespace Metrale.Grammar

/-! ## Completion -/

def completionNodeBudget : Nat := 8192

/-- `"`, `}`, `]`, `,`, `:`, space, newline and tab. -/
def closePriority : List UInt8 := [34, 125, 93, 44, 58, 32, 10, 9]

def contentFanout : Nat := 3

/-- The parser is advanced through `out`. -/
structure Search where
  parser : EarleyParser
  out : List UInt8
  budget : Nat

namespace Search

variable (grammar : GrammarData) (descend : Search → Option (Bool × Search))

/-- The byte stays in `out` where a completion is found through it. -/
def tryByte (byte : UInt8) (search : Search) : Option (Bool × Search) :=
  let tried := { search with budget := search.budget - 1 }
  match tried.parser.advance grammar byte with
  | (false, kept) => some (false, { tried with parser := kept })
  | (true, advanced) => do
    let (found, after) ← descend { tried with parser := advanced, out := tried.out ++ [byte] }
    if found then return (true, after)
    else
      let parser ← after.parser.popRows 1
      return (false, { after with parser, out := after.out.dropLast })

def tryAcceptable (mask : UInt8 → Bool) (byte : UInt8) (search : Search) : Option (Bool × Search) :=
  if mask byte then tryByte grammar descend byte search else some (false, search)

/-- The first loop.  Answers `none` inside where the loop is left without an answer. -/
def tryClosers (mask : UInt8 → Bool) : List UInt8 → Search → Option (Option Bool × Search)
  | [], search => some (none, search)
  | byte :: rest, search => do
    let (found, after) ← tryAcceptable grammar descend mask byte search
    if found then return (some true, after)
    else if after.budget = 0 then return (some false, after)
    else tryClosers mask rest after

/-- The second loop, with the number of bytes tried. -/
def tryContent (mask : UInt8 → Bool) : List UInt8 → Nat → Search → Option (Bool × Search)
  | [], _, search => some (false, search)
  | byte :: rest, content, search =>
    if !mask byte || closePriority.contains byte then tryContent mask rest content search
    else if contentFanout ≤ content ∨ search.budget = 0 then some (false, search)
    else do
      let (found, after) ← tryByte grammar descend byte search
      if found then return (true, after) else tryContent mask rest (content + 1) after

def closeDfs : Nat → Search → Option (Bool × Search)
  | remaining, search =>
    if search.parser.completed then some (true, search)
    else
      match remaining with
      | 0 => some (false, search)
      | remaining + 1 =>
        if search.budget = 0 then some (false, search)
        else do
          let mask := search.parser.acceptableByteMask grammar
          let (answer, after) ← tryClosers grammar (closeDfs remaining) mask closePriority search
          match answer with
          | some found => return (found, after)
          | none => tryContent grammar (closeDfs remaining) mask allBytes 0 after

end Search

/-! ## Greedy encoding -/

/-- The longest token that the bytes start with; of two the first. -/
def TokenizerInfo.longestToken (info : TokenizerInfo) (bytes : List UInt8) : Option (Nat × Nat) :=
  info.sortedDecodedVocab.foldl (fun best (id, token) =>
    if token.isEmpty || !token.isPrefixOf bytes then best
    else
      match best with
      | none => some (id, token.length)
      | some (_, length) => if length < token.length then some (id, token.length) else best) none

/-- Each token takes a byte at least, so there are no more rounds than bytes. -/
def TokenizerInfo.encodeGreedy (info : TokenizerInfo) : Nat → List UInt8 → Option (List Nat)
  | _, [] => some []
  | 0, _ :: _ => none
  | rounds + 1, bytes => do
    let (id, length) ← info.longestToken bytes
    let rest ← info.encodeGreedy rounds (bytes.drop length)
    return id :: rest

def TokenizerInfo.encodeBytesGreedy (info : TokenizerInfo) (bytes : List UInt8) : Option (List Nat) :=
  info.encodeGreedy bytes.length bytes

/-! ## Forced tokens -/

inductive Forced where
  | token (id : Nat)
  | dead
  | notForced
deriving DecidableEq

/-- The padding bits do not count. -/
def analyzeBitmask (vocabSize : Nat) (bits : List Bool) : Forced :=
  match (List.range vocabSize).filter fun id => bits.getD id false with
  | [] => .dead
  | [id] => .token id
  | _ => .notForced

def Forced.tokenId : Forced → Option Nat
  | .token id => some id
  | _ => none

namespace GrammarMatcher

variable (masks : MaskCache) (matcher : GrammarMatcher)

def findCompletionToAccept (maxBytes : Nat) : Option (Option (List UInt8) × GrammarMatcher) :=
  if matcher.isTerminated then some (none, matcher)
  else if matcher.parser.completed then some (some [], matcher)
  else do
    let (found, search) ← Search.closeDfs matcher.grammar maxBytes ⟨matcher.parser, [], completionNodeBudget⟩
    if found then
      if search.out.isEmpty then return (some search.out, { matcher with parser := search.parser })
      else
        let parser ← search.parser.popRows search.out.length
        return (some search.out, { matcher with parser })
    else return (none, { matcher with parser := search.parser })

def findCompletionTokenIds (maxBytes : Nat) : Option (Option (List Nat) × GrammarMatcher) := do
  let (found, searched) ← matcher.findCompletionToAccept maxBytes
  match found with
  | none => return (none, searched)
  | some [] => return (some [], searched)
  | some bytes => return (searched.tokenizerInfo.encodeBytesGreedy bytes, searched)

def forcedToken : Option (Option Nat × GrammarMatcher) :=
  if matcher.stopTokenAccepted then some (none, matcher)
  else do
    let (filled, after) ← matcher.fillNextTokenBitmask masks (clearBits matcher.tokenizerInfo.vocabSize) 0
    match filled with
    | .ok (_, bits) => return ((analyzeBitmask matcher.tokenizerInfo.vocabSize bits).tokenId, after)
    | .error _ => return (none, after)

/-- The loop of both chains: the tokens accepted, and the matcher after them. -/
def acceptForced : Nat → GrammarMatcher → Option (List Nat × GrammarMatcher)
  | 0, matcher => some ([], matcher)
  | more + 1, matcher => do
    let (forced, peeked) ← matcher.forcedToken masks
    match forced with
    | none => return ([], peeked)
    | some token =>
      let (accepted, next) ← peeked.acceptToken token
      if accepted then
        if next.isTerminated then return ([token], next)
        else
          let (chain, last) ← acceptForced more next
          return (token :: chain, last)
      else return ([], next)

def nextForcedTokens (max : Nat) : Option (List Nat × GrammarMatcher) :=
  if max = 0 ∨ matcher.stopTokenAccepted then some ([], matcher)
  else do
    let (chain, last) ← matcher.acceptForced masks max
    let restored ← if chain.isEmpty then some last else last.rollback chain.length
    return (chain, restored)

def acceptForcedChain (max : Nat) : Option (List Nat × GrammarMatcher) :=
  if max = 0 ∨ matcher.stopTokenAccepted then some ([], matcher) else matcher.acceptForced masks max

end GrammarMatcher

end Metrale.Grammar
