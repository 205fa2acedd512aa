import Metrale.Scheduler.ActiveSeq

/-! # Detectors of repetition (`helpers/detectors.rs`, `repetition.rs`)

Each detector looks at the tail of the output only.  A period that is no divisor of anything is still a period: the
last `patternLen` tokens are compared with the windows just before them. -/

namespace Metrale.Scheduler

def thinkLoopMinTokens : Nat := 48

def thinkLoopCheckStride : Nat := 8

def thinkLoopPeriodMin : Nat := 4

def thinkLoopPeriodMax : Nat := 20

def contentLoopMinTokens : Nat := 48

def contentLoopCheckStride : Nat := 16

def contentLoopPeriodMin : Nat := 2

def contentLoopPeriodMax : Nat := 64

def contentLoopMinRepeats : Nat := 3

def contentLoopScanWindow : Nat := 280

def contentLoopNormMinRepeats : Nat := 4

/-- `NUMERIC_SENTINEL`: stands for a run of numeric tokens. -/
def numericSentinel : Token := 4294967295

/-- The last `patternLen` tokens, and the window `back` windows before them. -/
def tailWindow (tokens : List Token) (patternLen back : Nat) : List Token :=
  (tokens.drop (tokens.length - patternLen * (back + 1))).take patternLen

def hasRepeatingPatternAnchored (tokens : List Token) (patternLen minRepeats : Nat) : Bool :=
  (List.range (minRepeats - 1)).all fun back => tailWindow tokens patternLen (back + 1) == tailWindow tokens patternLen 0

/-- Tries the periods from `patternLen` on, `left` of them, until they are too long for the output. -/
def detectPeriod (accepts : Nat → Bool) (tokens : List Token) (minRepeats : Nat) : Nat → Nat → Bool
  | 0, _ => false
  | left + 1, patternLen =>
    if tokens.length < patternLen * minRepeats then false
    else if accepts patternLen && hasRepeatingPatternAnchored tokens patternLen minRepeats then true
    else detectPeriod accepts tokens minRepeats left (patternLen + 1)

def detectTokenLoop (tokens : List Token) (minTokens periodMin periodMax minRepeats : Nat) : Bool :=
  if tokens.length < minTokens ∨ minRepeats < 2 then false
  else detectPeriod (fun _ => true) tokens minRepeats (periodMax + 1 - max periodMin 1) (max periodMin 1)

def detectThinkingTokenLoopWith (tokens : List Token) (override : Option RepetitionDetectionParams)
    (watchdog : WatchdogParams) : Bool :=
  match override with
  | some params => detectTokenLoop tokens thinkLoopMinTokens params.minPatternSize params.maxPatternSize params.minCount
  | none =>
    detectTokenLoop tokens thinkLoopMinTokens thinkLoopPeriodMin thinkLoopPeriodMax watchdog.thinkLoopMinRepeats

def WatchdogParams.contentLoopParams (watchdog : WatchdogParams) (request : Option RepetitionDetectionParams) :
    Option RepetitionDetectionParams :=
  request.or (watchdog.contentLoopMinRepeats.map fun repeats =>
    ⟨contentLoopPeriodMin, contentLoopPeriodMax, repeats⟩)

def detectContentTokenLoopWith (tokens : List Token) (override : Option RepetitionDetectionParams) : Bool :=
  match override with
  | some params =>
    detectTokenLoop tokens contentLoopMinTokens params.minPatternSize params.maxPatternSize params.minCount
  | none => detectTokenLoop tokens contentLoopMinTokens contentLoopPeriodMin contentLoopPeriodMax contentLoopMinRepeats

/-- Whether the mask has the token; an id past its end has nothing. -/
def masked (mask : List Bool) (token : Token) : Bool := mask.getD token.toNat false

def collapseNumeric (mask : List Bool) : Bool → List Token → List Token
  | _, [] => []
  | afterNumeric, token :: tokens =>
    if masked mask token then
      if afterNumeric then collapseNumeric mask true tokens
      else numericSentinel :: collapseNumeric mask true tokens
    else token :: collapseNumeric mask (token == numericSentinel) tokens

def hasBothKinds (window : List Token) : Bool := window.contains numericSentinel && window.any (· != numericSentinel)

def detectContentTokenLoopNormalizedWith (tokens : List Token) (mask : List Bool)
    (override : Option RepetitionDetectionParams) : Bool :=
  let norm := collapseNumeric mask false (tokens.drop (tokens.length - contentLoopScanWindow))
  let params := override.getD ⟨contentLoopPeriodMin, contentLoopPeriodMax, contentLoopNormMinRepeats⟩
  if tokens.length < contentLoopMinTokens ∨ ¬ hasBothKinds norm ∨ params.minCount < 2 then false
  else detectPeriod (fun patternLen => hasBothKinds (tailWindow norm patternLen 0)) norm params.minCount
    (params.maxPatternSize + 1 - max params.minPatternSize 1) (max params.minPatternSize 1)

/-! ## Near-copies -/

def mismatches (first second : List Token) : Nat := (first.zip second).countP fun pair => pair.1 != pair.2

/-- Three windows at the tail, each a near-copy of the next.  A pattern's length, and the mismatches of each pair. -/
def fuzzyMatch (tokens : List Token) (toleranceDiv patternLen : Nat) : Option (Nat × Nat × Nat) :=
  let maxMismatches := max (patternLen / toleranceDiv) 1
  let misA := mismatches (tailWindow tokens patternLen 2) (tailWindow tokens patternLen 1)
  let misB := mismatches (tailWindow tokens patternLen 1) (tailWindow tokens patternLen 0)
  if tokens.length < patternLen * 3 then none
  else if misA ≤ maxMismatches ∧ misB ≤ maxMismatches then some (patternLen, misA, misB)
  else none

/-- Tries the lengths 40 down to 15.  The counts of a window that is given up early are not used. -/
def detectFuzzyRepetition (tokens : List Token) (toleranceDiv : Nat) : Option (Nat × Nat × Nat) :=
  if tokens.length < 90 then none
  else (List.range 26).findSome? fun shorter => fuzzyMatch tokens toleranceDiv (40 - shorter)

end Metrale.Scheduler
