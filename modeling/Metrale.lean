import Metrale.Storage.ResidencyRefinement
import Metrale.Storage.DiskCap
import Metrale.Storage.WireReads
import Metrale.Storage.WireCommits
import Metrale.Engine.FinishedTurn
import Metrale.Engine.SequenceRelease
import Metrale.Cache.RadixTree.DiskIds
import Metrale.Cache.RadixTree.Lookup
import Metrale.Cache.RadixTree.Holders
import Metrale.Storage.NgramContents
import Metrale.Storage.TileLoad
import Metrale.Storage.CascadeContents
import Metrale.Cache.Snapshot.ArenaOwnership
import Metrale.Cache.Snapshot.PoolSlots
import Metrale.Cache.Snapshot.SessionGate
import Metrale.Grammar.Earley.Repeats
import Metrale.Grammar.Schema.WrappedBound
import Metrale.Grammar.Schema.PropertyKey
import Metrale.Scheduler.ReadbackRing
import Metrale.Scheduler.ParkingLot
import Metrale.Scheduler.Delivery
import Metrale.Server.ConversationIds
import Metrale.Scheduler.SpillStore
import Metrale.Server.AnthropicStream
import Metrale.Server.ResponsesRuns
import Metrale.Server.ResponseReplay
import Metrale.Cache.Snapshot.MemBlobStore
import Metrale.Engine.PrefixReclaim
import Metrale.Engine.EnsureBlocks
import Metrale.Server.ModelSwap
import Metrale.Engine.CarryRuns
import Metrale.Server.StopHoldback
import Metrale.Engine.BeamFused
import Metrale.Cache.Snapshot.VictimChoice
import Metrale.Grammar.Matcher.JumpForward
import Metrale.Grammar.Matcher.Spelling
import Metrale.Grammar.RuleFsm.RegularOps
import Metrale.Grammar.RuleFsm.BooleanOps
import Metrale.Grammar.RuleFsm.Simplify
import Metrale.Grammar.Compiler.GrammarCache
import Metrale.Grammar.Compiler.MaskSnapshot
import Metrale.Scheduler.BoundaryState
import Metrale.Grammar.Schema.GenArray
import Metrale.Grammar.Ebnf.Repetition
import Metrale.Grammar.Schema.JsonStandard
import Metrale.Scheduler.RingCalls
import Metrale.Scheduler.Retirement
import Metrale.Scheduler.PrefillWaves
import Metrale.Scheduler.DraftCut
import Metrale.Scheduler.DraftBoundary
import Metrale.Scheduler.ParameterBody
import Metrale.Scheduler.BudgetStop
import Metrale.Server.ToolCuts
import Metrale.Storage.StripePlan
import Metrale.Server.IncrementalDecode
import Metrale.Server.RateDenial
import Metrale.Sampling.DryPenalty
import Metrale.Server.DsmlCalls
import Metrale.Server.MessageEntries
