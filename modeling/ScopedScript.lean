import ScopedScript.Main
import ScopedScript.Proofs.Grammar.Completeness
import ScopedScript.Proofs.Grammar.Height
import ScopedScript.Proofs.Grammar.Naturality
import ScopedScript.Proofs.Grammar.Shape
import ScopedScript.Proofs.Layout
import ScopedScript.Proofs.Lexing.Faults
import ScopedScript.Proofs.Lexing.Munch
import ScopedScript.Proofs.Lexing.Pattern
import ScopedScript.Proofs.Lexing.Places
import ScopedScript.Proofs.Lexing.Spacing
import ScopedScript.Proofs.Log
import ScopedScript.Proofs.Log.Frames
import ScopedScript.Proofs.Log.Replay
import ScopedScript.Proofs.Log.Scopes
import ScopedScript.Proofs.Number.Division
import ScopedScript.Proofs.Number.Exact
import ScopedScript.Proofs.Number.Literal
import ScopedScript.Proofs.Number.Nearest
import ScopedScript.Proofs.Number.Overflow
import ScopedScript.Proofs.Number.Progression
import ScopedScript.Proofs.Number.Terms
import ScopedScript.Proofs.Resolution
import ScopedScript.Proofs.Resolution.Alignment
import ScopedScript.Proofs.Resolution.Distinct
import ScopedScript.Proofs.Resolution.Tracking
import ScopedScript.Proofs.Resolution.Uses
import ScopedScript.Proofs.RoundTrip
import ScopedScript.Proofs.RoundTrip.Grouping
import ScopedScript.Proofs.RoundTrip.Meaning
import ScopedScript.Proofs.RoundTrip.Parentheses
import ScopedScript.Proofs.RoundTrip.Tree
import ScopedScript.Proofs.Run.Arithmetic
import ScopedScript.Proofs.Run.Characters
import ScopedScript.Proofs.Run.Comparison
import ScopedScript.Proofs.Run.Compound
import ScopedScript.Proofs.Run.Confinement
import ScopedScript.Proofs.Run.Congruence
import ScopedScript.Proofs.Run.Conversion
import ScopedScript.Proofs.Run.DeadEnds
import ScopedScript.Proofs.Run.Depth
import ScopedScript.Proofs.Run.Frames
import ScopedScript.Proofs.Run.History
import ScopedScript.Proofs.Run.Invariant
import ScopedScript.Proofs.Run.Isolation
import ScopedScript.Proofs.Run.Jumps
import ScopedScript.Proofs.Run.Limit
import ScopedScript.Proofs.Run.Links
import ScopedScript.Proofs.Run.Moment
import ScopedScript.Proofs.Run.Naturality
import ScopedScript.Proofs.Run.Outcome
import ScopedScript.Proofs.Run.Readiness
import ScopedScript.Proofs.Run.Regime
import ScopedScript.Proofs.Run.Rounds
import ScopedScript.Proofs.Run.Rules
import ScopedScript.Proofs.Run.Safety
import ScopedScript.Proofs.Run.Store
import ScopedScript.Proofs.Run.Termination
import ScopedScript.Proofs.Run.Typing
import ScopedScript.Proofs.Scoping
import ScopedScript.Proofs.Scoping.Arena
import ScopedScript.Proofs.Scoping.Decision
import ScopedScript.Proofs.Scoping.History
import ScopedScript.Proofs.Scoping.Judgement
import ScopedScript.Proofs.Scoping.Jumps
import ScopedScript.Proofs.Scoping.Naturality
import ScopedScript.Proofs.Scoping.Rules
import ScopedScript.Proofs.Session
import ScopedScript.Proofs.Text.Slice
import ScopedScript.Proofs.Tree.Chain
import ScopedScript.Proofs.Tree.Measure
import ScopedScript.Proofs.Tree.Names
import ScopedScript.Proofs.Tree.Parts
import ScopedScript.Proofs.Tree.Relabel
