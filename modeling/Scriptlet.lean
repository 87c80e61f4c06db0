import Scriptlet.Machine.Lemmas
import Scriptlet.Main
import Scriptlet.Source.Segment.Lemmas
import Scriptlet.Store.Lemmas
import Scriptlet.Syntax.Walk
import Scriptlet.Proofs.Grammar.Obeys
import Scriptlet.Proofs.Grammar.Reading
import Scriptlet.Proofs.Grammar.Rules
import Scriptlet.Proofs.Grammar.SoundExpr
import Scriptlet.Proofs.Grammar.Accepts
import Scriptlet.Proofs.Grammar.Heads
import Scriptlet.Proofs.Grammar.SoundStmt
import Scriptlet.Proofs.Grammar.CompleteExpr
import Scriptlet.Proofs.Grammar.CompleteStmt
import Scriptlet.Proofs.Grammar.Derives
import Scriptlet.Proofs.Grammar.Readable
import Scriptlet.Proofs.Grammar.Acceptance
import Scriptlet.Proofs.Binding.Sites
import Scriptlet.Proofs.Binding.Walked
import Scriptlet.Proofs.Binding.Shape
import Scriptlet.Proofs.Binding.Settled
import Scriptlet.Proofs.Session.Analysis
import Scriptlet.Proofs.Lexical.Run
import Scriptlet.Proofs.Lexical.Layout
import Scriptlet.Proofs.Lexical.Pairing
import Scriptlet.Proofs.Lexical.Standing
import Scriptlet.Proofs.Lexical.Follows
import Scriptlet.Proofs.Lexical.Watch
import Scriptlet.Proofs.Lexical.Access
import Scriptlet.Proofs.Lexical.Actions
import Scriptlet.Proofs.Lexical.Simulation
import Scriptlet.Proofs.Session.Runs
import Scriptlet.Proofs.Lexical.Sessions
import Scriptlet.Proofs.Machine.Steps
import Scriptlet.Proofs.Machine.Scope
import Scriptlet.Proofs.Grammar.Numbers
import Scriptlet.Proofs.Grammar.Counting
import Scriptlet.Proofs.Grammar.Walking
import Scriptlet.Proofs.Grammar.Planned
import Scriptlet.Proofs.Session.Numbers
import Scriptlet.Proofs.Grammar.Bounds
import Scriptlet.Proofs.Alike.Trees
import Scriptlet.Proofs.Alike.Reading
import Scriptlet.Proofs.Alike.Binding
import Scriptlet.Proofs.Alike.Machines
import Scriptlet.Proofs.Alike.Running
import Scriptlet.Proofs.Alike.Sessions
import Scriptlet.Proofs.Session.Refused
import Scriptlet.Proofs.Session.Joined
import Scriptlet.Proofs.Source.Lexemes
import Scriptlet.Proofs.Source.Longest
import Scriptlet.Proofs.Source.Grammar
import Scriptlet.Proofs.Machine.Truncated
import Scriptlet.Proofs.Session.Truncated
import Scriptlet.Proofs.Machine.Heap
import Scriptlet.Proofs.Session.Heap
import Scriptlet.Proofs.Receiver.Methods
import Scriptlet.Proofs.Receiver.History
import Scriptlet.Proofs.Receiver.Tidy
import Scriptlet.Proofs.Receiver.Watch
import Scriptlet.Proofs.Receiver.Faithful
import Scriptlet.Proofs.Receiver.Run
import Scriptlet.Proofs.Session.Receiver
import Scriptlet.Proofs.Grammar.Operators
import Scriptlet.Proofs.Machine.Operable
import Scriptlet.Proofs.Machine.Returns
import Scriptlet.Proofs.Session.Operable
import Scriptlet.Proofs.Source.Layout
import Scriptlet.Proofs.Session.Layout
import Scriptlet.Proofs.Grammar.Stretch
import Scriptlet.Proofs.Grammar.Recovery
import Scriptlet.Proofs.Grammar.Strict
import Scriptlet.Proofs.Grammar.Looks
import Scriptlet.Proofs.Grammar.Shadows
import Scriptlet.Proofs.Grammar.Viable
import Scriptlet.Proofs.Grammar.ViableExpr
import Scriptlet.Proofs.Grammar.ViableStmt
import Scriptlet.Proofs.Grammar.Earliest
import Scriptlet.Proofs.Grammar.Boundaries
import Scriptlet.Proofs.Machine.Globals
import Scriptlet.Proofs.Session.Globals
import Scriptlet.Proofs.Binding.Pieces
import Scriptlet.Proofs.Binding.Paths
import Scriptlet.Proofs.Binding.Recorded
import Scriptlet.Proofs.Binding.Scoping
import Scriptlet.Proofs.Binding.Distances
import Scriptlet.Proofs.Binding.Lawful
import Scriptlet.Proofs.Alike.Pairs
import Scriptlet.Proofs.Grammar.Rereading
import Scriptlet.Proofs.Grammar.ForStatement
import Scriptlet.Proofs.Grammar.Unrolled
import Scriptlet.Proofs.Session.Unrolled
import Scriptlet.Proofs.Store.Chains
import Scriptlet.Proofs.Source.Spaced
import Scriptlet.Proofs.Source.Lines
import Scriptlet.Proofs.Source.Bytes
import Scriptlet.Proofs.Source.Bytewise
import Scriptlet.Proofs.Source.Scanning
import Scriptlet.Proofs.Source.Draining
import Scriptlet.Proofs.Decimal.Rounding
import Scriptlet.Proofs.Decimal.Search
import Scriptlet.Proofs.Decimal.Shortest
import Scriptlet.Proofs.Decimal.Digits
import Scriptlet.Proofs.Decimal.Tree
import Scriptlet.Proofs.Decimal.Numeral
import Scriptlet.Proofs.Written.Forms
import Scriptlet.Proofs.Written.Trees
import Scriptlet.Proofs.Written.Words
import Scriptlet.Proofs.Written.Back
import Scriptlet.Proofs.Written.Recovered
import Scriptlet.Proofs.Written.Unique
