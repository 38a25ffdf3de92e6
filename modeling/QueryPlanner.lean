import QueryPlanner.Catalogue
import QueryPlanner.Command.Arguments
import QueryPlanner.Command.Parameter
import QueryPlanner.Command.Report
import QueryPlanner.Command.Request
import QueryPlanner.Command.Session
import QueryPlanner.Document.Json
import QueryPlanner.Document.Reader
import QueryPlanner.Estimate
import QueryPlanner.Explain
import QueryPlanner.JoinOrder.Candidate
import QueryPlanner.JoinOrder.Components
import QueryPlanner.JoinOrder.Redirects
import QueryPlanner.JoinOrder.Search
import QueryPlanner.Journal.Level
import QueryPlanner.Journal.Record
import QueryPlanner.Journal.Setup
import QueryPlanner.Main
import QueryPlanner.Optimise.Demand
import QueryPlanner.Optimise.Event
import QueryPlanner.Optimise.Run
import QueryPlanner.Optimise.Reshape
import QueryPlanner.Plan
import QueryPlanner.Predicate
import QueryPlanner.Proofs.Balance
import QueryPlanner.Proofs.BottomUp
import QueryPlanner.Proofs.Bounds
import QueryPlanner.Proofs.CanonicalQuery
import QueryPlanner.Proofs.Carrying
import QueryPlanner.Proofs.CatalogueGrammar
import QueryPlanner.Proofs.CatalogueRoundTrip
import QueryPlanner.Proofs.Collapse
import QueryPlanner.Proofs.Conservation
import QueryPlanner.Proofs.Consistency
import QueryPlanner.Proofs.Demand
import QueryPlanner.Proofs.DigitLimit
import QueryPlanner.Proofs.Document.Ascii
import QueryPlanner.Proofs.Document.RoundTrip
import QueryPlanner.Proofs.Document.Strings
import QueryPlanner.Proofs.Equijoin
import QueryPlanner.Proofs.Estimate
import QueryPlanner.Proofs.Explain
import QueryPlanner.Proofs.Greedy
import QueryPlanner.Proofs.Indifference
import QueryPlanner.Proofs.Invariant
import QueryPlanner.Proofs.JoinOrder.Carried
import QueryPlanner.Proofs.JoinOrder.Choice
import QueryPlanner.Proofs.JoinOrder.Components
import QueryPlanner.Proofs.JoinOrder.Course
import QueryPlanner.Proofs.JoinOrder.Leaves
import QueryPlanner.Proofs.JoinOrder.Listed
import QueryPlanner.Proofs.JoinOrder.Mirror
import QueryPlanner.Proofs.JoinOrder.Moments
import QueryPlanner.Proofs.JoinOrder.Offers
import QueryPlanner.Proofs.JoinOrder.Opening
import QueryPlanner.Proofs.JoinOrder.Pairing
import QueryPlanner.Proofs.JoinOrder.Parallel
import QueryPlanner.Proofs.JoinOrder.ParallelLeaves
import QueryPlanner.Proofs.JoinOrder.Queue
import QueryPlanner.Proofs.JoinOrder.Redirects
import QueryPlanner.Proofs.JoinOrder.Reduce
import QueryPlanner.Proofs.JoinOrder.Search
import QueryPlanner.Proofs.JoinOrder.Sound
import QueryPlanner.Proofs.JoinOrder.Underway
import QueryPlanner.Proofs.JoinOrder.UnionFind
import QueryPlanner.Proofs.Logs
import QueryPlanner.Proofs.Lookup
import QueryPlanner.Proofs.Magnitude
import QueryPlanner.Proofs.Minimal
import QueryPlanner.Proofs.Narrow
import QueryPlanner.Proofs.Numbering
import QueryPlanner.Proofs.ParallelReshape
import QueryPlanner.Proofs.Placement
import QueryPlanner.Proofs.Plan
import QueryPlanner.Proofs.Postorder
import QueryPlanner.Proofs.Products
import QueryPlanner.Proofs.Pushdown
import QueryPlanner.Proofs.Query.WhereList
import QueryPlanner.Proofs.Quiet
import QueryPlanner.Proofs.Reestimation
import QueryPlanner.Proofs.Registration
import QueryPlanner.Proofs.Regrouping
import QueryPlanner.Proofs.Reordering
import QueryPlanner.Proofs.Repetition.Again
import QueryPlanner.Proofs.Repetition.First
import QueryPlanner.Proofs.Repetition.Leaves
import QueryPlanner.Proofs.Repetition.Placing
import QueryPlanner.Proofs.Repetition.Rejoin
import QueryPlanner.Proofs.Repetition.Search
import QueryPlanner.Proofs.Repetition.Settling
import QueryPlanner.Proofs.Repetition.Steady
import QueryPlanner.Proofs.Reshape
import QueryPlanner.Proofs.Run
import QueryPlanner.Proofs.Safety
import QueryPlanner.Proofs.Schema
import QueryPlanner.Proofs.Selections
import QueryPlanner.Proofs.Sifting
import QueryPlanner.Proofs.Simulation
import QueryPlanner.Proofs.Stocked
import QueryPlanner.Proofs.Store
import QueryPlanner.Proofs.Support
import QueryPlanner.Proofs.Termination
import QueryPlanner.Proofs.Text.Lines
import QueryPlanner.Proofs.Text.Numeral
import QueryPlanner.Proofs.TextOrder
import QueryPlanner.Proofs.View
import QueryPlanner.Proofs.WrittenOrder
import QueryPlanner.Query.Canonical
import QueryPlanner.Query.Keyword
import QueryPlanner.Query.Reader
import QueryPlanner.Query.Reader.Alias
import QueryPlanner.Query.Reader.Change
import QueryPlanner.Query.Reader.Clause
import QueryPlanner.Query.Reader.Operand
import QueryPlanner.Query.Reader.Operation
import QueryPlanner.Query.Reader.Phrases
import QueryPlanner.Query.Reader.Selection
import QueryPlanner.Query.Reader.Table
import QueryPlanner.Query.Reader.Text
import QueryPlanner.Query.Statement
import QueryPlanner.Query.Token
import QueryPlanner.Query.WhereList
import QueryPlanner.Registry
import QueryPlanner.Relation
import QueryPlanner.Settings
import QueryPlanner.Settings.Yaml
import QueryPlanner.Store
import QueryPlanner.Text.Basic
import QueryPlanner.Text.Calendar
import QueryPlanner.Text.Likeness
import QueryPlanner.Text.Numeral
import QueryPlanner.Text.Printable
import QueryPlanner.Text.Word
