import Dataflow.Element
import Dataflow.OrdSet
import Dataflow.KeyedList
import Dataflow.Text.Hidden
import Dataflow.Text.Quoted
import Dataflow.Text.Lines
import Dataflow.Text.Decimal
import Dataflow.Json.Literal
import Dataflow.Json.Token
import Dataflow.Json.Basic
import Dataflow.Json.Layout
import Dataflow.Json.Form
import Dataflow.Quad.Basic
import Dataflow.Quad.Names
import Dataflow.Quad.Text
import Dataflow.Quad.Form
import Dataflow.Error
import Dataflow.Block
import Dataflow.Graph.Basic
import Dataflow.Graph.Search
import Dataflow.Graph.Order
import Dataflow.Graph.Neighbours
import Dataflow.Graph.Form
import Dataflow.Draft
import Dataflow.Fact.Meet
import Dataflow.Fact.Basic
import Dataflow.Fact.Map
import Dataflow.Fact.Store
import Dataflow.Solver.Problem
import Dataflow.Solver.Sweep
import Dataflow.Event
import Dataflow.Solver.Trace
import Dataflow.Report.Basic
import Dataflow.Analysis.Visit
import Dataflow.Analysis.ReachingDefinitions
import Dataflow.Analysis.Liveness
import Dataflow.Analysis.Faintness
import Dataflow.Analysis.GenKill
import Dataflow.Graph.CheckInsertion
import Dataflow.Analysis.NonNull
import Dataflow.Report.Header
import Dataflow.Report.Emission
import Dataflow.Proofs.Lattice
import Dataflow.Proofs.Search
import Dataflow.Proofs.Neighbours
import Dataflow.Proofs.Valuation
import Dataflow.Proofs.Sweep
import Dataflow.Proofs.Descent
import Dataflow.Proofs.Settling
import Dataflow.Proofs.Lawful
import Dataflow.Proofs.Solution
import Dataflow.Proofs.Elementwise
import Dataflow.Proofs.Relay
import Dataflow.Proofs.Path
import Dataflow.Proofs.ReachingDefinitions
import Dataflow.Proofs.Liveness
import Dataflow.Proofs.Faintness
import Dataflow.Proofs.Built
import Dataflow.Proofs.Reach
import Dataflow.Proofs.NonNull
import Dataflow.Proofs.Rewriting
import Dataflow.Proofs.Redundancy
import Dataflow.Proofs.WellFormed
import Dataflow.Proofs.Script
import Dataflow.Proofs.EdgeSplit
import Dataflow.Proofs.EdgeJoin
import Dataflow.Proofs.CheckInsertion
import Dataflow.Proofs.Hops
import Dataflow.Proofs.DefUse
import Dataflow.Proofs.FaintRemoval
import Dataflow.Proofs.Retention
import Dataflow.Proofs.Allocation
import Dataflow.Proofs.Unreachable
import Dataflow.Proofs.Transparency
import Dataflow.Proofs.Rearrangement
import Dataflow.Proofs.Numbering
import Dataflow.Proofs.JsonText
import Dataflow.Proofs.JsonForms
import Dataflow.Proofs.InPlace
import Dataflow.Proofs.Reuse
import Dataflow.Proofs.DirectConstruction
import Dataflow.Proofs.DepthFirst
import Dataflow.Proofs.SeeThrough
import Dataflow.Proofs.Convergence
import Dataflow.Proofs.LoopFree
import Dataflow.Proofs.StrongLiveness
import Dataflow.Proofs.InsertionOutcome
import Dataflow.Proofs.Emission
import Dataflow.Proofs.RepeatedInsertion
import Dataflow.Proofs.Reports
import Dataflow.Proofs.SplitOrder
import Dataflow.Proofs.FactLattice
import Dataflow.Proofs.JsonEmission
