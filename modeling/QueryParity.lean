import QueryParity.Config.Text
import QueryParity.Proofs.Catalog
import QueryParity.Proofs.Catalog.Partitions
import QueryParity.Proofs.Config.Text
import QueryParity.Proofs.Dataset
import QueryParity.Proofs.Dataset.CrossJoin
import QueryParity.Proofs.Dataset.Keys
import QueryParity.Proofs.Dataset.Rows
import QueryParity.Proofs.Expr.Acceptance
import QueryParity.Proofs.Expr.Grammar
import QueryParity.Proofs.Expr.Layouts
import QueryParity.Proofs.Expr.Levels
import QueryParity.Proofs.Expr.MapRoots
import QueryParity.Proofs.Expr.Nesting
import QueryParity.Proofs.Expr.Nodes
import QueryParity.Proofs.Expr.Offers
import QueryParity.Proofs.Expr.Positions
import QueryParity.Proofs.Expr.Postorder
import QueryParity.Proofs.Expr.Printer
import QueryParity.Proofs.Expr.ShortCircuit
import QueryParity.Proofs.Expr.Tokens
import QueryParity.Proofs.Expr.Transform
import QueryParity.Proofs.Expr.Typing
import QueryParity.Proofs.Expr.Walk
import QueryParity.Proofs.Expr.Walk.Analyses
import QueryParity.Proofs.Expr.Walk.Order
import QueryParity.Proofs.Expr.Walk.Schedule
import QueryParity.Proofs.Expr.Walk.Visits
import QueryParity.Proofs.Fuzzer
import QueryParity.Proofs.Fuzzer.Capacity
import QueryParity.Proofs.Fuzzer.Construction
import QueryParity.Proofs.Fuzzer.History
import QueryParity.Proofs.Fuzzer.Replay
import QueryParity.Proofs.Generator
import QueryParity.Proofs.Generator.Applications
import QueryParity.Proofs.Generator.Depth
import QueryParity.Proofs.Generator.Literals
import QueryParity.Proofs.Generator.Placeholders
import QueryParity.Proofs.Generator.Slots
import QueryParity.Proofs.Generator.Trees
import QueryParity.Proofs.Layout
import QueryParity.Proofs.Layout.Escapes
import QueryParity.Proofs.Layout.Lines
import QueryParity.Proofs.Lowering.Binding
import QueryParity.Proofs.Lowering.Commutation
import QueryParity.Proofs.Lowering.Meaning
import QueryParity.Proofs.Lowering.NormalForm
import QueryParity.Proofs.Lowering.Rewrites
import QueryParity.Proofs.Lowering.Soundness
import QueryParity.Proofs.Lowering.Standard
import QueryParity.Proofs.Lowering.Steps
import QueryParity.Proofs.Operator.Arithmetic
import QueryParity.Proofs.Oracle
import QueryParity.Proofs.Oracle.Agreement
import QueryParity.Proofs.Oracle.Checks
import QueryParity.Proofs.Oracle.Judgement
import QueryParity.Proofs.Outcome
import QueryParity.Proofs.Program.Correctness
import QueryParity.Proofs.Program.Discipline
import QueryParity.Proofs.Program.Emission
import QueryParity.Proofs.Program.Machine
import QueryParity.Proofs.Query
import QueryParity.Proofs.Query.Filter
import QueryParity.Proofs.Session.Columns
import QueryParity.Proofs.Session.Load
import QueryParity.Proofs.Session.Queries
import QueryParity.Proofs.Substitution
import QueryParity.Proofs.Substitution.Replacement
import QueryParity.Proofs.Sweep
import QueryParity.Proofs.Sweep.Coverage
import QueryParity.Proofs.Sweep.NullGuard
import QueryParity.Proofs.Text.Controls
import QueryParity.Proofs.Text.Wildcard
import QueryParity.Proofs.Text.Wildcard.Reading
import QueryParity.Proofs.Toml.Document
import QueryParity.Proofs.Toml.Integer
import QueryParity.Proofs.Toml.Reader
import QueryParity.Proofs.Toml.Text
import QueryParity.Random.Cycle
import QueryParity.Sweep
