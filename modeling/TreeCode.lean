import TreeCode.CType
import TreeCode.Command.Action
import TreeCode.Command.Arguments
import TreeCode.Command.Compile
import TreeCode.Command.Disk
import TreeCode.Evaluation
import TreeCode.Event
import TreeCode.FeatureType
import TreeCode.Golden.Matcher
import TreeCode.Golden.Runner
import TreeCode.Golden.Spec
import TreeCode.Inline.Emission
import TreeCode.Inline.Plan
import TreeCode.Inline.Statement
import TreeCode.Main
import TreeCode.Number.Exact
import TreeCode.Number.Numeral
import TreeCode.Number.Plain
import TreeCode.Number.Shortest
import TreeCode.Program.Basic
import TreeCode.Program.Listing
import TreeCode.Proofs.CType.Constant
import TreeCode.Proofs.CType.Conversion
import TreeCode.Proofs.CType.Literal
import TreeCode.Proofs.CType.Order
import TreeCode.Proofs.CType.Range
import TreeCode.Proofs.CType.Threshold
import TreeCode.Proofs.CType.Width
import TreeCode.Proofs.Command.Delivery
import TreeCode.Proofs.Command.Disk
import TreeCode.Proofs.Golden.Agreement
import TreeCode.Proofs.Golden.Matching
import TreeCode.Proofs.Golden.Settings
import TreeCode.Proofs.Golden.Stripping
import TreeCode.Proofs.Inline.Branches
import TreeCode.Proofs.Inline.Correspondence
import TreeCode.Proofs.Inline.Emission
import TreeCode.Proofs.Inline.Greedy
import TreeCode.Proofs.Inline.Positions
import TreeCode.Proofs.Inline.Spending
import TreeCode.Proofs.Inline.Total
import TreeCode.Proofs.Number.Comparison
import TreeCode.Proofs.Number.Digits
import TreeCode.Proofs.Number.Integer
import TreeCode.Proofs.Number.Narrowing
import TreeCode.Proofs.Number.Proportion
import TreeCode.Proofs.Number.Ranking
import TreeCode.Proofs.Number.Rounding
import TreeCode.Proofs.Number.Scanning
import TreeCode.Proofs.Program.Braces
import TreeCode.Proofs.Program.Budget
import TreeCode.Proofs.Program.Decoding
import TreeCode.Proofs.Program.Fields
import TreeCode.Proofs.Program.Independence
import TreeCode.Proofs.Program.Inlined
import TreeCode.Proofs.Program.LineKinds
import TreeCode.Proofs.Program.Lines
import TreeCode.Proofs.Program.Names
import TreeCode.Proofs.Program.Outlines
import TreeCode.Proofs.Program.Prediction
import TreeCode.Proofs.Program.Renumbering
import TreeCode.Proofs.Program.Report
import TreeCode.Proofs.Program.Rows
import TreeCode.Proofs.Program.Scoping
import TreeCode.Proofs.Program.Transcript
import TreeCode.Proofs.Session.Bookkeeping
import TreeCode.Proofs.Session.Handles
import TreeCode.Proofs.Table.Layout
import TreeCode.Proofs.Table.Order
import TreeCode.Proofs.Table.Renumbering
import TreeCode.Proofs.Table.Representation
import TreeCode.Proofs.Table.Runs
import TreeCode.Proofs.Table.Transcript
import TreeCode.Proofs.Table.Walk
import TreeCode.Proofs.Text.Lines
import TreeCode.Proofs.Text.Trim
import TreeCode.Proofs.Tree.Assignment
import TreeCode.Proofs.Tree.Built
import TreeCode.Proofs.Tree.Defects
import TreeCode.Proofs.Tree.Evaluation
import TreeCode.Proofs.Tree.Parting
import TreeCode.Proofs.Tree.Proportions
import TreeCode.Proofs.Tree.Renumbering
import TreeCode.Proofs.Tree.Shape
import TreeCode.Proofs.Tree.Thresholds
import TreeCode.Proofs.Tree.Traversal
import TreeCode.Proofs.TreeText.Grammar
import TreeCode.Proofs.TreeText.Layout
import TreeCode.Proofs.TreeText.Margins
import TreeCode.Proofs.TreeText.Naming
import TreeCode.Proofs.TreeText.Parsing
import TreeCode.Proofs.TreeText.Reading
import TreeCode.Proofs.TreeText.Simulation
import TreeCode.Proofs.TreeText.Skipping
import TreeCode.Proofs.TreeText.Tokens
import TreeCode.Session
import TreeCode.Symbols
import TreeCode.Table.Basic
import TreeCode.Table.Packing
import TreeCode.Target.Architecture
import TreeCode.Target.Cost
import TreeCode.Target.Failure
import TreeCode.Text.Alphabetic
import TreeCode.Text.Blank
import TreeCode.Text.Combining
import TreeCode.Text.Escaped
import TreeCode.Text.Hidden
import TreeCode.Text.Lines
import TreeCode.Text.Numeric
import TreeCode.Tree.Basic
import TreeCode.Tree.Draft
import TreeCode.Tree.Probability
import TreeCode.TreeText.Definition
import TreeCode.TreeText.Fault
import TreeCode.TreeText.Parse
import TreeCode.TreeText.Reader
