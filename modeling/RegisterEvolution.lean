import RegisterEvolution.Decimal.Binary
import RegisterEvolution.Decimal.Layout
import RegisterEvolution.Decimal.Reader
import RegisterEvolution.Decimal.Shortest
import RegisterEvolution.Digest
import RegisterEvolution.Draw.Generator
import RegisterEvolution.Draw.Stream
import RegisterEvolution.Draw.Tape
import RegisterEvolution.Draw.Trace
import RegisterEvolution.Entries
import RegisterEvolution.Error
import RegisterEvolution.Evolution.Breeding
import RegisterEvolution.Evolution.Engine
import RegisterEvolution.Evolution.Evaluation
import RegisterEvolution.Evolution.Lab
import RegisterEvolution.Evolution.Observer
import RegisterEvolution.Evolution.Population
import RegisterEvolution.Evolution.Summary
import RegisterEvolution.Fault
import RegisterEvolution.Format.Reader
import RegisterEvolution.Format.Toml.Table
import RegisterEvolution.Format.Toml.Text
import RegisterEvolution.Format.Yaml.Node
import RegisterEvolution.Format.Yaml.Scalar
import RegisterEvolution.Format.Yaml.Token
import RegisterEvolution.Journal.Clock
import RegisterEvolution.Journal.Line
import RegisterEvolution.Journal.Record
import RegisterEvolution.Journal.Setup
import RegisterEvolution.Journal.Template
import RegisterEvolution.Machine.Instruction
import RegisterEvolution.Machine.Opcode
import RegisterEvolution.Machine.Registers
import RegisterEvolution.Machine.Vector
import RegisterEvolution.Program.Execution
import RegisterEvolution.Program.Fingerprint
import RegisterEvolution.Program.Shape
import RegisterEvolution.Program.Store
import RegisterEvolution.Proofs.Binary64.Arithmetic
import RegisterEvolution.Proofs.Binary64.Definite
import RegisterEvolution.Proofs.Binary64.Error
import RegisterEvolution.Proofs.Binary64.Extended
import RegisterEvolution.Proofs.Binary64.Magnitude
import RegisterEvolution.Proofs.Binary64.Nearest
import RegisterEvolution.Proofs.Binary64.Order
import RegisterEvolution.Proofs.Binary64.Quotient
import RegisterEvolution.Proofs.Binary64.Rounding
import RegisterEvolution.Proofs.Binary64.Unpacked
import RegisterEvolution.Proofs.Binary64.Value
import RegisterEvolution.Proofs.Decimal.Binary
import RegisterEvolution.Proofs.Decimal.Layout
import RegisterEvolution.Proofs.Decimal.Shortest
import RegisterEvolution.Proofs.Draw.Choices
import RegisterEvolution.Proofs.Draw.Script
import RegisterEvolution.Proofs.Evolution.Answers
import RegisterEvolution.Proofs.Evolution.Breeding
import RegisterEvolution.Proofs.Evolution.Brood
import RegisterEvolution.Proofs.Evolution.Coherence
import RegisterEvolution.Proofs.Evolution.Coupling
import RegisterEvolution.Proofs.Evolution.Delivery
import RegisterEvolution.Proofs.Evolution.Dispatch
import RegisterEvolution.Proofs.Evolution.Elitism
import RegisterEvolution.Proofs.Evolution.Fitness
import RegisterEvolution.Proofs.Evolution.Genes
import RegisterEvolution.Proofs.Evolution.Independence
import RegisterEvolution.Proofs.Evolution.Inert
import RegisterEvolution.Proofs.Evolution.Iteration
import RegisterEvolution.Proofs.Evolution.LastRanked
import RegisterEvolution.Proofs.Evolution.Lineage
import RegisterEvolution.Proofs.Evolution.Lockstep
import RegisterEvolution.Proofs.Evolution.Mean
import RegisterEvolution.Proofs.Evolution.Notices
import RegisterEvolution.Proofs.Evolution.Numbers
import RegisterEvolution.Proofs.Evolution.Offspring
import RegisterEvolution.Proofs.Evolution.Phases
import RegisterEvolution.Proofs.Evolution.Progress
import RegisterEvolution.Proofs.Evolution.Protocol
import RegisterEvolution.Proofs.Evolution.Ranking
import RegisterEvolution.Proofs.Evolution.Renumbering
import RegisterEvolution.Proofs.Evolution.Repetition
import RegisterEvolution.Proofs.Evolution.Resumption
import RegisterEvolution.Proofs.Evolution.Retry
import RegisterEvolution.Proofs.Evolution.Scoring
import RegisterEvolution.Proofs.Evolution.Seeding
import RegisterEvolution.Proofs.Evolution.Selection
import RegisterEvolution.Proofs.Evolution.Slots
import RegisterEvolution.Proofs.Evolution.Standing
import RegisterEvolution.Proofs.Evolution.Statistics
import RegisterEvolution.Proofs.Evolution.Succession
import RegisterEvolution.Proofs.Evolution.Summary
import RegisterEvolution.Proofs.Evolution.Truncation
import RegisterEvolution.Proofs.Evolution.Turnover
import RegisterEvolution.Proofs.Evolution.Twins
import RegisterEvolution.Proofs.Evolution.Workers
import RegisterEvolution.Proofs.Journal.Colour
import RegisterEvolution.Proofs.Journal.Template
import RegisterEvolution.Proofs.Machine.Saturation
import RegisterEvolution.Proofs.Machine.Vector
import RegisterEvolution.Proofs.Outcome
import RegisterEvolution.Proofs.Program.Acceptance
import RegisterEvolution.Proofs.Program.Blocks
import RegisterEvolution.Proofs.Program.Branching
import RegisterEvolution.Proofs.Program.Fingerprint
import RegisterEvolution.Proofs.Program.Footprint
import RegisterEvolution.Proofs.Program.Memory
import RegisterEvolution.Proofs.Program.Operands
import RegisterEvolution.Proofs.Program.Rejection
import RegisterEvolution.Proofs.Program.Safety
import RegisterEvolution.Proofs.Program.Store
import RegisterEvolution.Proofs.Program.Validity
import RegisterEvolution.Proofs.Settings.Accepted
import RegisterEvolution.Proofs.Settings.Binding
import RegisterEvolution.Proofs.Settings.Environment
import RegisterEvolution.Proofs.Settings.Interval
import RegisterEvolution.Proofs.Settings.Layers
import RegisterEvolution.Proofs.Settings.Loading
import RegisterEvolution.Proofs.Settings.Precedence
import RegisterEvolution.Proofs.Settings.Refusal
import RegisterEvolution.Proofs.Settings.Rendering
import RegisterEvolution.Proofs.Table.Column
import RegisterEvolution.Proofs.Table.Numeric
import RegisterEvolution.Proofs.Table.Reader
import RegisterEvolution.Proofs.Table.Rows
import RegisterEvolution.Proofs.Tasks.Accuracy
import RegisterEvolution.Proofs.Tasks.BlankRows
import RegisterEvolution.Proofs.Tasks.Decision
import RegisterEvolution.Proofs.Tasks.Episodes
import RegisterEvolution.Proofs.Tasks.GivenNames
import RegisterEvolution.Proofs.Tasks.Labels
import RegisterEvolution.Proofs.Tasks.Median
import RegisterEvolution.Proofs.Tasks.Samples
import RegisterEvolution.Proofs.Text.Numeral
import RegisterEvolution.Proofs.Value
import RegisterEvolution.Proofs.Variation.Building
import RegisterEvolution.Proofs.Variation.Children
import RegisterEvolution.Proofs.Variation.Exchange
import RegisterEvolution.Proofs.Variation.Locality
import RegisterEvolution.Proofs.Variation.Mutation
import RegisterEvolution.Proofs.Variation.Neighbourhood
import RegisterEvolution.Proofs.Variation.Random
import RegisterEvolution.Proofs.Variation.Recombination
import RegisterEvolution.Proofs.Variation.Support
import RegisterEvolution.Settings.Basic
import RegisterEvolution.Settings.Check
import RegisterEvolution.Settings.Coercion
import RegisterEvolution.Settings.File
import RegisterEvolution.Settings.Layer
import RegisterEvolution.Table.Column
import RegisterEvolution.Table.Csv
import RegisterEvolution.Table.Reader
import RegisterEvolution.Tasks.Basic
import RegisterEvolution.Tasks.Classification
import RegisterEvolution.Tasks.Control
import RegisterEvolution.Tasks.Samples
import RegisterEvolution.Text.Blank
import RegisterEvolution.Text.Numeral
import RegisterEvolution.Text.Quoted
import RegisterEvolution.Text.Shorten
import RegisterEvolution.Text.Unprintable
import RegisterEvolution.Value
import RegisterEvolution.Variation.Mutation
import RegisterEvolution.Variation.Random
import RegisterEvolution.Variation.Recombination
