import ServiceGraph.Cache.Artifacts
import ServiceGraph.Cache.Manifest
import ServiceGraph.Command.Arguments
import ServiceGraph.Command.Run
import ServiceGraph.Config.Basic
import ServiceGraph.Config.Check
import ServiceGraph.Config.Include
import ServiceGraph.Config.Reading
import ServiceGraph.Config.Services
import ServiceGraph.Container.Basic
import ServiceGraph.Container.Constructor
import ServiceGraph.Container.Error
import ServiceGraph.Decimal.Binary64
import ServiceGraph.Decimal.Nearest
import ServiceGraph.Decimal.Numeral
import ServiceGraph.Decimal.Shortest
import ServiceGraph.Definition
import ServiceGraph.Digest.Blake3
import ServiceGraph.Digest.Text
import ServiceGraph.Extension.Basic
import ServiceGraph.Extension.Builtin
import ServiceGraph.Extension.Builtin.Http
import ServiceGraph.Extension.Builtin.Services
import ServiceGraph.Extension.Lifecycle
import ServiceGraph.Extension.Order
import ServiceGraph.Files.Fault
import ServiceGraph.Files.Path
import ServiceGraph.Files.Pattern
import ServiceGraph.Files.Tree
import ServiceGraph.Kernel.Basic
import ServiceGraph.Kernel.Cached
import ServiceGraph.Live.Heap
import ServiceGraph.Live.Router
import ServiceGraph.Main
import ServiceGraph.Node.Basic
import ServiceGraph.Node.Reading
import ServiceGraph.Node.Substitution
import ServiceGraph.OrderedMap
import ServiceGraph.Parameters.Basic
import ServiceGraph.Parameters.Expansion
import ServiceGraph.Pipeline
import ServiceGraph.Proofs.Assembly.Finished
import ServiceGraph.Proofs.Assembly.InPlace
import ServiceGraph.Proofs.Cache.Freshness
import ServiceGraph.Proofs.Cache.Returned
import ServiceGraph.Proofs.Cache.Vouched
import ServiceGraph.Proofs.Cache.Writers
import ServiceGraph.Proofs.Command.Fresh
import ServiceGraph.Proofs.Config.Checked
import ServiceGraph.Proofs.Config.Cycles
import ServiceGraph.Proofs.Config.Declared
import ServiceGraph.Proofs.Config.Forest
import ServiceGraph.Proofs.Config.Grouping
import ServiceGraph.Proofs.Config.Layered
import ServiceGraph.Proofs.Config.Precedence
import ServiceGraph.Proofs.Container.Cycles
import ServiceGraph.Proofs.Container.Filled
import ServiceGraph.Proofs.Container.Frame
import ServiceGraph.Proofs.Container.Fresh
import ServiceGraph.Proofs.Container.Lookup
import ServiceGraph.Proofs.Container.Opening
import ServiceGraph.Proofs.Container.Plan
import ServiceGraph.Proofs.Container.Rules
import ServiceGraph.Proofs.Container.Shared
import ServiceGraph.Proofs.Container.Trace
import ServiceGraph.Proofs.Container.Unshared
import ServiceGraph.Proofs.Container.Unwound
import ServiceGraph.Proofs.Container.Within
import ServiceGraph.Proofs.Decimal.Digits
import ServiceGraph.Proofs.Decimal.Layout
import ServiceGraph.Proofs.Decimal.Shortest
import ServiceGraph.Proofs.Digest.Numbers
import ServiceGraph.Proofs.Extension.Contributed
import ServiceGraph.Proofs.Extension.Observed
import ServiceGraph.Proofs.Extension.Order
import ServiceGraph.Proofs.Extension.Phases
import ServiceGraph.Proofs.Extension.Provenance
import ServiceGraph.Proofs.Extension.Repeated
import ServiceGraph.Proofs.Extension.Search
import ServiceGraph.Proofs.Extension.Stable
import ServiceGraph.Proofs.Extension.Survey
import ServiceGraph.Proofs.Files.Canonical
import ServiceGraph.Proofs.Files.Changes
import ServiceGraph.Proofs.Files.Found
import ServiceGraph.Proofs.Files.Places
import ServiceGraph.Proofs.Files.Search
import ServiceGraph.Proofs.Grounded
import ServiceGraph.Proofs.Kernel.Assembled
import ServiceGraph.Proofs.Kernel.Built
import ServiceGraph.Proofs.Kernel.Inputs
import ServiceGraph.Proofs.Kernel.Loaded
import ServiceGraph.Proofs.Kernel.Overrides
import ServiceGraph.Proofs.Kernel.Reuse
import ServiceGraph.Proofs.Kernel.Runs
import ServiceGraph.Proofs.Node.Collapsed
import ServiceGraph.Proofs.Node.Escaped
import ServiceGraph.Proofs.Node.Leaves
import ServiceGraph.Proofs.Node.Order
import ServiceGraph.Proofs.Node.Shorthand
import ServiceGraph.Proofs.Node.Substituted
import ServiceGraph.Proofs.Outcomes
import ServiceGraph.Proofs.Parameters.Assigned
import ServiceGraph.Proofs.Parameters.Edited
import ServiceGraph.Proofs.Parameters.Inquiry
import ServiceGraph.Proofs.Parameters.KeyExpression
import ServiceGraph.Proofs.Parameters.Layers
import ServiceGraph.Proofs.Parameters.Objects
import ServiceGraph.Proofs.Parameters.Reported
import ServiceGraph.Proofs.Parameters.Resolved
import ServiceGraph.Proofs.Parameters.Room
import ServiceGraph.Proofs.Parameters.Unbounded
import ServiceGraph.Proofs.Pipeline.Splicing
import ServiceGraph.Proofs.Registry.History
import ServiceGraph.Proofs.Routes.Contributions
import ServiceGraph.Proofs.Routes.Deferred
import ServiceGraph.Proofs.Routes.Forest
import ServiceGraph.Proofs.Routes.Inherited
import ServiceGraph.Proofs.Routes.Prefixes
import ServiceGraph.Proofs.Routes.Revived
import ServiceGraph.Proofs.Routes.Served
import ServiceGraph.Proofs.Routes.Stray
import ServiceGraph.Proofs.Routes.Timing
import ServiceGraph.Proofs.Schema.Conforms
import ServiceGraph.Proofs.Schema.Settled
import ServiceGraph.Proofs.Source.Calls
import ServiceGraph.Proofs.Source.Checked
import ServiceGraph.Proofs.Source.Closed
import ServiceGraph.Proofs.Source.Compilable
import ServiceGraph.Proofs.Source.Emitted
import ServiceGraph.Proofs.Source.Endless
import ServiceGraph.Proofs.Source.Grouped
import ServiceGraph.Proofs.Source.Heads
import ServiceGraph.Proofs.Source.Layout
import ServiceGraph.Proofs.Source.Literals
import ServiceGraph.Proofs.Source.Meaning
import ServiceGraph.Proofs.Source.Names
import ServiceGraph.Proofs.Source.Naming
import ServiceGraph.Proofs.Source.Order
import ServiceGraph.Proofs.Source.Outline
import ServiceGraph.Proofs.Source.Spelled
import ServiceGraph.Proofs.Source.Static
import ServiceGraph.Proofs.Source.Surface
import ServiceGraph.Proofs.Source.Template
import ServiceGraph.Proofs.Source.Tokens
import ServiceGraph.Proofs.Source.Trees
import ServiceGraph.Proofs.Source.Unambiguous
import ServiceGraph.Proofs.Source.Unchecked
import ServiceGraph.Proofs.Source.Unfolding
import ServiceGraph.Proofs.Source.Uses
import ServiceGraph.Proofs.Source.Wired
import ServiceGraph.Proofs.Text.Quoted
import ServiceGraph.Registry.Basic
import ServiceGraph.Registry.Change
import ServiceGraph.Routes.Assembler
import ServiceGraph.Routes.Path
import ServiceGraph.Routes.Table
import ServiceGraph.Scenario.Caches
import ServiceGraph.Scenario.Containers
import ServiceGraph.Scenario.Extensions
import ServiceGraph.Scenario.Kernels
import ServiceGraph.Scenario.Label
import ServiceGraph.Scenario.Lifecycles
import ServiceGraph.Scenario.Objects
import ServiceGraph.Scenario.Parameters
import ServiceGraph.Scenario.Registries
import ServiceGraph.Scenario.Reply
import ServiceGraph.Schema
import ServiceGraph.Schema.Reading
import ServiceGraph.Source.Compile
import ServiceGraph.Source.Module
import ServiceGraph.Source.Template
import ServiceGraph.Source.Term
import ServiceGraph.Text.Parts
import ServiceGraph.Text.Printable
import ServiceGraph.Text.Quoted
import ServiceGraph.Value.Basic
import ServiceGraph.Value.Json
import ServiceGraph.Value.Merge
import ServiceGraph.Value.Text
import ServiceGraph.Value.Written
import ServiceGraph.Yaml.Cell
import ServiceGraph.Yaml.Plain
import ServiceGraph.Yaml.Reading
import ServiceGraph.Yaml.Token.Basic
import ServiceGraph.Yaml.Token.Block
import ServiceGraph.Yaml.Token.Plain
import ServiceGraph.Yaml.Token.Quoted
import ServiceGraph.Yaml.Token.Stream
import ServiceGraph.Yaml.Token.Tag
import ServiceGraph.Yaml.Tree
import ServiceGraph.Yaml.Written
