import CodeAudit.Baseline.Basic
import CodeAudit.Baseline.Document
import CodeAudit.Baseline.File
import CodeAudit.Builtin.All
import CodeAudit.Builtin.Complexity
import CodeAudit.Builtin.Guard
import CodeAudit.Builtin.Naming
import CodeAudit.Cli.Arguments
import CodeAudit.Cli.Basic
import CodeAudit.Config.Basic
import CodeAudit.Config.Error
import CodeAudit.Config.Load
import CodeAudit.Config.Read
import CodeAudit.Config.Settings
import CodeAudit.Engine.Basic
import CodeAudit.Engine.Pass
import CodeAudit.FilePattern
import CodeAudit.FileSystem
import CodeAudit.Finding.Basic
import CodeAudit.Finding.Json
import CodeAudit.Glob
import CodeAudit.Json.Basic
import CodeAudit.Json.Decode
import CodeAudit.Json.Reader
import CodeAudit.Json.Writer
import CodeAudit.Location
import CodeAudit.Main
import CodeAudit.Manifest.Basic
import CodeAudit.Manifest.Decode
import CodeAudit.Manifest.Provider
import CodeAudit.Metrics
import CodeAudit.Notification
import CodeAudit.Number.Binary64
import CodeAudit.Number.Power
import CodeAudit.Number.Reading
import CodeAudit.Number.Shortest
import CodeAudit.Ordered.Table
import CodeAudit.Ordered.TextSet
import CodeAudit.Path
import CodeAudit.Pattern
import CodeAudit.Pipeline.Basic
import CodeAudit.Pipeline.Extension
import CodeAudit.Profile.Basic
import CodeAudit.Profile.Csv
import CodeAudit.Proofs.Finding.Order
import CodeAudit.Proofs.Ordered.StableSort
import CodeAudit.Proofs.Ordered.Table
import CodeAudit.Provider.Basic
import CodeAudit.Regex.Basic
import CodeAudit.Regex.CharSet
import CodeAudit.Regex.Language
import CodeAudit.Regex.Match
import CodeAudit.Regex.Reader
import CodeAudit.Registry
import CodeAudit.Report.Basic
import CodeAudit.Report.Style
import CodeAudit.Report.Text
import CodeAudit.Result.Basic
import CodeAudit.Result.Status
import CodeAudit.Rule.Basic
import CodeAudit.Rule.Category
import CodeAudit.Rule.Descriptor
import CodeAudit.Rule.PathFilter
import CodeAudit.Run.Basic
import CodeAudit.Run.Options
import CodeAudit.Severity
import CodeAudit.Suppression.Resolver
import CodeAudit.Suppression.Targets
import CodeAudit.Text.Blank
import CodeAudit.Text.Case
import CodeAudit.Text.CaseOrbit
import CodeAudit.Text.DecimalDigit
import CodeAudit.Text.Pieces
import CodeAudit.Text.WordChar
import CodeAudit.Tree.Basic
import CodeAudit.Tree.Kind
import CodeAudit.Tree.Outline
import CodeAudit.Tree.Reading
import CodeAudit.Tree.Signature
import CodeAudit.Validation.Problem
import CodeAudit.Validation.Schema
import CodeAudit.Value.Basic
import CodeAudit.Value.Merge
import CodeAudit.Value.OfJson
import CodeAudit.Value.Yaml
import CodeAudit.Xml.Entity
import CodeAudit.Xml.Token
import CodeAudit.Yaml.Cursor
import CodeAudit.Yaml.Document
import CodeAudit.Yaml.Scalar
import CodeAudit.Yaml.Token
import CodeAudit.Proofs.Engine.Accumulator
import CodeAudit.Proofs.Engine.Assembly
import CodeAudit.Proofs.Engine.Workers
import CodeAudit.Proofs.Baseline.Stage
import CodeAudit.Proofs.Engine.Conservation
import CodeAudit.Proofs.Engine.Guard
import CodeAudit.Proofs.FileSystem
import CodeAudit.Proofs.Text.Trim
import CodeAudit.Proofs.Xml.Entity
import CodeAudit.Proofs.Xml.Token
import CodeAudit.Proofs.Baseline.Document
import CodeAudit.Proofs.Baseline.Tidy
import CodeAudit.Proofs.Pipeline.Extension
import CodeAudit.Proofs.Baseline.Acceptance
import CodeAudit.Proofs.Baseline.History
import CodeAudit.Proofs.Baseline.Position
import CodeAudit.Proofs.Value.Distinct
import CodeAudit.Proofs.Value.Merge
import CodeAudit.Proofs.Config.Layers
import CodeAudit.Proofs.Tree.Linked
import CodeAudit.Proofs.Tree.Walk
import CodeAudit.Proofs.Tree.Made
import CodeAudit.Proofs.Tree.Correspondence
import CodeAudit.Proofs.Tree.Signature
import CodeAudit.Proofs.Baseline.RoundTrip
import CodeAudit.Proofs.Pipeline.Trace
import CodeAudit.Proofs.Metrics
import CodeAudit.Proofs.Engine.InputOrder
import CodeAudit.Proofs.Engine.Ledger
import CodeAudit.Proofs.Engine.Isolation
import CodeAudit.Proofs.Baseline.Reuse
import CodeAudit.Proofs.Value.Without
import CodeAudit.Proofs.Provider.Keys
import CodeAudit.Proofs.Registry.Stock
import CodeAudit.Proofs.Registry.Single
import CodeAudit.Proofs.Provider.Reads
import CodeAudit.Proofs.Regex.Match
import CodeAudit.Proofs.Validation.Walk
import CodeAudit.Proofs.Validation.Names
import CodeAudit.Proofs.Validation.Exempt
import CodeAudit.Proofs.Validation.Unread
import CodeAudit.Proofs.Engine.FileSwitch
import CodeAudit.Proofs.Baseline.Grammar
import CodeAudit.Proofs.Run.Frame
import CodeAudit.Proofs.Provider.Scope
import CodeAudit.Proofs.Registry.Independence
import CodeAudit.Proofs.Value.Update
import CodeAudit.Proofs.Config.Scope
import CodeAudit.Proofs.Suppression.Surroundings
import CodeAudit.Proofs.Suppression.MarkerNames
import CodeAudit.Proofs.Suppression.Watch
import CodeAudit.Proofs.Value.Sameness
import CodeAudit.Proofs.Tree.Layout
import CodeAudit.Proofs.Tree.Unbounded
import CodeAudit.Proofs.Value.KeyOrder
import CodeAudit.Proofs.Tree.Calls
import CodeAudit.Proofs.Tree.Duality
import CodeAudit.Proofs.Tree.Outcome
import CodeAudit.Proofs.Suppression.Outcome
import CodeAudit.Proofs.Tree.Ordinal
import CodeAudit.Proofs.Tree.Census
import CodeAudit.Proofs.Profile.Totals
import CodeAudit.Proofs.Profile.Average
import CodeAudit.Proofs.Profile.Csv
import CodeAudit.Proofs.Engine.MetricTotals
import CodeAudit.Proofs.Text.Digits
import CodeAudit.Proofs.Text.Pieces
import CodeAudit.Proofs.Manifest.Message
import CodeAudit.Proofs.Report.Grouping
import CodeAudit.Proofs.Report.Listing
import CodeAudit.Proofs.Report.Colour
import CodeAudit.Proofs.Validation.Entries
