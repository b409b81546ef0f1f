import Remap.Cache
import Remap.Check.Node
import Remap.Check.Problem
import Remap.Check.Resolved
import Remap.Check.Structure
import Remap.CommandLine.Arguments
import Remap.CommandLine.Command
import Remap.CommandLine.Run
import Remap.Compatibility.History
import Remap.Compatibility.Report
import Remap.Date.Calendar
import Remap.Date.Layout
import Remap.Date.Moment
import Remap.Date.Reader
import Remap.Date.Timestamp
import Remap.Date.Writer
import Remap.Decimal.Binary64
import Remap.Decimal.Layout
import Remap.Decimal.Literal
import Remap.Decimal.Shortest
import Remap.Diagnostic
import Remap.Digest.Sha256
import Remap.Doctor.Conversion
import Remap.Doctor.Fix
import Remap.Doctor.Report
import Remap.Entries
import Remap.Format
import Remap.Fragment.Bundle
import Remap.Fragment.Order
import Remap.Fragment.Table
import Remap.Host.Bootstrap
import Remap.Host.Delivery
import Remap.Json.Depth
import Remap.Json.Reader
import Remap.Json.Writer
import Remap.Lint
import Remap.Main
import Remap.Path.Basic
import Remap.Path.Parser
import Remap.Path.Repair
import Remap.Pattern.Basic
import Remap.Pattern.CharSet
import Remap.Pattern.Classes
import Remap.Pattern.Parser
import Remap.Pattern.Program
import Remap.Pattern.Replacement
import Remap.Pattern.Search
import Remap.Payload
import Remap.Plan.Basic
import Remap.Plan.Compile
import Remap.Plan.Lowering
import Remap.Profile
import Remap.Proofs.Cache.Clients
import Remap.Proofs.Check.Resolved
import Remap.Proofs.Decimal.Arithmetic
import Remap.Proofs.Decimal.Digits
import Remap.Proofs.Decimal.Doubles
import Remap.Proofs.Decimal.Finite
import Remap.Proofs.Decimal.Nearest
import Remap.Proofs.Decimal.Notation
import Remap.Proofs.Decimal.Parts
import Remap.Proofs.Decimal.Shortest
import Remap.Proofs.Doctor.Constants
import Remap.Proofs.Doctor.Conversion
import Remap.Proofs.Doctor.Fix
import Remap.Proofs.Doctor.Insertion
import Remap.Proofs.Doctor.Preservation
import Remap.Proofs.Doctor.Relapse
import Remap.Proofs.Entries
import Remap.Proofs.Fragment.Bundle
import Remap.Proofs.Fragment.Constants
import Remap.Proofs.Fragment.Expansion
import Remap.Proofs.Fragment.Following
import Remap.Proofs.Fragment.Gathering
import Remap.Proofs.Fragment.Graph
import Remap.Proofs.Json.Finite
import Remap.Proofs.Json.Number
import Remap.Proofs.Json.ReadBack
import Remap.Proofs.Json.RoundTrip
import Remap.Proofs.Json.Significand
import Remap.Proofs.Lint.Kinds
import Remap.Proofs.Lint.Unreachable
import Remap.Proofs.Lint.Unused
import Remap.Proofs.Lint.Warnings
import Remap.Proofs.Lists
import Remap.Proofs.Nesting
import Remap.Proofs.Path.Canonical
import Remap.Proofs.Path.Grammar
import Remap.Proofs.Path.Repair
import Remap.Proofs.Path.Slips
import Remap.Proofs.Plan.Alike
import Remap.Proofs.Plan.Compile
import Remap.Proofs.Plan.Lowering
import Remap.Proofs.Query.Appending
import Remap.Proofs.Query.Expressible
import Remap.Proofs.Query.Find
import Remap.Proofs.Query.Form
import Remap.Proofs.Query.Key
import Remap.Proofs.Query.Leaves
import Remap.Proofs.Query.Nesting
import Remap.Proofs.Query.Order
import Remap.Proofs.Query.Parsed
import Remap.Proofs.Query.Reach
import Remap.Proofs.Query.RoundTrip
import Remap.Proofs.Reordered
import Remap.Proofs.Rule.Alike
import Remap.Proofs.Rule.Constants
import Remap.Proofs.Rule.Places
import Remap.Proofs.Rule.Reading
import Remap.Proofs.Rule.RoundTrip
import Remap.Proofs.Rule.Serialization
import Remap.Proofs.Rule.Visits
import Remap.Proofs.Rule.Walk
import Remap.Proofs.Run.Alike
import Remap.Proofs.Run.Commute
import Remap.Proofs.Run.Dropped
import Remap.Proofs.Run.Executions
import Remap.Proofs.Run.FailedRules
import Remap.Proofs.Run.Growth
import Remap.Proofs.Run.Log
import Remap.Proofs.Run.Merge
import Remap.Proofs.Run.Muted
import Remap.Proofs.Run.Output
import Remap.Proofs.Run.Paths
import Remap.Proofs.Run.Policies
import Remap.Proofs.Run.Scope
import Remap.Proofs.Run.Targets
import Remap.Proofs.Run.Union
import Remap.Proofs.Run.Wildcards
import Remap.Proofs.Serialization
import Remap.Proofs.Text.Utf8
import Remap.Proofs.Transform.Signature
import Remap.Proofs.Value
import Remap.Proofs.Xml.Content
import Remap.Proofs.Xml.Echo
import Remap.Proofs.Xml.Elements
import Remap.Proofs.Xml.Escape
import Remap.Proofs.Xml.Frames
import Remap.Proofs.Xml.Layout
import Remap.Proofs.Xml.Name
import Remap.Proofs.Xml.Parsed
import Remap.Proofs.Xml.Pieces
import Remap.Proofs.Xml.Reading
import Remap.Proofs.Xml.RoundTrip
import Remap.Proofs.Xml.SelfClosing
import Remap.Proofs.Xml.Tag
import Remap.Proofs.Xml.Writing
import Remap.Query.Form
import Remap.Query.Key
import Remap.Query.Reader
import Remap.Query.Tree
import Remap.Query.Writer
import Remap.Reading
import Remap.Rule.Basic
import Remap.Rule.Place
import Remap.Rule.Reader
import Remap.Rule.Walk
import Remap.Rule.Writer
import Remap.Run.Convert
import Remap.Run.Execute
import Remap.Run.Merge
import Remap.Run.Output
import Remap.Run.Predicate
import Remap.Run.Problem
import Remap.Run.Scope
import Remap.Settings
import Remap.Storage.Basic
import Remap.Text.Basic
import Remap.Text.CaseMap
import Remap.Text.Category
import Remap.Text.Letter
import Remap.Text.Ranges
import Remap.Text.Utf8
import Remap.Toml.Reader
import Remap.Transform.Apply
import Remap.Transform.Basic
import Remap.Transform.Operation
import Remap.Transform.Template
import Remap.Value
import Remap.Version
import Remap.Xml.Attribute
import Remap.Xml.Escape
import Remap.Xml.Markup
import Remap.Xml.Name
import Remap.Xml.Reader
import Remap.Xml.Writer
import Remap.Proofs.Fragment.Cycles
import Remap.Proofs.Fragment.History
import Remap.Proofs.Fragment.Omitted
import Remap.Proofs.Fragment.DepthFirst
import Remap.Proofs.Run.LoneItems
import Remap.Proofs.Compatibility.Verdict
import Remap.Proofs.Transform.Template
import Remap.Proofs.Profile
