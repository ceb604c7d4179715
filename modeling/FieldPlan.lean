import FieldPlan.Address
import FieldPlan.Cache.Backend
import FieldPlan.Cache.Codec
import FieldPlan.Cache.Flight
import FieldPlan.Cache.Key
import FieldPlan.Cache.Memo
import FieldPlan.Cache.Store
import FieldPlan.Cache.Task
import FieldPlan.Declaration
import FieldPlan.Description
import FieldPlan.Digest
import FieldPlan.Entries
import FieldPlan.Field
import FieldPlan.Json.Basic
import FieldPlan.Json.Order
import FieldPlan.Json.Reader
import FieldPlan.Json.Writer
import FieldPlan.Metadata
import FieldPlan.Model.Basic
import FieldPlan.Model.Constraint
import FieldPlan.Model.Database
import FieldPlan.Model.Declared
import FieldPlan.Model.Loading
import FieldPlan.Model.Statement
import FieldPlan.Model.Value
import FieldPlan.Number.Binary64
import FieldPlan.Number.Shortest
import FieldPlan.Number.Spelled
import FieldPlan.Plan.Basic
import FieldPlan.Plan.Data
import FieldPlan.Plan.Reach
import FieldPlan.Plan.Search
import FieldPlan.Plan.Walk
import FieldPlan.Query.Basic
import FieldPlan.Query.Data
import FieldPlan.Query.Key
import FieldPlan.Query.Request
import FieldPlan.Registry
import FieldPlan.Resolution
import FieldPlan.Schema
import FieldPlan.Service
import FieldPlan.Settings
import FieldPlan.Settings.Document
import FieldPlan.Signature
import FieldPlan.Text.Basic
import FieldPlan.Text.Case
import FieldPlan.Text.CaseTable
import FieldPlan.Text.FormEncoded
import FieldPlan.Text.Integer
import FieldPlan.Text.Printable
import FieldPlan.Text.Quoted
import FieldPlan.Text.Surrogate
import FieldPlan.Text.Utf8
import FieldPlan.Text.Words
import FieldPlan.Validation
import FieldPlan.Yaml.Binary
import FieldPlan.Yaml.Cursor
import FieldPlan.Yaml.Document
import FieldPlan.Yaml.Fault
import FieldPlan.Yaml.Label
import FieldPlan.Yaml.Moment
import FieldPlan.Yaml.Node
import FieldPlan.Yaml.Number
import FieldPlan.Yaml.Scalar.Block
import FieldPlan.Yaml.Scalar.Plain
import FieldPlan.Yaml.Scalar.Quoted
import FieldPlan.Yaml.Tag
import FieldPlan.Yaml.Token
import FieldPlan.Yaml.Value
import FieldPlan.Proofs.Cache.Transparency
import FieldPlan.Proofs.Entries
import FieldPlan.Proofs.Json.RoundTrip
import FieldPlan.Proofs.Plan.Codec
import FieldPlan.Proofs.Names
import FieldPlan.Proofs.Resolution
import FieldPlan.Proofs.Signature
import FieldPlan.Proofs.Service.Evaluation
import FieldPlan.Proofs.Service.Questions
import FieldPlan.Proofs.Service.Transparency
import FieldPlan.Proofs.Plan.Merging
import FieldPlan.Proofs.Service.Rules
import FieldPlan.Proofs.Query
import FieldPlan.Proofs.Service.Serialization
import FieldPlan.Proofs.Cache.Flights
import FieldPlan.Proofs.Cache.Settlement
import FieldPlan.Proofs.Cache.SingleFlight
import FieldPlan.Proofs.Cache.Locks
import FieldPlan.Proofs.Cache.Progress
import FieldPlan.Proofs.Service.Progress
import FieldPlan.Proofs.Registry.Lifecycle
import FieldPlan.LookUp
import FieldPlan.Proofs.Registry.LookUp
import FieldPlan.Proofs.Registry.Guarantees
import FieldPlan.Proofs.Cache.Isolation
import FieldPlan.Proofs.Cache.Alone
import FieldPlan.Proofs.Cache.Reliability
import FieldPlan.Proofs.Request
import FieldPlan.Proofs.Resolution.Shown
import FieldPlan.Proofs.Resolution.Settled
import FieldPlan.Proofs.Service.Fields
import FieldPlan.Proofs.Model.Loading
import FieldPlan.Proofs.Model.Aggregates
import FieldPlan.Proofs.Model.Paths
import FieldPlan.Proofs.Model.Support
import FieldPlan.Proofs.Service.Applying
import FieldPlan.Proofs.Model.Remembered
import FieldPlan.Proofs.Plan.Bracketing
import FieldPlan.Proofs.Plan.Nesting
import FieldPlan.Proofs.Service.Nesting
import FieldPlan.Proofs.Plan.Gathering
import FieldPlan.Proofs.Service.Union
import FieldPlan.Proofs.Cache.Asked
import FieldPlan.Proofs.Service.Sharing
import FieldPlan.Proofs.Service.Retention
import FieldPlan.Proofs.Query.Nesting
import FieldPlan.Proofs.Request.Order
import FieldPlan.Proofs.Request.Accepted
import FieldPlan.Proofs.Request.Report
import FieldPlan.Proofs.Cache.Expiry
import FieldPlan.Proofs.Plan.Storage
import FieldPlan.Proofs.Service.Selection
import FieldPlan.Proofs.Service.RootAggregates
import FieldPlan.Proofs.Cache.Keys
import FieldPlan.Proofs.Query.Grammar
import FieldPlan.Proofs.Text.Words
import FieldPlan.Proofs.Model.Paging
import FieldPlan.Proofs.Plan.Search
import FieldPlan.Proofs.Plan.Journey
