import ModelCatalog.Action.Coercion
import ModelCatalog.Definition.Basic
import ModelCatalog.Definition.Folder
import ModelCatalog.Fields
import ModelCatalog.Json.Basic
import ModelCatalog.Json.Reader
import ModelCatalog.Model.Basic
import ModelCatalog.Model.Catalog
import ModelCatalog.Number.Binary64
import ModelCatalog.Number.Reading
import ModelCatalog.Proofs.Action.Coercion
import ModelCatalog.Proofs.Action.InputSchema
import ModelCatalog.Proofs.Definition.RoundTrip
import ModelCatalog.Proofs.Json.Distinct
import ModelCatalog.Proofs.Json.KeyOrder
import ModelCatalog.Proofs.Json.Reader
import ModelCatalog.Proofs.Model.Catalog
import ModelCatalog.Proofs.Model.DeclarationOrder
import ModelCatalog.Proofs.Model.DependencyOrder
import ModelCatalog.Proofs.Model.NameClashes
import ModelCatalog.Proofs.Model.Schema
import ModelCatalog.Proofs.Model.ShortNames
import ModelCatalog.Proofs.Model.Validation
import ModelCatalog.Proofs.Number.Nearest
import ModelCatalog.Proofs.Outcome
import ModelCatalog.Proofs.Query.IntegerRange
import ModelCatalog.Proofs.Query.Narrowing
import ModelCatalog.Proofs.Query.Nesting
import ModelCatalog.Proofs.Query.Notation
import ModelCatalog.Proofs.Query.OrderAliases
import ModelCatalog.Proofs.Query.Properties
import ModelCatalog.Proofs.Query.PropertyPath
import ModelCatalog.Proofs.Query.QuotedWords
import ModelCatalog.Proofs.Query.Replay
import ModelCatalog.Proofs.Query.Vetting
import ModelCatalog.Proofs.Relation.Arity
import ModelCatalog.Proofs.Relation.Consistency
import ModelCatalog.Proofs.Relation.Names
import ModelCatalog.Proofs.Relation.References
import ModelCatalog.Proofs.Relation.Resolution
import ModelCatalog.Proofs.Relation.Scopes
import ModelCatalog.Proofs.Schema.Agreement
import ModelCatalog.Proofs.Schema.Canonical
import ModelCatalog.Proofs.Schema.Compilation
import ModelCatalog.Proofs.Schema.Constraints
import ModelCatalog.Proofs.Schema.Conversion
import ModelCatalog.Proofs.Schema.Edits
import ModelCatalog.Proofs.Schema.Expansion
import ModelCatalog.Proofs.Schema.Formats
import ModelCatalog.Proofs.Schema.KeyOrder
import ModelCatalog.Proofs.Schema.ListShorthand
import ModelCatalog.Proofs.Schema.Markers
import ModelCatalog.Proofs.Schema.NonNull
import ModelCatalog.Proofs.Schema.Nullability
import ModelCatalog.Proofs.Schema.ObjectNode
import ModelCatalog.Proofs.Schema.Place
import ModelCatalog.Proofs.Schema.SameSchema
import ModelCatalog.Proofs.Schema.Tree
import ModelCatalog.Proofs.Schema.TypeNames
import ModelCatalog.Proofs.Schema.Visits
import ModelCatalog.Proofs.Schema.WellFormed
import ModelCatalog.Proofs.Table.ColumnNames
import ModelCatalog.Proofs.Table.Columns
import ModelCatalog.Proofs.Table.CreationOrder
import ModelCatalog.Proofs.Table.Defaults
import ModelCatalog.Proofs.Table.FirstOfName
import ModelCatalog.Proofs.Table.ForeignKeys
import ModelCatalog.Proofs.Table.GeneratedJoinTable
import ModelCatalog.Proofs.Table.InversePair
import ModelCatalog.Proofs.Table.JoinTable
import ModelCatalog.Proofs.Table.Listing
import ModelCatalog.Proofs.Table.Migrations
import ModelCatalog.Proofs.Table.Quoting
import ModelCatalog.Proofs.Table.ReferenceTypes
import ModelCatalog.Proofs.Table.Rendering
import ModelCatalog.Proofs.Text.Casing
import ModelCatalog.Proofs.Text.Cut
import ModelCatalog.Query.Filter
import ModelCatalog.Query.Parameters
import ModelCatalog.Query.Session
import ModelCatalog.Relation.Basic
import ModelCatalog.Relation.Resolution
import ModelCatalog.Response
import ModelCatalog.Schema.Conversion
import ModelCatalog.Schema.Expansion
import ModelCatalog.Settings
import ModelCatalog.Table.Migration
import ModelCatalog.Text.Basic
import ModelCatalog.Text.Casing
