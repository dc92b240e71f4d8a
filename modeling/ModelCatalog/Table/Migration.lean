import ModelCatalog.Model.Catalog
import ModelCatalog.Settings

/-!
# Migrations

The tables that a catalog needs: one for each model, and one for each join table that no model
stands for. Tables are data; the statements that create and drop them are written from these.

## The table of a model

It has its identifying columns first, then the foreign keys that relations join on without declaring
them as properties, then the declared properties. A single identifying property becomes a serial
primary key; several become a primary key of the table.
-/

namespace ModelCatalog

/-! ## Names and values in statements -/

namespace Sql

/-- A character inside a quoted name: the backslash and the double quote get a backslash. -/
def escapeIdentifier (c : Char) : List Char :=
  if c == '\\' || c == '"' then ['\\', c] else [c]

/-- A name between double quotes. -/
def identifier (name : String) : String :=
  String.ofList ('"' :: name.toList.flatMap escapeIdentifier ++ ['"'])

/-- A character inside a literal: the single quote is written twice. -/
def escapeLiteral (c : Char) : List Char := if c == '\'' then ['\'', '\''] else [c]

/-- A text between single quotes. -/
def literal (text : String) : String :=
  String.ofList ('\'' :: text.toList.flatMap escapeLiteral ++ ['\''])

/-- Several names between parentheses. -/
def identifierList (names : List String) : String :=
  "(" ++ ", ".intercalate (names.map identifier) ++ ")"

/-- The default value of a column. -/
inductive Default where
  /-- The time of writing. -/
  | currentTime
  | text (value : String)
  | number (value : Number)
  | truth (value : Bool)
  /-- A list or a mapping, kept as a document. -/
  | document (value : Json)
  deriving Repr

/-- The default that a schema gives; `null` is none. -/
def Default.ofJson? : Json → Option Default
  | .string value => some (if value = "now()" then .currentTime else .text value)
  | .number value => some (.number value)
  | .bool value => some (.truth value)
  | .null => none
  | value => some (.document value)

def Default.sql : Default → String
  | .currentTime => "CURRENT_TIMESTAMP"
  | .text value => literal value
  | .number value => value.text
  | .truth true => "TRUE"
  | .truth false => "FALSE"
  | .document value => literal value.text ++ "::jsonb"

/-- The type of a column. -/
inductive ColumnType where
  /-- An integer that the database counts up. -/
  | serial
  | text
  | integer
  | double
  | boolean
  | date
  | timestamp
  | document
  deriving DecidableEq, Repr

namespace ColumnType

def sql : ColumnType → String
  | .serial => "SERIAL"
  | .text => "TEXT"
  | .integer => "INTEGER"
  | .double => "DOUBLE PRECISION"
  | .boolean => "BOOLEAN"
  | .date => "DATE"
  | .timestamp => "TIMESTAMPTZ"
  | .document => "JSONB"

/-- The column type of a type name. Models are kept as documents, like objects and arrays. -/
def ofTypeName (name : String) : ColumnType :=
  match DeclaredType.ofName name with
  | .json .string => .text
  | .json .integer => .integer
  | .json .number => .double
  | .json .boolean => .boolean
  | .json .object | .json .array => .document
  | .date => if name = "date" then .date else .timestamp
  | .model _ => .document

/-- The column type of a schema without shorthand; one without a single type name is kept as a
document. -/
def ofSchema (schema : Json) : ColumnType :=
  match (schema.get? "type").bind Json.string? with
  | some name => ofTypeName name
  | none => .document

end ColumnType

end Sql

/-! ## Tables and statements -/

/-- The column that a foreign key refers to. -/
structure ForeignKey where
  table : String
  column : String
  /-- Whether rows go when the row that they refer to goes. -/
  cascade : Bool
  deriving DecidableEq, Repr

/-- A column of a table. -/
structure Column where
  name : String
  type : Sql.ColumnType
  /-- Whether the column alone is the primary key. -/
  primary : Bool
  notNull : Bool
  references : Option ForeignKey
  unique : Bool
  default : Option Sql.Default
  deriving Repr

structure Table where
  name : String
  columns : List Column
  /-- The primary key, where it is declared apart from the columns. -/
  primaryKey : Option (List String)
  deriving Repr

/-- A column that has a type and nothing else. -/
def Column.plain (name : String) (type : Sql.ColumnType) : Column :=
  ⟨name, type, false, false, none, false, none⟩

def ForeignKey.sql (key : ForeignKey) : String :=
  " REFERENCES " ++ Sql.identifier key.table ++ " (" ++ Sql.identifier key.column ++ ")" ++
    (if key.cascade then " ON DELETE CASCADE" else "")

def Column.sql (c : Column) : String :=
  Sql.identifier c.name ++ " " ++ c.type.sql ++
    (if c.primary then " PRIMARY KEY" else "") ++
    (if c.notNull then " NOT NULL" else "") ++
    ((c.references.map ForeignKey.sql).getD "") ++
    (if c.unique then " UNIQUE" else "") ++
    ((c.default.map fun value ↦ " DEFAULT " ++ value.sql).getD "")

namespace Table

def columnNames (t : Table) : List String := t.columns.map (·.name)

/-- What a statement declares about a table: the columns, and the primary key if it is apart. -/
def declarations (t : Table) : List String :=
  t.columns.map Column.sql ++
    (t.primaryKey.map fun names ↦ "PRIMARY KEY " ++ Sql.identifierList names).toList

def createStatement (t : Table) : String :=
  "CREATE TABLE IF NOT EXISTS " ++ Sql.identifier t.name ++ " (\n  " ++
    ",\n  ".intercalate t.declarations ++ "\n)"

def dropStatement (t : Table) : String := "DROP TABLE IF EXISTS " ++ Sql.identifier t.name

end Table

/-! ## The tables of a catalog -/

/-- The table that a reference names: that of the model if it names one. -/
def Registry.tableOf (r : Registry) (name : String) : String :=
  match r.lookup name with
  | some model => model.tableName
  | none => name

/-- A migration: the table that it creates, and the moment it is stamped with. -/
structure Migration where
  table : Table
  stamp : Timestamp
  deriving Repr

namespace Migration

/-- The name of the file of a migration for a table. -/
def fileNameOf (table : String) (stamp : Timestamp) : String :=
  stamp.text ++ "_" ++ table ++ ".sql"

def fileName (m : Migration) : String := fileNameOf m.table.name m.stamp

/-- The contents of the file: both statements. -/
def contents (m : Migration) : String :=
  "-- up\n" ++ m.table.createStatement ++ ";\n\n-- down\n" ++ m.table.dropStatement ++ ";\n"

def toJson (m : Migration) : Json :=
  .object [("fileName", .string m.fileName), ("table", .string m.table.name),
    ("up", .string m.table.createStatement), ("down", .string m.table.dropStatement),
    ("contents", .string m.contents)]

end Migration

namespace Model

def hasCompositeKey (m : Model) : Bool := 1 < m.idProperties.length

def expandProperty (m : Model) (schema : Json) : Except CatalogError Json :=
  (Schema.expand schema).mapError (.schema m.name)

/-- The column of one of several identifying properties; one that is not declared is an integer. -/
def keyColumn (style : NamingStyle) (m : Model) (property : String) :
    Except CatalogError Column := do
  let type ← (match m.properties.get? property with
    | some schema => Sql.ColumnType.ofSchema <$> m.expandProperty schema
    | none => .ok .integer)
  return { Column.plain (style.apply property) type with notNull := true }

/-- The columns of the identifying properties. -/
def keyColumns (style : NamingStyle) (m : Model) : Except CatalogError (List Column) :=
  if m.hasCompositeKey then m.idProperties.mapM (m.keyColumn style)
  else
    .ok (m.idProperties.map fun property ↦
      { Column.plain (style.apply property) .serial with primary := true })

/-- The property of a model that a relation joins on, and the foreign key that it is. Only single
keys count, and only properties that are neither identifying nor declared. -/
def foreignKey? (registry : Registry) (style : NamingStyle) (m : Model) (r : Relation) :
    Option (String × ForeignKey) := do
  let (sourceModel, sourceProperty) ← cutReference (← r.join.source.single?)
  let (targetModel, targetProperty) ← cutReference (← r.join.target.single?)
  if sourceModel ≠ m.name || m.idProperties.contains sourceProperty ||
      m.properties.contains sourceProperty then
    none
  else
    let table := style.apply (registry.tableOf targetModel)
    some (sourceProperty, ⟨table, style.apply targetProperty, false⟩)

/-- The foreign keys of a model by property; for each property the first relation counts. -/
def foreignKeys (registry : Registry) (style : NamingStyle) (m : Model) : Fields ForeignKey :=
  (m.relations.filterMap fun (_, relation) ↦ m.foreignKey? registry style relation).foldl
    (fun keys (property, key) ↦ if Fields.contains keys property then keys
      else keys ++ [(property, key)]) []

def foreignKeyColumns (registry : Registry) (style : NamingStyle) (m : Model) : List Column :=
  (m.foreignKeys registry style).map fun (property, key) ↦
    { Column.plain (style.apply property) .integer with references := some key }

/-- Whether a schema has a keyword with the value `true`. -/
def marks (schema : Json) (key : String) : Bool := (schema.get? key).any Json.isTrue

/-- The column of a declared property, unless its value is computed. -/
def propertyColumn? (style : NamingStyle) (m : Model) (property : String × Json) :
    Except CatalogError (Option Column) := do
  let schema ← m.expandProperty property.2
  if marks schema "computed" then return none
  return some
    { Column.plain (style.apply property.1) (.ofSchema schema) with
      notNull := marks schema "required"
      unique := marks schema "unique"
      default := (schema.get? "default").bind Sql.Default.ofJson? }

/-- The columns of the declared properties that do not identify. -/
def propertyColumns (style : NamingStyle) (m : Model) : Except CatalogError (List Column) := do
  let declared := m.properties.filter fun (name, _) ↦ !m.idProperties.contains name
  return (← declared.mapM (m.propertyColumn? style)).filterMap id

def table (registry : Registry) (style : NamingStyle) (m : Model) :
    Except CatalogError Table := do
  let keys ← m.keyColumns style
  let properties ← m.propertyColumns style
  let primaryKey := if m.hasCompositeKey then some (m.idProperties.map style.apply) else none
  return ⟨style.apply m.tableName, keys ++ m.foreignKeyColumns registry style ++ properties,
    primaryKey⟩

def migration (registry : Registry) (style : NamingStyle) (now : Timestamp) (m : Model) :
    Except CatalogError Migration := do
  return ⟨← m.table registry style, now⟩

end Model

namespace Relation

/-- The column of a join table for a property on one of its sides. -/
def joinColumn? (registry : Registry) (style : NamingStyle) (own target : String) :
    Option Column := do
  let (_, column) ← cutReference own
  let (targetModel, targetProperty) ← cutReference target
  let table := style.apply (registry.tableOf targetModel)
  some
    { Column.plain (style.apply column) .integer with
      notNull := true
      references := some ⟨table, style.apply targetProperty, true⟩ }

/-- The columns of a join table towards one of its sides. -/
def joinColumns? (registry : Registry) (style : NamingStyle) (own target : Key) :
    Option (List Column) :=
  (own.tokens.zip target.tokens).mapM fun (own, target) ↦
    joinColumn? registry style own target

/-- The join table of a relation, unless a model stands for it. All its columns make up the primary
key. -/
def joinTable? (registry : Registry) (style : NamingStyle) (r : Relation) : Option Table := do
  let through ← r.join.through
  if through.model.isSome || registry.contains through.table then none
  else
    let source ← joinColumns? registry style through.source r.join.source
    let target ← joinColumns? registry style through.target r.join.target
    let columns := source ++ target
    some ⟨style.apply through.table, columns, some (columns.map (·.name))⟩

def joinMigration? (registry : Registry) (style : NamingStyle) (now : Timestamp) (r : Relation) :
    Option Migration :=
  (r.joinTable? registry style).map (⟨·, now⟩)

end Relation

/-- Append the migrations of tables that have none yet. -/
def addMigrations (migrations added : List Migration) : List Migration :=
  added.foldl (fun migrations m ↦
    if migrations.any (·.table.name == m.table.name) then migrations else migrations ++ [m])
    migrations

namespace Catalog

/-- The migrations of a catalog: those of the models in dependency order, then those of the join
tables, one for each table. -/
def migrations (style : NamingStyle) (now : Timestamp) (c : Catalog) :
    Except CatalogError (List Migration) := do
  let registry := c.registry
  let ofModels ← c.models.mapM (Model.migration registry style now)
  let relations := c.models.flatMap fun model ↦ model.relations.map (·.2)
  return addMigrations ofModels (relations.filterMap (Relation.joinMigration? registry style now))

end Catalog

end ModelCatalog
