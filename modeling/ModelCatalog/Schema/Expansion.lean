import ModelCatalog.Json.Basic

/-!
# Schema trees and their expansion

Authors write schemas as trees in which parts may be abbreviated. Expansion replaces all shorthand
by what it stands for. Every other keyword, and the order of keys, stays as written; a malformed
value under a keyword that holds schemas is left alone unless it stands where a schema must.

## One traversal, two passes

Expansion and conversion are two bottom-up passes over the same trees. `Schema.Pass.run` is the
traversal that they share: it resolves shorthand, visits every place where a schema may stand below
a node, and hands the node's keywords to the pass, each with its value as written and with the
outcome of the pass on the schemas inside it. A pass decides which of the outcomes it uses, and in
which order, so it also decides which of several errors is reported.
-/

namespace ModelCatalog

/-! ## Malformed schemas

A place in a tree is a path of keywords and names, each behind a slash; the root has the empty path
and is shown as `#`. -/

namespace SchemaError

/-- What is wrong with a node. -/
inductive Cause where
  /-- A list of item types without a type. -/
  | noItemType
  /-- A value that stands for no schema. -/
  | notSchema (value : Json)
  deriving Repr

def Cause.message : Cause → String
  | .noItemType => "array shorthand needs at least one item type"
  | .notSchema value => "expected a schema, got " ++ value.text

end SchemaError

/-- A malformed node of a schema tree. -/
structure SchemaError where
  path : String
  cause : SchemaError.Cause
  deriving Repr

def SchemaError.message (e : SchemaError) : String :=
  let place := if e.path.isEmpty then "#" else e.path
  "malformed schema at '" ++ place ++ "': " ++ e.cause.message

/-! ## Shorthand notation

A type name stands for the schema of that type, a list of schemas for the arrays of such items, and
a mapping that declares nothing about itself for the objects with these properties and no others. A
mapping that gives a `type`, a reference, a composition or a negation is a schema in full. -/

namespace Schema

/-- The keywords whose lists of schemas combine several schemas into one. -/
def compositeKeywords : List String := ["allOf", "anyOf", "oneOf"]

/-- Whether a value is a type or a non-empty list of types. -/
def declaresType : Json → Bool
  | .string _ => true
  | .array names => !names.isEmpty && names.all fun name ↦ name.string?.isSome
  | _ => false

/-- Whether a mapping is a schema in full: it gives a type by name or by a list of names, a
reference, a composition or a negated schema. Values of any other shape under these keywords make
them ordinary property names. -/
def isExplicit (fields : Fields Json) : Bool :=
  (fields.get? "type").any declaresType ||
    (fields.get? "$ref").any (fun value ↦ value.string?.isSome) ||
    compositeKeywords.any (fun key ↦ (fields.get? key).any Json.isArray) ||
    (fields.get? "not").any Json.isObject

/-- The schema of a type name. -/
def ofName (name : String) : Fields Json := [("type", .string name)]

/-- The schema of arrays with the given items. -/
def listOf (items : Json) : Fields Json :=
  [("type", .string "array"), ("items", items), ("default", .array [])]

/-- The schema that is met by meeting one of several. -/
def anyOf (schemas : List Json) : Fields Json := [("anyOf", .array schemas)]

/-- The schema of objects with the given properties and no others. -/
def closedObject (properties : Fields Json) : Fields Json :=
  [("type", .string "object"), ("properties", .object properties),
    ("additionalProperties", .bool false)]

end Schema

/-- The notation that a value uses in the place of a schema. -/
inductive Shorthand where
  | typeName (name : String)
  | list (items : List Json)
  | bareObject (properties : Fields Json)
  | explicit (keywords : Fields Json)
  /-- A truth value, which is a schema, or a value that is none. -/
  | other (value : Json)
  deriving Repr

def Shorthand.ofJson : Json → Shorthand
  | .string name => .typeName name
  | .array items => .list items
  | .object fields => if Schema.isExplicit fields then .explicit fields else .bareObject fields
  | value => .other value

/-! ## Traversal -/

namespace Schema

/-- The role of a keyword in the tree structure. -/
inductive Role where
  /-- A list of schemas, at numbered places. -/
  | composite
  /-- A mapping from names to schemas. -/
  | properties
  /-- A schema, or a list of schemas that share one place. -/
  | items
  /-- A schema. -/
  | negation
  /-- A value without schemas. -/
  | plain
  deriving DecidableEq, Repr

def Role.of (key : String) : Role :=
  if key ∈ compositeKeywords then .composite
  else if key = "properties" ∨ key = "patternProperties" then .properties
  else if key = "items" then .items
  else if key = "not" then .negation
  else .plain

/-- The place of a keyword or a name below a place. -/
def below (path name : String) : String := path ++ "/" ++ name

/-- The value of a keyword as written, and what the pass makes of it. -/
structure Keyword where
  written : Json
  compiled : Except SchemaError Json

/-- A keyword whose value holds no schemas. -/
def Keyword.plain (value : Json) : Keyword := ⟨value, .ok value⟩

/-- A bottom-up pass over schema trees. -/
structure Pass where
  /-- The place of a named property below the place of its mapping. -/
  propertyPath : String → String → String
  /-- The outcome at a node, from its keywords. -/
  node : Fields Keyword → Except SchemaError Json

namespace Pass

/-- The outcome at the node that a list of item types stands for. -/
def listNode (pass : Pass) (items : Keyword) : Except SchemaError Json :=
  pass.node
    [("type", .plain (.string "array")), ("items", items), ("default", .plain (.array []))]

/-- The outcome at the node of a mapping that lists properties. -/
def closedObjectNode (pass : Pass) (properties : Keyword) : Except SchemaError Json :=
  pass.node
    [("type", .plain (.string "object")), ("properties", properties),
      ("additionalProperties", .plain (.bool false))]

mutual

/-- Run a pass on a schema that stands at a place. A single list inside a list of item types gives
the items one by one; several item types are alternatives. -/
def run (pass : Pass) (path : String) : Json → Except SchemaError Json
  | .string name => pass.node [("type", .plain (.string name))]
  | .array [] => .error ⟨path, .noItemType⟩
  | .array [.array items] =>
    pass.listNode ⟨.array items, .array <$> runItems pass (below path "items") items⟩
  | .array [item] => pass.listNode ⟨item, run pass (below path "items") item⟩
  | .array items =>
    let place := below (below path "items") "anyOf"
    let compiled := pass.node [("anyOf", ⟨.array items, .array <$> runNumbered pass place 0 items⟩)]
    pass.listNode ⟨.object (anyOf items), compiled⟩
  | .object fields =>
    if isExplicit fields then pass.node (runKeywords pass path fields)
    else
      pass.closedObjectNode
        ⟨.object fields, .object <$> runProperties pass (below path "properties") fields⟩
  | .bool value => .ok (.bool value)
  | value => .error ⟨path, .notSchema value⟩

/-- Run a pass on schemas that share one place. -/
def runItems (pass : Pass) (path : String) : List Json → Except SchemaError (List Json)
  | [] => .ok []
  | item :: items => do
    let item ← run pass path item
    let items ← runItems pass path items
    return item :: items

/-- Run a pass on schemas at numbered places. -/
def runNumbered (pass : Pass) (path : String) (index : Nat) :
    List Json → Except SchemaError (List Json)
  | [] => .ok []
  | item :: items => do
    let item ← run pass (below path (toString index)) item
    let items ← runNumbered pass path (index + 1) items
    return item :: items

/-- Run a pass on named schemas. -/
def runProperties (pass : Pass) (path : String) :
    List (String × Json) → Except SchemaError (List (String × Json))
  | [] => .ok []
  | (name, property) :: properties => do
    let property ← run pass (pass.propertyPath path name) property
    let properties ← runProperties pass path properties
    return (name, property) :: properties

/-- Run a pass on the schemas inside the keywords of a node. -/
def runKeywords (pass : Pass) (path : String) : List (String × Json) → List (String × Keyword)
  | [] => []
  | (key, .array items) :: keywords =>
    let place := below path key
    let compiled := match Role.of key with
      | .composite => .array <$> runNumbered pass place 0 items
      | .items => .array <$> runItems pass place items
      | .negation => run pass place (.array items)
      | _ => .ok (.array items)
    (key, ⟨.array items, compiled⟩) :: runKeywords pass path keywords
  | (key, .object fields) :: keywords =>
    let place := below path key
    let compiled := match Role.of key with
      | .properties => .object <$> runProperties pass place fields
      | .items | .negation => run pass place (.object fields)
      | _ => .ok (.object fields)
    (key, ⟨.object fields, compiled⟩) :: runKeywords pass path keywords
  | (key, value) :: keywords =>
    let compiled := match Role.of key with
      | .items | .negation => run pass (below path key) value
      | _ => .ok value
    (key, ⟨value, compiled⟩) :: runKeywords pass path keywords

end

end Pass

end Schema

/-! ## Expansion -/

namespace Schema

/-- The keywords that expansion descends into, in the order in which their errors are reported. -/
def expandedKeywords : List String :=
  ["properties", "patternProperties", "items", "allOf", "anyOf", "oneOf", "not"]

/-- Whether expansion descends into a value under a keyword. -/
def expandsInto (key : String) (value : Json) : Bool :=
  match Role.of key with
  | .composite => value.isArray
  | .properties | .negation => value.isObject
  | .items => true
  | .plain => false

/-- Replace the value of one keyword by its expansion, in place. -/
def expandKeyword (keywords : Fields Keyword) (fields : Fields Json) (key : String) :
    Except SchemaError (Fields Json) :=
  match keywords.get? key with
  | some keyword =>
    if expandsInto key keyword.written then do
      let value ← keyword.compiled
      return fields.insert key value
    else .ok fields
  | none => .ok fields

def expandNode (keywords : Fields Keyword) : Except SchemaError Json := do
  let written := keywords.mapValues (·.written)
  let fields ← expandedKeywords.foldlM (expandKeyword keywords) written
  return .object fields

/-- Expansion as a pass. A property without a name stands at the place of its mapping. -/
def expansion : Pass where
  propertyPath path name := if name.isEmpty then path else below path name
  node := expandNode

/-- Replace all shorthand in a schema tree. -/
def expand (schema : Json) : Except SchemaError Json := expansion.run "" schema

end Schema

end ModelCatalog
