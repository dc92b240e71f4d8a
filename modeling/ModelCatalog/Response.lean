import ModelCatalog.Model.Catalog
import ModelCatalog.Query.Filter

/-!
# Failures as responses

How a failure is answered to a client. What is wrong with the models is the fault of the server,
what is wrong with a query that of the client, and input that is not valid is answered with details.
-/

namespace ModelCatalog

/-- Any failure of the library. -/
inductive Failure where
  | catalog (cause : CatalogError)
  | schema (cause : SchemaError)
  | relation (cause : RelationError)
  | query (cause : QueryError)
  | validation (message : String) (details : Option Json)
  deriving Repr

namespace Failure

def message : Failure → String
  | .catalog cause => cause.message
  | .schema cause => cause.message
  | .relation cause => cause.message
  | .query cause => cause.message
  | .validation message _ => "validation: " ++ message

def status : Failure → Nat
  | .catalog _ | .schema _ | .relation _ => 500
  | .query _ => 400
  | .validation _ _ => 422

def code : Failure → String
  | .catalog _ | .schema _ | .relation _ => "config_error"
  | .query _ => "bad_request"
  | .validation _ _ => "validation_error"

def details? : Failure → Option Json
  | .validation _ details => details
  | _ => none

def contentType : String := "application/json"

def body (f : Failure) : Json :=
  .object [("error", .object ([("code", .string f.code), ("message", .string f.message)] ++
    f.details?.toList.map fun details ↦ ("details", details)))]

end Failure

end ModelCatalog
