import ModelCatalog.Fields
import ModelCatalog.Number.Reading

/-!
# Documents

JSON values. Objects are ordered: the order of their entries decides the order of filters, columns
and `required` lists, so it is part of the value.

An object read from a text may name a key twice; `Json.merged` resolves that, the first occurrence
giving the position and the last one the value. `Json.equiv` compares documents up to the order of
keys, and numbers of the same kind by value.
-/

namespace ModelCatalog

/-! ## Values -/

/-- A JSON value. -/
inductive Json where
  | null
  | bool (value : Bool)
  | number (value : Number)
  | string (value : String)
  | array (items : List Json)
  | object (fields : List (String × Json))
  deriving Repr, BEq, Inhabited

namespace Json

def string? : Json → Option String
  | .string value => some value
  | _ => none

def array? : Json → Option (List Json)
  | .array items => some items
  | _ => none

def object? : Json → Option (Fields Json)
  | .object fields => some fields
  | _ => none

/-- The value under a key, if this is an object that has it. -/
def get? : Json → String → Option Json
  | .object fields, key => Fields.get? fields key
  | _, _ => none

@[simp] theorem string?_string (value : String) : (string value).string? = some value := rfl

@[simp] theorem array?_array (items : List Json) : (array items).array? = some items := rfl

@[simp] theorem object?_object (fields : Fields Json) : (object fields).object? = some fields := rfl

@[simp] theorem get?_object (fields : Fields Json) (key : String) :
    (object fields).get? key = fields.get? key := rfl

/-- Whether this is the string `s`. -/
def isString (value : Json) (s : String) : Bool := value.string? == some s

/-- Whether this is the truth value `true`. -/
def isTrue : Json → Bool
  | .bool true => true
  | _ => false

def isObject (value : Json) : Bool := value.object?.isSome

def isArray (value : Json) : Bool := value.array?.isSome

@[simp] theorem isArray_array (items : List Json) : (array items).isArray := rfl

@[simp] theorem isObject_object (fields : Fields Json) : (object fields).isObject := rfl

@[simp] theorem isString_string (value s : String) : (string value).isString s = (value == s) := rfl

@[simp] theorem isString_iff {value : Json} {s : String} : value.isString s ↔ value = .string s := by
  cases value <;> simp [isString, string?]

theorem isObject_iff {value : Json} : value.isObject ↔ ∃ fields, value = .object fields := by
  cases value <;> simp [isObject, object?]

theorem isArray_iff {value : Json} : value.isArray ↔ ∃ items, value = .array items := by
  cases value <;> simp [isArray, array?]

def strings (values : List String) : Json := .array (values.map .string)

def int (value : Int) : Json := .number (.int value)

/-- The value that the option holds, or `null`. -/
def ofOption (value : Option Json) : Json := value.getD .null

mutual

/-- Resolve repeated keys at every depth. -/
def merged : Json → Json
  | .array items => .array (mergedItems items)
  | .object fields => .object (Fields.ofList (mergedFields fields))
  | value => value

def mergedItems : List Json → List Json
  | [] => []
  | item :: items => merged item :: mergedItems items

def mergedFields : List (String × Json) → List (String × Json)
  | [] => []
  | (key, value) :: fields => (key, merged value) :: mergedFields fields

end

mutual

/-- Equality up to the order of object keys. -/
def equiv : Json → Json → Bool
  | .null, .null => true
  | .bool a, .bool b => a == b
  | .number a, .number b => a.equiv b
  | .string a, .string b => a == b
  | .array xs, .array ys => equivItems xs ys
  | .object fs, .object gs => fs.length == gs.length && equivFields fs gs
  | _, _ => false

def equivItems : List Json → List Json → Bool
  | [], [] => true
  | x :: xs, y :: ys => equiv x y && equivItems xs ys
  | _, _ => false

/-- Whether every entry of the first object has an equal one in the second. -/
def equivFields : List (String × Json) → List (String × Json) → Bool
  | [], _ => true
  | (key, value) :: fs, gs =>
    (match Fields.get? gs key with
      | some other => equiv value other
      | none => false) && equivFields fs gs

end

end Json

/-! ## Writing

The compact written form: no blanks, keys in order, and in strings only the quote, the backslash
and control characters escaped. -/

namespace Json

private def hexDigit (n : Nat) : Char := (Nat.toDigits 16 n).headD '0'

/-- A character inside a string. -/
def escaped (c : Char) : List Char :=
  if c == '"' then ['\\', '"']
  else if c == '\\' then ['\\', '\\']
  else if c == '\n' then ['\\', 'n']
  else if c == '\r' then ['\\', 'r']
  else if c == '\t' then ['\\', 't']
  else if c == '\x08' then ['\\', 'b']
  else if c == '\x0c' then ['\\', 'f']
  else if c.toNat < 0x20 then
    ['\\', 'u', '0', '0', hexDigit (c.toNat / 16), hexDigit (c.toNat % 16)]
  else [c]

/-- A string between double quotes. -/
def quoted (s : String) : String :=
  String.ofList ('"' :: s.toList.flatMap escaped ++ ['"'])

mutual

/-- The compact written form of a value. -/
def text : Json → String
  | .null => "null"
  | .bool true => "true"
  | .bool false => "false"
  | .number value => value.text
  | .string value => quoted value
  | .array items => "[" ++ ",".intercalate (itemTexts items) ++ "]"
  | .object fields => "\x7b" ++ ",".intercalate (fieldTexts fields) ++ "\x7d"

def itemTexts : List Json → List String
  | [] => []
  | item :: items => text item :: itemTexts items

def fieldTexts : List (String × Json) → List String
  | [] => []
  | (key, value) :: fields => (quoted key ++ ":" ++ text value) :: fieldTexts fields

end

end Json

end ModelCatalog
