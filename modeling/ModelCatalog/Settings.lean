import ModelCatalog.Text.Casing

/-!
# Settings

What a deployment decides apart from its models: the switches that the environment sets, the style
of names in the database, and the moment that migrations are stamped with.
-/

namespace ModelCatalog

/-! ## Names in the database -/

/-- How names of models and properties become names of tables and columns. -/
structure NamingStyle where
  /-- Write capitals as an underscore and a small letter. -/
  normalize : Bool
  deriving DecidableEq, Repr

/-- The name in the database. -/
def NamingStyle.apply (style : NamingStyle) (name : String) : String :=
  if style.normalize then Text.snakeCase name else name

/-! ## Switches

A switch is on if its value is one of a few words, blanks around it and the case of its letters
aside. -/

structure Settings where
  /-- Log the schemas that are compiled. -/
  logSchema : Bool
  /-- Write the names of tables and columns in small letters with underscores. -/
  normalizeDbNames : Bool
  deriving DecidableEq, Repr

namespace Settings

/-- Whether the value of a variable turns a switch on. -/
def isOn (value : String) : Bool :=
  Text.asciiLower (Text.trim value) ∈ ["1", "true", "yes", "on"]

/-- The settings from the values of their variables, where those are set. -/
def ofVariables (logSchema normalizeDbNames : Option String) : Settings :=
  ⟨logSchema.any isOn, normalizeDbNames.any isOn⟩

def namingStyle (s : Settings) : NamingStyle := ⟨s.normalizeDbNames⟩

end Settings

/-! ## Timestamps

A moment is written as digits without separators. A year has four digits, or more behind a sign;
years before the year zero have a minus sign. -/

/-- A moment, to the second. -/
structure Timestamp where
  year : Int
  month : Nat
  day : Nat
  hour : Nat
  minute : Nat
  second : Nat
  deriving DecidableEq, Repr

namespace Timestamp

/-- A number with zeros in front, up to a width. -/
def padded (width n : Nat) : String :=
  let digits := Nat.toDigits 10 n
  String.ofList (List.replicate (width - digits.length) '0' ++ digits)

/-- The digits of a year. -/
def yearText (year : Int) : String :=
  let sign := if year < 0 then "-" else if 9999 < year then "+" else ""
  sign ++ padded 4 year.natAbs

def text (t : Timestamp) : String :=
  yearText t.year ++ String.join ([t.month, t.day, t.hour, t.minute, t.second].map (padded 2))

end Timestamp

end ModelCatalog
