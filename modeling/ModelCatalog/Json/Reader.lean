import ModelCatalog.Json.Basic

/-!
# Reading documents

JSON texts are read in two levels. The lexical level takes one token at a time off the text, from
the left: punctuation, strings, and the words `null`, `true`, `false` and numbers. The syntactic
level is a pushdown automaton over the tokens. Its stack holds the containers around the current
position, so the bound on nesting is a bound on the stack.

## What is refused

There are no extensions: no comments and no trailing commas. Inside a string control characters,
unknown escapes, and escaped surrogates that do not form a pair are refused, and so are numbers that
are too large, and containers of which `Reader.depthLimit` or more are inside one another.

## Where a value ends

A token takes as much of the text as it can and leaves the rest, whatever that is: `1_000` begins
with the number one. The automaton stops at the end of the first value, so a text falls into that
value and the rest, and a document is a text whose rest is blank. Objects come out with their keys
as written, repeated ones included.
-/

namespace ModelCatalog

/-! ## Tokens -/

/-- A lexical unit of a JSON text. -/
inductive Token where
  | openArray
  | closeArray
  | openObject
  | closeObject
  | comma
  | colon
  | string (value : String)
  /-- A word, by its value: `null`, a truth value or a number. -/
  | scalar (value : Json)
  deriving Repr

namespace Token

/-- The characters between tokens. -/
def isGap (c : Char) : Bool := c == ' ' || c == '\t' || c == '\n' || c == '\r'

/-- The token that a punctuation character is. -/
def ofPunctuation? (c : Char) : Option Token :=
  if c == '[' then some openArray
  else if c == ']' then some closeArray
  else if c == '{' then some openObject
  else if c == '}' then some closeObject
  else if c == ',' then some comma
  else if c == ':' then some colon
  else none

/-- The value of the word that a text begins with, and the text behind it. -/
def readWord? : List Char → Option (Json × List Char)
  | 'n' :: 'u' :: 'l' :: 'l' :: rest => some (.null, rest)
  | 't' :: 'r' :: 'u' :: 'e' :: rest => some (.bool true, rest)
  | 'f' :: 'a' :: 'l' :: 's' :: 'e' :: rest => some (.bool false, rest)
  | cs =>
    (NumberLiteral.read? cs).bind fun (literal, rest) ↦
      literal.value?.map fun value ↦ (.number value, rest)

def hexValue? (c : Char) : Option Nat :=
  if c.isDigit then some (c.toNat - '0'.toNat)
  else if 'a' ≤ c && c ≤ 'f' then some (c.toNat - 'a'.toNat + 10)
  else if 'A' ≤ c && c ≤ 'F' then some (c.toNat - 'A'.toNat + 10)
  else none

/-- The character that a one-letter escape stands for. -/
def ofEscape? (c : Char) : Option Char :=
  if c == '"' || c == '\\' || c == '/' then some c
  else if c == 'b' then some '\x08'
  else if c == 'f' then some '\x0c'
  else if c == 'n' then some '\n'
  else if c == 'r' then some '\r'
  else if c == 't' then some '\t'
  else none

def isHighSurrogate (unit : Nat) : Bool := 0xd800 ≤ unit && unit < 0xdc00

def isLowSurrogate (unit : Nat) : Bool := 0xdc00 ≤ unit && unit < 0xe000

/-- What a position behind the opening quote of a string is inside of. The characters of the string
so far are kept in reverse. -/
inductive StringScan where
  /-- Between two characters of the string. -/
  | text (read : List Char)
  /-- After the backslash of an escape. -/
  | escape (read : List Char)
  /-- In the four digits of an escaped code unit; `high` is the first half of a pair if the digits
  are those of its second half. -/
  | unit (read : List Char) (high : Option Nat) (digits : List Nat)
  /-- After the first half of a pair, before the backslash of the second. -/
  | halfPair (read : List Char) (high : Nat)
  /-- After that backslash. -/
  | halfPairEscape (read : List Char) (high : Nat)
  /-- Behind the closing quote. -/
  | closed (read : List Char)
  deriving Repr

namespace StringScan

/-- The position after the last digit of an escaped code unit. -/
def ofUnit? (read : List Char) (high : Option Nat) (unit : Nat) : Option StringScan :=
  match high with
  | some high =>
    if isLowSurrogate unit then
      some (.text (Char.ofNat (0x10000 + (high - 0xd800) * 0x400 + (unit - 0xdc00)) :: read))
    else none
  | none =>
    if isHighSurrogate unit then some (.halfPair read unit)
    else if isLowSurrogate unit then none
    else some (.text (Char.ofNat unit :: read))

/-- One character further. -/
def step? : StringScan → Char → Option StringScan
  | .text read, c =>
    if c == '"' then some (.closed read)
    else if c == '\\' then some (.escape read)
    else if c.toNat < 0x20 then none
    else some (.text (c :: read))
  | .escape read, c =>
    if c == 'u' then some (.unit read none [])
    else (ofEscape? c).map fun char ↦ .text (char :: read)
  | .unit read high digits, c => do
    let digit ← hexValue? c
    match digits with
    | [x, y, z] => ofUnit? read high (((z * 16 + y) * 16 + x) * 16 + digit)
    | _ => some (.unit read high (digit :: digits))
  | .halfPair read high, c => if c == '\\' then some (.halfPairEscape read high) else none
  | .halfPairEscape read high, c => if c == 'u' then some (.unit read (some high) []) else none
  | .closed _, _ => none

/-- The string from a position inside it, and the text behind its closing quote. -/
def finish? (scan : StringScan) : List Char → Option (String × List Char)
  | [] => none
  | c :: cs =>
    match scan.step? c with
    | none => none
    | some (.closed read) => some (String.ofList read.reverse, cs)
    | some scan => finish? scan cs

end StringScan

/-- The token that a text begins with, gaps aside, and the text behind it. -/
def next? : List Char → Option (Token × List Char)
  | [] => none
  | c :: cs =>
    if isGap c then next? cs
    else if c == '"' then (StringScan.finish? (.text []) cs).map fun (value, rest) ↦
      (.string value, rest)
    else match ofPunctuation? c with
      | some token => some (token, cs)
      | none => (readWord? (c :: cs)).map fun (value, rest) ↦ (.scalar value, rest)

theorem StringScan.length_lt_of_finish? {scan : StringScan} {cs rest : List Char} {value : String}
    (h : scan.finish? cs = some (value, rest)) : rest.length < cs.length := by
  induction cs generalizing scan with
  | nil => simp [finish?] at h
  | cons c cs ih =>
    rw [finish?] at h
    split at h
    · simp at h
    · simp_all
    · exact Nat.lt_succ_of_lt (ih h)

theorem length_lt_of_readWord? {cs rest : List Char} {value : Json}
    (h : readWord? cs = some (value, rest)) : rest.length < cs.length := by
  unfold readWord? at h
  split at h
  iterate 3
    · simp only [Option.some.injEq, Prod.mk.injEq] at h
      simp only [← h.2, List.length_cons]
      omega
  · simp only [Option.bind_eq_some_iff, Option.map_eq_some_iff] at h
    obtain ⟨⟨literal, rest'⟩, hread, number, -, heq⟩ := h
    obtain ⟨-, rfl⟩ := Prod.mk.inj heq
    exact NumberLiteral.length_lt_of_read? hread

/-- The text behind a token is shorter than the text with it. -/
theorem length_lt_of_next? {cs rest : List Char} {token : Token}
    (h : next? cs = some (token, rest)) : rest.length < cs.length := by
  induction cs with
  | nil => simp [next?] at h
  | cons c cs ih =>
    rw [next?] at h
    split at h
    · exact Nat.lt_succ_of_lt (ih h)
    · split at h
      · obtain ⟨⟨value, rest'⟩, hfinish, heq⟩ := Option.map_eq_some_iff.1 h
        obtain ⟨-, rfl⟩ := Prod.mk.inj heq
        exact Nat.lt_succ_of_lt (StringScan.length_lt_of_finish? hfinish)
      · split at h
        · simp only [Option.some.injEq, Prod.mk.injEq] at h
          simp [← h.2]
        · obtain ⟨⟨value, rest'⟩, hread, heq⟩ := Option.map_eq_some_iff.1 h
          obtain ⟨-, rfl⟩ := Prod.mk.inj heq
          exact length_lt_of_readWord? hread

end Token

/-! ## Documents

Each token makes the text shorter, which is what the recursion of the automaton ends by. -/

namespace Reader

/-- A container that is being read, suspended while one of its values is. What has been read of it
is kept in reverse. -/
inductive Frame where
  | array (done : List Json)
  | object (done : List (String × Json)) (key : String)
  deriving Repr

/-- What may come next. -/
inductive Position where
  /-- A value. -/
  | value
  /-- The first item of an array, or its end. -/
  | firstItem
  /-- A comma or the end, after an item of an array. -/
  | afterItem (done : List Json)
  /-- The first key of an object, or its end. -/
  | firstKey
  /-- A key, after a comma. -/
  | key (done : List (String × Json))
  /-- A colon. -/
  | colon (done : List (String × Json)) (key : String)
  /-- A comma or the end, after an entry of an object. -/
  | afterEntry (done : List (String × Json))
  /-- Nothing. -/
  | finished (value : Json)
  deriving Repr

/-- The number of containers that may not be inside one another. -/
def depthLimit : Nat := 128

/-- The state after a complete value. -/
def complete (value : Json) : List Frame → Position × List Frame
  | [] => (.finished value, [])
  | .array done :: stack => (.afterItem (value :: done), stack)
  | .object done key :: stack => (.afterEntry ((key, value) :: done), stack)

/-- The state after the first token of a value. -/
def beginValue? (stack : List Frame) : Token → Option (Position × List Frame)
  | .scalar value => some (complete value stack)
  | .string value => some (complete (.string value) stack)
  | .openArray => if stack.length + 1 < depthLimit then some (.firstItem, stack) else none
  | .openObject => if stack.length + 1 < depthLimit then some (.firstKey, stack) else none
  | _ => none

/-- One token further. -/
def step? : Position × List Frame → Token → Option (Position × List Frame)
  | (.value, stack), token => beginValue? stack token
  | (.firstItem, stack), .closeArray => some (complete (.array []) stack)
  | (.firstItem, stack), token => beginValue? (.array [] :: stack) token
  | (.afterItem done, stack), .comma => some (.value, .array done :: stack)
  | (.afterItem done, stack), .closeArray => some (complete (.array done.reverse) stack)
  | (.firstKey, stack), .closeObject => some (complete (.object []) stack)
  | (.firstKey, stack), .string key => some (.colon [] key, stack)
  | (.key done, stack), .string key => some (.colon done key, stack)
  | (.colon done key, stack), .colon => some (.value, .object done key :: stack)
  | (.afterEntry done, stack), .comma => some (.key done, stack)
  | (.afterEntry done, stack), .closeObject => some (complete (.object done.reverse) stack)
  | _, _ => none

/-- Read tokens off a text up to the end of a value: the value, and the text behind it. -/
def finish? (state : Position × List Frame) (cs : List Char) : Option (Json × List Char) :=
  match state with
  | (.finished value, _) => some (value, cs)
  | state =>
    match _ : Token.next? cs with
    | none => none
    | some (token, rest) => (step? state token).bind fun state ↦ finish? state rest
termination_by cs.length
decreasing_by exact Token.length_lt_of_next? ‹_›

end Reader

/-- What stands for a description of the fault in a malformed text. -/
def Json.malformedText : String := "<json error>"

/-- The value that a text begins with, with repeated keys kept, and the text behind it; `none` if
the text does not begin with a value. -/
def Json.readFirst? (text : String) : Option (Json × List Char) :=
  Reader.finish? (.value, []) text.toList

/-- The value that a text writes, with repeated keys kept; `none` if the text is malformed. -/
def Json.read? (text : String) : Option Json :=
  (readFirst? text).bind fun (value, rest) ↦ if rest.all Token.isGap then some value else none

end ModelCatalog
