import ShardMerge.Json.Basic

/-!
# JSON forms

Types whose values are written as JSON and read back. A record is written as an object with its
fields in order, and read from an object or from the array of its fields' values. In an object,
names that are not fields are passed over, and a field given twice is refused.
-/

namespace ShardMerge

/-- Types that have a JSON form. -/
class JsonForm (α : Type) where
  toJson : α → Json
  /-- Reads a value from its JSON form; none if the JSON value has another form. -/
  ofJson? : Json → Option α

namespace JsonForm

variable {α : Type}

/-- The JSON text of a value. -/
def write [JsonForm α] (a : α) : String :=
  (toJson a).text

/-- Reads a value from a JSON text. -/
def read? [JsonForm α] (s : String) : Option α :=
  (Json.read? s).bind ofJson?

/-- A number below a bound, written without sign, fraction and exponent. -/
def natBelow? (bound : Nat) : Json → Option Nat
  | .nat n => if n < bound then some n else none
  | _ => none

instance : JsonForm UInt64 where
  toJson n := .nat n.toNat
  ofJson? j := (natBelow? UInt64.size j).map Nat.toUInt64

instance : JsonForm UInt32 where
  toJson n := .nat n.toNat
  ofJson? j := (natBelow? UInt32.size j).map Nat.toUInt32

instance : JsonForm UInt8 where
  toJson n := .nat n.toNat
  ofJson? j := (natBelow? UInt8.size j).map Nat.toUInt8

instance : JsonForm Bool where
  toJson := .bool
  ofJson?
    | .bool b => some b
    | _ => none

instance : JsonForm String where
  toJson := .ofString
  ofJson?
    | .string text => text
    | _ => none

/-- A value that may be missing is null without it. -/
instance [JsonForm α] : JsonForm (Option α) where
  toJson
    | none => .null
    | some a => toJson a
  ofJson?
    | .null => some none
    | j => (ofJson? j).map some

instance [JsonForm α] : JsonForm (List α) where
  toJson items := .array (items.map toJson)
  ofJson?
    | .array items => items.mapM ofJson?
    | _ => none

end JsonForm

/-- The values that a JSON value gives for the fields of a record, by their names. -/
abbrev Row := List (String × Json)

namespace Row

variable {α : Type}

/-- The fields among the members of an object. A name without a text, or a field given twice, is
refused; other names are passed over. -/
def ofMembers? (names : List String) : List (Option String × Json) → Option Row
  | [] => some []
  | (none, _) :: _ => none
  | (some name, value) :: members =>
    match ofMembers? names members with
    | none => none
    | some row =>
      if name ∈ names then
        if (row.lookup name).isSome then none else some ((name, value) :: row)
      else some row

/-- The fields of a record that has to be given in full when it is given as an array. -/
def ofJson? (names : List String) : Json → Option Row
  | .object members => ofMembers? names members
  | .array items => if items.length = names.length then some (names.zip items) else none
  | _ => none

/-- The fields of a record of which the last ones may be left out when it is given as an array. -/
def ofJsonOrStart? (names : List String) : Json → Option Row
  | .object members => ofMembers? names members
  | .array items => if items.length ≤ names.length then some (names.zip items) else none
  | _ => none

/-- A field that has to be given. -/
def required? [JsonForm α] (row : Row) (name : String) : Option α :=
  (row.lookup name).bind JsonForm.ofJson?

/-- A field with a value of its own when it is not given. -/
def withDefault? [JsonForm α] (row : Row) (name : String) (absent : α) : Option α :=
  match row.lookup name with
  | none => some absent
  | some j => JsonForm.ofJson? j

end Row

end ShardMerge
