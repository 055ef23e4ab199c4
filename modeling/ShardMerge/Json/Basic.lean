import ShardMerge.Json.Token

/-!
# JSON values

The values that JSON texts denote, how they are written without blanks, and how a text is read. An
object keeps its members in order and with repetitions, so that what reads it can refuse a name
given twice. The reader goes through the tokens once, with a stack of the arrays and objects that
are still open, so any depth of nesting is read.
-/

namespace ShardMerge

/-- A JSON value. -/
inductive Json where
  | null
  | bool (b : Bool)
  /-- A number without sign, fraction and exponent. -/
  | nat (n : Nat)
  /-- Any other number, as it is written. -/
  | decimal (spelling : List Char)
  /-- A string; none if it denotes no text. -/
  | string (text : Option String)
  | array (items : List Json)
  | object (members : List (Option String × Json))
deriving Inhabited, Repr

namespace Json

/-- The string of a text. -/
def ofString (s : String) : Json :=
  .string (some s)

/-- The object whose members have the given texts as names. -/
def record (members : List (String × Json)) : Json :=
  .object (members.map fun member => (some member.1, member.2))

mutual

/-- The tokens of a value. -/
def tokens : Json → List Token
  | null => [.null]
  | bool b => [.bool b]
  | nat n => [.nat n]
  | decimal spelling => [.decimal spelling]
  | string text => [.string text]
  | array items => .openArray :: (itemTokens items ++ [.closeArray])
  | object members => .openObject :: (memberTokens members ++ [.closeObject])

/-- The tokens of the items of an array, with commas between them. -/
def itemTokens : List Json → List Token
  | [] => []
  | [item] => item.tokens
  | item :: items => item.tokens ++ .comma :: itemTokens items

/-- The tokens of the members of an object, with commas between them. -/
def memberTokens : List (Option String × Json) → List Token
  | [] => []
  | [(name, value)] => .string name :: .colon :: value.tokens
  | (name, value) :: members =>
    .string name :: .colon :: (value.tokens ++ .comma :: memberTokens members)

end

/-- The text of a value, without blanks. -/
def text (j : Json) : String :=
  String.ofList (j.tokens.flatMap Token.text)

/-- An array or object that is still open, with what it holds so far, newest first. -/
inductive Frame where
  | array (items : List Json)
  /-- An object that waits for the value of the member `name`. -/
  | object (members : List (Option String × Json)) (name : Option String)

/-- Where a reader stands between two tokens. The stack holds what is open around it. -/
inductive Reader where
  /-- A value has to come. -/
  | value (stack : List Frame)
  /-- An array was opened: its first item has to come, or its end. -/
  | firstItem (stack : List Frame)
  /-- An object was opened: its first name has to come, or its end. -/
  | firstName (stack : List Frame)
  /-- A further name of an object has to come. -/
  | name (members : List (Option String × Json)) (stack : List Frame)
  /-- The colon behind a name has to come. -/
  | colon (members : List (Option String × Json)) (name : Option String) (stack : List Frame)
  /-- A value is complete. -/
  | complete (value : Json) (stack : List Frame)

namespace Reader

/-- The reader after the first token of a value. -/
def beginValue (stack : List Frame) : Token → Option Reader
  | .null => some (complete .null stack)
  | .bool b => some (complete (.bool b) stack)
  | .nat n => some (complete (.nat n) stack)
  | .decimal spelling => some (complete (.decimal spelling) stack)
  | .string text => some (complete (.string text) stack)
  | .openArray => some (firstItem stack)
  | .openObject => some (firstName stack)
  | _ => none

/-- The reader after one token, unless the token may not come there. -/
def step : Reader → Token → Option Reader
  | value stack, t => beginValue stack t
  | firstItem stack, .closeArray => some (complete (.array []) stack)
  | firstItem stack, t => beginValue (.array [] :: stack) t
  | firstName stack, .closeObject => some (complete (.object []) stack)
  | firstName stack, .string text => some (colon [] text stack)
  | name members stack, .string text => some (colon members text stack)
  | colon members text stack, .colon => some (value (.object members text :: stack))
  | complete j (.array items :: stack), .comma => some (value (.array (j :: items) :: stack))
  | complete j (.array items :: stack), .closeArray =>
    some (complete (.array (j :: items).reverse) stack)
  | complete j (.object members text :: stack), .comma =>
    some (name ((text, j) :: members) stack)
  | complete j (.object members text :: stack), .closeObject =>
    some (complete (.object ((text, j) :: members).reverse) stack)
  | _, _ => none

/-- The reader after all the given tokens. -/
def run : Reader → List Token → Option Reader
  | reader, [] => some reader
  | reader, t :: ts =>
    match reader.step t with
    | none => none
    | some reader => reader.run ts

/-- The value that was read, if it is complete and nothing is open. -/
def result? : Reader → Option Json
  | complete j [] => some j
  | _ => none

end Reader

/-- The value that tokens write, if they write exactly one. -/
def ofTokens? (ts : List Token) : Option Json :=
  ((Reader.value []).run ts).bind Reader.result?

/-- Reads a text that holds one value, with blanks allowed around it. -/
def read? (s : String) : Option Json :=
  (Token.scan s.toList).bind ofTokens?

end Json

end ShardMerge
