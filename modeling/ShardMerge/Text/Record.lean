import ShardMerge.Text.Printable

/-!
# Record notation

The nested notation in which diagnostic text shows values: a record is its name with its labelled
fields in braces, a variant its name with its content in parentheses, and a text is quoted, with
characters that could not be seen written by their code points.
-/

namespace ShardMerge.Record

/-- A character of a quoted text. -/
def escape (c : Char) : List Char :=
  match c with
  | '\x00' => ['\\', '0']
  | '\t' => ['\\', 't']
  | '\n' => ['\\', 'n']
  | '\r' => ['\\', 'r']
  | '"' => ['\\', '"']
  | '\\' => ['\\', '\\']
  | c =>
    if Text.isPrintable c then [c]
    else ['\\', 'u', '\x7b'] ++ Nat.toDigits 16 c.toNat ++ ['\x7d']

/-- A text between quotes. -/
def quoted (s : String) : String :=
  "\"" ++ String.ofList (s.toList.flatMap escape) ++ "\""

/-- A variant of a type with the text of its content. -/
def variant (name content : String) : String :=
  name ++ "(" ++ content ++ ")"

/-- A record with the texts of its fields. -/
def labelled (name : String) (fields : List (String × String)) : String :=
  name ++ " \x7b " ++ ", ".intercalate (fields.map fun field => field.1 ++ ": " ++ field.2) ++
    " \x7d"

/-- A value that may be missing. -/
def optional {α : Type} (shown : α → String) : Option α → String
  | none => "None"
  | some a => variant "Some" (shown a)

end ShardMerge.Record
