import ShardMerge.Text.Blank
import ShardMerge.Whitelist

/-!
# Whitelists as text

Operators write a whitelist as one line of entries between number signs. Blanks around an entry do
not belong to it, and blank entries are no entries.
-/

namespace ShardMerge.Whitelist

/-- The character between two entries. -/
def separator : Char := '#'

/-- The entries of a line, in order and with repetitions. -/
def entries (line : List Char) : List (List Char) :=
  ((line.splitOn separator).map Text.trim).filter (· ≠ [])

/-- The identifiers that a line lists, in order and with repetitions. -/
def xidsOfText (line : String) : List Xid :=
  (entries line.toList).map fun entry => ⟨String.ofList entry⟩

/-- The whitelist that a line describes. -/
def ofText (line : String) : Whitelist :=
  ofList (xidsOfText line)

end ShardMerge.Whitelist
