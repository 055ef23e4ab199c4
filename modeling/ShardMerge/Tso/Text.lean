import ShardMerge.SortError
import ShardMerge.Text.Decimal
import ShardMerge.Text.Record
import ShardMerge.Tso

/-!
# Timestamps as text

The canonical text of a timestamp is its three parts in decimal without separators, padded with
zeros to 19, 19 and 10 digits. The widths are least widths: a part of twenty digits makes the text
longer than 48. The reader takes the canonical text, or a bare number for a physical time; the
length alone tells the two apart.
-/

namespace ShardMerge.Tso

/-- Least number of digits of the time. -/
def timeWidth : Nat := 19

/-- Least number of digits of the transaction number. -/
def transactionIdWidth : Nat := 19

/-- Least number of digits of the sequence number. -/
def seqWidth : Nat := 10

/-- Number of digits of a canonical text whose parts all fit their widths. -/
def canonicalLength : Nat := timeWidth + transactionIdWidth + seqWidth

/-- The digits of the canonical text. -/
def digits (t : Tso) : List Char :=
  Decimal.padded timeWidth t.time.toNat ++
    (Decimal.padded transactionIdWidth t.transactionId.toNat ++
      Decimal.padded seqWidth t.seq.toNat)

/-- The canonical text. -/
def text (t : Tso) : String :=
  String.ofList t.digits

instance : ToString Tso where
  toString := text

/-- The timestamp of a time that has to fit its word. -/
def ofNat? (n : Nat) : Option Tso :=
  if n < UInt64.size then some (ofTime n.toUInt64) else none

/-- The timestamp written by the three digit groups of a canonical text. A number of 19 digits
always fits its word; the last group has to fit a word of 32 bits. -/
def ofGroups? (ds : List Char) : Option Tso :=
  let (first, rest) := ds.splitAt timeWidth
  let (second, third) := rest.splitAt transactionIdWidth
  let seq := Decimal.value third
  if seq < UInt32.size then
    some ⟨(Decimal.value first).toUInt64, (Decimal.value second).toUInt64, seq.toUInt32⟩
  else
    none

/-- The timestamp that a list of characters writes, if it writes one. -/
def ofDigits? (ds : List Char) : Option Tso :=
  if ds.isEmpty || !ds.all Char.isDigit then none
  else if ds.length = canonicalLength then ofGroups? ds
  else ofNat? (Decimal.value ds)

/-- Reads a timestamp; the refusal carries the text. -/
def ofText (s : String) : Except SortError Tso :=
  match ofDigits? s.toList with
  | some t => .ok t
  | none => .error (.invalidTso s)

/-- The timestamp in record notation. -/
def record (t : Tso) : String :=
  Record.labelled "VirtualTso"
    [("tso", toString t.time), ("transaction_id", toString t.transactionId),
      ("seq", toString t.seq)]

theorem ofText_eq_ok_iff {s : String} {t : Tso} :
    ofText s = .ok t ↔ ofDigits? s.toList = some t := by
  simp only [ofText]
  cases ofDigits? s.toList <;> simp

theorem ofText_eq_error_iff {s : String} {e : SortError} :
    ofText s = .error e ↔ ofDigits? s.toList = none ∧ e = .invalidTso s := by
  simp only [ofText]
  cases ofDigits? s.toList <;> simp [eq_comm]

end ShardMerge.Tso
