/-!
# Decimal numerals

Numerals as lists of digits, most significant first. Main statements: a numeral reads back as the
number it was written from (`value_digits`), and zeros in front change nothing (`value_padded`).
-/

namespace ShardMerge.Decimal

/-- The digits of a number, without leading zeros. -/
def digits (n : Nat) : List Char :=
  Nat.toDigits 10 n

/-- The digits of a number behind as many zeros as make them at least `width` long. -/
def padded (width n : Nat) : List Char :=
  (digits n).leftpad width '0'

/-- The number that a list of digits writes. -/
def value (ds : List Char) : Nat :=
  Nat.ofDigitChars 10 ds 0

theorem value_digits (n : Nat) : value (digits n) = n :=
  Nat.ofDigitChars_toDigits (by decide) (by decide)

theorem value_zeros_append (k : Nat) (ds : List Char) :
    value (List.replicate k '0' ++ ds) = value ds := by
  induction k with
  | zero => rfl
  | succ k ih => simpa [value, Nat.ofDigitChars, List.replicate_succ] using ih

theorem value_padded (width n : Nat) : value (padded width n) = n := by
  rw [padded, List.leftpad, value_zeros_append, value_digits]

theorem length_padded (width n : Nat) :
    (padded width n).length = max width (digits n).length := by
  simp [padded, List.leftpad]
  omega

theorem le_length_padded (width n : Nat) : width ≤ (padded width n).length := by
  rw [length_padded]
  exact Nat.le_max_left _ _

theorem isDigit_of_mem_digits {n : Nat} {c : Char} (h : c ∈ digits n) : c.isDigit :=
  Nat.isDigit_of_mem_toDigits (by decide) (by decide) h

theorem isDigit_of_mem_padded {width n : Nat} {c : Char} (h : c ∈ padded width n) : c.isDigit := by
  rw [padded, List.leftpad, List.mem_append, List.mem_replicate] at h
  rcases h with ⟨_, rfl⟩ | h
  · decide
  · exact isDigit_of_mem_digits h

end ShardMerge.Decimal
