import Mathlib.Algebra.Group.Nat.Defs
import ShardMerge.Tso.Text

/-!
# Timestamps that outgrow their text

Words of 64 bits may have twenty digits, one more than the canonical text has places for. The text
of such a timestamp is longer than the canonical one (`length_digits_eq_iff`), so it is read as a
bare number, zeros in front included; and as a number it never fits a word (`size_le_value_digits`).
So a timestamp is either read back from its text or refused, and never taken for another one
(`reads_text_iff_canonical`).
-/

namespace ShardMerge

namespace Decimal

/-- A numeral that is followed by others is shifted by as many places. -/
theorem value_append (ds ds' : List Char) :
    value (ds ++ ds') = value ds * 10 ^ ds'.length + value ds' := by
  rw [value, Nat.ofDigitChars_append, Nat.ofDigitChars_eq_ofDigitChars_zero, Nat.mul_comm]
  rfl

/-- A number needs no more digits than a width exactly if it is below that power of ten. -/
theorem length_digits_le_iff {width n : Nat} (hwidth : 0 < width) :
    (digits n).length ≤ width ↔ n < 10 ^ width :=
  Nat.length_toDigits_le_iff (by decide) hwidth

/-- A padded numeral has the width that it is padded to exactly if its number fits it. -/
theorem length_padded_eq_iff {width n : Nat} (hwidth : 0 < width) :
    (padded width n).length = width ↔ n < 10 ^ width := by
  rw [length_padded, ← length_digits_le_iff hwidth]
  omega

end Decimal

namespace Tso

/-- A sequence number always fits its width. -/
theorem seq_lt (t : Tso) : t.seq.toNat < 10 ^ seqWidth :=
  Nat.lt_of_lt_of_le t.seq.toNat_lt (by decide)

theorem isDigit_of_mem_digits {t : Tso} {c : Char} (hc : c ∈ t.digits) : c.isDigit := by
  rw [digits, List.mem_append, List.mem_append] at hc
  rcases hc with hc | hc | hc
  · exact Decimal.isDigit_of_mem_padded hc
  · exact Decimal.isDigit_of_mem_padded hc
  · exact Decimal.isDigit_of_mem_padded hc

/-! ## The length of the text -/

/-- The first two groups of the text may be wider than they should be; the last one never is. -/
theorem length_digits (t : Tso) :
    t.digits.length =
      (Decimal.padded timeWidth t.time.toNat).length +
        ((Decimal.padded transactionIdWidth t.transactionId.toNat).length + seqWidth) := by
  rw [digits, List.length_append, List.length_append,
    (Decimal.length_padded_eq_iff (by decide)).2 t.seq_lt]

theorem canonicalLength_le_length_digits (t : Tso) : canonicalLength ≤ t.digits.length := by
  have htime := Decimal.le_length_padded timeWidth t.time.toNat
  have htransactionId := Decimal.le_length_padded transactionIdWidth t.transactionId.toNat
  rw [length_digits, canonicalLength]
  omega

/-- The text has its canonical length exactly if both words fit their widths. -/
theorem length_digits_eq_iff {t : Tso} :
    t.digits.length = canonicalLength ↔
      t.time.toNat < 10 ^ timeWidth ∧ t.transactionId.toNat < 10 ^ transactionIdWidth := by
  have htime := Decimal.le_length_padded timeWidth t.time.toNat
  have htransactionId := Decimal.le_length_padded transactionIdWidth t.transactionId.toNat
  rw [← Decimal.length_padded_eq_iff (by decide), ← Decimal.length_padded_eq_iff (by decide),
    length_digits, canonicalLength]
  omega

/-! ## Texts of canonical length -/

/-- The groups of a text of canonical length are the three parts. -/
theorem ofGroups?_digits {t : Tso} (htime : t.time.toNat < 10 ^ timeWidth)
    (htransactionId : t.transactionId.toNat < 10 ^ transactionIdWidth) :
    ofGroups? t.digits = some t := by
  have hfirst := (Decimal.length_padded_eq_iff (by decide)).2 htime
  have hsecond := (Decimal.length_padded_eq_iff (by decide)).2 htransactionId
  have hseq : t.seq.toNat < UInt32.size := t.seq.toNat_lt
  rw [ofGroups?, digits]
  simp only [List.splitAt_eq, List.take_left' hfirst, List.drop_left' hfirst,
    List.take_left' hsecond, List.drop_left' hsecond, Decimal.value_padded, if_pos hseq]
  simp

theorem ofDigits?_of_length_eq {t : Tso} (hlength : t.digits.length = canonicalLength) :
    ofDigits? t.digits = some t := by
  obtain ⟨htime, htransactionId⟩ := length_digits_eq_iff.1 hlength
  have hne : t.digits ≠ [] := List.ne_nil_of_length_pos (by rw [hlength]; decide)
  have hall : t.digits.all Char.isDigit = true :=
    List.all_eq_true.2 fun c hc => isDigit_of_mem_digits hc
  simp [ofDigits?, hne, hall, hlength, ofGroups?_digits htime htransactionId]

/-! ## Longer texts -/

/-- The number that the whole text writes, if it is read as one. -/
theorem value_digits (t : Tso) :
    Decimal.value t.digits =
      t.time.toNat *
          10 ^ ((Decimal.padded transactionIdWidth t.transactionId.toNat).length + seqWidth) +
        (t.transactionId.toNat * 10 ^ seqWidth + t.seq.toNat) := by
  rw [digits, Decimal.value_append, Decimal.value_append, List.length_append,
    (Decimal.length_padded_eq_iff (by decide)).2 t.seq_lt, Decimal.value_padded,
    Decimal.value_padded, Decimal.value_padded]

/-- A text that is longer than the canonical one is no number of 64 bits. -/
theorem size_le_value_digits {t : Tso} (hlength : t.digits.length ≠ canonicalLength) :
    UInt64.size ≤ Decimal.value t.digits := by
  have hsize : UInt64.size ≤ 10 ^ timeWidth * 10 ^ seqWidth := by decide
  rw [ne_eq, length_digits_eq_iff, Classical.not_and_iff_not_or_not, Nat.not_lt,
    Nat.not_lt] at hlength
  rw [value_digits]
  rcases hlength with htime | htransactionId
  · have hshift : 10 ^ seqWidth ≤
        10 ^ ((Decimal.padded transactionIdWidth t.transactionId.toNat).length + seqWidth) :=
      Nat.pow_le_pow_right (by decide) (Nat.le_add_left _ _)
    have hle := Nat.mul_le_mul htime hshift
    omega
  · have hle := Nat.mul_le_mul_right (10 ^ seqWidth) htransactionId
    have hwidths : timeWidth = transactionIdWidth := rfl
    rw [hwidths] at hsize
    omega

theorem ofDigits?_of_length_ne {t : Tso} (hlength : t.digits.length ≠ canonicalLength) :
    ofDigits? t.digits = none := by
  have hvalue := Nat.not_lt.2 (size_le_value_digits hlength)
  simp [ofDigits?, ofNat?, hlength, hvalue]

/-! ## Reading the text -/

theorem ofText_text (t : Tso) :
    ofText t.text =
      if t.digits.length = canonicalLength then .ok t else .error (.invalidTso t.text) := by
  have hlist : t.text.toList = t.digits := String.toList_ofList
  split
  next hlength =>
    rw [ofText_eq_ok_iff, hlist]
    exact ofDigits?_of_length_eq hlength
  next hlength =>
    rw [ofText_eq_error_iff, hlist]
    exact ⟨ofDigits?_of_length_ne hlength, rfl⟩

/-- A timestamp is read back from its text exactly if its time and its transaction number have at
most 19 digits, and that is, if its text has 48 characters. The text of any other timestamp is
longer, and reading it is refused, with the text; it is not taken for another timestamp. -/
theorem reads_text_iff_canonical (t : Tso) :
    (ofText t.text = .ok t ↔ t.time.toNat < 10 ^ 19 ∧ t.transactionId.toNat < 10 ^ 19) ∧
    (t.text.length = 48 ↔ t.time.toNat < 10 ^ 19 ∧ t.transactionId.toNat < 10 ^ 19) ∧
    (48 < t.text.length ↔ 10 ^ 19 ≤ t.time.toNat ∨ 10 ^ 19 ≤ t.transactionId.toNat) ∧
    (ofText t.text = .error (.invalidTso t.text) ↔
      10 ^ 19 ≤ t.time.toNat ∨ 10 ^ 19 ≤ t.transactionId.toNat) := by
  have hcanonical : t.digits.length = canonicalLength ↔
      t.time.toNat < 10 ^ 19 ∧ t.transactionId.toNat < 10 ^ 19 := length_digits_eq_iff
  have houtgrown : t.digits.length ≠ canonicalLength ↔
      10 ^ 19 ≤ t.time.toNat ∨ 10 ^ 19 ≤ t.transactionId.toNat := by
    rw [ne_eq, hcanonical, Classical.not_and_iff_not_or_not, Nat.not_lt, Nat.not_lt]
  have hleast : 48 ≤ t.digits.length := canonicalLength_le_length_digits t
  have hlength : t.text.length = t.digits.length := String.length_ofList
  rw [← hcanonical, ← houtgrown, hlength, ofText_text]
  refine ⟨?_, Iff.rfl, ?_, ?_⟩
  · simp
  · rw [Nat.lt_iff_le_and_ne, and_iff_right hleast, ne_comm]
    exact Iff.rfl
  · simp

/-- Twenty digits are too many, even behind a time of zeros only. -/
example :
    ofText (Tso.text ⟨0, 10000000000000000000, 0⟩) =
      .error (.invalidTso "0000000000000000000100000000000000000000000000000") := by
  rfl

end Tso

end ShardMerge
