import Mathlib.Data.List.Induction
import ShardMerge.Proofs.TsoOrder

/-!
# The grammar of timestamp texts

`Tso.Written` says which texts write which timestamps, in two rules that know nothing of the reader:
three groups of digits, or one number. The reader takes exactly these texts
(`reads_exactly_written`); a text of 48 characters is moreover the canonical text of what it is
read as.
-/

namespace ShardMerge

namespace Decimal

/-- The numerals, zeros in front allowed, with the numbers that they write. -/
inductive Writes : List Char → Nat → Prop where
  | nil : Writes [] 0
  | snoc {ds : List Char} {n d : Nat} (hwrites : Writes ds n) (hd : d < 10) :
    Writes (ds ++ [Nat.digitChar d]) (10 * n + d)

theorem value_concat (ds : List Char) (c : Char) :
    value (ds ++ [c]) = 10 * value ds + (c.toNat - '0'.toNat) := by
  rw [value_append, value_cons, value_nil, List.length_singleton, List.length_nil]
  omega

theorem digitChar_of_isDigit {c : Char} (hc : c.isDigit) :
    Nat.digitChar (c.toNat - '0'.toNat) = c := by
  have hbounds := toNat_of_isDigit hc
  apply Char.toNat_inj.1
  rw [Nat.toNat_digitChar_of_lt_ten] <;> simp at hbounds ⊢ <;> omega

/-- What a numeral writes is what is read. -/
theorem writes_iff {ds : List Char} {n : Nat} :
    Writes ds n ↔ (∀ c ∈ ds, c.isDigit) ∧ value ds = n := by
  constructor
  · intro h
    induction h with
    | nil => simp
    | @snoc ds n d _ hd ih =>
      have hdigit : (Nat.digitChar d).isDigit := by simpa [Nat.isDigit_digitChar] using hd
      refine ⟨fun c hc => ?_, ?_⟩
      · rcases List.mem_append.1 hc with hc | hc
        · exact ih.1 c hc
        · exact List.mem_singleton.1 hc ▸ hdigit
      · rw [value_concat, ih.2, Nat.toNat_digitChar_of_lt_ten hd]
        simp
  · rintro ⟨hdigits, rfl⟩
    induction ds using List.reverseRecOn with
    | nil => exact .nil
    | append_singleton ds c ih =>
      have hc : c.isDigit := hdigits c (by simp)
      have hbounds := toNat_of_isDigit hc
      have hlast := (ih fun d hd => hdigits d (List.mem_append_left _ hd)).snoc
        (d := c.toNat - '0'.toNat) (by simp at hbounds ⊢; omega)
      rwa [digitChar_of_isDigit hc, ← value_concat] at hlast

/-- A numeral is the padded form of its number. -/
theorem padded_value {width : Nat} {ds : List Char} (hwidth : 0 < width)
    (hdigits : ∀ c ∈ ds, c.isDigit) (hlength : ds.length = width) :
    padded width (value ds) = ds := by
  have hvalue : value ds < 10 ^ width := hlength ▸ value_lt hdigits
  rw [eq_iff_of_isDigit (fun _ => isDigit_of_mem_padded) hdigits, value_padded,
    (length_padded_eq_iff hwidth).2 hvalue, hlength]
  exact ⟨rfl, rfl⟩

end Decimal

namespace Tso

open Decimal (Writes writes_iff)

/-- The texts that write timestamps, with the timestamps that they write. -/
inductive Written : List Char → Tso → Prop where
  /-- Three groups of 19, 19 and 10 digits. -/
  | groups {t : Tso} {first second third : List Char} (hfirst : first.length = 19)
    (hsecond : second.length = 19) (hthird : third.length = 10)
    (htime : Writes first t.time.toNat) (htransactionId : Writes second t.transactionId.toNat)
    (hseq : Writes third t.seq.toNat) : Written (first ++ (second ++ third)) t
  /-- A number for a physical time, not of 48 digits. -/
  | number {time : UInt64} {ds : List Char} (hnonempty : ds ≠ []) (hlength : ds.length ≠ 48)
    (htime : Writes ds time.toNat) : Written ds (ofTime time)

/-! ## The reader by the length of a text -/

theorem ofDigits?_eq_ite {ds : List Char} (hnonempty : ds ≠ []) (hdigits : ∀ c ∈ ds, c.isDigit) :
    ofDigits? ds = if ds.length = 48 then ofGroups? ds else ofNat? (Decimal.value ds) := by
  have hall : ds.all Char.isDigit = true := List.all_eq_true.2 hdigits
  rw [ofDigits?, hall, List.isEmpty_eq_false_iff.2 hnonempty]
  rfl

theorem numeral_of_ofDigits? {ds : List Char} {t : Tso} (h : ofDigits? ds = some t) :
    ds ≠ [] ∧ ∀ c ∈ ds, c.isDigit := by
  rw [ofDigits?] at h
  split at h
  · cases h
  next hnumeral => simpa using hnumeral

theorem ofGroups?_append {first second third : List Char} (hfirst : first.length = 19)
    (hsecond : second.length = 19) :
    ofGroups? (first ++ (second ++ third)) =
      if Decimal.value third < UInt32.size then
        some ⟨(Decimal.value first).toUInt64, (Decimal.value second).toUInt64,
          (Decimal.value third).toUInt32⟩
      else none := by
  rw [ofGroups?]
  simp only [timeWidth, transactionIdWidth, List.splitAt_eq, List.take_left' hfirst,
    List.drop_left' hfirst, List.take_left' hsecond, List.drop_left' hsecond]

theorem exists_groups {ds : List Char} (hlength : ds.length = 48) :
    ∃ first second third, ds = first ++ (second ++ third) ∧
      first.length = 19 ∧ second.length = 19 ∧ third.length = 10 :=
  ⟨ds.take 19, (ds.drop 19).take 19, (ds.drop 19).drop 19,
    by rw [List.take_append_drop, List.take_append_drop], by simp [hlength], by simp [hlength],
    by simp [hlength]⟩

/-! ## Reading what is written -/

theorem Written.ofDigits?_eq {ds : List Char} {t : Tso} (h : Written ds t) :
    ofDigits? ds = some t := by
  cases h with
  | @groups _ first second third hfirst hsecond hthird htime htransactionId hseq =>
    obtain ⟨hfirstDigits, hfirstValue⟩ := writes_iff.1 htime
    obtain ⟨hsecondDigits, hsecondValue⟩ := writes_iff.1 htransactionId
    obtain ⟨hthirdDigits, hthirdValue⟩ := writes_iff.1 hseq
    have hlength : (first ++ (second ++ third)).length = 48 := by simp [*]
    have hnonempty : first ++ (second ++ third) ≠ [] :=
      List.ne_nil_of_length_pos (by rw [hlength]; decide)
    have hdigits : ∀ c ∈ first ++ (second ++ third), c.isDigit := by
      simp only [List.forall_mem_append]
      exact ⟨hfirstDigits, hsecondDigits, hthirdDigits⟩
    have hfits : t.seq.toNat < UInt32.size := t.seq.toNat_lt
    rw [ofDigits?_eq_ite hnonempty hdigits, if_pos hlength, ofGroups?_append hfirst hsecond,
      hfirstValue, hsecondValue, hthirdValue, if_pos hfits]
    simp
  | @number time ds hnonempty hlength htime =>
    obtain ⟨hdigits, hvalue⟩ := writes_iff.1 htime
    have hfits : time.toNat < UInt64.size := time.toNat_lt
    rw [ofDigits?_eq_ite hnonempty hdigits, if_neg hlength, hvalue, ofNat?, if_pos hfits]
    simp

theorem written_of_ofDigits?_eq {ds : List Char} {t : Tso} (h : ofDigits? ds = some t) :
    Written ds t := by
  obtain ⟨hnonempty, hdigits⟩ := numeral_of_ofDigits? h
  rw [ofDigits?_eq_ite hnonempty hdigits] at h
  split at h
  next hlength =>
    obtain ⟨first, second, third, rfl, hfirst, hsecond, hthird⟩ := exists_groups hlength
    simp only [List.forall_mem_append] at hdigits
    obtain ⟨hfirstDigits, hsecondDigits, hthirdDigits⟩ := hdigits
    rw [ofGroups?_append hfirst hsecond] at h
    split at h
    next hfits =>
      cases h
      -- Nineteen digits always fit a word of 64 bits.
      have hword {group : List Char} (hgroup : ∀ c ∈ group, c.isDigit)
          (hlength : group.length = 19) :
          (Decimal.value group).toUInt64.toNat = Decimal.value group := by
        have hvalue := Decimal.value_lt hgroup
        rw [hlength] at hvalue
        exact UInt64.toNat_ofNat_of_lt (Nat.lt_trans hvalue (by decide))
      exact .groups hfirst hsecond hthird
        (writes_iff.2 ⟨hfirstDigits, (hword hfirstDigits hfirst).symm⟩)
        (writes_iff.2 ⟨hsecondDigits, (hword hsecondDigits hsecond).symm⟩)
        (writes_iff.2 ⟨hthirdDigits, (UInt32.toNat_ofNat_of_lt hfits).symm⟩)
    next => cases h
  next hlength =>
    rw [ofNat?] at h
    split at h
    next hfits =>
      cases h
      exact .number hnonempty hlength
        (writes_iff.2 ⟨hdigits, (UInt64.toNat_ofNat_of_lt hfits).symm⟩)
    next => cases h

theorem ofText_eq_ok_iff_written {s : String} {t : Tso} :
    ofText s = .ok t ↔ Written s.toList t :=
  ofText_eq_ok_iff.trans ⟨written_of_ofDigits?_eq, Written.ofDigits?_eq⟩

/-- A text writes a timestamp exactly if it is a numeral whose length says how to read it, and the
number read in that way fits its word. -/
theorem exists_written_iff {ds : List Char} :
    (∃ t, Written ds t) ↔
      ds ≠ [] ∧ (∀ c ∈ ds, c.isDigit) ∧
        (ds.length = 48 ∧ (∃ n ≤ 2 ^ 32 - 1, Writes (ds.drop 38) n) ∨
          ds.length ≠ 48 ∧ ∃ n ≤ 2 ^ 64 - 1, Writes ds n) := by
  constructor
  · rintro ⟨t, h⟩
    obtain ⟨hnonempty, hdigits⟩ := numeral_of_ofDigits? h.ofDigits?_eq
    refine ⟨hnonempty, hdigits, ?_⟩
    cases h with
    | groups hfirst hsecond hthird htime htransactionId hseq =>
      refine .inl ⟨by simp [*], t.seq.toNat, Nat.le_pred_of_lt t.seq.toNat_lt, ?_⟩
      rw [← List.append_assoc, List.drop_left' (by simp [*])]
      exact hseq
    | @number time _ _ hlength htime =>
      exact .inr ⟨hlength, time.toNat, Nat.le_pred_of_lt time.toNat_lt, htime⟩
  · -- The reader finds the timestamp.
    intro ⟨hnonempty, hdigits, hfits⟩
    have hread := ofDigits?_eq_ite hnonempty hdigits
    rcases hfits with ⟨hlength, n, hn, hwrites⟩ | ⟨hlength, n, hn, hwrites⟩
    · obtain ⟨first, second, third, rfl, hfirst, hsecond, hthird⟩ := exists_groups hlength
      rw [← List.append_assoc, List.drop_left' (by simp [*])] at hwrites
      have hword : Decimal.value third < UInt32.size := by
        rw [(writes_iff.1 hwrites).2]
        exact Nat.lt_of_le_pred (by decide) hn
      rw [if_pos hlength, ofGroups?_append hfirst hsecond, if_pos hword] at hread
      exact ⟨_, written_of_ofDigits?_eq hread⟩
    · have hword : Decimal.value ds < UInt64.size := by
        rw [(writes_iff.1 hwrites).2]
        exact Nat.lt_of_le_pred (by decide) hn
      rw [if_neg hlength, ofNat?, if_pos hword] at hread
      exact ⟨_, written_of_ofDigits?_eq hread⟩

/-! ## Texts of canonical length -/

/-- A text of three groups is the canonical text of what it writes. -/
theorem Written.digits_eq {ds : List Char} {t : Tso} (h : Written ds t) (hlength : ds.length = 48) :
    t.digits = ds := by
  cases h with
  | groups hfirst hsecond hthird htime htransactionId hseq =>
    have hgroup {width n : Nat} {group : List Char} (hwidth : 0 < width)
        (hlength : group.length = width) (hwrites : Writes group n) :
        Decimal.padded width n = group := by
      obtain ⟨hdigits, rfl⟩ := writes_iff.1 hwrites
      exact Decimal.padded_value hwidth hdigits hlength
    rw [digits, timeWidth, transactionIdWidth, seqWidth, hgroup (by decide) hfirst htime,
      hgroup (by decide) hsecond htransactionId, hgroup (by decide) hthird hseq]
  | number _ hne => exact absurd hlength hne

theorem ofText_eq_ok_iff_text_eq {s : String} {t : Tso} (hlength : s.length = 48) :
    ofText s = .ok t ↔ t.text = s := by
  constructor
  · intro h
    rw [text, (ofText_eq_ok_iff_written.1 h).digits_eq hlength, String.ofList_toList]
  · rintro rfl
    have hcanonical : t.digits.length = canonicalLength := String.length_ofList.symm.trans hlength
    rw [ofText_text, if_pos hcanonical]

/-- A text is read as a timestamp exactly if the grammar writes that timestamp with it, which it
does for one timestamp at most. That is the case for the texts that are not empty, hold nothing but
digits, and either have 48 digits, of which the last ten write a number of 32 bits, or have any
other length and write a number of 64 bits, with zeros in front allowed. A text of 48 characters is
then the canonical text of its timestamp. Any other text is refused, and the refusal carries it as
it is. -/
theorem reads_exactly_written (s : String) :
    (∀ t, ofText s = .ok t ↔ Written s.toList t) ∧
    ((∃ t, Written s.toList t) ↔
      s ≠ "" ∧ (∀ c ∈ s.toList, c.isDigit) ∧
        (s.length = 48 ∧ (∃ n ≤ 2 ^ 32 - 1, Writes (s.toList.drop 38) n) ∨
          s.length ≠ 48 ∧ ∃ n ≤ 2 ^ 64 - 1, Writes s.toList n)) ∧
    (∀ t, s.length = 48 ∧ ofText s = .ok t ↔ s.length = 48 ∧ t.text = s) ∧
    (∀ e, ofText s = .error e ↔ e = .invalidTso s ∧ ¬ ∃ t, Written s.toList t) := by
  refine ⟨fun t => ofText_eq_ok_iff_written, ?_, fun t => ?_, fun e => ?_⟩
  · rw [exists_written_iff, ne_eq, ne_eq, String.toList_eq_nil_iff]
    rfl
  · exact and_congr_right ofText_eq_ok_iff_text_eq
  · have hnone : ofDigits? s.toList = none ↔ ¬ ∃ t, Written s.toList t := by
      rw [Option.eq_none_iff_forall_ne_some, not_exists]
      exact forall_congr' fun t => not_congr ⟨written_of_ofDigits?_eq, Written.ofDigits?_eq⟩
    rw [ofText_eq_error_iff, hnone, and_comm]

end Tso

end ShardMerge
