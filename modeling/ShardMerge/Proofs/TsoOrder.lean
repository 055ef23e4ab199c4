import ShardMerge.Proofs.TsoText

/-!
# The order of timestamp texts

Texts are compared character by character, timestamps part by part. Numerals of one length compare
as their numbers, so the two orders agree as long as the parts of the two texts stand below each
other (`compare_text_of_linesUp`). That fails where a part of twenty digits meets one of nineteen:
such texts compare as the decimal fractions that they write behind a point
(`Decimal.compare_digits`), and two timestamps may even have one text (`text_eq_text_iff`).
-/

namespace ShardMerge

/-- Two comparisons agree if they agree on what is below what. -/
theorem compare_congr {α β : Type} [Ord α] [Std.OrientedOrd α] [Ord β] [Std.OrientedOrd β]
    {a a' : α} {b b' : β} (hlt : compare a a' = .lt ↔ compare b b' = .lt)
    (hgt : compare a' a = .lt ↔ compare b' b = .lt) : compare a a' = compare b b' := by
  rw [Std.OrientedOrd.eq_swap (a := a'), Std.OrientedOrd.eq_swap (a := b'), Ordering.swap_eq_lt,
    Ordering.swap_eq_lt] at hgt
  cases h : compare a a' <;> cases h' : compare b b' <;> simp_all

/-- Behind parts of one length, the rest decides only between equal parts. -/
theorem compare_append {α : Type} [Ord α] {as as' bs bs' : List α}
    (hlength : as.length = as'.length) :
    compare (as ++ bs) (as' ++ bs') = (compare as as').then (compare bs bs') := by
  induction as generalizing as' with
  | nil =>
    cases as' with
    | nil => rfl
    | cons => cases hlength
  | cons a as ih =>
    cases as' with
    | nil => cases hlength
    | cons a' as' =>
      rw [List.cons_append, List.cons_append, List.compare_cons_cons, List.compare_cons_cons,
        ih (Nat.succ.inj hlength), Ordering.then_assoc]

namespace Decimal

/-! ## Texts as lists of characters -/

theorem compare_eq_lt_iff (ds ds' : List Char) : compare ds ds' = .lt ↔ ds < ds' := by
  induction ds generalizing ds' with
  | nil => cases ds' <;> simp
  | cons c ds ih =>
    cases ds' with
    | nil => simp
    | cons c' ds' =>
      have hhead : compare c c' = .lt ↔ c < c' := compareOfLessAndEq_eq_lt
      rw [List.cons_lt_cons_iff, List.compare_cons_cons, Ordering.then_eq_lt, ih, hhead,
        Std.LawfulEqOrd.compare_eq_iff_eq]

/-- Texts compare by their characters. -/
theorem compare_ofList (ds ds' : List Char) :
    compare (String.ofList ds) (String.ofList ds') = compare ds ds' := by
  have hlt (as bs : List Char) :
      compare (String.ofList as) (String.ofList bs) = .lt ↔ compare as bs = .lt := by
    rw [compare_eq_lt_iff]
    refine compareOfLessAndEq_eq_lt.trans ?_
    rw [String.lt_iff, String.toList_ofList, String.toList_ofList]
  exact compare_congr (hlt ds ds') (hlt ds' ds)

/-! ## Numerals -/

@[simp] theorem value_nil : value [] = 0 :=
  rfl

theorem value_cons (c : Char) (ds : List Char) :
    value (c :: ds) = (c.toNat - '0'.toNat) * 10 ^ ds.length + value ds := by
  rw [← List.singleton_append, value_append]
  simp [value, Nat.ofDigitChars]

theorem toNat_of_isDigit {c : Char} (hc : c.isDigit) :
    '0'.toNat ≤ c.toNat ∧ c.toNat ≤ '9'.toNat := by
  simpa [Char.isDigit, UInt32.le_iff_toNat_le] using hc

theorem value_lt {ds : List Char} (h : ∀ c ∈ ds, c.isDigit) : value ds < 10 ^ ds.length := by
  induction ds with
  | nil => decide
  | cons c ds ih =>
    rw [List.forall_mem_cons] at h
    have hrest := ih h.2
    have hdigit : c.toNat - '0'.toNat ≤ 9 := Nat.sub_le_sub_right (toNat_of_isDigit h.1).2 _
    have hfirst := Nat.mul_le_mul_right (10 ^ ds.length) hdigit
    rw [value_cons, List.length_cons, Nat.pow_succ]
    omega

theorem compare_digit {c c' : Char} (hc : c.isDigit) (hc' : c'.isDigit) :
    compare c c' = compare (c.toNat - '0'.toNat) (c'.toNat - '0'.toNat) := by
  have hlt {c c' : Char} (hc : c.isDigit) (hc' : c'.isDigit) :
      compare c c' = .lt ↔ compare (c.toNat - '0'.toNat) (c'.toNat - '0'.toNat) = .lt := by
    have hbounds := toNat_of_isDigit hc
    have hbounds' := toNat_of_isDigit hc'
    have hchar : compare c c' = .lt ↔ c.toNat < c'.toNat := compareOfLessAndEq_eq_lt
    rw [hchar, Nat.compare_eq_lt]
    omega
  exact compare_congr (hlt hc hc') (hlt hc' hc)

/-- A greater first digit outweighs all that follows. -/
theorem fraction_lt {d d' v v' p p' : Nat} (hd : d < d') (hv : v < p) (hp' : 0 < p') :
    (d * p + v) * (p' * 10) < (d' * p' + v') * (p * 10) :=
  calc (d * p + v) * (p' * 10)
      < (d + 1) * p * (p' * 10) := by
        refine Nat.mul_lt_mul_of_pos_right ?_ (by omega)
        rw [Nat.succ_mul]
        omega
    _ ≤ d' * p * (p' * 10) := Nat.mul_le_mul_right _ (Nat.mul_le_mul_right _ hd)
    _ = d' * p' * (p * 10) := by ac_rfl
    _ ≤ (d' * p' + v') * (p * 10) := Nat.mul_le_mul_right _ (Nat.le_add_right _ _)

/-- A common first digit decides nothing. -/
theorem compare_fraction (d v v' p p' : Nat) :
    compare ((d * p + v) * (p' * 10)) ((d * p' + v') * (p * 10)) = compare (v * p') (v' * p) := by
  have hleft : (d * p + v) * (p' * 10) = (d * p * p' + v * p') * 10 := by grind
  have hright : (d * p' + v') * (p * 10) = (d * p * p' + v' * p) * 10 := by grind
  rw [hleft, hright]
  refine compare_congr ?_ ?_ <;>
  · rw [Nat.compare_eq_lt, Nat.compare_eq_lt]
    omega

/-- Numerals compare as the decimal fractions that they write behind a point, and of two numerals
that write the same fraction, the shorter one comes first. -/
theorem compare_digits {ds ds' : List Char} (h : ∀ c ∈ ds, c.isDigit)
    (h' : ∀ c ∈ ds', c.isDigit) :
    compare ds ds' =
      (compare (value ds * 10 ^ ds'.length) (value ds' * 10 ^ ds.length)).then
        (compare ds.length ds'.length) := by
  induction ds generalizing ds' with
  | nil =>
    cases ds' with
    | nil => rfl
    | cons c' ds' =>
      rw [List.compare_nil_cons, value_nil, Nat.zero_mul]
      cases value (c' :: ds') * 10 ^ ([] : List Char).length <;> rfl
  | cons c ds ih =>
    cases ds' with
    | nil =>
      rw [List.compare_cons_nil, value_nil, Nat.zero_mul]
      cases value (c :: ds) * 10 ^ ([] : List Char).length <;> rfl
    | cons c' ds' =>
      rw [List.forall_mem_cons] at h h'
      have hp : 0 < 10 ^ ds.length := Nat.pow_pos (by decide)
      have hp' : 0 < 10 ^ ds'.length := Nat.pow_pos (by decide)
      have hlength : compare (ds.length + 1) (ds'.length + 1) = compare ds.length ds'.length := by
        refine compare_congr ?_ ?_ <;>
        · rw [Nat.compare_eq_lt, Nat.compare_eq_lt, Nat.add_lt_add_iff_right]
      rw [List.compare_cons_cons, ih h.2 h'.2, compare_digit h.1 h'.1, value_cons, value_cons,
        List.length_cons, List.length_cons, Nat.pow_succ, Nat.pow_succ, hlength]
      rcases Nat.lt_trichotomy (c.toNat - '0'.toNat) (c'.toNat - '0'.toNat) with hd | hd | hd
      · rw [Nat.compare_eq_lt.2 hd, Nat.compare_eq_lt.2 (fraction_lt hd (value_lt h.2) hp')]
        rfl
      · rw [hd, Nat.compare_eq_eq.2 rfl, compare_fraction]
        rfl
      · rw [Nat.compare_eq_gt.2 hd, Nat.compare_eq_gt.2 (fraction_lt hd (value_lt h'.2) hp)]
        rfl

theorem compare_digits_of_length_eq {ds ds' : List Char} (h : ∀ c ∈ ds, c.isDigit)
    (h' : ∀ c ∈ ds', c.isDigit) (hlength : ds.length = ds'.length) :
    compare ds ds' = compare (value ds) (value ds') := by
  have hp : 0 < 10 ^ ds'.length := Nat.pow_pos (by decide)
  rw [compare_digits h h', hlength, Std.ReflOrd.compare_self, Ordering.then_eq]
  refine compare_congr ?_ ?_ <;>
  · rw [Nat.compare_eq_lt, Nat.compare_eq_lt, Nat.mul_lt_mul_right hp]

/-- A numeral is known by its length and its number. -/
theorem eq_iff_of_isDigit {ds ds' : List Char} (h : ∀ c ∈ ds, c.isDigit)
    (h' : ∀ c ∈ ds', c.isDigit) : ds = ds' ↔ ds.length = ds'.length ∧ value ds = value ds' := by
  constructor
  · rintro rfl
    exact ⟨rfl, rfl⟩
  · rintro ⟨hlength, hvalue⟩
    apply Std.LawfulEqOrd.eq_of_compare
    rw [compare_digits_of_length_eq h h' hlength, hvalue, Std.ReflOrd.compare_self]

theorem compare_padded {width n m : Nat}
    (hlength : (padded width n).length = (padded width m).length) :
    compare (padded width n) (padded width m) = compare n m := by
  rw [compare_digits_of_length_eq (fun _ => isDigit_of_mem_padded) (fun _ => isDigit_of_mem_padded)
    hlength, value_padded, value_padded]

/-- A number that outgrows the width that it is padded to by at most one digit. -/
theorem length_padded_eq_ite {width n : Nat} (hwidth : 0 < width) (hn : n < 10 ^ (width + 1)) :
    (padded width n).length = if n < 10 ^ width then width else width + 1 := by
  have hmost := (length_digits_le_iff (Nat.succ_pos width)).2 hn
  split
  next hfits => exact (length_padded_eq_iff hwidth).2 hfits
  next hfits =>
    rw [← length_digits_le_iff hwidth] at hfits
    rw [length_padded]
    omega

end Decimal

namespace Tso

theorem compare_word64 (n m : UInt64) : compare n m = compare n.toNat m.toNat := by
  have hlt (n m : UInt64) : compare n m = .lt ↔ compare n.toNat m.toNat = .lt := by
    rw [Nat.compare_eq_lt, ← UInt64.lt_iff_toNat_lt]
    exact compareOfLessAndEq_eq_lt
  exact compare_congr (hlt n m) (hlt m n)

theorem compare_word32 (n m : UInt32) : compare n m = compare n.toNat m.toNat := by
  have hlt (n m : UInt32) : compare n m = .lt ↔ compare n.toNat m.toNat = .lt := by
    rw [Nat.compare_eq_lt, ← UInt32.lt_iff_toNat_lt]
    exact compareOfLessAndEq_eq_lt
  exact compare_congr (hlt n m) (hlt m n)

theorem compare_eq (a b : Tso) :
    compare a b =
      (compare a.time.toNat b.time.toNat).then
        ((compare a.transactionId.toNat b.transactionId.toNat).then
          (compare a.seq.toNat b.seq.toNat)) := by
  rw [← compare_word64, ← compare_word64, ← compare_word32]
  rfl

/-! ## Parts below each other -/

/-- Whether the parts of two texts stand below each other as far as their order depends on them: the
times have the same number of digits, and so have the transaction numbers of one time. -/
def LinesUp (a b : Tso) : Prop :=
  (a.time.toNat < 10 ^ 19 ↔ b.time.toNat < 10 ^ 19) ∧
  (a.time = b.time → (a.transactionId.toNat < 10 ^ 19 ↔ b.transactionId.toNat < 10 ^ 19))

instance (a b : Tso) : Decidable (LinesUp a b) :=
  inferInstanceAs (Decidable (_ ∧ _))

theorem length_time (t : Tso) :
    (Decimal.padded timeWidth t.time.toNat).length = if t.time.toNat < 10 ^ 19 then 19 else 20 :=
  Decimal.length_padded_eq_ite (by decide) (Nat.lt_trans t.time.toNat_lt (by decide))

theorem length_transactionId (t : Tso) :
    (Decimal.padded transactionIdWidth t.transactionId.toNat).length =
      if t.transactionId.toNat < 10 ^ 19 then 19 else 20 :=
  Decimal.length_padded_eq_ite (by decide) (Nat.lt_trans t.transactionId.toNat_lt (by decide))

theorem length_seq (t : Tso) : (Decimal.padded seqWidth t.seq.toNat).length = 10 :=
  (Decimal.length_padded_eq_iff (by decide)).2 t.seq_lt

theorem compare_text_of_linesUp {a b : Tso} (h : LinesUp a b) :
    compare a.text b.text = compare a b := by
  have htime : (Decimal.padded timeWidth a.time.toNat).length =
      (Decimal.padded timeWidth b.time.toNat).length := by
    simp only [length_time, h.1]
  rw [text, text, Decimal.compare_ofList, digits, digits, compare_append htime,
    Decimal.compare_padded htime, compare_eq]
  by_cases hne : a.time = b.time
  · have htransactionId : (Decimal.padded transactionIdWidth a.transactionId.toNat).length =
        (Decimal.padded transactionIdWidth b.transactionId.toNat).length := by
      simp only [length_transactionId, h.2 hne]
    have hseq := (length_seq a).trans (length_seq b).symm
    rw [compare_append htransactionId, Decimal.compare_padded htransactionId,
      Decimal.compare_padded hseq]
  · -- The times decide, whatever stands behind them.
    have hdecided : compare a.time.toNat b.time.toNat ≠ .eq := by
      rwa [ne_eq, Nat.compare_eq_eq, UInt64.toNat_inj]
    cases hcompare : compare a.time.toNat b.time.toNat with
    | lt => rfl
    | eq => exact absurd hcompare hdecided
    | gt => rfl

/-! ## Parts that run together -/

/-- Whether a time of twenty digits hands its last digit, a one, over to a transaction number of
twenty digits, so that the two timestamps have one text. -/
def RunsTogether (a b : Tso) : Prop :=
  10 ^ 18 ≤ b.time.toNat ∧ a.time.toNat = 10 * b.time.toNat + 1 ∧
  b.transactionId.toNat = 10 ^ 19 + a.transactionId.toNat ∧ a.seq = b.seq

instance (a b : Tso) : Decidable (RunsTogether a b) :=
  inferInstanceAs (Decidable (_ ∧ _))

/-- The first two groups of a text make one numeral, which is known by its length and its number. -/
theorem text_eq_iff {a b : Tso} :
    a.text = b.text ↔
      (Decimal.padded timeWidth a.time.toNat).length +
          (Decimal.padded transactionIdWidth a.transactionId.toNat).length =
        (Decimal.padded timeWidth b.time.toNat).length +
          (Decimal.padded transactionIdWidth b.transactionId.toNat).length ∧
      a.time.toNat * 10 ^ (Decimal.padded transactionIdWidth a.transactionId.toNat).length +
          a.transactionId.toNat =
        b.time.toNat * 10 ^ (Decimal.padded transactionIdWidth b.transactionId.toNat).length +
          b.transactionId.toNat ∧
      a.seq = b.seq := by
  have hlast := (length_seq a).trans (length_seq b).symm
  have hdigit (t : Tso) : ∀ c ∈ Decimal.padded timeWidth t.time.toNat ++
      Decimal.padded transactionIdWidth t.transactionId.toNat, c.isDigit := fun c hc =>
    (List.mem_append.1 hc).elim Decimal.isDigit_of_mem_padded Decimal.isDigit_of_mem_padded
  have hgroups := Decimal.eq_iff_of_isDigit (hdigit a) (hdigit b)
  simp only [List.length_append, Decimal.value_append, Decimal.value_padded] at hgroups
  rw [text, text, String.ofList_inj, digits, digits, ← List.append_assoc, ← List.append_assoc,
    ← and_assoc, ← hgroups]
  constructor
  · intro h
    obtain ⟨hfirst, hseq⟩ := List.append_inj' h hlast
    have hvalue := congrArg Decimal.value hseq
    rw [Decimal.value_padded, Decimal.value_padded] at hvalue
    exact ⟨hfirst, UInt32.toNat_inj.1 hvalue⟩
  · rintro ⟨hfirst, hseq⟩
    rw [hfirst, hseq]

/-- A text whose time has twenty digits is the text of a timestamp whose time has nineteen exactly
if the one runs together with the other. -/
theorem text_eq_iff_runsTogether {a b : Tso} (hwide : ¬ a.time.toNat < 10 ^ 19)
    (hnarrow : b.time.toNat < 10 ^ 19) : a.text = b.text ↔ RunsTogether a b := by
  have htime := a.time.toNat_lt
  have htransactionId := b.transactionId.toNat_lt
  rw [text_eq_iff, length_time, length_time, length_transactionId, length_transactionId]
  rw [if_neg hwide, if_pos hnarrow]
  constructor
  · rintro ⟨hlength, hvalue, hseq⟩
    have hnarrow' : a.transactionId.toNat < 10 ^ 19 := by
      apply Decidable.byContradiction
      intro hwide'
      rw [if_neg hwide'] at hlength
      split at hlength <;> omega
    have hwide' : ¬ b.transactionId.toNat < 10 ^ 19 := by
      intro hfits
      rw [if_pos hnarrow', if_pos hfits] at hlength
      omega
    rw [if_pos hnarrow', if_neg hwide'] at hvalue
    refine ⟨?_, ?_, ?_, hseq⟩ <;> omega
  · rintro ⟨htimes, htimes', htransactionIds, hseq⟩
    have hnarrow' : a.transactionId.toNat < 10 ^ 19 := by omega
    have hwide' : ¬ b.transactionId.toNat < 10 ^ 19 := by omega
    rw [if_pos hnarrow', if_neg hwide']
    exact ⟨rfl, by omega, hseq⟩

theorem RunsTogether.text_eq {a b : Tso} (h : RunsTogether a b) : a.text = b.text := by
  have hbound := a.time.toNat_lt
  have hleast := h.1
  have htimes := h.2.1
  exact (text_eq_iff_runsTogether (by omega) (by omega)).2 h

theorem linesUp_of_text_eq {a b : Tso} (h : a.text = b.text)
    (htime : a.time.toNat < 10 ^ 19 ↔ b.time.toNat < 10 ^ 19) : LinesUp a b := by
  have hlength := (text_eq_iff.1 h).1
  simp only [length_time, length_transactionId, htime] at hlength
  refine ⟨htime, fun _ => ?_⟩
  have hlengths := Nat.add_left_cancel hlength
  split at hlengths <;> split at hlengths <;> omega

/-- Two timestamps have one text exactly if they are the same or run together. -/
theorem text_eq_text_iff {a b : Tso} :
    a.text = b.text ↔ a = b ∨ RunsTogether a b ∨ RunsTogether b a := by
  constructor
  · intro h
    by_cases htime : a.time.toNat < 10 ^ 19 ↔ b.time.toNat < 10 ^ 19
    · have horder := compare_text_of_linesUp (linesUp_of_text_eq h htime)
      rw [h, Std.ReflOrd.compare_self] at horder
      exact .inl (Std.LawfulEqOrd.eq_of_compare horder.symm)
    · by_cases ha : a.time.toNat < 10 ^ 19
      · have hb : ¬ b.time.toNat < 10 ^ 19 := fun hb => htime (iff_of_true ha hb)
        exact .inr (.inr ((text_eq_iff_runsTogether hb ha).1 h.symm))
      · have hb : b.time.toNat < 10 ^ 19 :=
          Decidable.byContradiction fun hb => htime (iff_of_false ha hb)
        exact .inr (.inl ((text_eq_iff_runsTogether ha hb).1 h))
  · rintro (rfl | h | h)
    · rfl
    · exact h.text_eq
    · exact h.text_eq.symm

/-- Texts compare as the decimal fractions that their digits write behind a point, and of two texts
that write the same fraction, the shorter one comes first. That is the order of the timestamps
wherever the parts of the two texts stand below each other, so for all canonical texts. Two
different timestamps have one text only where a time of twenty digits runs together with a
transaction number of twenty digits. -/
theorem texts_compare_as_fractions (a b : Tso) :
    compare a.text b.text =
      (compare (Decimal.value a.digits * 10 ^ b.text.length)
        (Decimal.value b.digits * 10 ^ a.text.length)).then
        (compare a.text.length b.text.length) ∧
    (LinesUp a b → compare a.text b.text = compare a b) ∧
    (a.text = b.text ↔ a = b ∨ RunsTogether a b ∨ RunsTogether b a) := by
  refine ⟨?_, compare_text_of_linesUp, text_eq_text_iff⟩
  have hlength (t : Tso) : t.text.length = t.digits.length := String.length_ofList
  rw [hlength, hlength, text, text, Decimal.compare_ofList]
  exact Decimal.compare_digits (fun _ => isDigit_of_mem_digits) (fun _ => isDigit_of_mem_digits)

/-- Two times of twenty digits stand below each other, so their texts are in order. -/
theorem wideTimes_compare_as_fractions :
    LinesUp ⟨10000000000000000009, 99, 9⟩ ⟨10000000000000000010, 0, 0⟩ ∧
    compare (text ⟨10000000000000000009, 99, 9⟩) (text ⟨10000000000000000010, 0, 0⟩) = .lt := by
  have hlinesUp : LinesUp ⟨10000000000000000009, 99, 9⟩ ⟨10000000000000000010, 0, 0⟩ := by decide
  exact ⟨hlinesUp, ((texts_compare_as_fractions _ _).2.1 hlinesUp).trans (by decide)⟩

/-- The text of a longer time may come before the text of a shorter one, and two timestamps may have
one text. -/
theorem not_forall_compare_text :
    (¬ ∀ a b : Tso, compare a.text b.text = compare a b) ∧
    ¬ ∀ a b : Tso, a ≠ b → a.text ≠ b.text := by
  constructor
  · intro h
    have hlonger := h ⟨9999999999999999999, 0, 0⟩ ⟨10000000000000000000, 0, 0⟩
    revert hlonger
    decide
  · intro h
    have hdistinct := h ⟨10000000000000000001, 0, 0⟩ ⟨1000000000000000000, 10000000000000000000, 0⟩
    revert hdistinct
    decide

end Tso

end ShardMerge
