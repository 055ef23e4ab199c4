import Mathlib.Data.List.Chain
import ShardMerge.Json.Token

/-!
# Spelled tokens

What a token is spelled as is taken back as that token, whatever comes behind it (`take?_text`);
only a number needs something behind it that does not go on with it. So tokens that are kept apart
are cut at the seams where they were joined (`scan_flatMap_text`). For a string this rests on its
escapes (`pieces?_escapeAll`, `text?_map_piece`), for a number on its parts (`unsigned?_append`).
-/

namespace ShardMerge

namespace Decimal

theorem digits_ne_nil (n : Nat) : digits n ≠ [] :=
  Nat.toDigits_ne_nil

theorem head?_digits_ne_zero {n : Nat} (hn : 0 < n) : (digits n).head? ≠ some '0' := by
  induction n using Nat.strongRecOn with
  | _ n ih =>
    rw [digits, Nat.toDigits_eq_if (by decide)]
    split
    next =>
      have hne : n ≠ 0 := by omega
      simpa using hne
    next hge =>
      have hfront := ih (n / 10) (by omega) (by omega)
      rwa [List.head?_append, Option.or_of_isSome]
      exact List.isSome_head?.2 (digits_ne_nil _)

end Decimal

namespace Json

/-! ## Strings -/

namespace Quoted

/-- What the reader finds where a character was written. -/
def piece (c : Char) : Piece :=
  if c.toNat < 0x20 ∧ c ∉ ['\x08', '\x0c', '\n', '\r', '\t'] then .unit c.toNat else .char c

theorem hexValue?_hexDigit : ∀ n < 16, hexValue? (hexDigit n) = some n := by
  decide

theorem unit?_control {n : Nat} (hn : n < 0x20) :
    unit? '0' '0' (hexDigit (n / 16)) (hexDigit (n % 16)) = some n := by
  have hzero : hexValue? '0' = some 0 := by decide
  simp only [unit?, hzero, hexValue?_hexDigit (n / 16) (by omega),
    hexValue?_hexDigit (n % 16) (by omega)]
  congr 1
  omega

theorem pieces?_cons {c : Char} (hquote : c ≠ '"') (hescape : c ≠ '\\') (hc : 0x20 ≤ c.toNat)
    (rest : List Char) :
    pieces? (c :: rest) = (pieces? rest).map fun (pieces, rest) => (.char c :: pieces, rest) := by
  have hplain : ¬ (c = '\\' ∨ c.toNat < 0x20) := by
    rintro (h | h)
    · exact hescape h
    · omega
  rw [pieces?.eq_def]
  split
  case h_5 h =>
    cases h
    rw [if_neg hplain]
  all_goals simp_all

theorem pieces?_escape (c : Char) (rest : List Char) :
    pieces? (escape c ++ rest) =
      (pieces? rest).map fun (pieces, rest) => (piece c :: pieces, rest) := by
  unfold escape
  split
  case h_8 =>
    split
    next hc =>
      have hpiece : piece c = .unit c.toNat := if_pos ⟨hc, by simp_all⟩
      rw [hpiece]
      simp only [List.cons_append, List.nil_append]
      rw [pieces?, unit?_control hc]
      cases pieces? rest <;> rfl
    next hc =>
      have hpiece : piece c = .char c := if_neg fun h => hc h.1
      rw [hpiece]
      exact pieces?_cons ‹_› ‹_› (Nat.not_lt.1 hc) rest
  -- The short escapes.
  all_goals
    simp only [List.cons_append, List.nil_append]
    rw [pieces?, short?]
    · cases pieces? rest <;> rfl
    · simp

theorem pieces?_escapeAll (s rest : List Char) :
    pieces? (escapeAll s ++ '"' :: rest) = some (s.map piece, rest) := by
  induction s with
  | nil => rw [escapeAll, List.flatMap_nil, List.nil_append, pieces?, List.map_nil]
  | cons c s ih =>
    rw [escapeAll] at ih
    rw [escapeAll, List.flatMap_cons, List.append_assoc, pieces?_escape, ih, List.map_cons]
    rfl

theorem text?_unit {n : Nat} (hhigh : isHigh n = false) (hlow : isLow n = false)
    (pieces : List Piece) : text? (.unit n :: pieces) = (text? pieces).map (Char.ofNat n :: ·) := by
  rw [text?.eq_def]
  split <;> simp_all

theorem text?_piece (c : Char) (pieces : List Piece) :
    text? (piece c :: pieces) = (text? pieces).map (c :: ·) := by
  rw [piece]
  split
  next h =>
    -- A control character is no half of a surrogate pair.
    have hhigh : isHigh c.toNat = false := by
      simp [isHigh]
      omega
    have hlow : isLow c.toNat = false := by
      simp [isLow]
      omega
    rw [text?_unit hhigh hlow, Char.ofNat_toNat]
  next => rw [text?]

theorem text?_map_piece (s : List Char) : text? (s.map piece) = some s := by
  induction s with
  | nil => rw [List.map_nil, text?]
  | cons c s ih => rw [List.map_cons, text?_piece, ih, Option.map_some]

end Quoted

namespace Token

/-! ## Numbers -/

/-- A run of at least one digit. -/
def Digits (ds : List Char) : Prop :=
  ds ≠ [] ∧ ∀ c ∈ ds, c.isDigit

/-- The digits in front of the point. -/
inductive Whole : List Char → Prop where
  | zero : Whole ['0']
  | other {ds : List Char} (hdigits : Digits ds) (hhead : ds.head? ≠ some '0') : Whole ds

/-- A fraction, or nothing. -/
inductive Fraction : List Char → Prop where
  | none : Fraction []
  | some {ds : List Char} (hdigits : Digits ds) : Fraction ('.' :: ds)

/-- An exponent, or nothing. -/
inductive Exponent : List Char → Prop where
  | none : Exponent []
  | unsigned {mark : Char} {ds : List Char} (hmark : mark = 'e' ∨ mark = 'E')
    (hdigits : Digits ds) : Exponent (mark :: ds)
  | signed {mark sign : Char} {ds : List Char} (hmark : mark = 'e' ∨ mark = 'E')
    (hsign : sign = '+' ∨ sign = '-') (hdigits : Digits ds) : Exponent (mark :: sign :: ds)

/-- The spellings of the numbers that have a sign, a fraction or an exponent. -/
inductive IsDecimal : List Char → Prop where
  | negative {w f e : List Char} (hw : Whole w) (hf : Fraction f) (he : Exponent e) :
    IsDecimal ('-' :: (w ++ (f ++ e)))
  | positive {w f e : List Char} (hw : Whole w) (hf : Fraction f) (he : Exponent e)
    (htail : f ++ e ≠ []) : IsDecimal (w ++ (f ++ e))

/-- The text does not begin with a character of a class. -/
def Stops (p : Char → Prop) (rest : List Char) : Prop :=
  ∀ c ∈ rest.head?, ¬ p c

/-- The characters that go on with a number. -/
def Continues (c : Char) : Prop :=
  c.isDigit ∨ c = '.' ∨ c = 'e' ∨ c = 'E'

theorem digits?_append {ds rest : List Char} (hdigits : Digits ds)
    (hrest : Stops (Char.isDigit ·) rest) : digits? (ds ++ rest) = some (ds, rest) := by
  have htake : rest.takeWhile Char.isDigit = [] := by
    cases rest with
    | nil => rfl
    | cons c rest => exact List.takeWhile_cons_of_neg (hrest c rfl)
  have hdrop : rest.dropWhile Char.isDigit = rest := by
    cases rest with
    | nil => rfl
    | cons c rest => exact List.dropWhile_cons_of_neg (hrest c rfl)
  rw [digits?, List.takeWhile_append_of_pos hdigits.2, List.dropWhile_append_of_pos hdigits.2,
    htake, hdrop, List.append_nil, if_neg]
  simpa using hdigits.1

theorem Whole.exists_cons {w : List Char} (hw : Whole w) : ∃ c ds, w = c :: ds ∧ c.isDigit := by
  cases hw with
  | zero => exact ⟨'0', [], rfl, rfl⟩
  | other hdigits =>
    obtain ⟨c, ds, rfl⟩ := List.exists_cons_of_ne_nil hdigits.1
    exact ⟨c, ds, rfl, hdigits.2 c (by simp)⟩

theorem whole_digits (n : Nat) : Whole (Decimal.digits n) := by
  rcases Nat.eq_zero_or_pos n with rfl | hn
  · exact .zero
  · exact .other ⟨Decimal.digits_ne_nil n, fun _ => Decimal.isDigit_of_mem_digits⟩
      (Decimal.head?_digits_ne_zero hn)

theorem whole?_append {w rest : List Char} (hw : Whole w) (hrest : Stops (Char.isDigit ·) rest) :
    whole? (w ++ rest) = some (w, rest) := by
  cases hw with
  | zero => rfl
  | other hdigits hhead =>
    unfold whole?
    split
    next heq =>
      rw [List.append_eq_cons_iff] at heq
      rcases heq with ⟨hnil, -⟩ | ⟨ds, rfl, -⟩
      · exact absurd hnil hdigits.1
      · exact absurd rfl hhead
    next => exact digits?_append hdigits hrest

theorem fraction?_append {f rest : List Char} (hf : Fraction f)
    (hrest : Stops (fun c => c.isDigit ∨ c = '.') rest) :
    fraction? (f ++ rest) = some (f, rest) := by
  cases hf with
  | none =>
    unfold fraction?
    split
    next heq =>
      rw [List.nil_append] at heq
      exact absurd (.inr rfl) (hrest '.' (heq ▸ rfl))
    next => rfl
  | some hdigits =>
    have hstops : Stops (Char.isDigit ·) rest := fun c hc h => hrest c hc (.inl h)
    rw [List.cons_append, fraction?, digits?_append hdigits hstops]
    rfl

theorem exponent?_append {e rest : List Char} (he : Exponent e) (hrest : Stops Continues rest) :
    exponent? (e ++ rest) = some (e, rest) := by
  have hstops : Stops (Char.isDigit ·) rest := fun c hc h => hrest c hc (.inl h)
  cases he with
  | none =>
    cases rest with
    | nil => rfl
    | cons c rest =>
      have hmark : ¬ (c = 'e' ∨ c = 'E') := fun h => hrest c rfl (.inr (.inr h))
      exact if_neg hmark
  | @unsigned mark ds hmark hdigits =>
    cases ds with
    | nil => exact absurd rfl hdigits.1
    | cons c ds =>
      have hc : c.isDigit := hdigits.2 c (by simp)
      have hsign : ¬ (c = '+' ∨ c = '-') := by
        rintro (rfl | rfl) <;> simp at hc
      rw [List.cons_append, List.cons_append, exponent?, if_pos hmark]
      simp only
      rw [if_neg hsign, ← List.cons_append, digits?_append hdigits hstops]
      rfl
  | signed hmark hsign hdigits =>
    rw [List.cons_append, List.cons_append, exponent?, if_pos hmark]
    simp only
    rw [if_pos hsign, digits?_append hdigits hstops]
    rfl

theorem unsigned?_append {w f e rest : List Char} (hw : Whole w) (hf : Fraction f)
    (he : Exponent e) (hrest : Stops Continues rest) :
    unsigned? (w ++ (f ++ (e ++ rest))) = some (w, f ++ e, rest) := by
  -- Each part ends where the next one begins.
  have hexponent : Stops (fun c => c.isDigit ∨ c = '.') (e ++ rest) := by
    cases he with
    | none => exact fun c hc h => hrest c hc (h.imp_right .inl)
    | unsigned hmark => rcases hmark with rfl | rfl <;> simp [Stops]
    | signed hmark => rcases hmark with rfl | rfl <;> simp [Stops]
  have hfraction : Stops (Char.isDigit ·) (f ++ (e ++ rest)) := by
    cases hf with
    | none => exact fun c hc h => hexponent c hc (.inl h)
    | some => simp [Stops]
  rw [unsigned?, whole?_append hw hfraction]
  simp only
  rw [fraction?_append hf hexponent]
  simp only
  rw [exponent?_append he hrest]

theorem number?_of_isDigit {c : Char} (hc : c.isDigit) (s : List Char) :
    number? (c :: s) = (unsigned? (c :: s)).map fun (whole, tail, rest) =>
      (if tail.isEmpty then nat (Decimal.value whole) else decimal (whole ++ tail), rest) := by
  unfold number?
  split
  next heq =>
    cases heq
    simp at hc
  next => rfl

theorem number?_decimal {spelling rest : List Char} (h : IsDecimal spelling)
    (hrest : Stops Continues rest) :
    number? (spelling ++ rest) = some (decimal spelling, rest) := by
  cases h with
  | negative hw hf he =>
    rw [List.cons_append, number?, List.append_assoc, List.append_assoc,
      unsigned?_append hw hf he hrest]
    rfl
  | positive hw hf he htail =>
    have hread := unsigned?_append hw hf he hrest
    obtain ⟨c, ds, rfl, hc⟩ := hw.exists_cons
    rw [List.append_assoc, List.append_assoc, List.cons_append, number?_of_isDigit hc,
      ← List.cons_append, hread, Option.map_some]
    simp only
    rw [if_neg (by simpa only [List.isEmpty_iff] using htail)]

theorem number?_digits (n : Nat) {rest : List Char} (hrest : Stops Continues rest) :
    number? (Decimal.digits n ++ rest) = some (nat n, rest) := by
  have hread := unsigned?_append (whole_digits n) .none .none hrest
  have hvalue := Decimal.value_digits n
  obtain ⟨c, ds, heq, hc⟩ := (whole_digits n).exists_cons
  rw [heq] at hread hvalue ⊢
  rw [List.nil_append, List.nil_append] at hread
  rw [List.cons_append, number?_of_isDigit hc, ← List.cons_append, hread, Option.map_some, ← hvalue]
  rfl

/-! ## Tokens -/

/-- Whether what is kept as it is written is a number indeed. -/
def WellFormed : Token → Prop
  | decimal spelling => IsDecimal spelling
  | _ => True

/-- Whether a token is a number. -/
def IsNumber : Token → Prop
  | nat _ => True
  | decimal _ => True
  | _ => False

/-- A token may stand directly behind another one. -/
def Apart (t next : Token) : Prop :=
  t.IsNumber → Stops Continues next.text

theorem take?_of_isDigit {c : Char} (hc : c.isDigit ∨ c = '-') (s : List Char) :
    take? (c :: s) = number? (c :: s) := by
  unfold take?
  split
  case h_11 => rfl
  all_goals
    rename_i heq
    cases heq
    simp at hc

theorem IsDecimal.exists_cons {spelling : List Char} (h : IsDecimal spelling) :
    ∃ c cs, spelling = c :: cs ∧ (c.isDigit ∨ c = '-') := by
  cases h with
  | negative => exact ⟨'-', _, rfl, .inr rfl⟩
  | positive hw =>
    obtain ⟨c, ds, rfl, hc⟩ := hw.exists_cons
    exact ⟨c, _, rfl, .inl hc⟩

theorem take?_text {t : Token} (ht : t.WellFormed) {rest : List Char}
    (hrest : t.IsNumber → Stops Continues rest) : take? (t.text ++ rest) = some (t, rest) := by
  cases t with
  | nat n =>
    have hread := number?_digits n (hrest trivial)
    obtain ⟨c, ds, heq, hc⟩ := (whole_digits n).exists_cons
    rw [text, heq, List.cons_append, take?_of_isDigit (.inl hc), ← List.cons_append, ← heq, hread]
  | decimal spelling =>
    have hread := number?_decimal ht (hrest trivial)
    obtain ⟨c, cs, rfl, hc⟩ := IsDecimal.exists_cons ht
    rw [text, List.cons_append, take?_of_isDigit hc, ← List.cons_append, hread]
  | string s =>
    cases s with
    | none => rfl
    | some s =>
      rw [text, List.cons_append, take?, List.append_assoc, List.singleton_append,
        Quoted.pieces?_escapeAll, Option.map_some]
      simp only
      rw [Quoted.text?_map_piece, Option.map_some, String.ofList_toList]
  | bool b => cases b <;> rfl
  | _ => rfl

theorem exists_text_eq_cons {t : Token} (ht : t.WellFormed) :
    ∃ c cs, t.text = c :: cs ∧ isSpace c = false := by
  have hspace {c : Char} (hc : c.isDigit ∨ c = '-') : isSpace c = false := by
    apply Decidable.byContradiction
    intro h
    rw [Bool.not_eq_false] at h
    simp only [isSpace, Bool.or_eq_true, beq_iff_eq] at h
    rcases h with ((rfl | rfl) | rfl) | rfl <;> simp at hc
  cases t with
  | nat n =>
    obtain ⟨c, ds, heq, hc⟩ := (whole_digits n).exists_cons
    exact ⟨c, ds, heq, hspace (.inl hc)⟩
  | decimal spelling =>
    obtain ⟨c, cs, heq, hc⟩ := IsDecimal.exists_cons ht
    exact ⟨c, cs, heq, hspace hc⟩
  | string s => cases s <;> exact ⟨'"', _, rfl, rfl⟩
  | bool b => cases b <;> exact ⟨_, _, rfl, rfl⟩
  | _ => exact ⟨_, _, rfl, rfl⟩

theorem scan_text {t : Token} (ht : t.WellFormed) {rest : List Char}
    (hrest : t.IsNumber → Stops Continues rest) :
    scan (t.text ++ rest) = (scan rest).map (t :: ·) := by
  have htake := take?_text ht hrest
  obtain ⟨c, cs, heq, hc⟩ := exists_text_eq_cons ht
  rw [heq, List.cons_append] at htake ⊢
  have hdrop : (c :: (cs ++ rest)).dropWhile isSpace = c :: (cs ++ rest) := by
    rw [List.dropWhile_cons, hc]
    rfl
  rw [scan]
  split
  next hnil => simp [hdrop] at hnil
  next hcons =>
    rw [hdrop] at hcons
    cases hcons
    split
    next hnone => simp [htake] at hnone
    next hsome =>
      rw [htake] at hsome
      cases hsome
      rfl

theorem scan_flatMap_text {ts : List Token} (hts : ∀ t ∈ ts, t.WellFormed)
    (hchain : ts.IsChain Apart) : scan (ts.flatMap text) = some ts := by
  induction ts with
  | nil => simp [scan]
  | cons t ts ih =>
    rw [List.isChain_cons] at hchain
    have hrest (hnumber : t.IsNumber) : Stops Continues (ts.flatMap text) := by
      cases ts with
      | nil => simp [Stops]
      | cons next ts =>
        have hnext := hchain.1 next rfl hnumber
        obtain ⟨c, cs, heq, -⟩ := exists_text_eq_cons (hts next (by simp))
        rw [List.flatMap_cons, heq]
        rwa [heq] at hnext
    rw [List.flatMap_cons, scan_text (hts t (by simp)) hrest,
      ih (fun t ht => hts t (List.mem_cons_of_mem _ ht)) hchain.2, Option.map_some]

end Token

end Json

end ShardMerge
