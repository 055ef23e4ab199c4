import Mathlib.Data.List.TakeWhile
import Mathlib.Order.Std
import ShardMerge.ReadyQueue

/-!
# The orders of timestamps and keys

Timestamps and ready keys come with the order of their comparison. Here both orders become instances
of `LinearOrder`, so that the general lemmas on orders apply to them, and the operations that a
drain builds on are described by these orders: `Tso.raise`, and the two halves into which a
watermark cuts a ready queue.
-/

namespace ShardMerge

section OfOrd

variable {α : Type} [Ord α] [Std.OrientedOrd α]

/-- The `≤` of a comparison agrees with it. -/
theorem lawfulOrderOrd_leOfOrd : @Std.LawfulOrderOrd α _ leOfOrd := by
  let _ : LE α := leOfOrd
  refine ⟨fun _ _ => Iff.rfl, fun a b => ?_⟩
  rw [Std.OrientedCmp.isGE_iff_isLE]
  rfl

/-- The `<` of a comparison is the strict part of its `≤`. -/
theorem lawfulOrderLT_ltOfOrd : @Std.LawfulOrderLT α ltOfOrd leOfOrd := by
  let _ : LE α := leOfOrd
  let _ : LT α := ltOfOrd
  refine ⟨fun a b => ?_⟩
  show compare a b = .lt ↔ (compare a b).isLE ∧ ¬ (compare b a).isLE
  rw [Std.OrientedOrd.eq_swap (a := b)]
  cases compare a b <;> simp

end OfOrd

namespace Tso

instance : Std.LawfulOrderOrd Tso :=
  lawfulOrderOrd_leOfOrd

instance : Std.LawfulOrderLT Tso :=
  lawfulOrderLT_ltOfOrd

instance : LinearOrder Tso :=
  .ofStd Tso

/-- A missing timestamp is below all others. -/
instance : Preorder (Option Tso) where
  le_refl a := by cases a <;> simp
  le_trans a b c hab hbc := by
    cases a with
    | none => simp
    | some a =>
      cases b with
      | none => simp at hab
      | some b =>
        cases c with
        | none => simp at hbc
        | some c =>
          rw [Option.some_le_some] at hab hbc ⊢
          exact le_trans hab hbc
  lt_iff_le_not_ge a b := by
    cases a with
    | none => cases b <;> simp
    | some a =>
      cases b with
      | none => simp
      | some b =>
        rw [Option.some_lt_some, Option.some_le_some, Option.some_le_some]
        exact lt_iff_le_not_ge

instance (a b : Option Tso) : Decidable (a < b) :=
  inferInstanceAs (Decidable (Option.lt (· < ·) a b))

/-- A watermark is below a timestamp exactly if it has not reached it. -/
theorem lt_some_iff {known : Option Tso} {tso : Tso} : known < some tso ↔ ¬ some tso ≤ known := by
  cases known with
  | none => simp
  | some a => simp

/-- Raising gives one of the two timestamps. -/
theorem raise_eq_or (known : Option Tso) (tso : Tso) :
    raise known tso = known ∨ raise known tso = some tso := by
  unfold raise
  split
  · exact Or.inr rfl
  · split
    · exact Or.inr rfl
    · exact Or.inl rfl

/-- Raising never goes below the timestamp that was there. -/
theorem le_raise (known : Option Tso) (tso : Tso) : known ≤ raise known tso := by
  unfold raise
  split
  · exact Option.none_le
  · split
    next h => exact Option.some_le_some.2 (le_of_lt h)
    next => exact Option.some_le_some.2 (le_refl _)

/-- Raising never goes below the timestamp that comes in. -/
theorem some_le_raise (known : Option Tso) (tso : Tso) : some tso ≤ raise known tso := by
  unfold raise
  split
  · exact Option.some_le_some.2 (le_refl _)
  · split
    next => exact Option.some_le_some.2 (le_refl _)
    next h => exact Option.some_le_some.2 (not_lt.1 h)

end Tso

namespace ReadyKey

instance : Std.LawfulOrderOrd ReadyKey :=
  lawfulOrderOrd_leOfOrd

instance : Std.LawfulOrderLT ReadyKey :=
  lawfulOrderLT_ltOfOrd

instance : LinearOrder ReadyKey :=
  .ofStd ReadyKey

/-- The timestamp decides first. -/
theorem lt_of_tso_lt {a b : ReadyKey} (h : a.tso < b.tso) : a < b := by
  show compareLex (compareOn ReadyKey.tso) (compareOn ReadyKey.xid) a b = .lt
  rw [compareLex, Ordering.then_eq_lt]
  exact Or.inl h

/-- Keys in order have their timestamps in order. -/
theorem tso_le_of_le {a b : ReadyKey} (h : a ≤ b) : a.tso ≤ b.tso := by
  by_contra hlt
  exact absurd (lt_of_tso_lt (not_le.1 hlt)) (not_lt.2 h)

end ReadyKey

namespace ReadyQueue

/-- A key may be released when the watermark has reached its timestamp. -/
theorem releasable_iff {watermark : Option Tso} {k : ReadyKey} :
    releasable watermark k = true ↔ some k.tso ≤ watermark := by
  cases watermark with
  | none => simp [releasable]
  | some mark => simp [releasable]

/-- A key that may be released has no key below it that may not. -/
theorem releasable_of_le {watermark : Option Tso} {k k' : ReadyKey} (hle : k ≤ k')
    (h : releasable watermark k') : releasable watermark k := by
  cases watermark with
  | none => simp [releasable] at h
  | some mark =>
    simp only [releasable, Option.any_some, decide_eq_true_eq] at h ⊢
    exact le_trans (ReadyKey.tso_le_of_le hle) h

/-- What is taken out may be released. -/
theorem releasable_of_mem_upTo {q : ReadyQueue} {watermark : Option Tso} {k : ReadyKey}
    (h : k ∈ q.upTo watermark) : releasable watermark k :=
  List.mem_takeWhile_imp h

/-- What stays behind may not be released: the keys ascend, so none is hidden behind the first one
that has to wait. -/
theorem not_releasable_of_mem_beyond {q : ReadyQueue} {watermark : Option Tso} {k : ReadyKey}
    (h : k ∈ q.beyond watermark) : ¬ releasable watermark k := by
  intro hk
  have hmem : k ∈ q.keys.dropWhile (releasable watermark) := h
  cases hrest : q.keys.dropWhile (releasable watermark) with
  | nil => simp [hrest] at hmem
  | cons first rest =>
    have hfirst : ¬ releasable watermark first := by
      have := List.head_dropWhile_not (releasable watermark) (l := q.keys) (by simp [hrest])
      simpa [hrest] using this
    have hsorted : (first :: rest).Pairwise (· ≤ ·) := hrest ▸ (q.beyond watermark).sorted
    rw [hrest] at hmem
    rcases List.mem_cons.1 hmem with rfl | htail
    · exact hfirst hk
    · exact hfirst (releasable_of_le (List.rel_of_pairwise_cons hsorted htail) hk)

theorem mem_of_mem_upTo {q : ReadyQueue} {watermark : Option Tso} {k : ReadyKey}
    (h : k ∈ q.upTo watermark) : k ∈ q :=
  (List.takeWhile_sublist _).subset h

end ReadyQueue

end ShardMerge
