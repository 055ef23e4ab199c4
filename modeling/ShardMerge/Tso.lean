/-!
# Virtual timestamps

The commit timestamp by which transactions of all shards are ordered: a physical time, a transaction
number within it, and a sequence number within that. Main statement: the order by these three parts
is a linear order that agrees with equality (the `TransOrd` and `LawfulEqOrd` instances).
-/

namespace ShardMerge

/-- A virtual timestamp. -/
structure Tso where
  /-- Physical time, handed out by the timestamp oracle. -/
  time : UInt64
  /-- Number of the transaction within its time. -/
  transactionId : UInt64
  /-- Sequence number within the transaction. -/
  seq : UInt32
deriving DecidableEq, Repr, Inhabited

namespace Tso

/-- The timestamp of a bare physical time. -/
def ofTime (time : UInt64) : Tso :=
  ⟨time, 0, 0⟩

/-- Timestamps compare by time, then transaction number, then sequence number. -/
instance : Ord Tso where
  compare :=
    compareLex (compareOn Tso.time) (compareLex (compareOn Tso.transactionId) (compareOn Tso.seq))

instance : LE Tso := leOfOrd

instance : LT Tso := ltOfOrd

instance (a b : Tso) : Decidable (a ≤ b) :=
  inferInstanceAs (Decidable ((compare a b).isLE = true))

instance (a b : Tso) : Decidable (a < b) :=
  inferInstanceAs (Decidable (compare a b = .lt))

instance : Std.TransOrd Tso :=
  inferInstanceAs (Std.TransCmp (compareLex (compareOn Tso.time)
    (compareLex (compareOn Tso.transactionId) (compareOn Tso.seq))))

instance : Std.LawfulEqOrd Tso where
  compare_self := @Std.ReflCmp.compare_self _ (compareLex (compareOn Tso.time)
    (compareLex (compareOn Tso.transactionId) (compareOn Tso.seq))) _
  eq_of_compare {a b} h := by
    simp only [compare, compareLex, Ordering.then_eq_eq] at h
    obtain ⟨h₁, h₂, h₃⟩ := h
    have e₁ : a.time = b.time := Std.LawfulEqOrd.eq_of_compare h₁
    have e₂ : a.transactionId = b.transactionId := Std.LawfulEqOrd.eq_of_compare h₂
    have e₃ : a.seq = b.seq := Std.LawfulEqOrd.eq_of_compare h₃
    cases a
    cases b
    simp_all

/-- The later of a timestamp that may be missing and one that is there. -/
def raise (known : Option Tso) (tso : Tso) : Option Tso :=
  match known with
  | none => some tso
  | some mark => if mark < tso then some tso else some mark

end Tso

end ShardMerge
