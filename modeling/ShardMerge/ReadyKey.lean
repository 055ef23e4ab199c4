import ShardMerge.Text.Record
import ShardMerge.Tso.Text
import ShardMerge.Xid

/-!
# Ready keys

The key under which a committed transaction waits for its release: its timestamp and its identifier.
Main statement: the order by timestamp, then identifier, is a linear order that agrees with equality
(the `TransOrd` and `LawfulEqOrd` instances), so release order never depends on arrival.
-/

namespace ShardMerge

/-- The key of a committed transaction. -/
structure ReadyKey where
  tso : Tso
  xid : Xid
deriving DecidableEq, Repr, Inhabited

namespace ReadyKey

/-- Keys compare by timestamp, then identifier. -/
instance : Ord ReadyKey where
  compare := compareLex (compareOn ReadyKey.tso) (compareOn ReadyKey.xid)

instance : LE ReadyKey := leOfOrd

instance : LT ReadyKey := ltOfOrd

instance (a b : ReadyKey) : Decidable (a ≤ b) :=
  inferInstanceAs (Decidable ((compare a b).isLE = true))

instance (a b : ReadyKey) : Decidable (a < b) :=
  inferInstanceAs (Decidable (compare a b = .lt))

instance : Std.TransOrd ReadyKey :=
  inferInstanceAs (Std.TransCmp (compareLex (compareOn ReadyKey.tso) (compareOn ReadyKey.xid)))

instance : Std.LawfulEqOrd ReadyKey where
  compare_self := @Std.ReflCmp.compare_self _
    (compareLex (compareOn ReadyKey.tso) (compareOn ReadyKey.xid)) _
  eq_of_compare {a b} h := by
    have h' : compareLex (compareOn ReadyKey.tso) (compareOn ReadyKey.xid) a b = .eq := h
    rw [compareLex, Ordering.then_eq_eq] at h'
    have e₁ : a.tso = b.tso := Std.LawfulEqOrd.eq_of_compare h'.1
    have e₂ : a.xid = b.xid := Std.LawfulEqOrd.eq_of_compare h'.2
    cases a
    cases b
    simp_all

/-- How two keys compare, as far as `<` and `=` tell. -/
def comparison? (a b : ReadyKey) : Option Ordering :=
  if a < b then some .lt
  else if a = b then some .eq
  else if b < a then some .gt
  else none

/-- The key in record notation. -/
def record (k : ReadyKey) : String :=
  Record.labelled "ReadyKey"
    [("virtual_tso", k.tso.record), ("xid", Record.variant "Xid" (Record.quoted k.xid.text))]

theorem le_trans {a b c : ReadyKey} (h₁ : a ≤ b) (h₂ : b ≤ c) : a ≤ c :=
  @Std.TransCmp.isLE_trans _ compare _ _ _ _ h₁ h₂

theorem le_of_not_le {a b : ReadyKey} (h : ¬ a ≤ b) : b ≤ a := by
  have h' : ¬ (compare a b).isLE := h
  show (compare b a).isLE
  rw [Std.OrientedOrd.eq_swap (a := b)]
  revert h'
  cases compare a b <;> simp

end ReadyKey

end ShardMerge
