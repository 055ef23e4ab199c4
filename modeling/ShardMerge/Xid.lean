/-!
# Transaction identifiers

The identifier of a two-phase-commit transaction, and its order by code points. Main statement: the
order is a linear order that agrees with equality (the `TransOrd` and `LawfulEqOrd` instances).
-/

namespace ShardMerge

/-- The global identifier of a two-phase-commit transaction: any text, the empty one included. -/
structure Xid where
  text : String
deriving DecidableEq, Repr, Inhabited

namespace Xid

instance : ToString Xid where
  toString x := x.text

/-- Identifiers compare by the code points of their texts. -/
instance : Ord Xid where
  compare := compareOn Xid.text

instance : Std.TransOrd Xid :=
  inferInstanceAs (Std.TransCmp (compareOn Xid.text))

instance : Std.LawfulEqOrd Xid where
  compare_self := @Std.ReflCmp.compare_self _ (compareOn Xid.text) _
  eq_of_compare {a b} h := by
    have : a.text = b.text := Std.LawfulEqOrd.eq_of_compare h
    cases a
    cases b
    simp_all

end Xid

end ShardMerge
