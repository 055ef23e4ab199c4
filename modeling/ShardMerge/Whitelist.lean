import ShardMerge.Event

/-!
# The whitelist and skip policies

The identifiers that operators know to have lost a signal. The whitelist is a set that may change
while a sorter runs; its view is membership, and each operation has one equation for it.
-/

namespace ShardMerge

/-- A set of identifiers. -/
structure Whitelist where
  xids : List Xid
  nodup : xids.Nodup
deriving DecidableEq

namespace Whitelist

/-- The whitelist without identifiers. -/
def empty : Whitelist :=
  ⟨[], .nil⟩

instance : Inhabited Whitelist :=
  ⟨empty⟩

/-- Whether an identifier is on the whitelist. -/
def contains (w : Whitelist) (x : Xid) : Bool :=
  w.xids.contains x

/-- The number of identifiers. -/
def size (w : Whitelist) : Nat :=
  w.xids.length

/-- Whether there is no identifier. -/
def isEmpty (w : Whitelist) : Bool :=
  w.xids.isEmpty

/-- Puts an identifier on the whitelist, and says whether it is new there. -/
def insert (w : Whitelist) (x : Xid) : Bool × Whitelist :=
  if h : x ∈ w.xids then (false, w)
  else (true, ⟨x :: w.xids, List.nodup_cons.2 ⟨h, w.nodup⟩⟩)

/-- Takes an identifier off the whitelist, and says whether it was there. -/
def erase (w : Whitelist) (x : Xid) : Bool × Whitelist :=
  if x ∈ w.xids then (true, ⟨w.xids.erase x, w.nodup.erase x⟩) else (false, w)

/-- The whitelist of the given identifiers; repetitions count once. -/
def ofList (xids : List Xid) : Whitelist :=
  xids.foldl (fun w x => (w.insert x).2) empty

/-- A whole new whitelist, which is reported with its size. -/
def replacement (xids : List Xid) : Whitelist × Event :=
  (ofList xids, .whitelistReplaced (ofList xids).size)

theorem contains_iff {w : Whitelist} {x : Xid} : w.contains x = true ↔ x ∈ w.xids := by
  simp [contains]

theorem mem_insert {w : Whitelist} {x y : Xid} :
    y ∈ (w.insert x).2.xids ↔ y = x ∨ y ∈ w.xids := by
  rw [insert]
  split
  next h => exact ⟨.inr, fun hy => hy.elim (fun e => e ▸ h) id⟩
  next => simp

theorem mem_erase {w : Whitelist} {x y : Xid} :
    y ∈ (w.erase x).2.xids ↔ y ≠ x ∧ y ∈ w.xids := by
  rw [erase]
  split
  next => exact w.nodup.mem_erase_iff
  next h => exact ⟨fun hy => ⟨fun e => h (e ▸ hy), hy⟩, And.right⟩

theorem mem_foldl_insert {xids : List Xid} {w : Whitelist} {y : Xid} :
    y ∈ (xids.foldl (fun w x => (w.insert x).2) w).xids ↔ y ∈ xids ∨ y ∈ w.xids := by
  induction xids generalizing w with
  | nil => simp
  | cons x xids ih =>
    rw [List.foldl_cons, ih, mem_insert, List.mem_cons]
    grind

theorem mem_ofList {xids : List Xid} {y : Xid} : y ∈ (ofList xids).xids ↔ y ∈ xids := by
  simp [ofList, mem_foldl_insert, empty]

end Whitelist

/-- Which identifiers may be skipped when their other signal is missing. -/
inductive SkipPolicy where
  /-- None. -/
  | never
  /-- Those on a whitelist, as it is when the question is put. -/
  | listed (whitelist : Whitelist)
deriving DecidableEq

/-- Whether the policy lets an identifier be skipped. -/
def SkipPolicy.skips : SkipPolicy → Xid → Bool
  | never, _ => false
  | listed whitelist, x => whitelist.contains x

end ShardMerge
