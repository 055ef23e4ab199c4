import ShardMerge.Transaction

/-!
# The registry

The transactions that have been prewritten and neither released nor skipped, by identifier. The view
is `get?`: each operation has one equation for it. A registry has no order of its own; `sorted` is
the one order that it shows.
-/

namespace ShardMerge

/-- Transactions by identifier, as a list of entries with the newest in front. -/
structure Registry where
  entries : List (Xid × Transaction)
deriving DecidableEq, Repr, Inhabited

namespace Registry

/-- The registry without entries. -/
def empty : Registry :=
  ⟨[]⟩

/-- The transaction registered under an identifier. -/
def get? (r : Registry) (x : Xid) : Option Transaction :=
  (r.entries.find? fun entry => entry.1 = x).map Prod.snd

/-- Whether a transaction is registered under an identifier. -/
def contains (r : Registry) (x : Xid) : Bool :=
  (r.get? x).isSome

/-- The number of registered transactions. -/
def size (r : Registry) : Nat :=
  r.entries.length

/-- The identifiers that have an entry. -/
def xids (r : Registry) : List Xid :=
  r.entries.map Prod.fst

/-- Removes what is registered under an identifier. -/
def erase (r : Registry) (x : Xid) : Registry :=
  ⟨r.entries.filter fun entry => entry.1 ≠ x⟩

/-- Registers a transaction under an identifier, in front of any older entry of it. -/
def insert (r : Registry) (x : Xid) (t : Transaction) : Registry :=
  ⟨(x, t) :: r.entries⟩

/-- Changes the first entry of an identifier. -/
def modifyFirst (x : Xid) (f : Transaction → Transaction) :
    List (Xid × Transaction) → List (Xid × Transaction)
  | [] => []
  | entry :: entries =>
    if entry.1 = x then (entry.1, f entry.2) :: entries else entry :: modifyFirst x f entries

/-- Changes the transaction registered under an identifier. -/
def modify (r : Registry) (x : Xid) (f : Transaction → Transaction) : Registry :=
  ⟨modifyFirst x f r.entries⟩

/-- The registered transactions, by ascending identifier. -/
def sorted (r : Registry) : List Transaction :=
  (r.entries.mergeSort fun a b => (compare a.1 b.1).isLE).map Prod.snd

@[simp] theorem get?_empty (x : Xid) : empty.get? x = none :=
  rfl

theorem get?_cons (entry : Xid × Transaction) (entries : List (Xid × Transaction)) (y : Xid) :
    get? ⟨entry :: entries⟩ y = if entry.1 = y then some entry.2 else get? ⟨entries⟩ y := by
  by_cases h : entry.1 = y <;> simp [get?, h]

theorem get?_insert (r : Registry) (x y : Xid) (t : Transaction) :
    (r.insert x t).get? y = if x = y then some t else r.get? y :=
  get?_cons (x, t) r.entries y

theorem get?_erase (r : Registry) (x y : Xid) :
    (r.erase x).get? y = if x = y then none else r.get? y := by
  obtain ⟨entries⟩ := r
  induction entries with
  | nil => simp [erase, get?]
  | cons entry entries ih =>
    by_cases hx : entry.1 = x
    · rw [show erase ⟨entry :: entries⟩ x = erase ⟨entries⟩ x by simp [erase, hx], ih, get?_cons]
      grind
    · rw [show erase ⟨entry :: entries⟩ x = ⟨entry :: (erase ⟨entries⟩ x).entries⟩ by
        simp [erase, hx], get?_cons, get?_cons, ih]
      grind

theorem get?_modify (r : Registry) (x y : Xid) (f : Transaction → Transaction) :
    (r.modify x f).get? y = if x = y then (r.get? y).map f else r.get? y := by
  obtain ⟨entries⟩ := r
  induction entries with
  | nil => simp [modify, modifyFirst, get?]
  | cons entry entries ih =>
    by_cases hx : entry.1 = x
    · rw [show modify ⟨entry :: entries⟩ x f = ⟨(entry.1, f entry.2) :: entries⟩ by
        simp [modify, modifyFirst, hx], get?_cons, get?_cons]
      grind
    · rw [show modify ⟨entry :: entries⟩ x f = ⟨entry :: (modify ⟨entries⟩ x f).entries⟩ by
        simp [modify, modifyFirst, hx], get?_cons, get?_cons, ih]
      grind

theorem mem_xids {r : Registry} {x : Xid} : x ∈ r.xids ↔ ∃ t, r.get? x = some t := by
  obtain ⟨entries⟩ := r
  induction entries with
  | nil => simp [xids, get?]
  | cons entry entries ih =>
    rw [get?_cons, show xids ⟨entry :: entries⟩ = entry.1 :: xids ⟨entries⟩ from rfl, List.mem_cons,
      ih]
    by_cases hx : entry.1 = x
    · simp [hx]
    · simp [hx, Ne.symm hx]

theorem xids_insert (r : Registry) (x : Xid) (t : Transaction) :
    (r.insert x t).xids = x :: r.xids :=
  rfl

theorem xids_erase (r : Registry) (x : Xid) : (r.erase x).xids = r.xids.filter (· ≠ x) := by
  rw [xids, xids, List.filter_map]
  rfl

theorem xids_modify (r : Registry) (x : Xid) (f : Transaction → Transaction) :
    (r.modify x f).xids = r.xids := by
  obtain ⟨entries⟩ := r
  induction entries with
  | nil => rfl
  | cons entry entries ih =>
    by_cases hx : entry.1 = x
    · simp [modify, modifyFirst, hx, xids]
    · simpa [modify, modifyFirst, hx, xids] using ih

/-- Without repeated identifiers, every entry is the one that is found. -/
theorem get?_of_mem {r : Registry} (h : r.xids.Nodup) {entry : Xid × Transaction}
    (hmem : entry ∈ r.entries) : r.get? entry.1 = some entry.2 := by
  obtain ⟨entries⟩ := r
  induction entries with
  | nil => cases hmem
  | cons first entries ih =>
    obtain ⟨hfirst, hrest⟩ := List.nodup_cons.1 h
    rw [get?_cons]
    rcases List.mem_cons.1 hmem with rfl | hmem
    · rw [if_pos rfl]
    · have hne : first.1 ≠ entry.1 := fun heq => hfirst (heq ▸ List.mem_map_of_mem hmem)
      rw [if_neg hne]
      exact ih hrest hmem

end Registry

end ShardMerge
