import ShardMerge.ReadyKey

/-!
# The ready queue

Keys of committed transactions, kept in ascending order. Main statements: what is put in is all that
is in (`push_perm`, `ofList_perm`), and taking the keys up to a timestamp splits the queue without
losing any (`upTo_append_beyond`).
-/

namespace ShardMerge

/-- Puts a key in front of the first key that is not below it. -/
def ReadyKey.insertInto (k : ReadyKey) : List ReadyKey → List ReadyKey
  | [] => [k]
  | head :: rest => if k ≤ head then k :: head :: rest else head :: k.insertInto rest

theorem ReadyKey.insertInto_perm (k : ReadyKey) (keys : List ReadyKey) :
    (k.insertInto keys).Perm (k :: keys) := by
  induction keys with
  | nil => exact .refl _
  | cons head rest ih =>
    rw [insertInto]
    split
    · exact .refl _
    · exact (ih.cons head).trans (.swap _ _ _)

theorem ReadyKey.insertInto_sorted (k : ReadyKey) {keys : List ReadyKey}
    (h : keys.Pairwise (· ≤ ·)) : (k.insertInto keys).Pairwise (· ≤ ·) := by
  induction keys with
  | nil => simp [insertInto]
  | cons head rest ih =>
    rw [List.pairwise_cons] at h
    rw [insertInto]
    split
    next hle =>
      rw [List.pairwise_cons, List.pairwise_cons]
      refine ⟨fun b hb => ?_, h.1, h.2⟩
      rcases List.mem_cons.1 hb with rfl | hb
      · exact hle
      · exact ReadyKey.le_trans hle (h.1 b hb)
    next hnle =>
      rw [List.pairwise_cons]
      refine ⟨fun b hb => ?_, ih h.2⟩
      rcases List.mem_cons.1 ((k.insertInto_perm rest).mem_iff.1 hb) with rfl | hb
      · exact ReadyKey.le_of_not_le hnle
      · exact h.1 b hb

/-- Keys in ascending order; equal keys may repeat. -/
structure ReadyQueue where
  keys : List ReadyKey
  sorted : keys.Pairwise (· ≤ ·)
deriving DecidableEq

namespace ReadyQueue

/-- The queue without keys. -/
def empty : ReadyQueue :=
  ⟨[], .nil⟩

instance : Inhabited ReadyQueue :=
  ⟨empty⟩

instance : Membership ReadyKey ReadyQueue where
  mem q k := k ∈ q.keys

/-- The number of keys. -/
def size (q : ReadyQueue) : Nat :=
  q.keys.length

/-- The least key. -/
def min? (q : ReadyQueue) : Option ReadyKey :=
  q.keys.head?

/-- Adds a key. -/
def push (q : ReadyQueue) (k : ReadyKey) : ReadyQueue :=
  ⟨k.insertInto q.keys, k.insertInto_sorted q.sorted⟩

/-- The queue of the given keys. -/
def ofList (keys : List ReadyKey) : ReadyQueue :=
  keys.foldl push empty

/-- Whether a key may be released at a watermark. -/
def releasable (watermark : Option Tso) (k : ReadyKey) : Bool :=
  watermark.any fun mark => k.tso ≤ mark

/-- The keys that may be released, least first: no further key is tried after one that may not. -/
def upTo (q : ReadyQueue) (watermark : Option Tso) : List ReadyKey :=
  q.keys.takeWhile (releasable watermark)

/-- The queue without the keys that may be released. -/
def beyond (q : ReadyQueue) (watermark : Option Tso) : ReadyQueue :=
  ⟨q.keys.dropWhile (releasable watermark), q.sorted.sublist (List.dropWhile_sublist _)⟩

theorem push_perm (q : ReadyQueue) (k : ReadyKey) : (q.push k).keys.Perm (k :: q.keys) :=
  k.insertInto_perm q.keys

theorem mem_push {q : ReadyQueue} {k k' : ReadyKey} : k' ∈ q.push k ↔ k' = k ∨ k' ∈ q := by
  show k' ∈ (q.push k).keys ↔ k' = k ∨ k' ∈ q.keys
  rw [(q.push_perm k).mem_iff, List.mem_cons]

theorem size_push (q : ReadyQueue) (k : ReadyKey) : (q.push k).size = q.size + 1 := by
  simpa [size] using (q.push_perm k).length_eq

theorem upTo_append_beyond (q : ReadyQueue) (watermark : Option Tso) :
    q.upTo watermark ++ (q.beyond watermark).keys = q.keys :=
  List.takeWhile_append_dropWhile

theorem foldl_push_perm (keys : List ReadyKey) (q : ReadyQueue) :
    (keys.foldl push q).keys.Perm (keys ++ q.keys) := by
  induction keys generalizing q with
  | nil => exact .refl _
  | cons k keys ih =>
    exact (ih (q.push k)).trans (((q.push_perm k).append_left keys).trans List.perm_middle)

theorem ofList_perm (keys : List ReadyKey) : (ofList keys).keys.Perm keys := by
  simpa [ofList, empty] using foldl_push_perm keys empty

end ReadyQueue

end ShardMerge
