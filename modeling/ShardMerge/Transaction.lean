import ShardMerge.Tso.Text
import ShardMerge.Xid

/-!
# Transactions

A transaction captured from one shard. The sorter never looks into its payload; it moves the
transaction between its indices and hands it back in timestamp order.
-/

namespace ShardMerge

/-- A transaction of one shard. -/
structure Transaction where
  xid : Xid
  /-- The timestamp, when it is known. -/
  tso : Option Tso := none
  /-- The captured changes, opaque to the sorter. -/
  payload : List UInt8 := []
  /-- The storage instance that the transaction comes from. -/
  source : Option String := none
  /-- Whether the payload has been given up. -/
  released : Bool := false
deriving DecidableEq, Repr, Inhabited

namespace Transaction

/-- A transaction whose timestamp will come with its commit. -/
def ofXid (xid : Xid) : Transaction :=
  { xid }

/-- The transaction with a timestamp. -/
def withTso (t : Transaction) (tso : Tso) : Transaction :=
  { t with tso := some tso }

/-- The transaction with a payload. -/
def withPayload (t : Transaction) (payload : List UInt8) : Transaction :=
  { t with payload }

/-- The transaction with the instance it comes from. -/
def withSource (t : Transaction) (source : String) : Transaction :=
  { t with source := some source }

/-- Gives up the payload. A transaction that was released before keeps the payload it has. -/
def release (t : Transaction) : Transaction :=
  if t.released then t else { t with payload := [], released := true }

/-- The text of a transaction: what is known of it, and the size of its payload. -/
def text (t : Transaction) : String :=
  "Transaction\x7bxid=" ++ t.xid.text ++
    (t.tso.map (", vtso=" ++ ·.text)).getD "" ++
    (t.source.map (", source=" ++ ·)).getD "" ++
    ", payload=" ++ toString t.payload.length ++ "B\x7d"

instance : ToString Transaction where
  toString := text

@[simp] theorem xid_release (t : Transaction) : t.release.xid = t.xid := by
  rw [release]
  split <;> rfl

@[simp] theorem tso_release (t : Transaction) : t.release.tso = t.tso := by
  rw [release]
  split <;> rfl

@[simp] theorem source_release (t : Transaction) : t.release.source = t.source := by
  rw [release]
  split <;> rfl

@[simp] theorem released_release (t : Transaction) : t.release.released = true := by
  rw [release]
  split
  · assumption
  · rfl

end Transaction

end ShardMerge
