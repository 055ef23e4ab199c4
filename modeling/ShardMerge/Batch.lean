import ShardMerge.ReadyKey
import ShardMerge.Registry

/-!
# Checks of batches and indices

What has to hold of the batches that a sorter hands out and of its indices: batches ascend, no batch
exceeds the watermark that released it, and what is open or ready is registered.
-/

namespace ShardMerge

/-- The key under which the last transaction of a batch was ready. -/
def lastKey (batch : List Transaction) : Option ReadyKey :=
  batch.getLast?.bind fun t => t.tso.map (⟨·, t.xid⟩)

/-- Whether a batch ascends from a timestamp on; every transaction has to have one. -/
def ascendsFrom : Option Tso → List Transaction → Bool
  | _, [] => true
  | last, t :: batch =>
    match t.tso with
    | none => false
    | some tso => !last.any (tso < ·) && ascendsFrom (some tso) batch

/-- Whether a batch ascends and starts no lower than the last key of the batches before it. -/
def emissionOrdered (previous : Option ReadyKey) (batch : List Transaction) : Bool :=
  ascendsFrom (previous.map ReadyKey.tso) batch

/-- Whether no transaction of a batch exceeds a watermark. -/
def withinWatermark (batch : List Transaction) (watermark : Option Tso) : Bool :=
  batch.all fun t => watermark.any fun mark => t.tso.any (· ≤ mark)

/-- Whether every open identifier is registered, and every ready key is registered and not open. -/
def registryConsistent (pending : List Xid) (ready : List ReadyKey) (registry : Registry) : Bool :=
  pending.all registry.contains &&
    ready.all fun key => registry.contains key.xid && !pending.contains key.xid

end ShardMerge
