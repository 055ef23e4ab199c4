import ShardMerge.Sorter.Basic

/-!
# The sorting service

The service in front of a sorter. It adds no rule of its own: it takes in items one by one or as a
list, and reports the refusals.
-/

namespace ShardMerge

/-- A service in front of a sorter. -/
structure Service (σ : Type) where
  sorter : Sorter σ

namespace Service

variable {σ : Type}

/-- Takes up the service for a sorter, which is reported with its limits. -/
def start (sorter : Sorter σ) : Service σ × List Event :=
  (⟨sorter⟩, [.started sorter.limits])

/-- Takes in one item. -/
def push [Admission σ] (item : Item) (s : Service σ) :
    Reply (Service σ) (Except SortError Unit) :=
  let reply := (s.sorter.push item).within Service.mk
  match reply.value with
  | .ok () => reply
  | .error refusal => { reply with events := reply.events ++ [.rejected item.xid refusal] }

/-- Takes in a list of items up to the first one that is refused. Those before it stay in. -/
def pushAll [Admission σ] : List Item → Service σ → Reply (Service σ) (Except SortError Unit)
  | [], s => ⟨.ok (), s, [], []⟩
  | item :: items, s =>
    let reply := (s.sorter.push item).within Service.mk
    match reply.value with
    | .ok () => reply.andThen fun _ s => pushAll items s
    | .error refusal => { reply with events := reply.events ++ [.rejected item.xid refusal] }

/-- Hands out every committed transaction that may leave, in ascending order. -/
def drain (s : Service σ) : Reply (Service σ) (List Transaction) :=
  s.sorter.drain.within Service.mk

/-- Hands over the skipped transactions that have not been fetched. -/
def takeSkipped (s : Service σ) : Reply (Service σ) (List Transaction) :=
  s.sorter.takeSkipped.within Service.mk

/-- Ends the epoch. -/
def clear (s : Service σ) : Reply (Service σ) Unit :=
  s.sorter.clear.within Service.mk

end Service

end ShardMerge
