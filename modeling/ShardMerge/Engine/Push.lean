import ShardMerge.Engine.Basic

/-!
# Taking in items

An item is queued, or it goes through without being queued (a discarded commit, or an excused commit
without a prewrite), or it is refused. A refused item leaves the engine as it was.
-/

namespace ShardMerge

/-- What becomes of an item that is not refused. -/
inductive Fate where
  /-- It joins the arrival queue. -/
  | queued (signal : Signal)
  /-- It is a commit without a prewrite that the skip policy excuses. -/
  | dropped (xid : Xid)
  /-- It is a commit that was not let in. -/
  | discarded
deriving DecidableEq

namespace Engine

/-- Registers the transaction of a prewrite. -/
def register (t : Transaction) (e : Engine) : Except SortError (Fate × Engine) :=
  if e.registry.contains t.xid then .error (.duplicatePrewrite t.xid)
  else
    .ok (.queued ⟨.prewrite, t.xid, t.tso⟩,
      { e with pending := t.xid :: e.pending, registry := e.registry.insert t.xid t })

/-- Commits an open transaction. A timestamp that comes with the commit takes precedence over one
from the prewrite. -/
def resolve (skips : Xid → Bool) (x : Xid) (given : Option Tso) (e : Engine) :
    Except SortError (Fate × Engine) :=
  match e.registry.get? x with
  | none => if skips x then .ok (.dropped x, e) else .error (.unmatchedCommit x)
  | some t =>
    if x ∈ e.pending then
      match given.or t.tso with
      | none => .error (.missingTso x)
      | some tso =>
        .ok (.queued ⟨.commit, x, some tso⟩,
          { e with
            pending := e.pending.filter (· ≠ x)
            registry := e.registry.modify x (·.withTso tso)
            ready := e.ready.push ⟨tso, x⟩ })
    else .error (.duplicateCommit x)

/-- Decides what becomes of an item, where `admitted` says whether a commit may come in. -/
def settle (skips : Xid → Bool) (admitted : Bool) (item : Item) (e : Engine) :
    Except SortError (Fate × Engine) :=
  match item with
  | .prewrite t => e.register t
  | .commit x given => if admitted then e.resolve skips x given else .ok (.discarded, e)

/-- Whether `settle` asks the skip policy: only about a commit without a prewrite. -/
def asksPolicy (admitted : Bool) (item : Item) (e : Engine) : Bool :=
  match item with
  | .prewrite _ => false
  | .commit x _ => admitted && !e.registry.contains x

/-- Keeps the first item of an epoch in mind. -/
def remember (item : Item) (e : Engine) : Engine :=
  { e with firstReceived := e.firstReceived.or (some item.signal) }

/-- Books an item by what becomes of it. -/
def book (fate : Fate) (e : Engine) : Engine :=
  match fate with
  | .queued signal =>
    { e with
      queue := e.queue ++ [signal]
      totals := { e.totals with pushed := e.totals.pushed + 1 } }
  | .dropped _ =>
    { e with totals := { e.totals with droppedCommits := e.totals.droppedCommits + 1 } }
  | .discarded =>
    { e with totals := { e.totals with discardedCommits := e.totals.discardedCommits + 1 } }

/-- What is reported of an item that is not refused. -/
def pushEvents (item : Item) (fate : Fate) (e : Engine) : List Event :=
  (match fate with
    | .dropped x => [.commitExcused x]
    | _ => []) ++
  (if e.firstReceived.isNone then [.firstReceived item.signal] else [])

/-- Takes in one item, given which identifiers may be skipped and whether a commit may come in. -/
def push (skips : Xid → Bool) (admitted : Bool) (item : Item) (e : Engine) :
    Reply Engine (Except SortError Unit) :=
  let queries := if e.asksPolicy admitted item then [Query.skip item.xid] else []
  match e.settle skips admitted item with
  | .error refusal => ⟨.error refusal, e, [], queries⟩
  | .ok (fate, settled) =>
    ⟨.ok (), (settled.remember item).book fate, e.pushEvents item fate, queries⟩

end Engine

end ShardMerge
