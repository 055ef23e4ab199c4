import ShardMerge.Transaction

/-!
# Items and signals

What shards push, and what the arrival queue keeps of it. A prewrite brings the transaction that it
registers; a commit only names it, with a timestamp if none was known before.
-/

namespace ShardMerge

/-- The two kinds of signals. -/
inductive SignalKind where
  /-- The transaction is prepared on a shard, but not committed. -/
  | prewrite
  /-- The transaction is committed and may be ordered. -/
  | commit
deriving DecidableEq, Repr, Inhabited

/-- The name of a kind. -/
def SignalKind.text : SignalKind → String
  | prewrite => "PreWrite"
  | commit => "Commit"

/-- What the arrival queue keeps of an accepted item. -/
structure Signal where
  kind : SignalKind
  xid : Xid
  /-- Always there for an accepted commit; for a prewrite only when it was assigned up front. -/
  tso : Option Tso
deriving DecidableEq, Repr, Inhabited

/-- The text of a signal. -/
def Signal.text (s : Signal) : String :=
  s.kind.text ++ "(" ++ s.xid.text ++ (s.tso.map (", " ++ ·.text)).getD "" ++ ")"

instance : ToString Signal where
  toString := Signal.text

/-- What a shard pushes. -/
inductive Item where
  | prewrite (transaction : Transaction)
  | commit (xid : Xid) (tso : Option Tso)
deriving DecidableEq, Repr

namespace Item

/-- The kind of an item. -/
def kind : Item → SignalKind
  | prewrite _ => .prewrite
  | commit _ _ => .commit

/-- The identifier that an item is about. -/
def xid : Item → Xid
  | prewrite t => t.xid
  | commit x _ => x

/-- The timestamp that a commit brings. -/
def commitTso : Item → Option Tso
  | prewrite _ => none
  | commit _ tso => tso

/-- The timestamp that an item brings itself or in its transaction. -/
def tso : Item → Option Tso
  | prewrite t => t.tso
  | commit _ tso => tso

/-- The item as a signal, before it is known whether it will be queued. -/
def signal (i : Item) : Signal :=
  ⟨i.kind, i.xid, i.tso⟩

end Item

end ShardMerge
