import ShardMerge.Event

/-!
# Replies

The outcome of a call: its value, what it leaves behind, what it reported, and what it asked of the
parties around it, both in order. Calls are chained by `Reply.andThen`.
-/

namespace ShardMerge

/-- A question to a party around the sorter. -/
inductive Query where
  /-- A reading of the clock. -/
  | clock
  /-- Whether an identifier may be skipped. -/
  | skip (xid : Xid)
  /-- Whether a commit may come in. -/
  | admission (xid : Xid)
deriving DecidableEq, Repr

/-- The outcome of a call on something of type `σ`. -/
structure Reply (σ α : Type) where
  value : α
  /-- What the call was made on, as it is afterwards. -/
  after : σ
  events : List Event := []
  queries : List Query := []

namespace Reply

variable {σ τ α β : Type}

/-- Goes on with another call, whose reports and questions come behind those of the first. -/
def andThen (r : Reply σ α) (next : α → σ → Reply σ β) : Reply σ β :=
  let s := next r.value r.after
  ⟨s.value, s.after, r.events ++ s.events, r.queries ++ s.queries⟩

/-- The same outcome, with another reading of its value. -/
def map (f : α → β) (r : Reply σ α) : Reply σ β :=
  ⟨f r.value, r.after, r.events, r.queries⟩

/-- The same outcome, of something that contains what the call was made on. -/
def within (r : Reply σ α) (wrap : σ → τ) : Reply τ α :=
  ⟨r.value, wrap r.after, r.events, r.queries⟩

/-- The number of clock readings that the call took. -/
def readings (r : Reply σ α) : Nat :=
  r.queries.count .clock

end Reply

end ShardMerge
