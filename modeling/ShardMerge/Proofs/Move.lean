import ShardMerge.Proofs.History

/-!
# Moves

The changes that the operations of an engine are made of: each takes one signal, one transaction or
one key from one place to another. `Move` says all that a change does and when it may happen, so an
invariant is kept by every operation as soon as it is kept by the seven moves. The counters and the
fields that only reports read change by the move `book`, on which no invariant depends.
-/

namespace ShardMerge

/-- The watermark after a signal has been taken off the arrival queue. -/
def Signal.lift (watermark : Option Tso) (s : Signal) : Option Tso :=
  match s.kind, s.tso with
  | .commit, some tso => Tso.raise watermark tso
  | _, _ => watermark

namespace Engine

/-- One change of an engine, with what it makes happen. -/
inductive Move : Engine → List Happening → Engine → Prop where
  /-- A prewrite registers a transaction that is not registered. -/
  | prewrite {e : Engine} {t : Transaction} (fresh : e.registry.get? t.xid = none) :
      Move e [.prewritten t]
        { e with
          pending := t.xid :: e.pending
          registry := e.registry.insert t.xid t
          queue := e.queue ++ [⟨.prewrite, t.xid, t.tso⟩] }
  /-- A commit makes an open transaction ready. -/
  | commit {e : Engine} {x : Xid} {t : Transaction} {given : Option Tso} {tso : Tso}
      (isOpen : x ∈ e.pending) (known : e.registry.get? x = some t)
      (timed : given.or t.tso = some tso) :
      Move e [.committed x given tso]
        { e with
          pending := e.pending.filter (· ≠ x)
          registry := e.registry.modify x (·.withTso tso)
          queue := e.queue ++ [⟨.commit, x, some tso⟩]
          ready := e.ready.push ⟨tso, x⟩ }
  /-- The open transaction at the head of the arrival queue is skipped. -/
  | skip {e : Engine} {x : Xid} {tso : Option Tso} {rest : List Signal} {t : Transaction}
      (head : e.queue = ⟨.prewrite, x, tso⟩ :: rest) (isOpen : x ∈ e.pending)
      (known : e.registry.get? x = some t) :
      Move e [.skipped t.release]
        { e with
          pending := e.pending.filter (· ≠ x)
          registry := e.registry.erase x
          skipped := e.skipped ++ [t.release] }
  /-- A signal that is no open prewrite is taken off the arrival queue. -/
  | pop {e : Engine} {s : Signal} {rest : List Signal} (head : e.queue = s :: rest)
      (resolved : ¬ (s.kind = .prewrite ∧ s.xid ∈ e.pending)) :
      Move e [] { e with queue := rest, watermark := s.lift e.watermark }
  /-- The transaction of the least ready key is handed out. -/
  | release {e : Engine} {k : ReadyKey} {ready : ReadyQueue} {t : Transaction}
      (least : e.ready.keys = k :: ready.keys)
      (releasable : ReadyQueue.releasable e.watermark k) (known : e.registry.get? k.xid = some t) :
      Move e [.emitted t] { e with registry := e.registry.erase k.xid, ready }
  /-- The skipped transactions are fetched. -/
  | fetch {e : Engine} : Move e [.fetched e.skipped] { e with skipped := [] }
  /-- Counters and the fields that only reports read. -/
  | book {e : Engine} (first : Option Signal) (last : Option ReadyKey) (totals : Totals) :
      Move e [] { e with firstReceived := first, lastEmitted := last, totals }

/-- A sequence of moves, with all that they make happen. -/
inductive Moves : Engine → List Happening → Engine → Prop where
  | refl (e : Engine) : Moves e [] e
  | cons {e e' e'' : Engine} {a b : List Happening} (head : Move e a e') (tail : Moves e' b e'') :
      Moves e (a ++ b) e''

theorem Move.single {e e' : Engine} {a : List Happening} (m : Move e a e') : Moves e a e' := by
  simpa using Moves.cons m (.refl e')

theorem Moves.trans {e e' e'' : Engine} {a b : List Happening} (m : Moves e a e')
    (n : Moves e' b e'') : Moves e (a ++ b) e'' := by
  induction m with
  | refl => simpa using n
  | cons head _ ih =>
    rw [List.append_assoc]
    exact .cons head (ih n)

/-- What each move keeps, a sequence of moves keeps. -/
theorem Moves.induction {P : List Happening → Engine → Prop}
    (next : ∀ {h e a e'}, P h e → Move e a e' → P (h ++ a) e') {h : List Happening}
    {e e' : Engine} {a : List Happening} (m : Moves e a e') (hP : P h e) : P (h ++ a) e' := by
  induction m generalizing h with
  | refl => simpa using hP
  | cons head _ ih =>
    rw [← List.append_assoc]
    exact ih (next hP head)

end Engine

end ShardMerge
