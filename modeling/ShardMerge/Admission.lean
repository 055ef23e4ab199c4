import ShardMerge.Event

/-!
# Admission of commits

The gate that every commit passes before it is looked at. In production it lets every commit in;
test environments plug in strategies that discard commits, at random or by a list, to provoke stuck
transactions. A strategy may change with every question: a ruling holds the strategy to ask next.
-/

namespace ShardMerge

/-- The answer of an admission strategy. -/
structure Ruling (σ : Type) where
  /-- Whether the commit may come in. -/
  admitted : Bool
  /-- The strategy that rules on the next commit. -/
  next : σ
  events : List Event := []

/-- Strategies that rule on commits, one after the other. -/
class Admission (σ : Type) where
  judge : σ → Xid → Ruling σ

/-- A generator of numbers below a hundred: what it draws from a seed, one number after the other.
Which numbers these are is left open. -/
abbrev Generator :=
  UInt64 → Nat → Fin 100

/-- A strategy that discards a share of the commits at random. -/
structure RandomDiscard where
  /-- Of a hundred commits, how many are discarded on average. -/
  percent : Fin 101
  /-- Every number that will ever be drawn. -/
  draws : Nat → Fin 100
  /-- The number of draws made. -/
  taken : Nat := 0

namespace RandomDiscard

/-- The strategy for a share, which counts as a hundred percent at most. -/
def ofPercent (percent : UInt8) (draws : Nat → Fin 100) : RandomDiscard :=
  { percent := ⟨min percent.toNat 100, by omega⟩, draws }

/-- The strategy for a share and a seed: equal seeds give equal draws. -/
def ofSeed (percent : UInt8) (generator : Generator) (seed : UInt64) : RandomDiscard :=
  ofPercent percent (generator seed)

/-- Makes one draw and discards the commit if it is below the share. -/
def judge (r : RandomDiscard) (x : Xid) : Ruling RandomDiscard :=
  let next := { r with taken := r.taken + 1 }
  if (r.draws r.taken).val < r.percent.val then ⟨false, next, [.commitDiscarded x]⟩
  else ⟨true, next, []⟩

instance : Admission RandomDiscard where
  judge := judge

end RandomDiscard

/-- The strategies that come with the library. -/
inductive Strategy where
  /-- Every commit comes in. -/
  | all
  /-- A share of the commits is discarded at random. -/
  | random (discard : RandomDiscard)
  /-- The listed commits are discarded, and another strategy rules on the rest. -/
  | except (dropped : List Xid) (rest : Strategy)

namespace Strategy

/-- The ruling of a strategy. -/
def judge : Strategy → Xid → Ruling Strategy
  | all, _ => ⟨true, all, []⟩
  | random discard, x =>
    let ruling := discard.judge x
    ⟨ruling.admitted, random ruling.next, ruling.events⟩
  | except dropped rest, x =>
    if x ∈ dropped then ⟨false, except dropped rest, []⟩
    else
      let ruling := rest.judge x
      ⟨ruling.admitted, except dropped ruling.next, ruling.events⟩

instance : Admission Strategy where
  judge := judge

end Strategy

/-- The answers of a strategy to a list of commits. -/
def Admission.decisions {σ : Type} [Admission σ] (strategy : σ) : List Xid → List Bool
  | [] => []
  | x :: xids =>
    let ruling := judge strategy x
    ruling.admitted :: decisions ruling.next xids

end ShardMerge
