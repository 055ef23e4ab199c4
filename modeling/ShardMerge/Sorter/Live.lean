import ShardMerge.Sorter.Run

/-!
# Live whitelists

Operators edit a whitelist while a sorter consults it. The sorter has no copy of its own: from an
edit on, its policy is the whitelist as it has been edited.
-/

namespace ShardMerge

namespace Whitelist

/-- A change that operators make to a whitelist. -/
inductive Edit where
  | insert (x : Xid)
  | erase (x : Xid)
  | replace (xids : List Xid)
deriving DecidableEq

/-- The outcome of an edit. Putting an identifier on and taking one off answer whether that changed
anything; a replacement answers nothing, and is reported. -/
def edit (w : Whitelist) : Edit → Reply Whitelist (Option Bool)
  | .insert x => { value := some (w.insert x).1, after := (w.insert x).2 }
  | .erase x => { value := some (w.erase x).1, after := (w.erase x).2 }
  | .replace xids =>
    { value := none, after := (replacement xids).1, events := [(replacement xids).2] }

/-- The whitelist after a sequence of edits. -/
def edited (w : Whitelist) (edits : List Edit) : Whitelist :=
  edits.foldl (fun w change => (w.edit change).after) w

end Whitelist

/-- What happens around a live whitelist: somebody calls the sorter that consults it, or edits it. -/
inductive LiveStep (σ : Type) where
  | call (call : Call σ)
  | edit (change : Whitelist.Edit)

namespace LiveStep

variable {σ : Type}

/-- The edits among the steps. -/
def edits : List (LiveStep σ) → List Whitelist.Edit
  | [] => []
  | .call _ :: steps => edits steps
  | .edit change :: steps => change :: edits steps

/-- What the steps come to for the sorter, given the whitelist that they begin with. -/
def calls : List (LiveStep σ) → Whitelist → List (Call σ)
  | [], _ => []
  | .call c :: steps, w => c :: calls steps w
  | .edit change :: steps, w =>
    .setPolicy (.listed (w.edit change).after) :: calls steps (w.edit change).after

end LiveStep

/-- A sorter that consults a live whitelist from now on, after some steps. -/
def Sorter.live {σ : Type} [Admission σ] (s : Sorter σ) (w : Whitelist)
    (steps : List (LiveStep σ)) : Sorter σ :=
  (run (LiveStep.calls steps w) (s.withPolicy (.listed w))).after

end ShardMerge
