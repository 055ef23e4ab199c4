import ShardMerge.Proofs.SorterRun
import ShardMerge.Proofs.Steps

/-!
# Refused items

An item is refused for one of four reasons, and each of them is a condition on what is registered
and open (`Refuses`): the item is refused exactly if one of the conditions holds
(`push_eq_error_iff`). All four say that the stream is corrupt, and name the identifier of the item.
A refused item leaves no trace: the engine is as it was and has reported nothing, and around it only
the admission strategy has moved on, by the one ruling that it gave (`refused_leaves_no_trace`).
-/

namespace ShardMerge

namespace Engine

variable {e : Engine} {skips : Xid → Bool} {admitted : Bool} {item : Item} {refusal : SortError}

/-- The reasons for which an engine refuses an item. -/
inductive Refuses (skips : Xid → Bool) (admitted : Bool) (e : Engine) :
    Item → SortError → Prop where
  /-- It is the prewrite of a transaction that is registered. -/
  | duplicatePrewrite {t old : Transaction} (known : e.transaction? t.xid = some old) :
      Refuses skips admitted e (.prewrite t) (.duplicatePrewrite t.xid)
  /-- It is a commit without a prewrite, and the skip policy does not excuse it. -/
  | unmatchedCommit {x : Xid} {given : Option Tso} (letIn : admitted = true)
      (unknown : e.transaction? x = none) (unlisted : skips x = false) :
      Refuses skips admitted e (.commit x given) (.unmatchedCommit x)
  /-- It is a commit of a transaction that is ready. -/
  | duplicateCommit {x : Xid} {given : Option Tso} {t : Transaction} (letIn : admitted = true)
      (known : e.transaction? x = some t) (closed : x ∉ e.pending) :
      Refuses skips admitted e (.commit x given) (.duplicateCommit x)
  /-- It is a commit without a timestamp of an open transaction without a timestamp. -/
  | missingTso {x : Xid} {t : Transaction} (letIn : admitted = true)
      (known : e.transaction? x = some t) (isOpen : x ∈ e.pending) (untimed : t.tso = none) :
      Refuses skips admitted e (.commit x none) (.missingTso x)

/-- What settles an item decides whether it is refused. -/
theorem push_eq_error_iff_settle :
    (e.push skips admitted item).value = .error refusal ↔
      e.settle skips admitted item = .error refusal := by
  unfold push
  cases hsettle : e.settle skips admitted item with
  | error refusal' => simp
  | ok result => simp

/-- A reason to refuse a prewrite. -/
theorem refuses_of_register {t : Transaction} (h : e.register t = .error refusal) :
    Refuses skips admitted e (.prewrite t) refusal := by
  unfold register at h
  split at h
  next hknown =>
    cases h
    obtain ⟨old, hold⟩ := Option.isSome_iff_exists.1 hknown
    exact .duplicatePrewrite hold
  next => cases h

/-- A reason to refuse a commit. -/
theorem refuses_of_resolve {x : Xid} {given : Option Tso}
    (h : e.resolve skips x given = .error refusal) :
    Refuses skips true e (.commit x given) refusal := by
  unfold resolve at h
  split at h
  next hunknown =>
    split at h
    next => cases h
    next hunlisted =>
      cases h
      exact .unmatchedCommit rfl hunknown (Bool.eq_false_iff.2 hunlisted)
  next t hknown =>
    split at h
    next hopen =>
      split at h
      next huntimed =>
        cases h
        obtain ⟨rfl, htso⟩ := Option.or_eq_none_iff.1 huntimed
        exact .missingTso rfl hknown hopen htso
      next => cases h
    next hclosed =>
      cases h
      exact .duplicateCommit rfl hknown hclosed

/-- What there is a reason to refuse is not settled. -/
theorem Refuses.settle (h : Refuses skips admitted e item refusal) :
    e.settle skips admitted item = .error refusal := by
  cases h with
  | @duplicatePrewrite t old known =>
    have hcontains : e.registry.contains t.xid = true := Option.isSome_iff_exists.2 ⟨old, known⟩
    simp only [Engine.settle, register, hcontains, if_true]
  | @unmatchedCommit x given letIn unknown unlisted =>
    have hget : e.registry.get? x = none := unknown
    simp [Engine.settle, resolve, letIn, hget, unlisted]
  | @duplicateCommit x given t letIn known closed =>
    have hget : e.registry.get? x = some t := known
    simp [Engine.settle, resolve, letIn, hget, closed]
  | @missingTso x t letIn known isOpen untimed =>
    have hget : e.registry.get? x = some t := known
    simp [Engine.settle, resolve, letIn, hget, isOpen, untimed]

/-- An item is refused exactly if there is a reason for it. -/
theorem push_eq_error_iff :
    (e.push skips admitted item).value = .error refusal ↔
      Refuses skips admitted e item refusal := by
  rw [push_eq_error_iff_settle]
  refine ⟨fun hsettle => ?_, Refuses.settle⟩
  cases item with
  | prewrite t => exact refuses_of_register hsettle
  | commit x given =>
    cases admitted with
    | false => simp [settle] at hsettle
    | true => exact refuses_of_resolve hsettle

/-- Every reason to refuse an item names its identifier, and says that the stream is corrupt. -/
theorem Refuses.fatal (h : Refuses skips admitted e item refusal) :
    refusal ∈ [.duplicatePrewrite item.xid, .unmatchedCommit item.xid, .duplicateCommit item.xid,
        .missingTso item.xid] ∧
      refusal.isFatal = true := by
  cases h with
  | duplicatePrewrite => exact ⟨by simp [Item.xid], rfl⟩
  | unmatchedCommit => exact ⟨by simp [Item.xid], rfl⟩
  | duplicateCommit => exact ⟨by simp [Item.xid], rfl⟩
  | missingTso => exact ⟨by simp [Item.xid], rfl⟩

/-- A refused item leaves the engine as it was, and is not reported by it. -/
theorem push_of_error (h : (e.push skips admitted item).value = .error refusal) :
    (e.push skips admitted item).after = e ∧ (e.push skips admitted item).events = [] := by
  have hsettle := push_eq_error_iff_settle.1 h
  unfold push
  rw [hsettle]
  exact ⟨rfl, rfl⟩

end Engine

namespace Sorter

variable {σ : Type} [Admission σ]

/-- An item is refused exactly if there is a reason for it, and then it leaves no trace, under
whichever skip policy and admission strategy. The engine is as it was, down to its counters and its
first item, and reports nothing. Of the sorter around it, only the admission strategy has moved on,
if it was asked; what is reported is what the strategy reports. The refusal is one of the four that
are fatal, and names the identifier of the item. -/
theorem refused_leaves_no_trace (s : Sorter σ) (skips : Xid → Bool) (admitted : Bool) (item : Item)
    (refusal : SortError) :
    ((s.engine.push skips admitted item).value = .error refusal ↔
      Engine.Refuses skips admitted s.engine item refusal) ∧
    ((s.engine.push skips admitted item).value = .error refusal →
      (s.engine.push skips admitted item).after = s.engine ∧
        (s.engine.push skips admitted item).events = [] ∧
        refusal ∈ [.duplicatePrewrite item.xid, .unmatchedCommit item.xid,
          .duplicateCommit item.xid, .missingTso item.xid] ∧
        refusal.isFatal = true) ∧
    ((s.push item).value = .error refusal →
      (s.push item).after = { s with strategy := s.strategyAfter item } ∧
        (s.push item).events = s.strategyEvents item ∧
        refusal ∈ [.duplicatePrewrite item.xid, .unmatchedCommit item.xid,
          .duplicateCommit item.xid, .missingTso item.xid] ∧
        refusal.isFatal = true) := by
  refine ⟨Engine.push_eq_error_iff, ?_, ?_⟩
  · intro hrefused
    obtain ⟨hafter, hevents⟩ := Engine.push_of_error hrefused
    exact ⟨hafter, hevents, (Engine.push_eq_error_iff.1 hrefused).fatal⟩
  · intro hrefused
    obtain ⟨hvalue, hsorter, hreports⟩ := s.push_eq_push_engine item
    rw [hvalue] at hrefused
    obtain ⟨hafter, hevents⟩ := Engine.push_of_error hrefused
    rw [hsorter, hreports, hafter, hevents]
    exact ⟨rfl, List.append_nil _, (Engine.push_eq_error_iff.1 hrefused).fatal⟩

/-- A sorter with one open and one ready transaction, whose admission strategy draws lots. -/
def drawingSorter : Sorter Strategy where
  limits := {}
  policy := .never
  strategy := .random (.ofPercent 30 fun _ => ⟨50, by decide⟩)
  clock := .still
  engine := Engine.reached {}
    [.push (fun _ => false) true (.prewrite { xid := ⟨"a"⟩ }),
      .push (fun _ => false) true (.prewrite { xid := ⟨"b"⟩ }),
      .push (fun _ => false) true (.commit ⟨"a"⟩ (some (.ofTime 5)))]

/-- Refusing a commit takes one draw and nothing else. -/
theorem drawingSorter_refused_leaves_no_trace :
    (drawingSorter.engine.push (fun _ => false) true (.commit ⟨"b"⟩ none)).after =
        drawingSorter.engine ∧
      (drawingSorter.push (.commit ⟨"a"⟩ none)).value = .error (.duplicateCommit ⟨"a"⟩) ∧
      (drawingSorter.push (.commit ⟨"a"⟩ none)).after =
        { drawingSorter with
          strategy :=
            .random { RandomDiscard.ofPercent 30 fun _ => ⟨50, by decide⟩ with taken := 1 } } :=
  ⟨((refused_leaves_no_trace drawingSorter (fun _ => false) true (.commit ⟨"b"⟩ none)
      (.missingTso ⟨"b"⟩)).2.1 (by rfl)).1, by rfl,
    ((refused_leaves_no_trace drawingSorter (fun _ => false) true (.commit ⟨"a"⟩ none)
      (.duplicateCommit ⟨"a"⟩)).2.2 (by rfl)).1⟩

end Sorter

end ShardMerge
