import ShardMerge.Proofs.Refusals
import ShardMerge.Proofs.Reports
import ShardMerge.Service

/-!
# Deliveries

A service takes in what its sorter takes in when the items are pushed one after the other, up to the
first one that is refused (`Intake`). Single items and lists go separate ways through the service,
but how items are cut into deliveries makes no difference as long as none is refused
(`deliverAll_eq_pushes`). If one is refused, what comes behind it in its delivery is not looked at,
and the service reports the refusal, once and with the identifier of the item
(`deliveries_in_order`).
-/

namespace ShardMerge

/-- The refusal that the service reports. -/
def Event.rejection? : Event → Option (Xid × SortError)
  | rejected x refusal => some (x, refusal)
  | _ => none

/-- The refusals that the service reports, in order. -/
def rejections (events : List Event) : List (Xid × SortError) :=
  events.filterMap Event.rejection?

@[simp] theorem rejections_append (events events' : List Event) :
    rejections (events ++ events') = rejections events ++ rejections events' :=
  List.filterMap_append

/-- Strategies that leave reporting refusals to the service. -/
def Admission.Discreet (σ : Type) [Admission σ] : Prop :=
  ∀ (strategy : σ) (x : Xid), rejections (Admission.judge strategy x).events = []

/-- The strategies of the library report discarded commits only. -/
theorem Strategy.discreet : Admission.Discreet Strategy := by
  intro strategy x
  show rejections (Strategy.judge strategy x).events = []
  induction strategy with
  | all => rfl
  | random discard =>
    show rejections (discard.judge x).events = []
    unfold RandomDiscard.judge
    split
    next => rfl
    next => rfl
  | except dropped rest ih =>
    unfold judge
    split
    next => rfl
    next => exact ih

namespace Sorter

variable {σ : Type} [Admission σ] {s : Sorter σ} {item : Item} {items before : List Item}
  {refusal : SortError}

/-- The outcome of pushing items one after the other, whether or not some are refused. -/
def pushes (items : List Item) (s : Sorter σ) : Reply (Sorter σ) (List (Option Answer)) :=
  run (items.map .push) s

/-- None of the items is refused when they are pushed one after the other. -/
def TakesIn (items : List Item) (s : Sorter σ) : Prop :=
  ∀ answer ∈ (s.pushes items).value, answer = some (.pushed (.ok ()))

/-- An item is the first one that is refused when it is pushed behind some others. -/
structure FirstRefused (before : List Item) (item : Item) (refusal : SortError) (s : Sorter σ) :
    Prop where
  accepted : s.TakesIn before
  refused : ((s.pushes before).after.push item).value = .error refusal

@[simp] theorem takesIn_nil (s : Sorter σ) : s.TakesIn [] :=
  fun _ hmem => absurd hmem List.not_mem_nil

@[simp] theorem takesIn_cons :
    s.TakesIn (item :: items) ↔
      (s.push item).value = .ok () ∧ (s.push item).after.TakesIn items := by
  have hvalue : (s.pushes (item :: items)).value =
      some (.pushed (s.push item).value) :: ((s.push item).after.pushes items).value := rfl
  simp [TakesIn, hvalue]

theorem pushes_append (items items' : List Item) (s : Sorter σ) :
    (s.pushes (items ++ items')).after = ((s.pushes items).after.pushes items').after ∧
      (s.pushes (items ++ items')).events =
        (s.pushes items).events ++ ((s.pushes items).after.pushes items').events ∧
      (s.pushes (items ++ items')).queries =
        (s.pushes items).queries ++ ((s.pushes items).after.pushes items').queries := by
  induction items generalizing s with
  | nil => exact ⟨rfl, rfl, rfl⟩
  | cons item items ih =>
    obtain ⟨hafter, hevents, hqueries⟩ := ih (s.push item).after
    refine ⟨hafter, ?_, ?_⟩
    · show (s.push item).events ++ ((s.push item).after.pushes (items ++ items')).events = _
      rw [hevents, ← List.append_assoc]
      rfl
    · show (s.push item).queries ++ ((s.push item).after.pushes (items ++ items')).queries = _
      rw [hqueries, ← List.append_assoc]
      rfl

theorem takesIn_append {items' : List Item} :
    s.TakesIn (items ++ items') ↔ s.TakesIn items ∧ (s.pushes items).after.TakesIn items' := by
  induction items generalizing s with
  | nil => exact (and_iff_right (takesIn_nil s)).symm
  | cons item items ih =>
    rw [List.cons_append, takesIn_cons, takesIn_cons, ih, and_assoc]
    rfl

theorem firstRefused_nil :
    s.FirstRefused [] item refusal ↔ (s.push item).value = .error refusal :=
  ⟨fun hfirst => hfirst.refused, fun hrefused => ⟨takesIn_nil s, hrefused⟩⟩

theorem firstRefused_cons {first : Item} :
    s.FirstRefused (first :: before) item refusal ↔
      (s.push first).value = .ok () ∧ (s.push first).after.FirstRefused before item refusal := by
  constructor
  · rintro ⟨haccepted, hrefused⟩
    obtain ⟨hvalue, htakes⟩ := takesIn_cons.1 haccepted
    exact ⟨hvalue, htakes, hrefused⟩
  · rintro ⟨hvalue, htakes, hrefused⟩
    exact ⟨takesIn_cons.2 ⟨hvalue, htakes⟩, hrefused⟩

/-- Either no item is refused, or one is the first that is. -/
theorem takesIn_or_firstRefused (items : List Item) (s : Sorter σ) :
    s.TakesIn items ∨ ∃ before item later refusal,
      items = before ++ item :: later ∧ s.FirstRefused before item refusal := by
  induction items generalizing s with
  | nil => exact Or.inl (takesIn_nil s)
  | cons item items ih =>
    cases hvalue : (s.push item).value with
    | error refusal => exact Or.inr ⟨[], item, items, refusal, rfl, firstRefused_nil.2 hvalue⟩
    | ok =>
      rcases ih (s.push item).after with
        htakes | ⟨before, refused, later, refusal, rfl, hfirst⟩
      · exact Or.inl (takesIn_cons.2 ⟨hvalue, htakes⟩)
      · exact Or.inr ⟨item :: before, refused, later, refusal, rfl,
          firstRefused_cons.2 ⟨hvalue, hfirst⟩⟩

/-- The refused item leaves the engine as the items before it have left it. -/
theorem FirstRefused.engine (h : s.FirstRefused before item refusal) :
    (s.pushes (before ++ [item])).after.engine = (s.pushes before).after.engine := by
  have hrefused := h.refused
  obtain ⟨hvalue, hafter, -⟩ := (s.pushes before).after.push_eq_push_engine item
  rw [hvalue] at hrefused
  rw [(pushes_append before [item] s).1]
  show ((s.pushes before).after.push item).after.engine = _
  rw [hafter, (Engine.push_of_error hrefused).1]

/-- No sorter reports refusals. -/
theorem rejections_push (hdiscreet : Admission.Discreet σ) (item : Item) (s : Sorter σ) :
    rejections (s.push item).events = [] := by
  have hengine : rejections (s.engine.push s.policy.skips (s.admits item) item).events = [] :=
    Engine.filterMap_events_push (fun _ => rfl) (fun _ => rfl) _ _ item s.engine
  have hstrategy : rejections (s.strategyEvents item) = [] := by
    cases item with
    | prewrite t => rfl
    | commit x given => exact hdiscreet s.strategy x
  rw [(s.push_eq_push_engine item).2.2, rejections_append, hengine, hstrategy, List.append_nil]

theorem rejections_pushes (hdiscreet : Admission.Discreet σ) (items : List Item) (s : Sorter σ) :
    rejections (s.pushes items).events = [] := by
  induction items generalizing s with
  | nil => rfl
  | cons item items ih =>
    show rejections ((s.push item).events ++ ((s.push item).after.pushes items).events) = []
    rw [rejections_append, rejections_push hdiscreet, ih, List.append_nil]

end Sorter

/-- What a producer hands to the service in one call. -/
inductive Delivery where
  | single (item : Item)
  | list (items : List Item)

/-- The items of a delivery, in order. -/
def Delivery.items : Delivery → List Item
  | single item => [item]
  | list items => items

namespace Service

variable {σ : Type} [Admission σ]

/-- Takes in a delivery. -/
def deliver : Delivery → Service σ → Reply (Service σ) (Except SortError Unit)
  | .single item => push item
  | .list items => pushAll items

/-- Takes in deliveries one after the other. -/
def deliverAll : List Delivery → Service σ → Reply (Service σ) (List (Except SortError Unit))
  | [], s => ⟨[], s, [], []⟩
  | d :: ds, s => (s.deliver d).andThen fun result s => (deliverAll ds s).map (result :: ·)

/-- How a service takes in items: as its sorter does when they are pushed one after the other, up to
the first one that is refused, which it reports. -/
inductive Intake (s : Sorter σ) :
    List Item → Reply (Service σ) (Except SortError Unit) → Prop where
  /-- No item is refused. -/
  | complete {items : List Item} (accepted : s.TakesIn items) :
      Intake s items
        { value := .ok ()
          after := ⟨(s.pushes items).after⟩
          events := (s.pushes items).events
          queries := (s.pushes items).queries }
  /-- An item is refused, and none before it. -/
  | refused {before : List Item} {item : Item} {later : List Item} {refusal : SortError}
      (first : s.FirstRefused before item refusal) :
      Intake s (before ++ item :: later)
        { value := .error refusal
          after := ⟨(s.pushes (before ++ [item])).after⟩
          events := (s.pushes (before ++ [item])).events ++ [.rejected item.xid refusal]
          queries := (s.pushes (before ++ [item])).queries }

variable {s : Sorter σ}

/-- A list of which no item is refused is taken in as a whole. -/
theorem pushAll_of_takesIn {items : List Item} (accepted : s.TakesIn items) :
    pushAll items ⟨s⟩ =
      { value := .ok ()
        after := ⟨(s.pushes items).after⟩
        events := (s.pushes items).events
        queries := (s.pushes items).queries } := by
  induction items generalizing s with
  | nil => rfl
  | cons item items ih =>
    obtain ⟨hvalue, htakes⟩ := Sorter.takesIn_cons.1 accepted
    simp only [pushAll, Reply.within, hvalue, Reply.andThen, ih htakes]
    rfl

/-- A list is taken in up to the first item that is refused, and what comes behind it is not looked
at. -/
theorem pushAll_of_firstRefused {before : List Item} {item : Item} {refusal : SortError}
    (first : s.FirstRefused before item refusal) (later : List Item) :
    pushAll (before ++ item :: later) ⟨s⟩ =
      { value := .error refusal
        after := ⟨(s.pushes (before ++ [item])).after⟩
        events := (s.pushes (before ++ [item])).events ++ [.rejected item.xid refusal]
        queries := (s.pushes (before ++ [item])).queries } := by
  induction before generalizing s with
  | nil =>
    have hvalue := Sorter.firstRefused_nil.1 first
    simp only [List.nil_append, pushAll, Reply.within, hvalue]
    show _ = Reply.mk _ _ (((s.push item).events ++ []) ++ _) ((s.push item).queries ++ [])
    rw [List.append_nil, List.append_nil]
    rfl
  | cons head before ih =>
    obtain ⟨hvalue, hrest⟩ := Sorter.firstRefused_cons.1 first
    simp only [List.cons_append, pushAll, Reply.within, hvalue, Reply.andThen, ih hrest]
    rw [← List.append_assoc]
    rfl

/-- The service goes through a list as its sorter does. -/
theorem intake_pushAll (s : Sorter σ) (items : List Item) :
    Intake s items (pushAll items ⟨s⟩) := by
  rcases s.takesIn_or_firstRefused items with htakes | ⟨before, item, later, refusal, rfl, hfirst⟩
  · rw [pushAll_of_takesIn htakes]
    exact .complete htakes
  · rw [pushAll_of_firstRefused hfirst]
    exact .refused hfirst

/-- A single item is taken in like a list of one item. -/
theorem deliver_eq_pushAll (d : Delivery) (s : Service σ) : s.deliver d = pushAll d.items s := by
  cases d with
  | list items => rfl
  | single item =>
    show push item s = pushAll [item] s
    unfold push pushAll
    cases hvalue : (s.sorter.push item).value with
    | ok =>
      simp only [Reply.within, hvalue, Reply.andThen, pushAll, List.append_nil]
    | error refusal => simp only [Reply.within, hvalue]

/-- If no item is refused, it makes no difference how the items are cut into deliveries. -/
theorem deliverAll_eq_pushes {ds : List Delivery}
    (accepted : s.TakesIn (ds.flatMap Delivery.items)) :
    deliverAll ds ⟨s⟩ =
      { value := ds.map fun _ => .ok ()
        after := ⟨(s.pushes (ds.flatMap Delivery.items)).after⟩
        events := (s.pushes (ds.flatMap Delivery.items)).events
        queries := (s.pushes (ds.flatMap Delivery.items)).queries } := by
  induction ds generalizing s with
  | nil => rfl
  | cons d ds ih =>
    rw [List.flatMap_cons, Sorter.takesIn_append] at accepted
    obtain ⟨hafter, hevents, hqueries⟩ := s.pushes_append d.items (ds.flatMap Delivery.items)
    rw [List.flatMap_cons, hafter, hevents, hqueries]
    simp only [deliverAll, deliver_eq_pushAll, pushAll_of_takesIn accepted.1, Reply.andThen,
      Reply.map, ih accepted.2, List.map_cons]

/-- A list whose intake ends with a refusal has a first item that is refused. -/
theorem firstRefused_of_error {items : List Item} {refusal : SortError}
    (hvalue : (pushAll items ⟨s⟩).value = .error refusal) :
    ∃ before item later, items = before ++ item :: later ∧
      s.FirstRefused before item refusal := by
  have hintake := intake_pushAll s items
  generalize pushAll items ⟨s⟩ = reply at hintake hvalue ⊢
  cases hintake with
  | complete => cases hvalue
  | @refused before item later _ first =>
    cases hvalue
    exact ⟨before, item, later, rfl, first⟩

/-- What is taken in is not reported as refused. -/
theorem rejections_of_ok (hdiscreet : Admission.Discreet σ) {items : List Item}
    (hvalue : (pushAll items ⟨s⟩).value = .ok ()) :
    rejections (pushAll items ⟨s⟩).events = [] := by
  have hintake := intake_pushAll s items
  generalize pushAll items ⟨s⟩ = reply at hintake hvalue ⊢
  cases hintake with
  | complete => exact Sorter.rejections_pushes hdiscreet _ s
  | refused => cases hvalue

/-- The service takes in each delivery as its sorter takes in the items one after the other, up to
the first one that is refused. A refused item leaves the engine as the items before it have left it,
and what comes behind it changes nothing; its refusal is reported, and no other one is. How items
are cut into deliveries makes no difference as long as none is refused. -/
theorem deliveries_in_order (s : Sorter σ) (d : Delivery) :
    Intake s d.items (deliver d ⟨s⟩) ∧
    (∀ refusal, (deliver d ⟨s⟩).value = .error refusal →
      ∃ before item later, d.items = before ++ item :: later ∧
        s.FirstRefused before item refusal ∧
        (deliver d ⟨s⟩).after.sorter.engine = (s.pushes before).after.engine ∧
        (∀ later', pushAll (before ++ item :: later') ⟨s⟩ = deliver d ⟨s⟩) ∧
        (Admission.Discreet σ →
          rejections (deliver d ⟨s⟩).events = [(item.xid, refusal)])) ∧
    ((deliver d ⟨s⟩).value = .ok () → Admission.Discreet σ →
      rejections (deliver d ⟨s⟩).events = []) ∧
    ∀ ds : List Delivery, ds.flatMap Delivery.items = d.items → s.TakesIn d.items →
      (∀ result ∈ (deliverAll ds ⟨s⟩).value, result = .ok ()) ∧
        (deliverAll ds ⟨s⟩).after = (deliver d ⟨s⟩).after := by
  rw [deliver_eq_pushAll]
  refine ⟨intake_pushAll s d.items, ?_, fun hvalue hdiscreet => rejections_of_ok hdiscreet hvalue,
    ?_⟩
  · intro refusal hvalue
    obtain ⟨before, item, later, hitems, hfirst⟩ := firstRefused_of_error hvalue
    have hreply := pushAll_of_firstRefused hfirst
    refine ⟨before, item, later, hitems, hfirst, ?_, ?_, ?_⟩
    · rw [hitems, hreply]
      exact hfirst.engine
    · intro later'
      rw [hitems, hreply, hreply]
    · intro hdiscreet
      rw [hitems, hreply, rejections_append, Sorter.rejections_pushes hdiscreet]
      rfl
  · intro ds hitems htakes
    rw [pushAll_of_takesIn htakes]
    rw [← hitems] at htakes ⊢
    rw [deliverAll_eq_pushes htakes]
    refine ⟨fun result hresult => ?_, rfl⟩
    obtain ⟨d, -, rfl⟩ := List.mem_map.1 hresult
    rfl

/-- A service whose admission strategy discards the commits of one transaction. -/
def listingService : Service Strategy where
  sorter :=
    { limits := {}
      policy := .never
      strategy := .except [⟨"b"⟩] .all
      clock := .still }

/-- A transaction that is committed, and one whose commit is discarded. -/
def twoTransactions : List Item :=
  [.prewrite { xid := ⟨"a"⟩, tso := some (.ofTime 5) }, .prewrite { xid := ⟨"b"⟩ },
    .commit ⟨"b"⟩ none, .commit ⟨"a"⟩ none]

theorem listingService_deliveries_in_order :
    rejections (deliver (.list twoTransactions) listingService).events = [] ∧
      (deliverAll [.list (twoTransactions.take 3), .list [], .single (.commit ⟨"a"⟩ none)]
        listingService).after = (deliver (.list twoTransactions) listingService).after ∧
      ∃ before item later,
        twoTransactions ++ twoTransactions = before ++ item :: later ∧
          rejections (deliver (.list (twoTransactions ++ twoTransactions)) listingService).events =
            [(item.xid, .duplicatePrewrite ⟨"a"⟩)] := by
  have htakes : listingService.sorter.TakesIn twoTransactions := by
    simp only [twoTransactions, Sorter.takesIn_cons, Sorter.takesIn_nil]
    exact ⟨rfl, rfl, rfl, rfl, trivial⟩
  refine ⟨(deliveries_in_order listingService.sorter (.list twoTransactions)).2.2.1 (by rfl)
      Strategy.discreet,
    ((deliveries_in_order listingService.sorter (.list twoTransactions)).2.2.2 _ (by rfl)
      htakes).2, ?_⟩
  obtain ⟨before, item, later, hitems, -, -, -, hreported⟩ :=
    (deliveries_in_order listingService.sorter (.list (twoTransactions ++ twoTransactions))).2.1
      (.duplicatePrewrite ⟨"a"⟩) (by rfl)
  exact ⟨before, item, later, hitems, hreported Strategy.discreet⟩

end Service

end ShardMerge
