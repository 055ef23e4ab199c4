import ShardMerge.Json.Basic
import ShardMerge.Proofs.JsonSpelling

/-!
# JSON texts

The text of a JSON value is read back as that value (`read?_text`). The tokens of a value never put
two numbers side by side, so they are cut where they were joined (`isChain_tokens`), and they bring
the reader from waiting for a value to having it, whatever is open around it (`run_tokens`).
-/

namespace ShardMerge.Json

open Token (Apart)

/-- Induction on a value, with the hypothesis for everything that an array or an object holds. -/
@[elab_as_elim]
theorem induction {motive : Json → Prop} (null : motive null) (bool : ∀ b, motive (bool b))
    (nat : ∀ n, motive (nat n)) (decimal : ∀ spelling, motive (decimal spelling))
    (string : ∀ text, motive (string text))
    (array : ∀ items, (∀ item ∈ items, motive item) → motive (array items))
    (object : ∀ members, (∀ member ∈ members, motive member.2) → motive (object members))
    (j : Json) : motive j := by
  refine @Json.rec motive (fun items => ∀ item ∈ items, motive item)
    (fun members => ∀ member ∈ members, motive member.2) (fun member => motive member.2)
    null bool nat decimal string array object ?_ ?_ ?_ ?_ ?_ j
  · simp
  · exact fun item items hitem hitems => List.forall_mem_cons.2 ⟨hitem, hitems⟩
  · simp
  · exact fun member members hmember hmembers => List.forall_mem_cons.2 ⟨hmember, hmembers⟩
  · exact fun name value hvalue => hvalue

/-- Whether every number that is kept as it is written is a number indeed. -/
def WellFormed (j : Json) : Prop :=
  ∀ t ∈ j.tokens, t.WellFormed

theorem wellFormed_array {items : List Json} :
    (array items).WellFormed ↔ ∀ item ∈ items, item.WellFormed := by
  have hitems : (∀ t ∈ itemTokens items, t.WellFormed) ↔ ∀ item ∈ items, item.WellFormed := by
    induction items with
    | nil => simp [itemTokens]
    | cons item items ih =>
      cases items with
      | nil => simp [itemTokens, WellFormed]
      | cons next items =>
        rw [List.forall_mem_cons, ← ih, itemTokens, List.forall_mem_append, List.forall_mem_cons]
        · simp [WellFormed, Token.WellFormed]
        · simp
  rw [← hitems, WellFormed, tokens, List.forall_mem_cons, List.forall_mem_append]
  simp [Token.WellFormed]

theorem wellFormed_object {members : List (Option String × Json)} :
    (object members).WellFormed ↔ ∀ member ∈ members, member.2.WellFormed := by
  have hmembers :
      (∀ t ∈ memberTokens members, t.WellFormed) ↔ ∀ member ∈ members, member.2.WellFormed := by
    induction members with
    | nil => simp [memberTokens]
    | cons member members ih =>
      cases members with
      | nil => simp [memberTokens, WellFormed, Token.WellFormed]
      | cons next members =>
        rw [List.forall_mem_cons, ← ih, memberTokens, List.forall_mem_cons, List.forall_mem_cons,
          List.forall_mem_append, List.forall_mem_cons]
        · simp [WellFormed, Token.WellFormed]
        · simp
  rw [← hmembers, WellFormed, tokens, List.forall_mem_cons, List.forall_mem_append]
  simp [Token.WellFormed]

theorem wellFormed_record {fields : List (String × Json)} :
    (record fields).WellFormed ↔ ∀ field ∈ fields, field.2.WellFormed := by
  rw [record, wellFormed_object, List.forall_mem_map]

/-! ## Neighbouring tokens -/

theorem isChain_cons_of_not_isNumber {t : Token} {ts : List Token} (ht : ¬ t.IsNumber)
    (hts : ts.IsChain Apart) : (t :: ts).IsChain Apart :=
  List.isChain_cons.2 ⟨fun _ _ h => absurd h ht, hts⟩

/-- Commas and closing brackets may stand behind anything. -/
theorem isChain_append_cons {ts us : List Token} {t : Token}
    (ht : t ∈ [.comma, .closeArray, .closeObject]) (hts : ts.IsChain Apart)
    (hus : us.IsChain Apart) : (ts ++ t :: us).IsChain Apart := by
  have hstops : Token.Stops Token.Continues t.text ∧ ¬ t.IsNumber := by
    simp only [List.mem_cons, List.not_mem_nil, or_false] at ht
    rcases ht with rfl | rfl | rfl <;>
      simp [Token.Stops, Token.Continues, Token.text, Token.IsNumber]
  refine hts.append (isChain_cons_of_not_isNumber hstops.2 hus) fun before _ next hnext => ?_
  rw [List.head?_cons, Option.mem_some_iff] at hnext
  exact fun _ => hnext ▸ hstops.1

theorem isChain_itemTokens {items : List Json} (hitems : ∀ j ∈ items, j.tokens.IsChain Apart) :
    (itemTokens items).IsChain Apart := by
  induction items with
  | nil => exact .nil
  | cons item items ih =>
    rw [List.forall_mem_cons] at hitems
    cases items with
    | nil => exact hitems.1
    | cons next items => exact isChain_append_cons (by simp) hitems.1 (ih hitems.2)

theorem isChain_memberTokens {members : List (Option String × Json)}
    (hmembers : ∀ member ∈ members, member.2.tokens.IsChain Apart) :
    (memberTokens members).IsChain Apart := by
  induction members with
  | nil => exact .nil
  | cons member members ih =>
    rw [List.forall_mem_cons] at hmembers
    cases members with
    | nil => exact isChain_cons_of_not_isNumber id (isChain_cons_of_not_isNumber id hmembers.1)
    | cons next members =>
      exact isChain_cons_of_not_isNumber id <| isChain_cons_of_not_isNumber id <|
        isChain_append_cons (by simp) hmembers.1 (ih hmembers.2)

theorem isChain_tokens (j : Json) : j.tokens.IsChain Apart := by
  induction j using Json.induction with
  | array items ih =>
    exact isChain_cons_of_not_isNumber id
      (isChain_append_cons (by simp) (isChain_itemTokens ih) .nil)
  | object members ih =>
    exact isChain_cons_of_not_isNumber id
      (isChain_append_cons (by simp) (isChain_memberTokens ih) .nil)
  | _ => exact .singleton _

/-! ## The reader over the tokens of a value -/

/-- The tokens of a value bring the reader from waiting for it to having it. -/
def Completes (j : Json) : Prop :=
  ∀ stack ts, (Reader.value stack).run (j.tokens ++ ts) = (Reader.complete j stack).run ts

/-- No value begins with the end of an array. -/
theorem run_firstItem (item : Json) (items : List Json) (stack : List Frame) (ts : List Token) :
    (Reader.firstItem stack).run (itemTokens (item :: items) ++ ts) =
      (Reader.value (.array [] :: stack)).run (itemTokens (item :: items) ++ ts) := by
  cases items <;> cases item <;> rfl

/-- The first name of an object is read like a further one. -/
theorem run_firstName (member : Option String × Json) (members : List (Option String × Json))
    (stack : List Frame) (ts : List Token) :
    (Reader.firstName stack).run (memberTokens (member :: members) ++ ts) =
      (Reader.name [] stack).run (memberTokens (member :: members) ++ ts) := by
  cases members <;> rfl

theorem run_itemTokens {item : Json} {items : List Json}
    (hitems : ∀ j ∈ item :: items, j.Completes) (before : List Json) (stack : List Frame)
    (ts : List Token) :
    (Reader.value (.array before :: stack)).run (itemTokens (item :: items) ++ .closeArray :: ts) =
      (Reader.complete (.array (before.reverse ++ item :: items)) stack).run ts := by
  have hitem := hitems item (by simp) (.array before :: stack)
  induction items generalizing item before with
  | nil =>
    rw [itemTokens, hitem, ← List.reverse_cons]
    rfl
  | cons next items ih =>
    have hrest := List.forall_mem_of_forall_mem_cons hitems
    rw [itemTokens, List.append_assoc, hitem, List.cons_append]
    · calc
        _ = (Reader.value (.array (item :: before) :: stack)).run
              (itemTokens (next :: items) ++ .closeArray :: ts) := rfl
        _ = (Reader.complete (.array ((item :: before).reverse ++ next :: items)) stack).run ts :=
          ih hrest (item :: before) (hrest next (by simp) _)
        _ = _ := by rw [List.reverse_cons, List.append_assoc, List.singleton_append]
    · simp

theorem run_memberTokens {name : Option String} {value : Json}
    {members : List (Option String × Json)}
    (hmembers : ∀ member ∈ (name, value) :: members, member.2.Completes)
    (before : List (Option String × Json)) (stack : List Frame) (ts : List Token) :
    (Reader.name before stack).run
        (memberTokens ((name, value) :: members) ++ .closeObject :: ts) =
      (Reader.complete (.object (before.reverse ++ (name, value) :: members)) stack).run ts := by
  have hvalue := hmembers (name, value) (by simp) (.object before name :: stack)
  induction members generalizing name value before with
  | nil =>
    calc
      _ = (Reader.value (.object before name :: stack)).run
            (value.tokens ++ .closeObject :: ts) := rfl
      _ = (Reader.complete value (.object before name :: stack)).run (.closeObject :: ts) :=
        hvalue _
      _ = (Reader.complete (.object ((name, value) :: before).reverse) stack).run ts := rfl
      _ = _ := by rw [List.reverse_cons]
  | cons next members ih =>
    have hrest := List.forall_mem_of_forall_mem_cons hmembers
    calc
      _ = (Reader.value (.object before name :: stack)).run
            (value.tokens ++ .comma :: (memberTokens (next :: members) ++ .closeObject :: ts)) := by
        rw [memberTokens, List.cons_append, List.cons_append, List.append_assoc, List.cons_append]
        · rfl
        · simp
      _ = (Reader.complete value (.object before name :: stack)).run
            (.comma :: (memberTokens (next :: members) ++ .closeObject :: ts)) := hvalue _
      _ = (Reader.name ((name, value) :: before) stack).run
            (memberTokens (next :: members) ++ .closeObject :: ts) := rfl
      _ = (Reader.complete (.object (((name, value) :: before).reverse ++ next :: members))
            stack).run ts :=
        ih hrest ((name, value) :: before) (hrest next (by simp) _)
      _ = _ := by rw [List.reverse_cons, List.append_assoc, List.singleton_append]

theorem run_tokens (j : Json) : j.Completes := by
  induction j using Json.induction with
  | array items ih =>
    intro stack ts
    cases items with
    | nil => rfl
    | cons item items =>
      calc
        _ = (Reader.firstItem stack).run (itemTokens (item :: items) ++ .closeArray :: ts) := by
          rw [tokens, List.cons_append, List.append_assoc, List.singleton_append]
          rfl
        _ = _ := run_firstItem item items stack _
        _ = _ := run_itemTokens ih [] stack ts
  | object members ih =>
    intro stack ts
    cases members with
    | nil => rfl
    | cons member members =>
      calc
        _ = (Reader.firstName stack).run
              (memberTokens (member :: members) ++ .closeObject :: ts) := by
          rw [tokens, List.cons_append, List.append_assoc, List.singleton_append]
          rfl
        _ = _ := run_firstName member members stack _
        _ = _ := run_memberTokens ih [] stack ts
  | _ => exact fun _ _ => rfl

/-! ## Whole texts -/

theorem ofTokens?_tokens (j : Json) : ofTokens? j.tokens = some j := by
  rw [ofTokens?, ← List.append_nil j.tokens, run_tokens]
  rfl

theorem read?_text {j : Json} (hj : j.WellFormed) : read? j.text = some j := by
  rw [read?, text, String.toList_ofList, Token.scan_flatMap_text hj (isChain_tokens j),
    Option.bind_some, ofTokens?_tokens]

end ShardMerge.Json
