import Mathlib.Data.List.Nodup
import Mathlib.Data.Set.List
import ShardMerge.Proofs.JsonForms

/-!
# Configurations over the standard one

What an object is read as when it gives some of the settings of a configuration: the standard
configuration with these settings put over it. The objects that are read are exactly those whose
entries are settings, each field at most once, and members with other names (`ofJson?_eq_some_iff`).
-/

namespace ShardMerge

open JsonForm (toJson ofJson? natBelow? read?)

/-! ## Fields of one form -/

/-- Types whose values have only one JSON form. -/
class StrictJsonForm (α : Type) [JsonForm α] : Prop where
  toJson_eq {j : Json} {a : α} : ofJson? j = some a → toJson a = j

namespace StrictJsonForm

theorem eq_nat_of_natBelow? {bound n : Nat} {j : Json} (h : natBelow? bound j = some n) :
    n < bound ∧ j = .nat n := by
  cases j with
  | nat m =>
    rw [natBelow?] at h
    split at h
    next hm =>
      cases h
      exact ⟨hm, rfl⟩
    next => cases h
  | _ => cases h

instance : StrictJsonForm UInt64 where
  toJson_eq h := by
    obtain ⟨n, hn, rfl⟩ := Option.map_eq_some_iff.1 h
    obtain ⟨hlt, rfl⟩ := eq_nat_of_natBelow? hn
    exact congrArg Json.nat (UInt64.toNat_ofNat_of_lt hlt)

instance : StrictJsonForm UInt8 where
  toJson_eq h := by
    obtain ⟨n, hn, rfl⟩ := Option.map_eq_some_iff.1 h
    obtain ⟨hlt, rfl⟩ := eq_nat_of_natBelow? hn
    exact congrArg Json.nat (UInt8.toNat_ofNat_of_lt hlt)

instance : StrictJsonForm Bool where
  toJson_eq {j _} h := by
    cases j with
    | bool b =>
      cases h
      rfl
    | _ => cases h

instance : StrictJsonForm Xid where
  toJson_eq {j _} h := by
    obtain ⟨s, hs, rfl⟩ := Option.map_eq_some_iff.1 h
    cases j with
    | string text =>
      cases hs
      rfl
    | _ => cases hs

instance {α : Type} [JsonForm α] [StrictJsonForm α] : StrictJsonForm (List α) where
  toJson_eq {j as} h := by
    cases j with
    | array items =>
      change items.mapM ofJson? = some as at h
      change Json.array (as.map toJson) = .array items
      rw [Json.array.injEq]
      induction items generalizing as with
      | nil =>
        cases h
        rfl
      | cons item items ih =>
        rw [List.mapM_cons, Option.bind_eq_bind, Option.bind_eq_some_iff] at h
        obtain ⟨a, ha, h⟩ := h
        obtain ⟨rest, hrest, ⟨⟩⟩ := Option.bind_eq_some_iff.1 h
        rw [List.map_cons, toJson_eq ha, ih hrest]
    | _ => cases h

end StrictJsonForm

namespace Row

variable {α : Type} [JsonForm α] {row : Row} {name : String}

theorem withDefault?_of_lookup_eq_none (hrow : row.lookup name = none) (absent : α) :
    row.withDefault? name absent = some absent := by
  rw [withDefault?, hrow]

theorem withDefault?_cons_self [LawfulJsonForm α] (a absent : α) :
    withDefault? ((name, toJson a) :: row) name absent = some a := by
  rw [withDefault?, List.lookup_cons_self]
  exact LawfulJsonForm.ofJson?_toJson a

theorem withDefault?_cons_of_ne {other : String} (hne : name ≠ other) (value : Json) (absent : α) :
    withDefault? ((other, value) :: row) name absent = row.withDefault? name absent := by
  rw [withDefault?, List.lookup_cons, beq_eq_false_iff_ne.2 hne]
  rfl

theorem toJson_eq_of_withDefault? [StrictJsonForm α] {value : Json} {a absent : α}
    (hrow : row.lookup name = some value) (h : row.withDefault? name absent = some a) :
    toJson a = value := by
  rw [withDefault?, hrow] at h
  exact StrictJsonForm.toJson_eq h

theorem known_append (names : List String) (members members' : List (Option String × Json)) :
    known names (members ++ members') = known names members ++ known names members' :=
  List.filterMap_append

theorem lookup_eq_some_of_mem {value : Json} (hdistinct : (row.map Prod.fst).Nodup)
    (hmem : (name, value) ∈ row) : row.lookup name = some value := by
  induction row with
  | nil => cases hmem
  | cons field row ih =>
    obtain ⟨hfresh, hdistinct⟩ := List.nodup_cons.1 hdistinct
    rcases List.mem_cons.1 hmem with rfl | hmem
    · exact List.lookup_cons_self
    · have hne : name ≠ field.1 := fun h => hfresh (h ▸ List.mem_map_of_mem hmem)
      rw [List.lookup_cons, beq_eq_false_iff_ne.2 hne]
      exact ih hdistinct hmem

end Row

namespace Config

/-! ## Settings -/

/-- A value for one field of a configuration. -/
inductive Setting where
  | skipThreshold (n : UInt64)
  | scanBudget (milliseconds : UInt64)
  | whitelist (xids : List Xid)
  | discardCommits (b : Bool)
  | discardPercent (percent : UInt8)

namespace Setting

/-- The name of the field. -/
def name : Setting → String
  | skipThreshold _ => "skip_threshold"
  | scanBudget _ => "scan_budget_ms"
  | whitelist _ => "skip_whitelist"
  | discardCommits _ => "random_discard_commit"
  | discardPercent _ => "discard_commit_percent"

/-- The JSON form of the value. -/
def value : Setting → Json
  | skipThreshold n => toJson n
  | scanBudget milliseconds => toJson milliseconds
  | whitelist xids => toJson xids
  | discardCommits b => toJson b
  | discardPercent percent => toJson percent

/-- The configuration with the field replaced. -/
def apply : Setting → Config → Config
  | skipThreshold n, c => { c with skipThreshold := n }
  | scanBudget milliseconds, c => { c with scanBudget := milliseconds }
  | whitelist xids, c => { c with whitelist := xids }
  | discardCommits b, c => { c with discardCommits := b }
  | discardPercent percent, c => { c with discardPercent := percent }

/-- Whether the value is the standard one of its field. -/
def IsStandard (s : Setting) : Prop :=
  s.apply {} = {}

end Setting

/-- What may stand in an object that is read as a configuration. -/
inductive Entry where
  | setting (s : Setting)
  | other (name : String) (value : Json) (hname : name ∉ fieldNames)

namespace Entry

/-- The member of the object. -/
def member : Entry → Option String × Json
  | setting s => (some s.name, s.value)
  | other name value _ => (some name, value)

/-- The setting of an entry that is one. -/
def setting? : Entry → Option Setting
  | setting s => some s
  | other _ _ _ => none

end Entry

/-- The settings among the entries of an object. -/
def settings (entries : List Entry) : List Setting :=
  entries.filterMap Entry.setting?

/-- Whether no field is set twice. -/
def Distinct (entries : List Entry) : Prop :=
  ((settings entries).map Setting.name).Nodup

/-- The standard configuration with exactly the fields replaced that are set. -/
def overlay (entries : List Entry) : Config :=
  (settings entries).foldr Setting.apply {}

/-! ## Reading settings -/

/-- The configuration of the fields that an object or an array gives. -/
def ofRow? (row : Row) : Option Config := do
  let standard : Config := {}
  let skipThreshold ← row.withDefault? "skip_threshold" standard.skipThreshold
  let scanBudget ← row.withDefault? "scan_budget_ms" standard.scanBudget
  let whitelist ← row.withDefault? "skip_whitelist" standard.whitelist
  let discardCommits ← row.withDefault? "random_discard_commit" standard.discardCommits
  let discardPercent ← row.withDefault? "discard_commit_percent" standard.discardPercent
  return { skipThreshold, scanBudget, whitelist, discardCommits, discardPercent }

theorem ofJson?_object (members : List (Option String × Json)) :
    ofJson? (.object members) = (Row.ofMembers? fieldNames members).bind ofRow? :=
  rfl

theorem ofJson?_array {items : List Json} (hlength : items.length ≤ fieldNames.length) :
    ofJson? (.array items) = ofRow? (fieldNames.zip items) := by
  change (Row.ofJsonOrStart? _ _).bind ofRow? = _
  rw [Row.ofJsonOrStart?, if_pos hlength, Option.bind_some]

/-- A setting in front of the fields replaces its own, which is not among them, and no other. -/
theorem ofRow?_cons {s : Setting} {row : Row} (hrow : row.lookup s.name = none) :
    ofRow? ((s.name, s.value) :: row) = (ofRow? row).map s.apply := by
  cases s <;>
  · have habsent {α : Type} [JsonForm α] := Row.withDefault?_of_lookup_eq_none (α := α) hrow
    simp only [Setting.name] at habsent
    simp [ofRow?, Setting.name, Setting.value, Setting.apply, Row.withDefault?_cons_self,
      Row.withDefault?_cons_of_ne, habsent, Option.map_bind, Function.comp_def]

theorem ofRow?_settings {ss : List Setting} (hdistinct : (ss.map Setting.name).Nodup) :
    ofRow? (ss.map fun s => (s.name, s.value)) = some (ss.foldr Setting.apply {}) := by
  induction ss with
  | nil => rfl
  | cons s ss ih =>
    obtain ⟨hfresh, hdistinct⟩ := List.nodup_cons.1 hdistinct
    rw [List.map_cons, ofRow?_cons, ih hdistinct]
    · rfl
    · rwa [Row.lookup_eq_none_iff, List.map_map]

/-- A field that was read had the form of a setting. -/
theorem exists_setting {row : Row} {c : Config} (hread : ofRow? row = some c)
    (hdistinct : (row.map Prod.fst).Nodup) {name : String} {value : Json}
    (hname : name ∈ fieldNames) (hmem : (name, value) ∈ row) :
    ∃ s : Setting, s.name = name ∧ s.value = value := by
  have hlookup := Row.lookup_eq_some_of_mem hdistinct hmem
  simp only [ofRow?, Option.bind_eq_bind, Option.bind_eq_some_iff] at hread
  obtain ⟨n, hn, milliseconds, hmilliseconds, xids, hxids, b, hb, percent, hpercent, -⟩ := hread
  simp only [fieldNames, List.mem_cons, List.not_mem_nil, or_false] at hname
  rcases hname with rfl | rfl | rfl | rfl | rfl
  · exact ⟨.skipThreshold n, rfl, Row.toJson_eq_of_withDefault? hlookup hn⟩
  · exact ⟨.scanBudget milliseconds, rfl, Row.toJson_eq_of_withDefault? hlookup hmilliseconds⟩
  · exact ⟨.whitelist xids, rfl, Row.toJson_eq_of_withDefault? hlookup hxids⟩
  · exact ⟨.discardCommits b, rfl, Row.toJson_eq_of_withDefault? hlookup hb⟩
  · exact ⟨.discardPercent percent, rfl, Row.toJson_eq_of_withDefault? hlookup hpercent⟩

theorem Setting.name_mem_fieldNames (s : Setting) : s.name ∈ fieldNames := by
  cases s <;> simp [name, fieldNames]

/-- The members that stand for fields are the settings. -/
theorem known_entries (entries : List Entry) :
    Row.known fieldNames (entries.map Entry.member) =
      (settings entries).map fun s => (s.name, s.value) := by
  induction entries with
  | nil => rfl
  | cons entry entries ih =>
    cases entry with
    | setting s =>
      rw [List.map_cons, Entry.member, Row.known_cons_of_mem s.name_mem_fieldNames, ih]
      rfl
    | other name value hname =>
      rw [List.map_cons, Entry.member, Row.known_cons_of_not_mem hname, ih]
      rfl

theorem distinct_iff {entries : List Entry} :
    Distinct entries ↔
      ((Row.known fieldNames (entries.map Entry.member)).map Prod.fst).Nodup := by
  rw [known_entries, List.map_map]
  rfl

theorem ofJson?_entries {entries : List Entry} (hdistinct : Distinct entries) :
    ofJson? (.object (entries.map Entry.member)) = some (overlay entries) := by
  have htexts : ∀ member ∈ entries.map Entry.member, member.1.isSome := by
    intro member hmember
    obtain ⟨entry, -, rfl⟩ := List.mem_map.1 hmember
    cases entry <;> rfl
  have hrow := Row.ofMembers?_eq_some_iff.2 ⟨htexts, distinct_iff.1 hdistinct, rfl⟩
  rw [ofJson?_object, hrow, Option.bind_some, known_entries, ofRow?_settings hdistinct]
  rfl

/-- The members of an object that is read are entries. -/
theorem exists_entries {members : List (Option String × Json)} {c : Config}
    (h : ofJson? (.object members) = some c) :
    ∃ entries, entries.map Entry.member = members ∧ Distinct entries := by
  rw [ofJson?_object, Option.bind_eq_some_iff] at h
  obtain ⟨row, hrow, hread⟩ := h
  obtain ⟨htexts, hdistinct, rfl⟩ := Row.ofMembers?_eq_some_iff.1 hrow
  have hentry : ∀ member ∈ members, member ∈ Set.range Entry.member := by
    intro member hmember
    obtain ⟨name, value⟩ := member
    obtain ⟨name, rfl⟩ := Option.isSome_iff_exists.1 (htexts _ hmember)
    by_cases hname : name ∈ fieldNames
    · have hknown : (name, value) ∈ Row.known fieldNames members :=
        List.mem_filterMap.2 ⟨_, hmember, if_pos hname⟩
      obtain ⟨s, rfl, rfl⟩ := exists_setting hread hdistinct hname hknown
      exact ⟨.setting s, rfl⟩
    · exact ⟨.other name value hname, rfl⟩
  obtain ⟨entries, rfl⟩ : members ∈ Set.range (List.map Entry.member) := by
    rw [Set.range_list_map]
    exact hentry
  exact ⟨entries, rfl, distinct_iff.2 hdistinct⟩

theorem ofJson?_eq_some_iff {members : List (Option String × Json)} {c : Config} :
    ofJson? (.object members) = some c ↔
      ∃ entries, entries.map Entry.member = members ∧ Distinct entries ∧ c = overlay entries := by
  constructor
  · intro h
    obtain ⟨entries, rfl, hdistinct⟩ := exists_entries h
    rw [ofJson?_entries hdistinct] at h
    exact ⟨entries, rfl, hdistinct, (Option.some.inj h).symm⟩
  · rintro ⟨entries, rfl, hdistinct, rfl⟩
    exact ofJson?_entries hdistinct

theorem ofJson?_repeated {before between after : List (Option String × Json)} {name : String}
    {first second : Json} (hname : name ∈ fieldNames) :
    (ofJson? (.object (before ++ (some name, first) :: (between ++ (some name, second) :: after))) :
      Option Config) = none := by
  rw [Option.eq_none_iff_forall_ne_some]
  intro c h
  rw [ofJson?_object, Option.bind_eq_some_iff] at h
  obtain ⟨row, hrow, -⟩ := h
  obtain ⟨-, hdistinct, rfl⟩ := Row.ofMembers?_eq_some_iff.1 hrow
  rw [Row.known_append, Row.known_cons_of_mem hname, Row.known_append, Row.known_cons_of_mem hname,
    List.map_append, List.map_cons, List.map_append, List.map_cons] at hdistinct
  have htwice := (List.nodup_append.1 hdistinct).2.1
  exact (List.nodup_cons.1 htwice).1 (by simp)

theorem ofJson?_array_eq {items : List Json} (hlength : items.length ≤ fieldNames.length) :
    (ofJson? (.array items) : Option Config) =
      ofJson? (.record (fieldNames.zip items)) := by
  have hnames : (fieldNames.zip items).map Prod.fst <+: fieldNames := by
    rw [List.zip_eq_zip_take_min, List.map_fst_zip (by simp)]
    exact List.take_prefix _ _
  rw [ofJson?_array hlength, Json.record, ofJson?_object, Row.ofMembers?_record hnames (by decide),
    Option.bind_some]

/-! ## Overlays -/

theorem Setting.apply_comm {s t : Setting} (hname : s.name ≠ t.name) (c : Config) :
    s.apply (t.apply c) = t.apply (s.apply c) := by
  cases s <;> cases t <;> first | rfl | exact absurd rfl hname

theorem overlay_perm {entries entries' : List Entry} (hdistinct : Distinct entries)
    (hperm : (settings entries).Perm (settings entries')) : overlay entries = overlay entries' := by
  rw [overlay, overlay]
  refine hperm.foldr_eq' (fun s hs t ht c => ?_) _
  by_cases hname : s.name = t.name
  · rw [List.inj_on_of_nodup_map hdistinct hs ht hname]
  · exact Setting.apply_comm (Ne.symm hname) c

theorem overlay_standard {before after : List Entry} {s : Setting} (hs : s.IsStandard)
    (hdistinct : Distinct (before ++ .setting s :: after)) :
    overlay (before ++ .setting s :: after) = overlay (before ++ after) := by
  -- The setting may as well stand last, where it meets the standard configuration.
  have hperm : (settings (before ++ .setting s :: after)).Perm
      (settings (before ++ after ++ [.setting s])) := by
    refine List.Perm.filterMap _ ?_
    rw [List.append_assoc]
    exact (List.perm_append_singleton (.setting s) after).symm.append_left before
  rw [overlay_perm hdistinct hperm, overlay, settings, List.filterMap_append, List.foldr_append]
  exact congrArg (fun c => (settings (before ++ after)).foldr Setting.apply c) hs

/-! ## Texts -/

/-- The text holds an object with the given entries. -/
def Spells (s : String) (entries : List Entry) : Prop :=
  Json.read? s = some (.object (entries.map Entry.member))

theorem Spells.read?_eq {s : String} {entries : List Entry} (hs : Spells s entries)
    (hdistinct : Distinct entries) : read? s = some (overlay entries) := by
  rw [read?, hs, Option.bind_some, ofJson?_entries hdistinct]

theorem Setting.wellFormed_value (s : Setting) : s.value.WellFormed := by
  cases s <;> exact LawfulJsonForm.wellFormed_toJson _

theorem spells_text {entries : List Entry}
    (hvalues : ∀ entry ∈ entries, entry.member.2.WellFormed) :
    Spells (Json.object (entries.map Entry.member)).text entries :=
  Json.read?_text (Json.wellFormed_object.2 (List.forall_mem_map.2 hvalues))

/-- A text that holds an object is read as a configuration exactly if its members are settings, each
field at most once, and members with other names and any values, and the configuration is the
standard one with these settings put over it. So neither the order of the members nor those with
other names matter, and a setting with the standard value may as well be left out. An object that
gives a field twice is refused, whatever the values. An array of at most five values is read as the
object that gives them to the first fields. Every object has a text that holds it, and that is read
if no field comes twice. -/
theorem partial_overlays_standard :
    (∀ s members, Json.read? s = some (.object members) → ∀ c : Config, read? s = some c ↔
      ∃ entries, entries.map Entry.member = members ∧ Distinct entries ∧ c = overlay entries) ∧
    (∀ s s' entries entries', Spells s entries → Spells s' entries' → Distinct entries →
      (settings entries).Perm (settings entries') → (read? s : Option Config) = read? s') ∧
    (∀ s s' before setting after, Spells s (before ++ .setting setting :: after) →
      Spells s' (before ++ after) → setting.IsStandard →
      Distinct (before ++ .setting setting :: after) → (read? s : Option Config) = read? s') ∧
    (∀ s, ∀ name ∈ fieldNames, ∀ before first between second after,
      Json.read? s = some (.object
        (before ++ (some name, first) :: (between ++ (some name, second) :: after))) →
      (read? s : Option Config) = none) ∧
    (∀ s s' items, items.length ≤ 5 → Json.read? s = some (.array items) →
      Json.read? s' = some (.record (fieldNames.zip items)) →
      (read? s : Option Config) = read? s') ∧
    (∀ entries : List Entry, (∀ entry ∈ entries, entry.member.2.WellFormed) →
      Spells (Json.object (entries.map Entry.member)).text entries ∧
        (Distinct entries →
          read? (Json.object (entries.map Entry.member)).text = some (overlay entries))) := by
  refine ⟨?_, ?_, ?_, ?_, ?_, ?_⟩
  · intro s members hs c
    rw [read?, hs, Option.bind_some]
    exact ofJson?_eq_some_iff
  · intro s s' entries entries' hs hs' hdistinct hperm
    have hdistinct' : Distinct entries' := (hperm.map Setting.name).nodup_iff.1 hdistinct
    rw [hs.read?_eq hdistinct, hs'.read?_eq hdistinct', overlay_perm hdistinct hperm]
  · intro s s' before setting after hs hs' hsetting hdistinct
    have hdistinct' : Distinct (before ++ after) := by
      refine List.Nodup.sublist (List.Sublist.map _ (List.Sublist.filterMap _ ?_)) hdistinct
      exact (List.sublist_cons_self _ after).append_left before
    rw [hs.read?_eq hdistinct, hs'.read?_eq hdistinct', overlay_standard hsetting hdistinct]
  · intro s name hname before first between second after hs
    rw [read?, hs, Option.bind_some, ofJson?_repeated hname]
  · intro s s' items hlength hs hs'
    rw [read?, read?, hs, hs', Option.bind_some, Option.bind_some, ofJson?_array_eq hlength]
  · intro entries hvalues
    exact ⟨spells_text hvalues, (spells_text hvalues).read?_eq⟩

/-- Two settings, one of them with the standard value, between two members of one other name. -/
def sparseEntries : List Entry :=
  [.other "note" (.array [.object [], .null]) (by decide), .setting (.discardPercent 5),
    .setting (.scanBudget 250), .other "note" (.bool true) (by decide)]

/-- A text with these members. -/
def sparseText : String :=
  (Json.object (sparseEntries.map Entry.member)).text

theorem sparse_overlays_standard :
    Json.read? sparseText = some (.object (sparseEntries.map Entry.member)) ∧
      Distinct sparseEntries ∧ read? sparseText = some ({ scanBudget := 250 } : Config) := by
  have hvalues : ∀ entry ∈ sparseEntries, entry.member.2.WellFormed := by
    simp only [sparseEntries, List.forall_mem_cons, Entry.member, Setting.wellFormed_value]
    simp [Json.WellFormed, Json.tokens, Json.itemTokens, Json.memberTokens, Json.Token.WellFormed]
  have hdistinct : Distinct sparseEntries := by
    rw [Distinct]
    decide
  obtain ⟨hread, -, -, -, -, hwritten⟩ := partial_overlays_standard
  have hspells := (hwritten sparseEntries hvalues).1
  exact ⟨hspells, hdistinct,
    (hread _ _ hspells _).2 ⟨sparseEntries, rfl, hdistinct, rfl⟩⟩

end Config

end ShardMerge
