import ShardMerge.Json.Domain
import ShardMerge.Proofs.JsonText

/-!
# Round trips of JSON forms

Types whose values are read back from their JSON texts (`LawfulJsonForm`), built up from words and
texts over lists and records to the types of the domain. What reads the members of an object comes
down to two facts: every name is a text, and no field stands twice (`Row.ofMembers?_eq_some_iff`).
Main statement: every serialised type of the domain has the round trip (`domain_round_trips`).
-/

namespace ShardMerge

open JsonForm (toJson ofJson? natBelow? write read?)

/-! ## Records -/

namespace Row

/-- The members of an object that stand for fields. -/
def known (names : List String) (members : List (Option String × Json)) : Row :=
  members.filterMap fun member =>
    member.1.bind fun name => if name ∈ names then some (name, member.2) else none

theorem lookup_eq_none_iff {row : Row} {name : String} :
    row.lookup name = none ↔ name ∉ row.map Prod.fst := by
  simp only [List.lookup_eq_none_iff, List.mem_map, bne_iff_ne, not_exists, not_and, ne_comm, ne_eq]

section

variable {names : List String} {name : String} {value : Json}
  {members : List (Option String × Json)} {row : Row}

theorem known_cons_of_mem (hname : name ∈ names) :
    known names ((some name, value) :: members) = (name, value) :: known names members := by
  simp [known, hname]

theorem known_cons_of_not_mem (hname : name ∉ names) :
    known names ((some name, value) :: members) = known names members := by
  simp [known, hname]

theorem ofMembers?_cons_of_mem (hname : name ∈ names) :
    ofMembers? names ((some name, value) :: members) = some row ↔
      ∃ tail, ofMembers? names members = some tail ∧ tail.lookup name = none ∧
        row = (name, value) :: tail := by
  simp only [ofMembers?, if_pos hname]
  cases ofMembers? names members with
  | none => simp
  | some tail =>
    cases hlookup : tail.lookup name with
    | none => simp [hlookup, -List.lookup_eq_none_iff, eq_comm (a := row)]
    | some _ => simp [hlookup, -List.lookup_eq_none_iff]

theorem ofMembers?_cons_of_not_mem (hname : name ∉ names) :
    ofMembers? names ((some name, value) :: members) = ofMembers? names members := by
  rw [ofMembers?]
  cases ofMembers? names members with
  | none => rfl
  | some tail => exact if_neg hname

theorem ofMembers?_eq_some_iff :
    ofMembers? names members = some row ↔
      (∀ member ∈ members, member.1.isSome) ∧ (row.map Prod.fst).Nodup ∧
        row = known names members := by
  induction members generalizing row with
  | nil =>
    rw [ofMembers?]
    constructor
    · rintro ⟨⟩
      simp [known]
    · rintro ⟨-, -, rfl⟩
      rfl
  | cons member members ih =>
    obtain ⟨_ | name, value⟩ := member
    · simp [ofMembers?]
    rw [List.forall_mem_cons]
    by_cases hname : name ∈ names
    · rw [ofMembers?_cons_of_mem hname, known_cons_of_mem hname]
      constructor
      · rintro ⟨tail, htail, hfresh, rfl⟩
        obtain ⟨htexts, hdistinct, rfl⟩ := ih.1 htail
        exact ⟨⟨rfl, htexts⟩,
          List.nodup_cons.2 ⟨lookup_eq_none_iff.1 hfresh, hdistinct⟩, rfl⟩
      · rintro ⟨⟨-, htexts⟩, hdistinct, rfl⟩
        obtain ⟨hfresh, hdistinct⟩ := List.nodup_cons.1 hdistinct
        exact ⟨_, ih.2 ⟨htexts, hdistinct, rfl⟩, lookup_eq_none_iff.2 hfresh, rfl⟩
    · rw [ofMembers?_cons_of_not_mem hname, known_cons_of_not_mem hname, ih]
      simp

end

/-- An object with the first fields of a record, or with all of them. -/
theorem ofMembers?_record {names : List String} {fields : Row}
    (hnames : fields.map Prod.fst <+: names) (hdistinct : names.Nodup) :
    ofMembers? names (fields.map fun field => (some field.1, field.2)) = some fields := by
  have hknown : known names (fields.map fun field => (some field.1, field.2)) = fields := by
    rw [known, List.filterMap_map]
    refine Eq.trans (List.filterMap_congr fun field hfield => ?_) List.filterMap_some
    exact if_pos (hnames.subset (List.mem_map_of_mem hfield))
  refine ofMembers?_eq_some_iff.2
    ⟨fun member hmember => ?_, hnames.sublist.nodup hdistinct, hknown.symm⟩
  obtain ⟨field, -, rfl⟩ := List.mem_map.1 hmember
  rfl

end Row

/-- Types whose values are read back from their JSON forms. -/
class LawfulJsonForm (α : Type) [JsonForm α] : Prop where
  ofJson?_toJson (a : α) : ofJson? (toJson a) = some a
  wellFormed_toJson (a : α) : (toJson a).WellFormed

namespace LawfulJsonForm

variable {α : Type}

theorem read?_write [JsonForm α] [LawfulJsonForm α] (a : α) : read? (write a) = some a := by
  rw [read?, write, Json.read?_text (wellFormed_toJson a), Option.bind_some, ofJson?_toJson]

instance : LawfulJsonForm UInt64 where
  ofJson?_toJson n := by
    have hn : n.toNat < UInt64.size := n.toNat_lt
    simp [toJson, ofJson?, natBelow?, hn]
  wellFormed_toJson _ := List.forall_mem_singleton.2 trivial

instance : LawfulJsonForm UInt32 where
  ofJson?_toJson n := by
    have hn : n.toNat < UInt32.size := n.toNat_lt
    simp [toJson, ofJson?, natBelow?, hn]
  wellFormed_toJson _ := List.forall_mem_singleton.2 trivial

instance : LawfulJsonForm UInt8 where
  ofJson?_toJson n := by
    have hn : n.toNat < UInt8.size := n.toNat_lt
    simp [toJson, ofJson?, natBelow?, hn]
  wellFormed_toJson _ := List.forall_mem_singleton.2 trivial

instance : LawfulJsonForm Bool where
  ofJson?_toJson _ := rfl
  wellFormed_toJson _ := List.forall_mem_singleton.2 trivial

instance : LawfulJsonForm String where
  ofJson?_toJson _ := rfl
  wellFormed_toJson _ := List.forall_mem_singleton.2 trivial

/-- A value that may be missing, unless the value itself is written as null. -/
theorem option [JsonForm α] [LawfulJsonForm α] (hnull : ∀ a : α, toJson a ≠ .null) :
    LawfulJsonForm (Option α) where
  ofJson?_toJson
    | none => rfl
    | some a => by
      have hread : ofJson? (toJson (some a)) = (ofJson? (toJson a)).map (some (α := α)) := by
        have hne := hnull a
        simp only [toJson, ofJson?]
      rw [hread, ofJson?_toJson, Option.map_some]
  wellFormed_toJson
    | none => List.forall_mem_singleton.2 trivial
    | some a => wellFormed_toJson a

instance [JsonForm α] [LawfulJsonForm α] : LawfulJsonForm (List α) where
  ofJson?_toJson items := by
    change (items.map toJson).mapM ofJson? = some items
    induction items with
    | nil => rfl
    | cons item items ih =>
      rw [List.map_cons, List.mapM_cons, ofJson?_toJson, ih]
      rfl
  wellFormed_toJson items := by
    refine Json.wellFormed_array.2 fun item hitem => ?_
    obtain ⟨a, -, rfl⟩ := List.mem_map.1 hitem
    exact wellFormed_toJson a

/-! ## The types of the domain -/

instance : LawfulJsonForm Xid where
  ofJson?_toJson x := by
    change (ofJson? (toJson x.text)).map Xid.mk = some x
    rw [ofJson?_toJson, Option.map_some]
  wellFormed_toJson x := wellFormed_toJson x.text

instance : LawfulJsonForm SignalKind where
  ofJson?_toJson kind := by cases kind <;> rfl
  wellFormed_toJson kind := wellFormed_toJson kind.text

instance : LawfulJsonForm Tso where
  ofJson?_toJson t := by
    change (Row.ofMembers? _ (List.map _ _)).bind _ = _
    rw [Row.ofMembers?_record]
    · simp [Row.required?, List.lookup_cons, ofJson?_toJson]
    · exact List.prefix_rfl
    · decide
  wellFormed_toJson t := by
    refine Json.wellFormed_record.2 ?_
    simp [wellFormed_toJson]

instance : LawfulJsonForm ReadyKey where
  ofJson?_toJson k := by
    change (Row.ofMembers? _ (List.map _ _)).bind _ = _
    rw [Row.ofMembers?_record]
    · simp [Row.required?, List.lookup_cons, ofJson?_toJson]
    · exact List.prefix_rfl
    · decide
  wellFormed_toJson k := by
    refine Json.wellFormed_record.2 ?_
    simp [wellFormed_toJson]

instance : LawfulJsonForm (Option Tso) :=
  option fun _ => Json.noConfusion

instance : LawfulJsonForm (Option String) :=
  option fun _ => Json.noConfusion

instance : LawfulJsonForm Signal where
  ofJson?_toJson s := by
    change (Row.ofMembers? _ (List.map _ _)).bind _ = _
    rw [Row.ofMembers?_record]
    · simp [Row.required?, Row.withDefault?, List.lookup_cons, ofJson?_toJson]
    · exact List.prefix_rfl
    · decide
  wellFormed_toJson s := by
    refine Json.wellFormed_record.2 ?_
    simp [wellFormed_toJson]

instance : LawfulJsonForm Stats where
  ofJson?_toJson s := by
    change (Row.ofMembers? _ (List.map _ _)).bind _ = _
    rw [Row.ofMembers?_record]
    · simp [Row.required?, Row.withDefault?, List.lookup_cons, ofJson?_toJson]
    · exact List.prefix_rfl
    · decide
  wellFormed_toJson s := by
    refine Json.wellFormed_record.2 ?_
    simp [wellFormed_toJson]

instance : LawfulJsonForm Config where
  ofJson?_toJson c := by
    change (Row.ofMembers? _ (List.map _ _)).bind _ = _
    rw [Row.ofMembers?_record]
    · simp [Row.withDefault?, List.lookup_cons, ofJson?_toJson]
    · exact List.prefix_rfl
    · decide
  wellFormed_toJson c := by
    refine Json.wellFormed_record.2 ?_
    simp [wellFormed_toJson]

end LawfulJsonForm

/-! ## Round trips -/

namespace JsonForm

/-- The text of the value that a text is read as. -/
def canonical? (α : Type) [JsonForm α] (s : String) : Option String :=
  (read? s : Option α).map write

/-- Writing and reading undo each other: what is written is read back, so every text that is read
has a canonical text with the same value, and that text stands for the value among all texts. -/
structure RoundTrips (α : Type) [JsonForm α] : Prop where
  read?_write : ∀ a : α, read? (write a) = some a
  read?_canonical : ∀ s c, canonical? α s = some c →
    (read? c : Option α) = read? s ∧ canonical? α c = some c
  read?_eq_iff : ∀ s s', (read? s : Option α) = read? s' ↔ canonical? α s = canonical? α s'

theorem roundTrips (α : Type) [JsonForm α] [LawfulJsonForm α] : RoundTrips α where
  read?_write := LawfulJsonForm.read?_write
  read?_canonical s c h := by
    obtain ⟨a, ha, rfl⟩ := Option.map_eq_some_iff.1 h
    have hread : read? (write a) = some a := LawfulJsonForm.read?_write a
    exact ⟨hread.trans ha.symm, by rw [canonical?, hread, Option.map_some]⟩
  read?_eq_iff s s' := by
    refine ⟨fun h => congrArg (Option.map write) h, fun h => ?_⟩
    have hinj (a a' : α) (hwrite : write a = write a') : a = a' :=
      Option.some.inj <| by rw [← LawfulJsonForm.read?_write a, hwrite, LawfulJsonForm.read?_write]
    exact Option.map_injective hinj h

/-- Every serialised type of the domain has the round trip: all words of its fields up to their
limits, and all texts, whatever characters they hold. -/
theorem domain_round_trips :
    RoundTrips Config ∧ RoundTrips Stats ∧ RoundTrips Signal ∧ RoundTrips ReadyKey ∧
      RoundTrips Tso ∧ RoundTrips Xid ∧ RoundTrips SignalKind :=
  ⟨roundTrips Config, roundTrips Stats, roundTrips Signal, roundTrips ReadyKey, roundTrips Tso,
    roundTrips Xid, roundTrips SignalKind⟩

end JsonForm

end ShardMerge
