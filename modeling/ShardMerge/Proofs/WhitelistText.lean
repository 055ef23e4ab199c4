import Mathlib.Data.List.TakeWhile
import ShardMerge.Whitelist.Text

/-!
# Lines that list identifiers

`Whitelist.Holds` says which fields hold which entries, and knows nothing of the reader: an entry
may stand between blanks, and blank fields may stand anywhere. Joined by the separator, such fields
are the lines that list these entries, and no other line does (`entries_eq_iff`). Lists of entries
therefore go through a line unharmed, and two lines that are joined list what they list one after
the other (`lines_list_what_they_hold`).
-/

namespace ShardMerge

namespace Text

/-! ## Trimming -/

/-- A text of blanks only. -/
def Blank (s : List Char) : Prop :=
  ∀ c ∈ s, isBlank c = true

instance (s : List Char) : Decidable (Blank s) :=
  List.decidableBAll (isBlank · = true) s

/-- Blanks behind a text are taken off it. -/
theorem trimEnd_append {s after : List Char} (h : Blank after) :
    trimEnd (s ++ after) = trimEnd s := by
  rw [trimEnd, List.reverse_append, List.dropWhile_append_of_pos, trimEnd]
  intro c hc
  exact h c (List.mem_reverse.1 hc)

theorem trim_eq_nil_iff {s : List Char} : trim s = [] ↔ Blank s := by
  rw [trim, trimEnd, List.reverse_eq_nil_iff, List.dropWhile_eq_nil_iff]
  refine ⟨fun h c hc => ?_, fun h c hc => ?_⟩
  · rw [← List.takeWhile_append_dropWhile (p := isBlank) (l := s), List.mem_append] at hc
    exact hc.elim List.mem_takeWhile_imp fun hc => h c (List.mem_reverse.2 hc)
  · exact h c ((List.dropWhile_sublist _).subset (List.mem_reverse.1 hc))

/-- Blanks around a text are taken off it. -/
theorem trim_padded {before s after : List Char} (hbefore : Blank before) (hafter : Blank after) :
    trim (before ++ s ++ after) = trim s := by
  have hstart : trimStart (before ++ s ++ after) = trimStart (s ++ after) := by
    rw [trimStart, List.append_assoc, List.dropWhile_append_of_pos hbefore, trimStart]
  rw [trim, hstart]
  by_cases hs : Blank s
  · have hall : Blank (s ++ after) := List.forall_mem_append.2 ⟨hs, hafter⟩
    rw [← trim, trim_eq_nil_iff.2 hall, trim_eq_nil_iff.2 hs]
  · have hrest : (s.dropWhile isBlank).isEmpty = false := by
      rwa [List.isEmpty_eq_false_iff, Ne, List.dropWhile_eq_nil_iff]
    rw [trimStart, List.dropWhile_append, hrest, if_neg (by simp), trimEnd_append hafter]
    rfl

/-- A text that neither begins nor ends with a blank is left as it is. -/
theorem trim_eq_self {s : List Char} (hhead : ∀ c ∈ s.head?, isBlank c = false)
    (hlast : ∀ c ∈ s.getLast?, isBlank c = false) : trim s = s := by
  have hdrop {t : List Char} (ht : ∀ c ∈ t.head?, isBlank c = false) :
      t.dropWhile isBlank = t := by
    cases t with
    | nil => rfl
    | cons c t => exact List.dropWhile_cons_of_neg (by simp [ht c rfl])
  rw [trim, trimStart, hdrop hhead, trimEnd, hdrop, List.reverse_reverse]
  rwa [List.head?_reverse]

/-- What is taken off a text are blanks at its two ends. -/
theorem exists_padding (s : List Char) :
    ∃ before after, Blank before ∧ Blank after ∧ s = before ++ trim s ++ after := by
  refine ⟨s.takeWhile isBlank, ((trimStart s).reverse.takeWhile isBlank).reverse,
    fun c => List.mem_takeWhile_imp, fun c hc => List.mem_takeWhile_imp (List.mem_reverse.1 hc), ?_⟩
  rw [List.append_assoc, trim, trimEnd, ← List.reverse_append, List.takeWhile_append_dropWhile,
    List.reverse_reverse, trimStart, List.takeWhile_append_dropWhile]

end Text

namespace Whitelist

/-- A text that a line can list: it is not empty, holds no separator, and neither begins nor ends
with a blank. -/
structure IsEntry (entry : List Char) : Prop where
  ne_nil : entry ≠ []
  unseparated : separator ∉ entry
  head : ∀ c ∈ entry.head?, Text.isBlank c = false
  last : ∀ c ∈ entry.getLast?, Text.isBlank c = false

/-- Entries are what trimming leaves as it is. -/
theorem isEntry_iff {entry : List Char} :
    IsEntry entry ↔ entry ≠ [] ∧ separator ∉ entry ∧ Text.trim entry = entry := by
  constructor
  · intro h
    exact ⟨h.ne_nil, h.unseparated, Text.trim_eq_self h.head h.last⟩
  · rintro ⟨hne, hsep, htrim⟩
    exact ⟨hne, hsep, fun c hc => Text.head?_trim (htrim ▸ hc),
      fun c hc => Text.getLast?_trim (htrim ▸ hc)⟩

instance (entry : List Char) : Decidable (IsEntry entry) :=
  decidable_of_iff _ isEntry_iff.symm

/-- The fields that hold the given entries, in order and with repetitions. -/
inductive Holds : List (List Char) → List (List Char) → Prop where
  | nil : Holds [] []
  /-- A field may be blank. -/
  | blank {field : List Char} {fields found : List (List Char)} (hfield : Text.Blank field)
    (rest : Holds fields found) : Holds (field :: fields) found
  /-- An entry may stand between blanks. -/
  | entry {before entry after : List Char} {fields found : List (List Char)}
    (hbefore : Text.Blank before) (hafter : Text.Blank after) (rest : Holds fields found) :
    Holds ((before ++ entry ++ after) :: fields) (entry :: found)

/-! ## Lines and their fields -/

theorem separator_not_mem_of_blank {field : List Char} (h : Text.Blank field) :
    separator ∉ field :=
  fun hmem => absurd (h separator hmem) (by decide)

/-- No field of a line holds the separator. -/
theorem separator_not_mem_of_mem_splitOn {line field : List Char}
    (h : field ∈ line.splitOn separator) : separator ∉ field := by
  induction line generalizing field with
  | nil => simp_all
  | cons c line ih =>
    rw [List.splitOn_cons_eq_if_modifyHead] at h
    split at h
    next =>
      rcases List.mem_cons.1 h with rfl | h
      · exact List.not_mem_nil
      · exact ih h
    next hc =>
      obtain ⟨first, fields, hsplit⟩ := List.exists_cons_of_ne_nil (List.splitOn_ne_nil separator line)
      rw [hsplit, List.modifyHead_cons, List.mem_cons] at h
      rw [hsplit] at ih
      rcases h with rfl | h
      · rw [List.mem_cons, not_or]
        exact ⟨fun heq => hc (by simp [heq]), ih List.mem_cons_self⟩
      · exact ih (List.mem_cons_of_mem _ h)

theorem isEntry_of_mem_entries {line entry : List Char} (h : entry ∈ entries line) :
    IsEntry entry := by
  obtain ⟨hmem, hne⟩ := List.mem_filter.1 h
  obtain ⟨field, hfield, rfl⟩ := List.mem_map.1 hmem
  obtain ⟨before, after, -, -, hpadded⟩ := Text.exists_padding field
  refine ⟨by simpa using hne, fun hsep => ?_, fun c => Text.head?_trim, fun c => Text.getLast?_trim⟩
  refine separator_not_mem_of_mem_splitOn hfield ?_
  rw [hpadded]
  exact List.mem_append_left _ (List.mem_append_right _ hsep)

theorem Holds.separator_not_mem {fields found : List (List Char)} (h : Holds fields found)
    (hfound : ∀ entry ∈ found, IsEntry entry) : ∀ field ∈ fields, separator ∉ field := by
  induction h with
  | nil => simp
  | blank hfield _ ih =>
    exact List.forall_mem_cons.2 ⟨separator_not_mem_of_blank hfield, ih hfound⟩
  | entry hbefore hafter _ ih =>
    obtain ⟨hentry, hfound⟩ := List.forall_mem_cons.1 hfound
    refine List.forall_mem_cons.2 ⟨?_, ih hfound⟩
    rw [List.mem_append, List.mem_append, not_or, not_or]
    exact ⟨⟨separator_not_mem_of_blank hbefore, hentry.unseparated⟩,
      separator_not_mem_of_blank hafter⟩

/-- What is left of the fields, when blanks are taken off, are the entries that they hold. -/
theorem Holds.filter_trim {fields found : List (List Char)} (h : Holds fields found)
    (hfound : ∀ entry ∈ found, IsEntry entry) :
    (fields.map Text.trim).filter (· ≠ []) = found := by
  induction h with
  | nil => rfl
  | blank hfield _ ih =>
    rw [List.map_cons, Text.trim_eq_nil_iff.2 hfield]
    exact ih hfound
  | @entry before entry after fields found hbefore hafter _ ih =>
    obtain ⟨hentry, hfound⟩ := List.forall_mem_cons.1 hfound
    have htrim : Text.trim (before ++ entry ++ after) = entry := by
      rw [Text.trim_padded hbefore hafter, Text.trim_eq_self hentry.head hentry.last]
    rw [List.map_cons, htrim, List.filter_cons_of_pos (by simpa using hentry.ne_nil), ih hfound]

theorem holds_filter_trim (fields : List (List Char)) :
    Holds fields ((fields.map Text.trim).filter (· ≠ [])) := by
  induction fields with
  | nil => exact .nil
  | cons field fields ih =>
    rw [List.map_cons]
    by_cases hfield : Text.trim field = []
    · rw [List.filter_cons_of_neg (by simpa using hfield)]
      exact .blank (Text.trim_eq_nil_iff.1 hfield) ih
    · rw [List.filter_cons_of_pos (by simpa using hfield)]
      obtain ⟨before, after, hbefore, hafter, hpadded⟩ := Text.exists_padding field
      have hholds := @Holds.entry before (Text.trim field) after _ _ hbefore hafter ih
      rwa [← hpadded] at hholds

/-- Entries that stand alone in their fields. -/
theorem holds_self (found : List (List Char)) : Holds found found := by
  induction found with
  | nil => exact .nil
  | cons entry found ih =>
    have hholds := @Holds.entry [] entry [] _ _ (by decide) (by decide) ih
    rwa [List.nil_append, List.append_nil] at hholds

/-- A line lists the given entries exactly if its fields hold them. -/
theorem entries_eq_iff {line : List Char} {found : List (List Char)} :
    entries line = found ↔
      (∀ entry ∈ found, IsEntry entry) ∧
        ∃ fields, Holds fields found ∧ line = [separator].intercalate fields := by
  constructor
  · rintro rfl
    exact ⟨fun _ => isEntry_of_mem_entries, line.splitOn separator, holds_filter_trim _,
      (List.intercalate_splitOn separator).symm⟩
  · rintro ⟨hfound, fields, hholds, rfl⟩
    rw [entries]
    by_cases hfields : fields = []
    -- Without fields there is one field nonetheless, and it is blank.
    · subst hfields
      cases hholds
      rfl
    · rw [List.splitOn_intercalate separator (hholds.separator_not_mem hfound) hfields,
        hholds.filter_trim hfound]

theorem entries_append (line line' : List Char) :
    entries (line ++ separator :: line') = entries line ++ entries line' := by
  rw [entries, List.splitOn_append_cons_self, List.map_append, List.filter_append]
  rfl

/-! ## Identifiers -/

/-- The identifiers of a line are its entries. -/
theorem map_xidsOfText (line : String) :
    (xidsOfText line).map (·.text.toList) = entries line.toList := by
  simp [xidsOfText, Function.comp_def]

theorem xidsOfText_eq_iff {line : String} {xids : List Xid} :
    xidsOfText line = xids ↔ entries line.toList = xids.map (·.text.toList) := by
  rw [← map_xidsOfText, List.map_inj_right]
  rintro ⟨s⟩ ⟨s'⟩ heq
  exact congrArg Xid.mk (String.toList_injective heq)

/-- A line lists the given identifiers exactly if they are entries and its fields hold them. -/
theorem xidsOfText_eq_iff_holds {line : String} {xids : List Xid} :
    xidsOfText line = xids ↔
      (∀ x ∈ xids, IsEntry x.text.toList) ∧
        ∃ fields : List String,
          Holds (fields.map String.toList) (xids.map (·.text.toList)) ∧
            line = "#".intercalate fields := by
  rw [xidsOfText_eq_iff, entries_eq_iff, List.forall_mem_map]
  refine and_congr_right fun _ => ⟨?_, ?_⟩
  · rintro ⟨fields, hholds, hline⟩
    have hfields : (fields.map String.ofList).map String.toList = fields := by
      simp [Function.comp_def]
    refine ⟨fields.map String.ofList, by rwa [hfields], String.toList_injective ?_⟩
    rw [hline, String.toList_intercalate, hfields]
    rfl
  · rintro ⟨fields, hholds, rfl⟩
    exact ⟨_, hholds, String.toList_intercalate⟩

/-- A line that is two lines with a separator between them lists what the first one lists and then
what the second one does. Everything that a line lists is an entry. A line lists the given
identifiers, in order and with repetitions, exactly if they are entries and the line consists of
fields that hold them, with any blanks around them and any blank fields between them. So what a line
lists, joined by the separator, lists the same. -/
theorem lines_list_what_they_hold :
    (∀ line line' : String,
      xidsOfText (line ++ "#" ++ line') = xidsOfText line ++ xidsOfText line') ∧
    (∀ line, ∀ x ∈ xidsOfText line, IsEntry x.text.toList) ∧
    (∀ (line : String) (xids : List Xid),
      xidsOfText line = xids ↔
        (∀ x ∈ xids, IsEntry x.text.toList) ∧
          ∃ fields : List String,
            Holds (fields.map String.toList) (xids.map (·.text.toList)) ∧
              line = "#".intercalate fields) ∧
    ∀ line, xidsOfText ("#".intercalate ((xidsOfText line).map Xid.text)) = xidsOfText line := by
  refine ⟨fun line line' => ?_, fun line x hx => ?_, fun line xids => xidsOfText_eq_iff_holds,
    fun line => ?_⟩
  · rw [xidsOfText_eq_iff, List.map_append, map_xidsOfText, map_xidsOfText, ← entries_append,
      String.toList_append, String.toList_append, List.append_assoc]
    rfl
  · exact isEntry_of_mem_entries (map_xidsOfText line ▸ List.mem_map_of_mem hx)
  · refine xidsOfText_eq_iff_holds.2 ⟨(xidsOfText_eq_iff_holds.1 rfl).1, _, ?_, rfl⟩
    rw [List.map_map]
    exact holds_self _

/-- A line with blanks of several kinds, blank fields, and an entry that comes twice and holds a
blank. -/
def wideLine : String :=
  "\u3000x 1 # \t##é\u00a0\n#x 1"

theorem wideLine_lists :
    (∀ x ∈ xidsOfText wideLine, IsEntry x.text.toList) ∧
      xidsOfText wideLine = [⟨"x 1"⟩, ⟨"é"⟩, ⟨"x 1"⟩] ∧
      xidsOfText "x 1#é#x 1" = xidsOfText wideLine := by
  have hfirst : Text.Blank ['\u3000'] ∧ Text.Blank [' '] := by decide
  have hsecond : Text.Blank [] ∧ Text.Blank ['\u00a0', '\n'] := by decide
  have hlists : xidsOfText wideLine = [⟨"x 1"⟩, ⟨"é"⟩, ⟨"x 1"⟩] := by
    refine (lines_list_what_they_hold.2.2.1 _ _).2
      ⟨by decide, ["\u3000x 1 ", " \t", "", "é\u00a0\n", "x 1"], ?_, by decide⟩
    exact @Holds.entry _ ['x', ' ', '1'] _ _ _ hfirst.1 hfirst.2
      (.blank (by decide) (.blank (by decide)
        (@Holds.entry _ ['é'] _ _ _ hsecond.1 hsecond.2 (holds_self [['x', ' ', '1']]))))
  refine ⟨lines_list_what_they_hold.2.1 wideLine, hlists, ?_⟩
  have hjoined := lines_list_what_they_hold.2.2.2 wideLine
  rw [hlists] at hjoined ⊢
  exact hjoined

end Whitelist

end ShardMerge
