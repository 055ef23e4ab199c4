import Mathlib.Order.Monotone.Basic
import ShardMerge.Proofs.Order
import ShardMerge.Proofs.TsoOrder

/-!
# The order in which keys leave

Ready keys compare by the three parts of their timestamps and then by the bytes of their
identifiers. Identifiers are ordered by code points, which is the same: an encoding begins with a
byte that grows with its length, and encodings of one length compare as their code points
(`Utf8.compare_encode`). The order tells any two different keys apart, so the way in which a heap
is filled and laid out cannot show in what is taken out of it (`keys_leave_in_order`).
-/

namespace ShardMerge

namespace Utf8

/-! ## Code points and bytes -/

/-- The bytes behind the first one, of which each carries six bits. -/
def trail : Nat → Nat → List UInt8
  | 0, _ => []
  | k + 1, n => UInt8.ofNat (n / 64 ^ k % 64 + 128) :: trail k n

/-- The number of bytes behind the first one that a code point needs. -/
def extra (n : Nat) : Nat :=
  if n ≤ 0x7f then 0
  else if n ≤ 0x7ff then 1
  else if n ≤ 0xffff then 2
  else 3

/-- The mark of a first byte with so many bytes behind it. -/
def mark : Nat → Nat
  | 0 => 0
  | 1 => 0xc0
  | 2 => 0xe0
  | 3 => 0xf0
  | _ => 0xf8

/-- The first byte of a code point. -/
def first (n : Nat) : Nat :=
  n / 64 ^ extra n + mark (extra n)

theorem toNat_lt (c : Char) : c.toNat < 0x110000 := by
  have hscalar := c.valid
  simp only [UInt32.isValidChar, Nat.isValidChar] at hscalar
  show c.val.toNat < 0x110000
  omega

/-- A character is encoded by its first byte and those behind it. -/
theorem encode_eq (c : Char) :
    String.utf8EncodeChar c = UInt8.ofNat (first c.toNat) :: trail (extra c.toNat) c.toNat := by
  have hvalid := toNat_lt c
  have hcode : c.val.toNat = c.toNat := rfl
  simp only [String.utf8EncodeChar, hcode, first, extra]
  generalize c.toNat = n at hvalid
  split_ifs with h₁ h₂ h₃
  · simp [trail, mark]
  · rw [Nat.mod_eq_of_lt (by omega : n / 64 < 32)]
    simp [trail, mark]
  · rw [Nat.mod_eq_of_lt (by omega : n / 4096 < 16)]
    simp [trail, mark]
  · rw [Nat.mod_eq_of_lt (by omega : n / 262144 < 8)]
    simp [trail, mark]

theorem extra_le_extra {n m : Nat} (h : n ≤ m) : extra n ≤ extra m := by
  unfold extra
  split_ifs <;> omega

theorem mark_le_mark {k j : Nat} (h : k ≤ j) : mark k ≤ mark j := by
  refine monotone_nat_of_le_succ (f := mark) (fun n => ?_) h
  match n with
  | 0 | 1 | 2 | 3 | n + 4 => simp [mark]

/-- A first byte is below the mark of longer encodings. -/
theorem first_lt_mark {n : Nat} (hn : n < 0x110000) : first n < mark (extra n + 1) := by
  unfold first extra
  split_ifs <;> simp only [mark] <;> omega

theorem first_lt_size {n : Nat} (hn : n < 0x110000) : first n < 256 := by
  refine (first_lt_mark hn).trans_le ?_
  unfold mark
  split <;> omega

theorem compare_ofNat {a b : Nat} (hab : a < b) (hb : b < 256) :
    compare (UInt8.ofNat a) (UInt8.ofNat b) = .lt := by
  refine compareOfLessAndEq_eq_lt.2 ?_
  rw [UInt8.lt_iff_toNat_lt, UInt8.toNat_ofNat', UInt8.toNat_ofNat', Nat.mod_eq_of_lt hb,
    Nat.mod_eq_of_lt (hab.trans hb)]
  exact hab

/-- Behind equal first bytes, the smaller code point has the smaller bytes. -/
theorem compare_trail {k n m : Nat} (hfirst : n / 64 ^ k = m / 64 ^ k) (h : n < m)
    (bs bs' : List UInt8) : compare (trail k n ++ bs) (trail k m ++ bs') = .lt := by
  induction k with
  | zero =>
    rw [Nat.pow_zero, Nat.div_one, Nat.div_one] at hfirst
    omega
  | succ k ih =>
    rw [Nat.pow_succ, ← Nat.div_div_eq_div_mul, ← Nat.div_div_eq_div_mul] at hfirst
    rw [trail, trail, List.cons_append, List.cons_append, List.compare_cons_cons,
      Ordering.then_eq_lt]
    -- The next six bits decide, or they are equal too and one byte less is left.
    rcases Nat.lt_or_eq_of_le (Nat.div_le_div_right h.le : n / 64 ^ k ≤ m / 64 ^ k) with hlt | heq
    · exact Or.inl (compare_ofNat (by omega) (by omega))
    · exact Or.inr ⟨by rw [heq]; exact Std.ReflOrd.compare_self, ih heq⟩

/-- The smaller of two characters has the smaller encoding, whatever follows. -/
theorem compare_encode_append {c d : Char} (h : c < d) (bs bs' : List UInt8) :
    compare (String.utf8EncodeChar c ++ bs) (String.utf8EncodeChar d ++ bs') = .lt := by
  have hlt : c.toNat < d.toNat := h
  have hsize : first d.toNat < 256 := first_lt_size (toNat_lt d)
  rw [encode_eq, encode_eq, List.cons_append, List.cons_append, List.compare_cons_cons,
    Ordering.then_eq_lt]
  rcases Nat.lt_or_eq_of_le (extra_le_extra hlt.le) with hextra | hextra
  · have hmark : mark (extra c.toNat + 1) ≤ first d.toNat :=
      (mark_le_mark hextra).trans (Nat.le_add_left _ _)
    exact Or.inl (compare_ofNat ((first_lt_mark (toNat_lt c)).trans_le hmark) hsize)
  · rw [first, first, hextra] at *
    rcases Nat.lt_or_eq_of_le (Nat.div_le_div_right hlt.le :
      c.toNat / 64 ^ extra d.toNat ≤ d.toNat / 64 ^ extra d.toNat) with hfirst | hfirst
    · exact Or.inl (compare_ofNat (Nat.add_lt_add_right hfirst _) hsize)
    · exact Or.inr ⟨by rw [hfirst]; exact Std.ReflOrd.compare_self, compare_trail hfirst hlt _ _⟩

/-- Texts compare by their bytes as by their characters. -/
theorem compare_encode (cs ds : List Char) :
    compare (cs.flatMap String.utf8EncodeChar) (ds.flatMap String.utf8EncodeChar) =
      compare cs ds := by
  induction cs generalizing ds with
  | nil =>
    cases ds with
    | nil => rfl
    | cons d ds =>
      obtain ⟨b, bs, hb⟩ := List.exists_cons_of_ne_nil (String.utf8EncodeChar_ne_nil (c := d))
      simp [List.flatMap_cons, hb]
  | cons c cs ih =>
    cases ds with
    | nil =>
      obtain ⟨b, bs, hb⟩ := List.exists_cons_of_ne_nil (String.utf8EncodeChar_ne_nil (c := c))
      simp [List.flatMap_cons, hb]
    | cons d ds =>
      rw [List.flatMap_cons, List.flatMap_cons, List.compare_cons_cons]
      cases hchar : compare c d with
      | lt =>
        rw [compare_encode_append (compareOfLessAndEq_eq_lt.1 hchar)]
        rfl
      | eq =>
        obtain rfl := Std.LawfulEqOrd.eq_of_compare hchar
        rw [compare_append rfl, Std.ReflOrd.compare_self, ih]
      | gt =>
        have hswap : compare d c = .lt := by
          rw [Std.OrientedOrd.eq_swap, hchar]
          rfl
        rw [Std.OrientedOrd.eq_swap, compare_encode_append (compareOfLessAndEq_eq_lt.1 hswap)]
        rfl

end Utf8

/-- The bytes of an identifier. -/
def Xid.bytes (x : Xid) : List UInt8 :=
  x.text.toUTF8.data.toList

/-- Identifiers compare by their bytes. -/
theorem Xid.compare_bytes (x y : Xid) : compare x.bytes y.bytes = compare x y := by
  have hbytes (x : Xid) : x.bytes = x.text.toList.flatMap String.utf8EncodeChar := by
    rw [bytes, String.toUTF8, ← String.utf8Encode_toList, List.utf8Encode, List.data_toByteArray]
  have htext : compare x y = compare x.text y.text := rfl
  rw [hbytes, hbytes, Utf8.compare_encode, htext, ← String.ofList_toList (s := x.text),
    ← String.ofList_toList (s := y.text), Decimal.compare_ofList, String.toList_ofList,
    String.toList_ofList]

namespace ReadyKey

/-! ## Keys -/

/-- Any two keys compare. -/
theorem comparison?_eq (a b : ReadyKey) : a.comparison? b = some (compare a b) := by
  have hlt (a b : ReadyKey) : a < b ↔ compare a b = .lt := Iff.rfl
  simp only [comparison?, hlt, ← Std.LawfulEqOrd.compare_eq_iff_eq (a := a),
    Std.OrientedOrd.eq_swap (a := b)]
  cases compare a b <;> simp

/-- The keys that a heap gives back, one after the other: each is one of those that are left, and
none of these is below it. -/
inductive LeastFirst : List ReadyKey → List ReadyKey → Prop where
  | nil : LeastFirst [] []
  | cons {keys out : List ReadyKey} {k : ReadyKey} (present : k ∈ keys)
    (least : ∀ k' ∈ keys, compare k' k ≠ .lt) (rest : LeastFirst (keys.erase k) out) :
    LeastFirst keys (k :: out)

/-- What comes out least first are the keys that went in, in ascending order. -/
theorem leastFirst_iff {keys out : List ReadyKey} :
    LeastFirst keys out ↔ out.Perm keys ∧ out.Pairwise (· ≤ ·) := by
  constructor
  · intro h
    induction h with
    | nil => exact ⟨.refl _, .nil⟩
    | @cons keys out k present least _ ih =>
      obtain ⟨hperm, hsorted⟩ := ih
      refine ⟨(hperm.cons k).trans (List.perm_cons_erase present).symm, ?_⟩
      refine List.pairwise_cons.2 ⟨fun k' hk' => ?_, hsorted⟩
      exact not_lt.1 (least k' (List.mem_of_mem_erase (hperm.mem_iff.1 hk')))
  · rintro ⟨hperm, hsorted⟩
    induction out generalizing keys with
    | nil =>
      obtain rfl := List.nil_perm.1 hperm
      exact .nil
    | cons k out ih =>
      obtain ⟨hleast, hsorted⟩ := List.pairwise_cons.1 hsorted
      obtain ⟨present, hrest⟩ := List.cons_perm_iff_perm_erase.1 hperm
      refine .cons present (fun k' hk' => ?_) (ih hrest hsorted)
      rcases List.mem_cons.1 (hperm.mem_iff.2 hk') with rfl | hk'
      · exact lt_irrefl k'
      · exact not_lt.2 (hleast k' hk')

/-- A list of keys has one ascending arrangement. -/
theorem eq_of_perm_of_sorted {keys keys' : List ReadyKey} (hperm : keys.Perm keys')
    (h : keys.Pairwise (· ≤ ·)) (h' : keys'.Pairwise (· ≤ ·)) : keys = keys' :=
  hperm.eq_of_pairwise (fun _ _ _ _ => le_antisymm) h h'

/-- The ready queue gives back its keys as every heap does. -/
theorem leastFirst_iff_eq {keys out : List ReadyKey} :
    LeastFirst keys out ↔ out = (ReadyQueue.ofList keys).keys := by
  have hperm := ReadyQueue.ofList_perm keys
  have hsorted := (ReadyQueue.ofList keys).sorted
  rw [leastFirst_iff]
  constructor
  · rintro ⟨hperm', hsorted'⟩
    exact eq_of_perm_of_sorted (hperm'.trans hperm.symm) hsorted' hsorted
  · rintro rfl
    exact ⟨hperm, hsorted⟩

/-- Keys are in a linear order, under which no two different keys are equal, and which compares the
parts of their timestamps and then the bytes of their identifiers; `<` and `=` together always tell
how two keys compare. So a heap that is filled with keys, in whichever order, gives back one list,
however it breaks ties: the ascending arrangement of these keys, with repetitions. -/
theorem keys_leave_in_order :
    (∀ a b : ReadyKey, compare b a = (compare a b).swap) ∧
    (∀ a b c : ReadyKey, (compare a b).isLE → (compare b c).isLE → (compare a c).isLE) ∧
    (∀ a b : ReadyKey, compare a b = .eq ↔ a = b) ∧
    (∀ a b : ReadyKey,
      compare a b =
        (((compare a.tso.time b.tso.time).then
          (compare a.tso.transactionId b.tso.transactionId)).then
            (compare a.tso.seq b.tso.seq)).then (compare a.xid.bytes b.xid.bytes)) ∧
    (∀ a b : ReadyKey, a.comparison? b = some (compare a b)) ∧
    (∀ keys out : List ReadyKey,
      LeastFirst keys out ↔ out.Perm keys ∧ out.Pairwise fun a b => compare a b ≠ .gt) ∧
    (∀ keys out : List ReadyKey, LeastFirst keys out ↔ out = (ReadyQueue.ofList keys).keys) ∧
    ∀ keys keys' : List ReadyKey, keys'.Perm keys →
      (ReadyQueue.ofList keys').keys = (ReadyQueue.ofList keys).keys := by
  refine ⟨fun a b => Std.OrientedOrd.eq_swap, fun a b c => Std.TransOrd.isLE_trans,
    fun a b => Std.LawfulEqOrd.compare_eq_iff_eq, fun a b => ?_, comparison?_eq, fun keys out => ?_,
    fun keys out => leastFirst_iff_eq, fun keys keys' hperm => ?_⟩
  · rw [Xid.compare_bytes, Ordering.then_assoc (compare a.tso.time b.tso.time)]
    rfl
  · rw [leastFirst_iff]
    have hle (a b : ReadyKey) : a ≤ b ↔ compare a b ≠ .gt := Ordering.isLE_iff_ne_gt
    simp only [hle]
  · have hall := (ReadyQueue.ofList_perm keys').trans
      (hperm.trans (ReadyQueue.ofList_perm keys).symm)
    exact eq_of_perm_of_sorted hall (ReadyQueue.ofList keys').sorted (ReadyQueue.ofList keys).sorted

/-- Keys with one timestamp, of which one comes twice. In units of sixteen bits, the first
identifier would come before the second one. -/
def tiedKeys : List ReadyKey :=
  [⟨.ofTime 5, ⟨"😀"⟩⟩, ⟨.ofTime 5, ⟨"\uffff"⟩⟩, ⟨.ofTime 5, ⟨"z"⟩⟩, ⟨.ofTime 5, ⟨"\uffff"⟩⟩]

theorem tiedKeys_leave_in_order :
    LeastFirst tiedKeys.reverse
        [⟨.ofTime 5, ⟨"z"⟩⟩, ⟨.ofTime 5, ⟨"\uffff"⟩⟩, ⟨.ofTime 5, ⟨"\uffff"⟩⟩,
          ⟨.ofTime 5, ⟨"😀"⟩⟩] ∧
      (compare (⟨.ofTime 5, ⟨"z"⟩⟩ : ReadyKey) ⟨.ofTime 5, ⟨"😀"⟩⟩).isLE := by
  obtain ⟨-, htrans, -, -, -, -, hheap, hfilled⟩ := keys_leave_in_order
  refine ⟨?_, htrans _ ⟨.ofTime 5, ⟨"\uffff"⟩⟩ _ (by decide) (by decide)⟩
  rw [hheap, hfilled tiedKeys tiedKeys.reverse (List.reverse_perm tiedKeys)]
  decide

end ReadyKey

end ShardMerge
