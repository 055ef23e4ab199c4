import ShardMerge.Json.Quoted
import ShardMerge.Text.Decimal

/-!
# Tokens of JSON

The lexical elements of a JSON text, how they are written, and how a text is cut into them. Blanks
between tokens are the four of the standard. A number without sign, fraction and exponent is a
natural number and has one spelling; any other number is kept as it is written.
-/

namespace ShardMerge.Json

/-- A lexical element. -/
inductive Token where
  | openArray
  | closeArray
  | openObject
  | closeObject
  | comma
  | colon
  | null
  | bool (b : Bool)
  /-- A number without sign, fraction and exponent. -/
  | nat (n : Nat)
  /-- Any other number. -/
  | decimal (spelling : List Char)
  /-- A string; none if it denotes no text. -/
  | string (text : Option String)
deriving DecidableEq, Repr

namespace Token

/-- The spelling of a token. For a string without a text it is half of a surrogate pair. -/
def text : Token → List Char
  | openArray => ['[']
  | closeArray => [']']
  | openObject => ['\x7b']
  | closeObject => ['\x7d']
  | comma => [',']
  | colon => [':']
  | null => ['n', 'u', 'l', 'l']
  | bool true => ['t', 'r', 'u', 'e']
  | bool false => ['f', 'a', 'l', 's', 'e']
  | nat n => Decimal.digits n
  | decimal spelling => spelling
  | string (some s) => '"' :: (Quoted.escapeAll s.toList ++ ['"'])
  | string none => ['"', '\\', 'u', 'd', '8', '0', '0', '"']

/-- Whether a character may stand between tokens. -/
def isSpace (c : Char) : Bool :=
  c == ' ' || c == '\n' || c == '\r' || c == '\t'

/-- Takes a run of at least one digit. -/
def digits? (s : List Char) : Option (List Char × List Char) :=
  if (s.takeWhile Char.isDigit).isEmpty then none
  else some (s.takeWhile Char.isDigit, s.dropWhile Char.isDigit)

/-- Takes the digits in front of the point: a zero, or a run that does not start with one. -/
def whole? (s : List Char) : Option (List Char × List Char) :=
  match s with
  | '0' :: rest => some (['0'], rest)
  | s => digits? s

/-- Takes the fraction, if there is one; a point has to be followed by a digit. -/
def fraction? (s : List Char) : Option (List Char × List Char) :=
  match s with
  | '.' :: rest => (digits? rest).map fun (ds, rest) => ('.' :: ds, rest)
  | s => some ([], s)

/-- Takes the exponent, if there is one; its mark and sign have to be followed by a digit. -/
def exponent? (s : List Char) : Option (List Char × List Char) :=
  match s with
  | [] => some ([], [])
  | mark :: rest =>
    if mark = 'e' ∨ mark = 'E' then
      match rest with
      | [] => none
      | sign :: after =>
        if sign = '+' ∨ sign = '-' then
          (digits? after).map fun (ds, rest) => (mark :: sign :: ds, rest)
        else (digits? rest).map fun (ds, rest) => (mark :: ds, rest)
    else some ([], s)

/-- Takes a number without its sign. -/
def unsigned? (s : List Char) : Option (List Char × List Char × List Char) :=
  match whole? s with
  | none => none
  | some (whole, rest) =>
    match fraction? rest with
    | none => none
    | some (fraction, rest) =>
      match exponent? rest with
      | none => none
      | some (exponent, rest) => some (whole, fraction ++ exponent, rest)

/-- Takes a number. -/
def number? (s : List Char) : Option (Token × List Char) :=
  match s with
  | '-' :: rest =>
    (unsigned? rest).map fun (whole, tail, rest) => (decimal ('-' :: (whole ++ tail)), rest)
  | s =>
    (unsigned? s).map fun (whole, tail, rest) =>
      (if tail.isEmpty then nat (Decimal.value whole) else decimal (whole ++ tail), rest)

/-- Takes the token at the beginning of a text. -/
def take? (s : List Char) : Option (Token × List Char) :=
  match s with
  | '[' :: rest => some (openArray, rest)
  | ']' :: rest => some (closeArray, rest)
  | '\x7b' :: rest => some (openObject, rest)
  | '\x7d' :: rest => some (closeObject, rest)
  | ',' :: rest => some (comma, rest)
  | ':' :: rest => some (colon, rest)
  | 'n' :: 'u' :: 'l' :: 'l' :: rest => some (null, rest)
  | 't' :: 'r' :: 'u' :: 'e' :: rest => some (bool true, rest)
  | 'f' :: 'a' :: 'l' :: 's' :: 'e' :: rest => some (bool false, rest)
  | '"' :: rest =>
    (Quoted.pieces? rest).map fun (pieces, rest) =>
      (string ((Quoted.text? pieces).map String.ofList), rest)
  | s => number? s

theorem length_of_digits? {s ds rest : List Char} (h : digits? s = some (ds, rest)) :
    rest.length < s.length := by
  rw [digits?] at h
  split at h
  · simp at h
  next hne =>
    obtain ⟨rfl, rfl⟩ : s.takeWhile Char.isDigit = ds ∧ s.dropWhile Char.isDigit = rest := by
      simpa using h
    have hlen := congrArg List.length (List.takeWhile_append_dropWhile (p := Char.isDigit) (l := s))
    rw [List.length_append] at hlen
    have : 0 < (s.takeWhile Char.isDigit).length := by
      rw [List.length_pos_iff]
      simpa using hne
    omega

theorem length_of_whole? {s ds rest : List Char} (h : whole? s = some (ds, rest)) :
    rest.length < s.length := by
  unfold whole? at h
  split at h
  · simp_all
  · exact length_of_digits? h

theorem length_of_fraction? {s ds rest : List Char} (h : fraction? s = some (ds, rest)) :
    rest.length ≤ s.length := by
  unfold fraction? at h
  split at h
  · obtain ⟨⟨ds', rest'⟩, hd, he⟩ := Option.map_eq_some_iff.1 h
    have := length_of_digits? hd
    simp_all
    omega
  · simp_all

theorem length_of_exponent? {s ds rest : List Char} (h : exponent? s = some (ds, rest)) :
    rest.length ≤ s.length := by
  unfold exponent? at h
  split at h
  · simp_all
  · split at h
    · split at h
      · simp at h
      · split at h <;>
        · obtain ⟨⟨ds', rest'⟩, hd, he⟩ := Option.map_eq_some_iff.1 h
          have := length_of_digits? hd
          simp_all
          omega
    · simp_all

theorem length_of_unsigned? {s whole tail rest : List Char}
    (h : unsigned? s = some (whole, tail, rest)) : rest.length < s.length := by
  rw [unsigned?] at h
  split at h
  · simp at h
  next hw =>
    split at h
    · simp at h
    next hf =>
      split at h
      · simp at h
      next he =>
        have := length_of_whole? hw
        have := length_of_fraction? hf
        have := length_of_exponent? he
        simp_all
        omega

theorem length_of_number? {s rest : List Char} {t : Token} (h : number? s = some (t, rest)) :
    rest.length < s.length := by
  unfold number? at h
  split at h <;>
  · obtain ⟨⟨whole, tail, rest'⟩, hu, he⟩ := Option.map_eq_some_iff.1 h
    have := length_of_unsigned? hu
    simp_all
    try omega

theorem length_of_take? {s rest : List Char} {t : Token} (h : take? s = some (t, rest)) :
    rest.length < s.length := by
  unfold take? at h
  split at h
  case h_10 =>
    obtain ⟨⟨pieces, rest'⟩, hp, he⟩ := Option.map_eq_some_iff.1 h
    have := Quoted.length_of_pieces? hp
    simp_all
    omega
  case h_11 => exact length_of_number? h
  all_goals
    simp_all
    try omega

/-- Cuts a text into its tokens. -/
def scan (s : List Char) : Option (List Token) :=
  match _hs : s.dropWhile isSpace with
  | [] => some []
  | c :: rest =>
    match _ht : take? (c :: rest) with
    | none => none
    | some (t, after) => (scan after).map (t :: ·)
termination_by s.length
decreasing_by
  have h₁ := length_of_take? _ht
  have h₂ := (List.dropWhile_sublist isSpace (l := s)).length_le
  rw [_hs] at h₂
  omega

end Token

end ShardMerge.Json
