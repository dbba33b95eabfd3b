/-
# What `Json::StyledWriter` writes and `Json::Reader` makes of it

`styled` is the text of a value without the state of the writer: an array of
scalars that fits into a line is one line, everything else that has elements
takes a line for each. `writeValue_eq` says that the writer computes it, and
`reads_styled` what the reader makes of it. The reader knows an integer by its
size and a text by what a C string keeps of it: `Value.normal` is the value
that comes back.

Key definitions: `styled`, `Value.WellFormed`, `Value.normal`.
Key theorems: `parse_write_eq`, `write_eq_iff`, `parse_write_eq_self_iff`.
-/
import Horo.Json.Reader

namespace Horo
namespace Json

open Lib

/-! ### Values -/

namespace Value

/-- An integer as the reader types it: an `int` where it is one, else a `uint`. -/
def ofInteger (i : Int) : Value := if i ≤ maxInt then .int i else .uint i.toNat

/-- A value of jsoncpp without doubles: the integers are those of their types, but
for the least `int`, whose negation overflows; the members of an object have
the names of C strings and stand in their order. -/
inductive WellFormed : Value → Prop
  | null : WellFormed .null
  | bool (b : Bool) : WellFormed (.bool b)
  | int {i : Int} (h : -2 ^ 63 < i ∧ i < 2 ^ 63) : WellFormed (.int i)
  | uint {n : ℕ} (h : n < 2 ^ 64) : WellFormed (.uint n)
  | string (s : String) : WellFormed (.string s)
  | array {xs : List Value} (h : ∀ x ∈ xs, WellFormed x) : WellFormed (.array xs)
  | object {members : Members} (hname : ∀ m ∈ members, cstr m.1 = m.1)
      (horder : members.Pairwise Before) (h : ∀ m ∈ members, WellFormed m.2) :
      WellFormed (.object members)

mutual

/-- What is read where a value was written. -/
def normal : Value → Value
  | .int i => ofInteger i
  | .uint n => ofInteger n
  | .string s => .string (cstr s)
  | .array xs => .array (normalElements xs)
  | .object members => .object (normalMembers members)
  | v => v

def normalElements : List Value → List Value
  | [] => []
  | x :: xs => x.normal :: normalElements xs

def normalMembers : List (String × Value) → List (String × Value)
  | [] => []
  | (name, child) :: members => (name, child.normal) :: normalMembers members

end

theorem normalElements_eq : ∀ xs : List Value, normalElements xs = xs.map normal
  | [] => by rw [normalElements]; rfl
  | x :: xs => by rw [normalElements, normalElements_eq xs]; rfl

theorem normalMembers_eq : ∀ members : Members,
    normalMembers members = members.map fun m => (m.1, m.2.normal)
  | [] => by rw [normalMembers]; rfl
  | (name, child) :: members => by rw [normalMembers, normalMembers_eq members]; rfl

theorem normal_array (xs : List Value) : normal (.array xs) = .array (xs.map normal) := by
  rw [normal, normalElements_eq]

theorem normal_object (members : Members) :
    normal (.object members) = .object (members.map fun m => (m.1, m.2.normal)) := by
  rw [normal, normalMembers_eq]

theorem ofInteger_cases (i : Int) :
    i ≤ maxInt ∧ ofInteger i = .int i ∨ maxInt < i ∧ ofInteger i = .uint i.toNat := by
  by_cases h : i ≤ maxInt
  · exact .inl ⟨h, if_pos h⟩
  · exact .inr ⟨Int.not_le.mp h, if_neg h⟩

theorem WellFormed.ofInteger {i : Int} (h : -2 ^ 63 < i ∧ i < 2 ^ 64) : (ofInteger i).WellFormed := by
  rcases ofInteger_cases i with ⟨hle, he⟩ | ⟨-, he⟩
  · unfold maxInt at hle
    rw [he]
    exact .int ⟨h.1, by omega⟩
  · rw [he]
    exact .uint (by omega)

theorem WellFormed.normal {v : Value} (h : v.WellFormed) : v.normal.WellFormed := by
  induction h with
  | null => exact .null
  | bool b => exact .bool b
  | @int i h => exact WellFormed.ofInteger ⟨h.1, by omega⟩
  | @uint n h => exact WellFormed.ofInteger ⟨by omega, by omega⟩
  | string s => exact .string _
  | @array xs hform ih =>
    rw [normal_array]
    refine .array fun x hx => ?_
    obtain ⟨y, hy, rfl⟩ := List.mem_map.mp hx
    exact ih y hy
  | @object members hname horder hform ih =>
    rw [normal_object]
    refine .object (fun m hm => ?_) (List.pairwise_map.mpr horder) fun m hm => ?_
    · obtain ⟨n, hn, rfl⟩ := List.mem_map.mp hm
      exact hname n hn
    · obtain ⟨n, hn, rfl⟩ := List.mem_map.mp hm
      exact ih n hn

/-- The values that come back as they were: small `int`s, large `uint`s and
texts without a NUL. -/
inductive Kept : Value → Prop
  | null : Kept .null
  | bool (b : Bool) : Kept (.bool b)
  | int {i : Int} (h : i ≤ maxInt) : Kept (.int i)
  | uint {n : ℕ} (h : maxInt < n) : Kept (.uint n)
  | string {s : String} (h : '\x00' ∉ s.toList) : Kept (.string s)
  | array {xs : List Value} (h : ∀ x ∈ xs, Kept x) : Kept (.array xs)
  | object {members : Members} (h : ∀ m ∈ members, Kept m.2) : Kept (.object members)

theorem map_eq_self_iff {α : Type} {f : α → α} {xs : List α} : xs.map f = xs ↔ ∀ x ∈ xs, f x = x := by
  have h : xs.map f = xs.map id ↔ ∀ x ∈ xs, f x = id x := List.map_inj_left
  rwa [List.map_id] at h

theorem normal_eq_self_iff {v : Value} (h : v.WellFormed) : v.normal = v ↔ v.Kept := by
  induction h with
  | null => exact iff_of_true rfl .null
  | bool b => exact iff_of_true rfl (.bool b)
  | @int i _ =>
    rcases ofInteger_cases i with ⟨hle, he⟩ | ⟨hlt, he⟩
    · exact iff_of_true he (.int hle)
    · refine iff_of_false (fun hsame => ?_) fun | .int hle => absurd hle (Int.not_le.mpr hlt)
      cases he.symm.trans hsame
  | @uint n _ =>
    rcases ofInteger_cases n with ⟨hle, he⟩ | ⟨hlt, he⟩
    · refine iff_of_false (fun hsame => ?_) fun | .uint hlt => absurd hle (Int.not_le.mpr hlt)
      cases he.symm.trans hsame
    · exact iff_of_true he (.uint hlt)
  | string s =>
    have hkept : (string s).Kept ↔ '\x00' ∉ s.toList := ⟨fun | .string h => h, .string⟩
    rw [hkept, normal, Value.string.injEq, cstr_eq_self_iff]
  | @array xs hform ih =>
    have hkept : (array xs).Kept ↔ ∀ x ∈ xs, x.Kept := ⟨fun | .array h => h, .array⟩
    rw [hkept, normal_array, Value.array.injEq, map_eq_self_iff]
    exact forall₂_congr ih
  | @object members hname horder hform ih =>
    have hkept : (object members).Kept ↔ ∀ m ∈ members, m.2.Kept := ⟨fun | .object h => h, .object⟩
    rw [hkept, normal_object, Value.object.injEq, map_eq_self_iff]
    refine forall₂_congr fun m hm => ?_
    rw [← ih m hm, Prod.ext_iff]
    exact and_iff_right rfl

end Value

/-! ### The text of a value -/

/-- Further texts, each behind a comma. -/
def followed (before : List Char) (texts : List (List Char)) : List Char :=
  texts.flatMap fun text => ',' :: before ++ text

@[simp] theorem followed_nil (before : List Char) : followed before [] = [] := rfl

@[simp] theorem followed_cons (before text : List Char) (texts : List (List Char)) :
    followed before (text :: texts) = ',' :: before ++ text ++ followed before texts := rfl

/-- A member: its name and the text of its value. -/
def namedText (name : String) (text : List Char) : List Char :=
  valueToQuotedString name ++ " : ".toList ++ text

/-- The indentation of the next level. -/
def deeper (indentString : List Char) : List Char :=
  indentString ++ List.replicate StyledWriter.indentSize ' '

mutual

def styled (indentString : List Char) : Value → List Char
  | .array [] => "[]".toList
  | .array (x :: xs) =>
    if (StyledWriter.isMultineArray (x :: xs)).1 then
      '[' :: '\n' :: deeper indentString ++ styled (deeper indentString) x ++
        followed ('\n' :: deeper indentString) (styledElements (deeper indentString) xs) ++
          '\n' :: indentString ++ [']']
    else
      '[' :: ' ' :: scalarText x ++ followed [' '] (xs.map scalarText) ++ [' ', ']']
  | .object [] => ['{', '}']
  | .object ((name, child) :: members) =>
    '{' :: '\n' :: deeper indentString ++ namedText name (styled (deeper indentString) child) ++
      followed ('\n' :: deeper indentString) (styledMembers (deeper indentString) members) ++
        '\n' :: indentString ++ ['}']
  | value => scalarText value

def styledElements (indentString : List Char) : List Value → List (List Char)
  | [] => []
  | x :: xs => styled indentString x :: styledElements indentString xs

def styledMembers (indentString : List Char) : List (String × Value) → List (List Char)
  | [] => []
  | (name, child) :: members =>
    namedText name (styled indentString child) :: styledMembers indentString members

end

theorem styledElements_eq (indentString : List Char) : ∀ xs : List Value,
    styledElements indentString xs = xs.map (styled indentString)
  | [] => by rw [styledElements]; rfl
  | x :: xs => by rw [styledElements, styledElements_eq indentString xs]; rfl

theorem styledMembers_eq (indentString : List Char) : ∀ members : Members,
    styledMembers indentString members =
      members.map fun m => namedText m.1 (styled indentString m.2)
  | [] => by rw [styledMembers]; rfl
  | (name, child) :: members => by rw [styledMembers, styledMembers_eq indentString members]; rfl

/-! ### Numbers -/

/-- The loop reads every number up to the largest one. -/
theorem scanInteger_of_le {m : ℕ} (hm : 10 ≤ m) : ∀ (cs : List Char) (n : ℕ),
    (∀ c ∈ cs, c.isDigit = Bool.true) → Nat.ofDigitChars 10 cs n ≤ m →
    scanInteger m n cs = .value (Nat.ofDigitChars 10 cs n)
  | [], n, _, _ => by rw [scanInteger, Nat.ofDigitChars_nil]
  | c :: cs, n, hd, hle => by
    have hc := hd c List.mem_cons_self
    rw [Nat.ofDigitChars_cons] at hle ⊢
    have hfirst := le_ofDigitChars cs (10 * n + (c.toNat - '0'.toNat))
    have ih := scanInteger_of_le hm cs (10 * n + (c.toNat - '0'.toNat))
      (fun d h => hd d (List.mem_cons_of_mem _ h)) hle
    -- at the threshold only the last digit is left, and it is small enough
    have hlast : m / 10 ≤ n → ¬ (m / 10 < n ∨ cs ≠ [] ∨ m % 10 < c.toNat - '0'.toNat) := by
      rintro hn (hlt | hmore | hdigit)
      · omega
      · obtain ⟨d, ds, rfl⟩ := List.exists_cons_of_ne_nil hmore
        rw [Nat.ofDigitChars_cons] at hle
        have hsecond := le_ofDigitChars ds
          (10 * (10 * n + (c.toNat - '0'.toNat)) + (d.toNat - '0'.toNat))
        omega
      · omega
    rw [scanInteger, if_neg (by simp [hc]), if_neg fun h => hlast h.1 h.2]
    exact ih

/-- Every integer of 64 bits is read, with the type of its size. -/
theorem decodeNumber_eq {i : Int} (h : -2 ^ 63 ≤ i ∧ i < 2 ^ 64) :
    decodeNumber (intDigits i) = some (Value.ofInteger i) := by
  obtain ⟨hmin, hmax⟩ := h
  have hdigit : ∀ c ∈ Nat.toDigits 10 i.natAbs, c.isDigit = Bool.true :=
    fun c hc => isDigit_of_mem_toDigits hc
  have hscan : ∀ m, 10 ≤ m → i.natAbs ≤ m →
      scanInteger m 0 (Nat.toDigits 10 i.natAbs) = .value i.natAbs := by
    intro m hm hle
    rw [scanInteger_of_le hm _ _ hdigit] <;> rw [Nat.ofDigitChars_ten_toDigits]
    exact hle
  obtain ⟨hd1, hd2⟩ := any_double_of_isDigit hdigit
  by_cases hneg : i < 0
  · have htext : intDigits i = '-' :: Nat.toDigits 10 i.natAbs := if_pos hneg
    have habs : -(i.natAbs : Int) = i := by omega
    have hs := hscan 9223372036854775808 (by decide) (by omega)
    have hint : Value.ofInteger i = .int i := if_pos (by unfold Value.maxInt; omega)
    unfold decodeNumber
    rw [htext, hint]
    generalize i.natAbs = n at hd1 hd2 hs habs ⊢
    simp [hd1, hd2, hs, habs]
  · obtain ⟨n, rfl⟩ := Int.eq_ofNat_of_zero_le (Int.not_lt.mp hneg)
    have htext : intDigits n = Nat.toDigits 10 n := if_neg hneg
    rw [Int.natAbs_natCast] at hd1 hd2 hscan
    obtain ⟨c, cs, hcs, hc⟩ := exists_toDigits_eq_cons n
    have htail : cs.any (· == '-') = Bool.false := by
      rw [hcs, List.any_cons, Bool.or_eq_false_iff] at hd2
      exact hd2.2
    have hhead : c ≠ '-' := fun he => by rw [he] at hc; cases hc
    have hs := hscan Value.maxLargestUInt (by decide) (by unfold Value.maxLargestUInt; omega)
    unfold decodeNumber Value.ofInteger
    rw [htext]
    rw [hcs] at hd1 hs ⊢
    simp only [hd1, htail, hs, hhead, List.head?_cons, List.tail_cons, Bool.or_self, Bool.false_eq_true,
      if_false, beq_iff_eq, Option.some.injEq, Int.toNat_natCast]
    split <;> rfl

/-! ### The writer -/

/-- A text of spaces. -/
def Spaces (cs : List Char) : Prop := ∀ c ∈ cs, c = ' '

theorem spaces_nil : Spaces [] := by simp [Spaces]

theorem isSpace_nil : ∀ c ∈ ([] : List Char), isSpace c = Bool.true := by simp

theorem Spaces.deeper {indentString : List Char} (h : Spaces indentString) :
    Spaces (deeper indentString) := by
  intro c hc
  rcases List.mem_append.mp hc with hc | hc
  · exact h c hc
  · exact List.eq_of_mem_replicate hc

theorem styled_of_not_takesLines {v : Value} (h : StyledWriter.takesLines v = Bool.false)
    (indentString : List Char) : styled indentString v = scalarText v := by
  rcases v with _ | i | n | d | s | b | xs | members
  · rfl
  · rfl
  · rfl
  · rfl
  · rfl
  · rfl
  · rcases xs with _ | ⟨x, xs⟩
    · rfl
    · cases h
  · rcases members with _ | ⟨m, members⟩
    · rfl
    · cases h

theorem styled_array (indentString : List Char) (x : Value) (xs : List Value) :
    styled indentString (.array (x :: xs)) =
      if (StyledWriter.isMultineArray (x :: xs)).1 then
        '[' :: '\n' :: deeper indentString ++ styled (deeper indentString) x ++
          followed ('\n' :: deeper indentString) (xs.map (styled (deeper indentString))) ++
            '\n' :: indentString ++ [']']
      else '[' :: ' ' :: scalarText x ++ followed [' '] (xs.map scalarText) ++ [' ', ']'] := by
  rw [styled, styledElements_eq]

theorem styled_object (indentString : List Char) (m : String × Value) (members : Members) :
    styled indentString (.object (m :: members)) =
      '{' :: '\n' :: deeper indentString ++ namedText m.1 (styled (deeper indentString) m.2) ++
        followed ('\n' :: deeper indentString)
          (members.map fun m => namedText m.1 (styled (deeper indentString) m.2)) ++
          '\n' :: indentString ++ ['}'] := by
  obtain ⟨name, child⟩ := m
  rw [styled, styledMembers_eq]

/-- The text of a value ends where the next one begins a new line. -/
theorem endsLine_styled {v : Value} (h : v.WellFormed) (indentString : List Char) :
    EndsLine (styled indentString v) := by
  have hbracket : EndsLine [']'] := ⟨']', rfl, by decide, by decide⟩
  have hbrace : EndsLine ['}'] := ⟨'}', rfl, by decide, by decide⟩
  have hinteger : ∀ i : Int, EndsLine (intDigits i) := by
    intro i
    have hlast := List.getLast_mem (intDigits_ne_nil i)
    have hspace := isSpace_of_number (mem_intDigits hlast)
    refine ⟨_, List.getLast?_eq_some_getLast (intDigits_ne_nil i), fun he => ?_, fun he => ?_⟩
    · rw [he] at hspace; cases hspace
    · rw [he] at hspace; cases hspace
  cases h with
  | null => exact ⟨'l', rfl, by decide, by decide⟩
  | bool b => cases b <;> exact ⟨'e', rfl, by decide, by decide⟩
  | @int i => exact hinteger i
  | @uint n => exact hinteger n
  | string s => exact EndsLine.append ⟨'"', rfl, by decide, by decide⟩ _
  | @array xs =>
    rcases xs with _ | ⟨x, xs⟩
    · exact hbracket.append ['[']
    · rw [styled_array]
      split
      · exact hbracket.append _
      · exact (hbracket.append [' ']).append _
  | @object members =>
    rcases members with _ | ⟨m, members⟩
    · exact hbrace.append ['{']
    · rw [styled_object]
      exact hbrace.append _

theorem writeIndent_of_space {w : StyledWriter} (h : w.document.getLast? = some ' ') :
    w.writeIndent = w := by
  unfold StyledWriter.writeIndent
  rw [h]
  rfl

theorem writeIndent_of_endsLine {w : StyledWriter} (h : EndsLine w.document) :
    w.writeIndent = w.push ('\n' :: w.indentString) := by
  have htext := writeWithIndent_eq h []
  rw [List.append_nil] at htext
  rw [← htext, StyledWriter.writeWithIndent, StyledWriter.push, List.append_nil]

/-- A new line is not begun twice. -/
theorem writeIndent_pushLine {w : StyledWriter} (h : Spaces w.indentString) :
    (w.push ('\n' :: w.indentString)).writeIndent = w.push ('\n' :: w.indentString) := by
  obtain ⟨document, indentString⟩ := w
  rcases List.eq_nil_or_concat indentString with rfl | ⟨front, c, rfl⟩
  · simp [StyledWriter.writeIndent, StyledWriter.push]
  · obtain rfl : c = ' ' := h c (by simp)
    refine writeIndent_of_space ?_
    simp only [StyledWriter.push, List.concat_eq_append, ← List.cons_append, ← List.append_assoc,
      List.getLast?_concat]

theorem push_push (w : StyledWriter) (a b : List Char) : (w.push a).push b = w.push (a ++ b) := by
  simp [StyledWriter.push]

/-- Where nothing is to be written before the value, the writer writes its text. -/
def Writes (v : Value) : Prop :=
  ∀ w : StyledWriter, Spaces w.indentString → w.writeIndent = w →
    w.writeValue v = w.push (styled w.indentString v)

theorem writeTexts_eq : ∀ (texts : List (List Char)) (text : List Char) (w : StyledWriter),
    EndsLine w.document → (∀ t ∈ text :: texts, EndsLine t) →
    w.writeTexts (text :: texts) =
      w.push ('\n' :: w.indentString ++ text ++ followed ('\n' :: w.indentString) texts)
  | [], text, w, hw, _ => by
    rw [StyledWriter.writeTexts, writeWithIndent_eq hw, followed_nil, List.append_nil]
  | next :: texts, text, w, hw, htexts => by
    have ih := writeTexts_eq texts next ((w.writeWithIndent text).push [','])
      (EndsLine.append ⟨',', rfl, by decide, by decide⟩ _) fun t ht => htexts t (List.mem_cons_of_mem _ ht)
    rw [StyledWriter.writeTexts, ih, writeWithIndent_eq hw]
    · simp [StyledWriter.push]
    · simp

/-- The elements are written as their texts are. -/
theorem writeElements_eq : ∀ (xs : List Value) (w : StyledWriter),
    EndsLine w.document → Spaces w.indentString → (∀ x ∈ xs, Writes x ∧ x.WellFormed) →
    w.writeElements xs = w.writeTexts (xs.map (styled w.indentString))
  | [], w, _, _, _ => by rw [StyledWriter.writeElements]; rfl
  | x :: xs, w, hw, hspaces, hxs => by
    obtain ⟨hwrites, hform⟩ := hxs x List.mem_cons_self
    have hx : StyledWriter.writeValue w.writeIndent x = w.writeWithIndent (styled w.indentString x) := by
      rw [writeIndent_of_endsLine hw, hwrites (w.push _) hspaces (writeIndent_pushLine hspaces),
        writeWithIndent_eq hw, push_push]
      rfl
    rcases xs with _ | ⟨y, xs⟩
    · rw [StyledWriter.writeElements, hx]; rfl
    · have ih := writeElements_eq (y :: xs) ((w.writeWithIndent (styled w.indentString x)).push [','])
        (EndsLine.append ⟨',', rfl, by decide, by decide⟩ _) (by rw [writeWithIndent_eq hw]; exact hspaces)
        fun z hz => hxs z (List.mem_cons_of_mem _ hz)
      rw [StyledWriter.writeElements, hx, ih]
      · rw [writeWithIndent_eq hw]
        simp [StyledWriter.writeTexts, StyledWriter.push, writeWithIndent_eq hw]
      · simp

/-- The members are written as their texts are. -/
theorem writeMembers_eq_writeTexts : ∀ (members : Members) (w : StyledWriter),
    EndsLine w.document → Spaces w.indentString →
    (∀ m ∈ members, Writes m.2 ∧ m.2.WellFormed) →
    w.writeMembers members =
      w.writeTexts (members.map fun m => namedText m.1 (styled w.indentString m.2))
  | [], w, _, _, _ => by rw [StyledWriter.writeMembers]; rfl
  | (name, child) :: members, w, hw, hspaces, hms => by
    obtain ⟨hwrites, hform⟩ := hms (name, child) List.mem_cons_self
    have hchild : StyledWriter.writeValue
        ((w.writeWithIndent (valueToQuotedString name)).push " : ".toList) child =
          w.writeWithIndent (namedText name (styled w.indentString child)) := by
      have hspace : (((w.writeWithIndent (valueToQuotedString name)).push " : ".toList)).document.getLast? =
          some ' ' := by
        simp [StyledWriter.push]
      rw [hwrites _ (by rw [writeWithIndent_eq hw]; exact hspaces) (writeIndent_of_space hspace),
        writeWithIndent_eq hw, writeWithIndent_eq hw]
      simp [StyledWriter.push, namedText]
    rcases members with _ | ⟨m, members⟩
    · rw [StyledWriter.writeMembers, hchild]; rfl
    · have ih := writeMembers_eq_writeTexts (m :: members)
        ((w.writeWithIndent (namedText name (styled w.indentString child))).push [','])
        (EndsLine.append ⟨',', rfl, by decide, by decide⟩ _) (by rw [writeWithIndent_eq hw]; exact hspaces)
        fun x hx => hms x (List.mem_cons_of_mem _ hx)
      rw [writeMembers_cons_cons, hchild, ih]
      rw [writeWithIndent_eq hw]
      simp [StyledWriter.writeTexts, StyledWriter.push, writeWithIndent_eq hw]

/-- Children that take no lines are written by their texts. -/
theorem isMultineArray_cases (xs : List Value) :
    StyledWriter.isMultineArray xs = (Bool.true, []) ∨
      (∀ x ∈ xs, StyledWriter.takesLines x = Bool.false) ∧
        (StyledWriter.isMultineArray xs).2 = xs.map scalarText := by
  unfold StyledWriter.isMultineArray
  split
  · exact .inl rfl
  · rename_i h
    refine .inr ⟨fun x hx => ?_, rfl⟩
    simp only [Bool.or_eq_true, not_or, Bool.not_eq_true] at h
    exact Bool.not_eq_true _ ▸ List.any_eq_false.mp h.2 x hx

theorem flatten_intersperse (text : List Char) : ∀ texts : List (List Char),
    ((text :: texts).intersperse ", ".toList).flatten = text ++ followed [' '] texts
  | [] => by simp
  | next :: texts => by
    rw [List.intersperse_cons_cons, List.flatten_cons, List.flatten_cons, flatten_intersperse next texts]
    rfl

/-- The brackets of a container, with the texts between them on lines of their own. -/
theorem writeTexts_between {w : StyledWriter} (hready : w.writeIndent = w) {bracket close : List Char}
    (hbracket : EndsLine bracket) {text : List Char} {texts : List (List Char)}
    (htexts : ∀ t ∈ text :: texts, EndsLine t) :
    (((w.writeWithIndent bracket).indent.writeTexts (text :: texts)).unindent).writeWithIndent close =
      w.push (bracket ++ '\n' :: deeper w.indentString ++ text ++
        followed ('\n' :: deeper w.indentString) texts ++ '\n' :: w.indentString ++ close) := by
  have hopen : w.writeWithIndent bracket = w.push bracket := by
    rw [StyledWriter.writeWithIndent, hready]
  have hlast : ∀ (ts : List (List Char)) (t front : List Char), (∀ u ∈ t :: ts, EndsLine u) →
      EndsLine (front ++ t ++ followed ('\n' :: deeper w.indentString) ts) := by
    intro ts
    induction ts with
    | nil => exact fun t front ht => by simpa using (ht t List.mem_cons_self).append front
    | cons next ts ih =>
      intro t front ht
      have h := ih next (front ++ t ++ ',' :: '\n' :: deeper w.indentString)
        fun u hu => ht u (List.mem_cons_of_mem _ hu)
      simpa using h
  rw [hopen, writeTexts_eq texts text _ (EndsLine.append hbracket _) htexts]
  have hback : ((w.push bracket).indent.push ('\n' :: (w.push bracket).indent.indentString ++ text ++
      followed ('\n' :: (w.push bracket).indent.indentString) texts)).unindent =
        w.push (bracket ++ ('\n' :: deeper w.indentString ++ text ++
          followed ('\n' :: deeper w.indentString) texts)) := by
    simp [StyledWriter.push, StyledWriter.indent, StyledWriter.unindent, deeper,
      List.rdrop_eq_reverse_drop_reverse, StyledWriter.indentSize]
  rw [hback, writeWithIndent_eq]
  · simp [StyledWriter.push]
  · have h := hlast texts text (w.document ++ bracket ++ '\n' :: deeper w.indentString) htexts
    simpa [StyledWriter.push] using h

/-- **The writer writes the text of the value.** -/
theorem writeValue_eq {v : Value} (h : v.WellFormed) : Writes v := by
  intro w hspaces hready
  induction h generalizing w with
  | null => rfl
  | bool => rfl
  | int => rfl
  | uint => rfl
  | string => rfl
  | @array xs hform ih =>
    have hdeeper : Spaces (w.writeWithIndent ['[']).indent.indentString := by
      rw [StyledWriter.writeWithIndent, hready]
      exact hspaces.deeper
    have hopen : EndsLine (w.writeWithIndent ['[']).indent.document :=
      EndsLine.append ⟨'[', rfl, by decide, by decide⟩ _
    rcases xs with _ | ⟨x, xs⟩
    · rfl
    · have hends : ∀ t ∈ (x :: xs).map (styled (deeper w.indentString)), EndsLine t := by
        intro t ht
        obtain ⟨y, hy, rfl⟩ := List.mem_map.mp ht
        exact endsLine_styled (hform y hy) _
      rw [StyledWriter.writeValue, styled_array]
      rcases isMultineArray_cases (x :: xs) with hlines | ⟨hno, htexts⟩
      · rw [hlines]
        simp only [if_true]
        rw [writeElements_eq (x :: xs) _ hopen hdeeper fun y hy => ⟨ih y hy, hform y hy⟩]
        have hindent : (w.writeWithIndent ['[']).indent.indentString = deeper w.indentString := by
          rw [StyledWriter.writeWithIndent, hready]
          rfl
        rw [hindent]
        exact writeTexts_between hready ⟨'[', rfl, by decide, by decide⟩ hends
      · have hscalar : ∀ indentString, (x :: xs).map scalarText = (x :: xs).map (styled indentString) :=
          fun indentString => List.map_congr_left fun y hy => (styled_of_not_takesLines (hno y hy) _).symm
        rcases hmultine : StyledWriter.isMultineArray (x :: xs) with ⟨_ | _, childValues⟩
        · obtain rfl : childValues = (x :: xs).map scalarText := by rw [← htexts, hmultine]
          simp only [Bool.false_eq_true, if_false, List.map_cons, flatten_intersperse]
          simp [StyledWriter.push]
        · obtain rfl : childValues = (x :: xs).map scalarText := by rw [← htexts, hmultine]
          rw [hscalar (deeper w.indentString)]
          simp only [if_true, List.map_cons]
          exact writeTexts_between hready ⟨'[', rfl, by decide, by decide⟩ hends
  | @object members hname horder hform ih =>
    have hdeeper : Spaces (w.writeWithIndent ['{']).indent.indentString := by
      rw [StyledWriter.writeWithIndent, hready]
      exact hspaces.deeper
    have hopen : EndsLine (w.writeWithIndent ['{']).indent.document :=
      EndsLine.append ⟨'{', rfl, by decide, by decide⟩ _
    rcases members with _ | ⟨m, members⟩
    · rfl
    · have hends : ∀ t ∈ (m :: members).map fun m => namedText m.1 (styled (deeper w.indentString) m.2),
          EndsLine t := by
        intro t ht
        obtain ⟨y, hy, rfl⟩ := List.mem_map.mp ht
        exact (endsLine_styled (hform y hy) _).append _
      have hindent : (w.writeWithIndent ['{']).indent.indentString = deeper w.indentString := by
        rw [StyledWriter.writeWithIndent, hready]
        rfl
      rw [StyledWriter.writeValue, styled_object,
        writeMembers_eq_writeTexts (m :: members) _ hopen hdeeper fun y hy => ⟨ih y hy, hform y hy⟩,
          hindent]
      exact writeTexts_between hready ⟨'{', rfl, by decide, by decide⟩ hends

/-! ### The reader -/

/-- No number goes on here. -/
def Stops (cs : List Char) : Prop := ∃ c rest, cs = c :: rest ∧ isNumberChar c = Bool.false

/-- The text is read as the value, with fuel for its characters. -/
structure Reads (text : List Char) (v : Value) : Prop where
  begins : ∃ c cs, text = c :: cs ∧ isSpace c = Bool.false ∧ c ≠ ']'
  read : ∀ {fuel : ℕ} {ws rest : List Char}, text.length ≤ fuel →
    (∀ w ∈ ws, isSpace w = Bool.true) → Stops rest → readValue fuel (ws ++ text ++ rest) = some (v, rest)

/-- The next token, behind blanks. -/
theorem skipCommentTokens_blanks {ws text rest rest' : List Char} {t : Token}
    (hws : ∀ w ∈ ws, isSpace w = Bool.true) {c : Char} {cs : List Char} (htext : text = c :: cs)
    (hc : isSpace c = Bool.false) (ht : t ≠ .comment) (hread : readToken (text ++ rest) = (t, rest')) :
    skipCommentTokens ((ws ++ text ++ rest).length + 1) (ws ++ text ++ rest) = (t, rest') := by
  subst htext
  refine skipCommentTokens_eq ?_ ht
  rw [List.cons_append, readToken, skipSpaces_cons hc] at hread
  rw [List.append_assoc, List.cons_append, readToken, skipSpaces_append hws hc]
  exact hread

/-- A bracket or a separator behind blanks. -/
theorem readToken_bracket {ws : List Char} {c : Char} {t : Token}
    (hws : ∀ w ∈ ws, isSpace w = Bool.true) (hc : isSpace c = Bool.false)
    (hread : ∀ cs, readToken (c :: cs) = (t, cs)) (cs : List Char) :
      readToken (ws ++ c :: cs) = (t, cs) := by
  have h := hread cs
  rw [readToken, skipSpaces_cons hc] at h
  rw [readToken, skipSpaces_append hws hc]
  exact h

theorem skipCommentTokens_bracket {ws : List Char} {c : Char} {t : Token}
    (hws : ∀ w ∈ ws, isSpace w = Bool.true) (hc : isSpace c = Bool.false) (ht : t ≠ .comment)
    (hread : ∀ cs, readToken (c :: cs) = (t, cs)) (cs : List Char) :
    skipCommentTokens ((ws ++ c :: cs).length + 1) (ws ++ c :: cs) = (t, cs) :=
  skipCommentTokens_eq (readToken_bracket hws hc hread cs) ht

/-- A value of one token. -/
theorem reads_token {text : List Char} {v : Value} {t : Token}
    (hbegins : ∃ c cs, text = c :: cs ∧ isSpace c = Bool.false ∧ c ≠ ']')
    (ht : t ≠ .comment) (hread : ∀ rest, Stops rest → readToken (text ++ rest) = (t, rest))
    (hvalue : ∀ (fuel : ℕ) (cs rest : List Char), skipCommentTokens (cs.length + 1) cs = (t, rest) →
      readValue (fuel + 1) cs = some (v, rest)) : Reads text v := by
  refine ⟨hbegins, fun {fuel ws rest} hfuel hws hstops => ?_⟩
  obtain ⟨c, cs, htext, hc, -⟩ := hbegins
  obtain ⟨fuel, rfl⟩ : ∃ k, fuel = k + 1 := by
    rw [htext, List.length_cons] at hfuel
    exact ⟨fuel - 1, by omega⟩
  exact hvalue fuel _ rest (skipCommentTokens_blanks hws htext hc ht (hread rest hstops))

theorem readToken_integer (i : Int) {rest : List Char} (h : Stops rest) :
    readToken (intDigits i ++ rest) = (.number (intDigits i), rest) := by
  obtain ⟨c, cs, rfl, hc⟩ := h
  have hnum : ∀ x ∈ intDigits i, isNumberChar x = Bool.true := by
    intro x hx
    rcases mem_intDigits hx with rfl | hx
    · rfl
    · simp [isNumberChar, hx]
  obtain ⟨x, xs, hxs⟩ := List.exists_cons_of_ne_nil (intDigits_ne_nil i)
  have hx : x = '-' ∨ x.isDigit = Bool.true := mem_intDigits (hxs ▸ List.mem_cons_self)
  have htail : ∀ y ∈ xs, isNumberChar y = Bool.true := fun y hy => hnum y (hxs ▸ List.mem_cons_of_mem _ hy)
  have htake : (xs ++ c :: cs).takeWhile isNumberChar = xs := by
    rw [List.takeWhile_append_of_pos htail, List.takeWhile_cons_of_neg (by simp [hc]), List.append_nil]
  have hdrop : (xs ++ c :: cs).dropWhile isNumberChar = c :: cs := by
    rw [List.dropWhile_append_of_pos htail, List.dropWhile_cons_of_neg (by simp [hc])]
  rw [hxs, List.cons_append, readToken_number hx, htake, hdrop]

theorem reads_integer {i : Int} (h : -2 ^ 63 ≤ i ∧ i < 2 ^ 64) :
    Reads (intDigits i) (Value.ofInteger i) := by
  refine @reads_token _ _ (.number (intDigits i)) ?_ (by simp)
    (fun rest hrest => readToken_integer i hrest) ?_
  · obtain ⟨x, xs, hxs⟩ := List.exists_cons_of_ne_nil (intDigits_ne_nil i)
    have hx : x = '-' ∨ x.isDigit = Bool.true := mem_intDigits (hxs ▸ List.mem_cons_self)
    refine ⟨x, xs, hxs, isSpace_of_number hx, ?_⟩
    rintro rfl
    exact absurd hx (by decide)
  · intro fuel cs rest htoken
    rw [readValue, htoken]
    simp only [decodeNumber_eq h, Option.map_some]

theorem reads_string (s : String) : Reads (valueToQuotedString s) (.string (cstr s)) := by
  refine @reads_token _ _ (.string ((cstr s).toList.flatMap quotedChar))
    ⟨'"', _, rfl, rfl, by decide⟩ (by simp) (fun rest _ => ?_) fun fuel cs rest htoken => ?_
  · have htext : valueToQuotedString s ++ rest =
        '"' :: ((cstr s).toList.flatMap quotedChar ++ '"' :: rest) := by simp [valueToQuotedString]
    rw [htext, readToken, skipSpaces_cons (by rfl)]
    simp only [readString_quoted]
  · rw [readValue, htoken]
    simp only [decodeString_quoted _ _ (length_le_flatMap_quotedChar _), Option.map_some,
      String.ofList_toList]

/-! ### Arrays -/

/-- A text between commas or at the end of a container. -/
theorem stops_followed {before : List Char} {texts : List (List Char)} {space : List Char} {c : Char}
    {rest : List Char} (hspace : ∀ w ∈ space, isSpace w = Bool.true) (hc : isNumberChar c = Bool.false) :
    Stops (followed before texts ++ space ++ c :: rest) := by
  rcases texts with _ | ⟨text, texts⟩
  · rcases space with _ | ⟨w, space⟩
    · exact ⟨c, rest, rfl, hc⟩
    · refine ⟨w, space ++ c :: rest, by simp, ?_⟩
      have hw := hspace w List.mem_cons_self
      simp only [isSpace, Bool.or_eq_true, beq_iff_eq] at hw
      rcases hw with ((rfl | rfl) | rfl) | rfl <;> rfl
  · exact ⟨',', _, by simp; rfl, rfl⟩

/-- The loop of `readArray` reads the elements that are left. -/
theorem readArray_followed {text : Value → List Char} {value : Value → Value} {before space : List Char}
    (hbefore : ∀ w ∈ before, isSpace w = Bool.true) (hspace : ∀ w ∈ space, isSpace w = Bool.true) :
    ∀ (xs : List Value) (x : Value) (fuel : ℕ) (values : List Value) (ws rest : List Char),
      (∀ y ∈ x :: xs, Reads (text y) (value y)) → (∀ w ∈ ws, isSpace w = Bool.true) →
      (text x ++ followed before (xs.map text)).length < fuel →
      readArray fuel values (ws ++ text x ++ followed before (xs.map text) ++ space ++ ']' :: rest) =
        some (values ++ (x :: xs).map value, rest)
  | _, _, 0, _, _, _, _, _, hfuel => absurd hfuel (Nat.not_lt_zero _)
  | xs, x, fuel + 1, values, ws, rest, hxs, hws, hfuel => by
    have hx := hxs x List.mem_cons_self
    have hfirst : readValue fuel
        (ws ++ text x ++ (followed before (xs.map text) ++ space ++ ']' :: rest)) =
          some (value x, followed before (xs.map text) ++ space ++ ']' :: rest) :=
      hx.read (by rw [List.length_append] at hfuel; omega) hws (stops_followed hspace rfl)
    have htext : ws ++ text x ++ followed before (xs.map text) ++ space ++ ']' :: rest =
        ws ++ text x ++ (followed before (xs.map text) ++ space ++ ']' :: rest) := by
      simp only [List.append_assoc]
    rw [readArray, htext, hfirst]
    simp only [Option.bind_eq_bind, Option.bind_some]
    rcases xs with _ | ⟨y, xs⟩
    · have hend := @skipCommentTokens_bracket space ']' .arrayEnd hspace rfl (by decide) (fun _ => rfl) rest
      simp only [List.map_nil, followed_nil, List.nil_append, hend]
      rfl
    · have hcomma := @skipCommentTokens_bracket [] ',' .arraySeparator isSpace_nil rfl (by decide)
        fun _ => rfl
      have ih := readArray_followed hbefore hspace xs y fuel (values ++ [value x]) before rest
        (fun z hz => hxs z (List.mem_cons_of_mem _ hz)) hbefore
        (by
          simp only [List.map_cons, followed_cons, List.length_append, List.length_cons] at hfuel ⊢
          omega)
      simp only [List.map_cons, followed_cons, List.cons_append, List.append_assoc,
        List.nil_append] at hcomma ih ⊢
      rw [hcomma]
      simp only [ih]

/-- Brackets around texts that are read are read. -/
theorem reads_array {text : Value → List Char} {value : Value → Value} {before space : List Char}
    (hbefore : ∀ w ∈ before, isSpace w = Bool.true) (hspace : ∀ w ∈ space, isSpace w = Bool.true)
    {x : Value} {xs : List Value} (hxs : ∀ y ∈ x :: xs, Reads (text y) (value y)) :
    Reads ('[' :: before ++ text x ++ followed before (xs.map text) ++ space ++ [']'])
      (.array ((x :: xs).map value)) := by
  refine ⟨⟨'[', _, rfl, rfl, by decide⟩, fun {fuel ws rest} hfuel hws hstops => ?_⟩
  obtain ⟨c, cs, htext, hc, hbracket⟩ := (hxs x List.mem_cons_self).begins
  obtain ⟨fuel, rfl⟩ : ∃ k, fuel = k + 1 := by
    simp only [List.length_append, List.length_cons] at hfuel
    exact ⟨fuel - 1, by omega⟩
  have hopen := @skipCommentTokens_bracket ws '[' .arrayBegin hws rfl (by decide) fun _ => rfl
  have hsplit : ws ++ ('[' :: before ++ text x ++ followed before (xs.map text) ++ space ++ [']']) ++ rest =
      ws ++ '[' :: (before ++ (text x ++ followed before (xs.map text) ++ space ++ ']' :: rest)) := by
    simp
  have hskip : skipSpaces (before ++ (text x ++ followed before (xs.map text) ++ space ++ ']' :: rest)) =
      c :: (cs ++ followed before (xs.map text) ++ space ++ ']' :: rest) := by
    rw [htext]
    exact skipSpaces_append hbefore hc
  have hloop := @readArray_followed text value before space hbefore hspace xs x fuel [] [] rest hxs
    isSpace_nil
    (by simp only [List.length_append, List.length_cons] at hfuel ⊢; omega)
  rw [htext] at hloop
  rw [hsplit, readValue, hopen]
  simp only [hskip]
  split
  · rename_i hhead
    exact absurd (List.cons.inj hhead).1 hbracket
  · simp only [List.nil_append, List.cons_append] at hloop
    rw [hloop]
    rfl

/-! ### Objects -/

/-- The loop of `readObject` reads the members that are left. -/
theorem readObject_followed {text : Value → List Char} {value : Value → Value} {before space : List Char}
    (hbefore : ∀ w ∈ before, isSpace w = Bool.true) (hspace : ∀ w ∈ space, isSpace w = Bool.true)
    {rest : List Char} (fuel : ℕ) (m : String × Value) (ms acc : Members) (last : String)
    (hms : ∀ n ∈ m :: ms, cstr n.1 = n.1 ∧ Reads (text n.2) (value n.2))
    (horder : (acc ++ (m :: ms)).Pairwise Before)
    (hfuel : (before ++ namedText m.1 (text m.2) ++
      followed before (ms.map fun n => namedText n.1 (text n.2))).length < fuel) :
    readObject fuel (acc.map fun n => (n.1, value n.2)) last
      (before ++ namedText m.1 (text m.2) ++
        followed before (ms.map fun n => namedText n.1 (text n.2)) ++ space ++ '}' :: rest) =
      some ((acc ++ (m :: ms)).map fun n => (n.1, value n.2), rest) := by
  induction fuel generalizing m ms acc last with
  | zero => exact absurd hfuel (Nat.not_lt_zero _)
  | succ fuel ih =>
    obtain ⟨name, v⟩ := m
    have hname : cstr name = name := (hms (name, v) List.mem_cons_self).1
    have hv : Reads (text v) (value v) := (hms (name, v) List.mem_cons_self).2
    have hset : Members.set (acc.map fun n => (n.1, value n.2)) (cstr name) (value v) =
        (acc ++ [(name, v)]).map fun n => (n.1, value n.2) := by
      rw [hname, List.map_append]
      refine set_append fun n hn => ?_
      obtain ⟨o, ho, rfl⟩ := List.mem_map.mp hn
      exact (List.pairwise_append.mp horder).2.2 o ho (name, v) List.mem_cons_self
    have hdecode := decodeString_memberName name
    have hcolon : ∀ cs, readToken (" : ".toList ++ cs) = (.memberSeparator, ' ' :: cs) := fun cs => rfl
    have hfirst := @Reads.read _ _ hv fuel [' ']
      (followed before (ms.map fun n => namedText n.1 (text n.2)) ++ space ++ '}' :: rest)
      (by simp only [namedText, List.length_append] at hfuel; omega) (by simp [isSpace])
      (stops_followed hspace rfl)
    rw [List.append_assoc, List.singleton_append] at hfirst
    have hsplit : before ++ namedText name (text v) ++
        followed before (ms.map fun n => namedText n.1 (text n.2)) ++ space ++ '}' :: rest =
        before ++ valueToQuotedString name ++ (" : ".toList ++ (text v ++
          (followed before (ms.map fun n => namedText n.1 (text n.2)) ++ space ++ '}' :: rest))) := by
      simp only [namedText, List.append_assoc]
    rw [hsplit, readObject, skipCommentTokens_memberName hbefore hname]
    simp only [hdecode, hcolon, hfirst, hset, Option.bind_eq_bind, Option.bind_some]
    rcases ms with _ | ⟨m, ms⟩
    · have hend := @readToken_bracket space '}' .objectEnd hspace rfl (fun _ => rfl) rest
      simp only [List.map_nil, followed_nil, List.nil_append, hend]
    · have hcomma : ∀ cs, readToken (',' :: cs) = (.arraySeparator, cs) := fun cs => rfl
      have hloop := ih m ms (acc ++ [(name, v)]) name (fun n hn => hms n (List.mem_cons_of_mem _ hn))
        (by simpa using horder)
        (by
          simp only [List.map_cons, followed_cons, List.length_append, List.length_cons] at hfuel ⊢
          omega)
      simp only [List.map_cons, followed_cons, List.cons_append, List.append_assoc,
        List.nil_append] at hloop ⊢
      rw [hcomma]
      simp only [hloop]

/-- Braces around members whose values are read are read. -/
theorem reads_object {text : Value → List Char} {value : Value → Value} {before space : List Char}
    (hbefore : ∀ w ∈ before, isSpace w = Bool.true) (hspace : ∀ w ∈ space, isSpace w = Bool.true)
    {m : String × Value} {ms : Members} (hms : ∀ n ∈ m :: ms, cstr n.1 = n.1 ∧ Reads (text n.2) (value n.2))
    (horder : (m :: ms).Pairwise Before) :
    Reads ('{' :: before ++ namedText m.1 (text m.2) ++
        followed before (ms.map fun n => namedText n.1 (text n.2)) ++ space ++ ['}'])
      (.object ((m :: ms).map fun n => (n.1, value n.2))) := by
  refine ⟨⟨'{', _, rfl, rfl, by decide⟩, fun {fuel ws rest} hfuel hws hstops => ?_⟩
  obtain ⟨fuel, rfl⟩ : ∃ k, fuel = k + 1 := by
    simp only [List.length_append, List.length_cons] at hfuel
    exact ⟨fuel - 1, by omega⟩
  have hopen := @skipCommentTokens_bracket ws '{' .objectBegin hws rfl (by decide) fun _ => rfl
  have hsplit : ws ++ ('{' :: before ++ namedText m.1 (text m.2) ++
        followed before (ms.map fun n => namedText n.1 (text n.2)) ++ space ++ ['}']) ++ rest =
      ws ++ '{' :: (before ++ namedText m.1 (text m.2) ++
        followed before (ms.map fun n => namedText n.1 (text n.2)) ++ space ++ '}' :: rest) := by
    simp
  have hloop := @readObject_followed text value before space hbefore hspace rest fuel m ms [] "" hms
    (by simpa using horder)
    (by simp only [List.length_append, List.length_cons] at hfuel ⊢; omega)
  rw [List.map_nil] at hloop
  rw [hsplit, readValue, hopen]
  simp only [hloop, Option.map_some, List.nil_append]

/-! ### What was written is read -/

theorem reads_emptyArray : Reads "[]".toList (.array []) := by
  refine ⟨⟨'[', _, rfl, rfl, by decide⟩, fun {fuel ws rest} hfuel hws hstops => ?_⟩
  obtain ⟨fuel, rfl⟩ : ∃ k, fuel = k + 1 := ⟨fuel - 1, by simp at hfuel; omega⟩
  have hopen := @skipCommentTokens_bracket ws '[' .arrayBegin hws rfl (by decide)
    (fun _ => rfl) (']' :: rest)
  have hsplit : ws ++ "[]".toList ++ rest = ws ++ '[' :: ']' :: rest := by simp
  have hskip : skipSpaces (']' :: rest) = ']' :: rest := skipSpaces_cons rfl
  rw [hsplit, readValue, hopen]
  simp only [hskip]

theorem reads_emptyObject : Reads ['{', '}'] (.object []) := by
  refine ⟨⟨'{', _, rfl, rfl, by decide⟩, fun {fuel ws rest} hfuel hws hstops => ?_⟩
  obtain ⟨fuel, rfl⟩ : ∃ k, fuel = k + 2 := ⟨fuel - 2, by simp at hfuel; omega⟩
  have hopen := @skipCommentTokens_bracket ws '{' .objectBegin hws rfl (by decide)
    (fun _ => rfl) ('}' :: rest)
  have hclose := @skipCommentTokens_bracket [] '}' .objectEnd isSpace_nil rfl (by decide)
    (fun _ => rfl) rest
  have hsplit : ws ++ ['{', '}'] ++ rest = ws ++ '{' :: '}' :: rest := by simp
  rw [List.nil_append] at hclose
  rw [hsplit, readValue, hopen]
  simp only [readObject, hclose, if_true, Option.map_some]

theorem isSpace_of_spaces {cs : List Char} (h : Spaces cs) : ∀ w ∈ '\n' :: cs, isSpace w = Bool.true := by
  intro w hw
  rcases List.mem_cons.mp hw with rfl | hw
  · rfl
  · rw [h w hw]
    rfl

/-- **The text of a value is read as its normal form.** -/
theorem reads_styled {v : Value} (h : v.WellFormed) {indentString : List Char}
    (hspaces : Spaces indentString) :
    Reads (styled indentString v) v.normal := by
  induction h generalizing indentString with
  | null =>
    refine @reads_token _ _ .null ⟨'n', _, rfl, rfl, by decide⟩ (by simp) (fun rest _ => rfl) ?_
    intro fuel cs rest htoken
    rw [readValue, htoken]
    rfl
  | bool b =>
    cases b with
    | false =>
      refine @reads_token _ _ .false ⟨'f', _, rfl, rfl, by decide⟩ (by simp) (fun rest _ => rfl) ?_
      intro fuel cs rest htoken
      rw [readValue, htoken]
      rfl
    | true =>
      refine @reads_token _ _ .true ⟨'t', _, rfl, rfl, by decide⟩ (by simp) (fun rest _ => rfl) ?_
      intro fuel cs rest htoken
      rw [readValue, htoken]
      rfl
  | @int i h => exact @reads_integer i ⟨by omega, by omega⟩
  | @uint n h => exact @reads_integer n ⟨by omega, by omega⟩
  | string s => exact reads_string s
  | @array xs hform ih =>
    rw [Value.normal_array]
    rcases xs with _ | ⟨x, xs⟩
    · exact reads_emptyArray
    · rw [styled_array]
      split
      · exact reads_array (isSpace_of_spaces hspaces.deeper) (isSpace_of_spaces hspaces)
          fun y hy => ih y hy hspaces.deeper
      · rename_i hmultine
        rcases isMultineArray_cases (x :: xs) with hlines | ⟨hno, -⟩
        · exact absurd (congrArg Prod.fst hlines) hmultine
        · have hspace : ∀ w ∈ [' '], isSpace w = Bool.true := by simp [isSpace]
          have h := @reads_array scalarText Value.normal [' '] [' '] hspace hspace x xs fun y hy => by
            rw [← styled_of_not_takesLines (hno y hy) indentString]
            exact ih y hy hspaces
          simpa using h
  | @object members hname horder hform ih =>
    rw [Value.normal_object]
    rcases members with _ | ⟨m, members⟩
    · exact reads_emptyObject
    · rw [styled_object]
      exact reads_object (isSpace_of_spaces hspaces.deeper) (isSpace_of_spaces hspaces)
        (fun n hn => ⟨hname n hn, ih n hn hspaces.deeper⟩) horder

theorem takesLines_normal {v : Value} (h : v.WellFormed) :
    StyledWriter.takesLines v.normal = StyledWriter.takesLines v := by
  have hinteger : ∀ i : Int, StyledWriter.takesLines (Value.ofInteger i) = Bool.false := by
    intro i
    rcases Value.ofInteger_cases i with ⟨-, he⟩ | ⟨-, he⟩ <;> rw [he] <;> rfl
  cases h with
  | null | bool | string => rfl
  | @int i _ => exact hinteger i
  | @uint n _ => exact hinteger n
  | @array xs => rw [Value.normal_array]; cases xs <;> rfl
  | @object members => rw [Value.normal_object]; cases members <;> rfl

/-- Whether an array is one of several lines depends on the texts of its children. -/
theorem isMultineArray_map {f : Value → Value} {xs : List Value}
    (hlines : ∀ x ∈ xs, StyledWriter.takesLines (f x) = StyledWriter.takesLines x)
    (htext : ∀ x ∈ xs, StyledWriter.takesLines x = Bool.false → scalarText (f x) = scalarText x) :
    StyledWriter.isMultineArray (xs.map f) = StyledWriter.isMultineArray xs := by
  have hany : (xs.map f).any StyledWriter.takesLines = xs.any StyledWriter.takesLines := by
    rw [List.any_map, Bool.eq_iff_iff, List.any_eq_true, List.any_eq_true]
    exact exists_congr fun x => and_congr_right fun hx => by rw [Function.comp_apply, hlines x hx]
  unfold StyledWriter.isMultineArray
  rw [hany, List.length_map]
  split
  · rfl
  · rename_i hno
    simp only [Bool.or_eq_true, not_or, Bool.not_eq_true] at hno
    have htexts : (xs.map f).map scalarText = xs.map scalarText := by
      rw [List.map_map]
      exact List.map_congr_left fun x hx =>
        htext x hx (Bool.not_eq_true _ ▸ List.any_eq_false.mp hno.2 x hx)
    rw [htexts]

theorem styled_ofInteger (indentString : List Char) (i : Int) :
    styled indentString (Value.ofInteger i) = intDigits i := by
  rcases Value.ofInteger_cases i with ⟨-, he⟩ | ⟨hlt, he⟩
  · rw [he]
    rfl
  · have hnat : ((i.toNat : ℕ) : Int) = i := by
      unfold Value.maxInt at hlt
      omega
    rw [he, ← hnat]
    rfl

/-- The normal form has the same text. -/
theorem styled_normal {v : Value} (h : v.WellFormed) (indentString : List Char) :
    styled indentString v.normal = styled indentString v := by
  induction h generalizing indentString with
  | null => rfl
  | bool => rfl
  | @int i _ => exact styled_ofInteger indentString i
  | @uint n _ => exact styled_ofInteger indentString n
  | string s =>
    have htext : valueToQuotedString (cstr s) = valueToQuotedString s := by
      rw [valueToQuotedString, cstr_cstr, valueToQuotedString]
    exact htext
  | @array xs hform ih =>
    rw [Value.normal_array]
    rcases xs with _ | ⟨x, xs⟩
    · rfl
    · have hscalar : ∀ y ∈ x :: xs, StyledWriter.takesLines y = Bool.false →
          scalarText y.normal = scalarText y := by
        intro y hy hno
        have hsame := ih y hy indentString
        rwa [styled_of_not_takesLines hno,
          styled_of_not_takesLines ((takesLines_normal (hform y hy)).trans hno)]
          at hsame
      have hmultine := isMultineArray_map (fun y hy => takesLines_normal (hform y hy)) hscalar
      rw [List.map_cons] at hmultine
      rw [List.map_cons, styled_array, styled_array, hmultine, ih x List.mem_cons_self, List.map_map,
        List.map_map]
      split
      · have htexts : xs.map (styled (deeper indentString) ∘ Value.normal) =
            xs.map (styled (deeper indentString)) :=
          List.map_congr_left fun y hy => ih y (List.mem_cons_of_mem x hy) _
        rw [htexts]
      · rename_i hone
        rcases isMultineArray_cases (x :: xs) with hlines | ⟨hno, -⟩
        · exact absurd (congrArg Prod.fst hlines) hone
        · have hall : ∀ y ∈ x :: xs, scalarText y.normal = scalarText y :=
            fun y hy => hscalar y hy (hno y hy)
          have htexts : xs.map (scalarText ∘ Value.normal) = xs.map scalarText :=
            List.map_congr_left fun y hy => hall y (List.mem_cons_of_mem x hy)
          rw [htexts, hall x List.mem_cons_self]
  | @object members hname horder hform ih =>
    rw [Value.normal_object]
    rcases members with _ | ⟨m, members⟩
    · rfl
    · rw [List.map_cons, styled_object, styled_object, ih m List.mem_cons_self, List.map_map]
      have htexts : ∀ n ∈ members, namedText n.1 (styled (deeper indentString) n.2.normal) =
          namedText n.1 (styled (deeper indentString) n.2) := fun n hn => by
        rw [ih n (List.mem_cons_of_mem m hn)]
      rw [← List.map_congr_left htexts]
      rfl

theorem toList_write {v : Value} (h : v.WellFormed) : (write v).toList = styled [] v ++ ['\n'] := by
  rw [write, String.toList_ofList, writeValue_eq h ⟨[], []⟩ spaces_nil rfl]
  rfl

/-- **What is written is read as its normal form.** -/
theorem parse_write_normal {v : Value} (h : v.WellFormed) : parse (write v) = some v.normal := by
  have htext := toList_write h
  have hread := @Reads.read _ _ (reads_styled h spaces_nil) ((write v).toList.length + 1) [] ['\n']
    (by rw [htext, List.length_append]; omega) isSpace_nil ⟨'\n', [], rfl, rfl⟩
  rw [List.nil_append, ← htext] at hread
  rw [parse, hread]
  rfl

theorem write_normal {v : Value} (h : v.WellFormed) : write v.normal = write v := by
  rw [← String.toList_inj, toList_write h.normal, toList_write h, styled_normal h]

/-- **The round trip**: what is written is read as its normal form, which is
written as the same text again. -/
theorem parse_write_eq {v : Value} (h : v.WellFormed) :
    parse (write v) = some v.normal ∧ write v.normal = write v :=
  ⟨parse_write_normal h, write_normal h⟩

/-- The members of an object, one of them an array of objects. -/
def friends : Value :=
  .object [("friends", .array [.object [("name", .string "Anna"), ("year", .uint 1987)], .null]),
    ("time", .int 11)]

theorem friends_wellFormed : friends.WellFormed := by
  refine .object (by decide) (List.pairwise_pair.mpr rfl) ?_
  simp only [List.forall_mem_cons, List.not_mem_nil, false_imp_iff, implies_true, and_true]
  refine ⟨.array ?_, .int (by decide)⟩
  simp only [List.forall_mem_cons, List.not_mem_nil, false_imp_iff, implies_true, and_true]
  refine ⟨.object (by decide) (List.pairwise_pair.mpr rfl) ?_, .null⟩
  simp only [List.forall_mem_cons, List.not_mem_nil, false_imp_iff, implies_true, and_true]
  exact ⟨.string _, .uint (by decide)⟩

theorem friends_read : parse (write friends) = some (.object [("friends",
    .array [.object [("name", .string "Anna"), ("year", .int 1987)], .null]), ("time", .int 11)]) :=
  (parse_write_eq friends_wellFormed).1

/-- **Two values have one text exactly if** they have one normal form. -/
theorem write_eq_iff {v w : Value} (hv : v.WellFormed) (hw : w.WellFormed) :
    write v = write w ↔ v.normal = w.normal := by
  constructor
  · intro h
    have hread := parse_write_normal hv
    rw [h, parse_write_normal hw] at hread
    exact (Option.some.inj hread).symm
  · intro h
    rw [← write_normal hv, h, write_normal hw]

theorem year_write : write (.array [.uint 1987]) = write (.array [.int 1987]) := by
  refine (write_eq_iff (.array ?_) (.array ?_)).mpr rfl
  · simpa using Value.WellFormed.uint (by decide)
  · simpa using Value.WellFormed.int (by decide)

/-- **A value comes back as it was exactly if** it is one of those that are kept. -/
theorem parse_write_eq_self_iff {v : Value} (h : v.WellFormed) : parse (write v) = some v ↔ v.Kept := by
  rw [parse_write_normal h, Option.some.injEq, Value.normal_eq_self_iff h]

theorem friends_changed : parse (write friends) ≠ some friends := by
  rw [Ne, parse_write_eq_self_iff friends_wellFormed, ← Value.normal_eq_self_iff friends_wellFormed]
  simp [friends, Value.normal, Value.normalMembers, Value.normalElements, Value.ofInteger, Value.maxInt]

end Json
end Horo
