/-
# `Json::Reader`

`Components/jsoncpp/src/lib_json/json_reader.cpp`, with the features of
`Features::all()`. What is left of the document is a list of characters. A
text that does not parse is `none`: the callers modelled here look neither at
the errors nor at what was built up to them, so the recovery from an error is
left out, and the comments are skipped and not kept.

* `parse_write`: what `StyledWriter` writes for an object of scalars is read
  back.
-/
import Horo.Json.Writer

namespace Horo
namespace Json

open Lib

/-! ### Tokens -/

/-- A token, with its text where the text is looked at. -/
inductive Token
  | endOfStream | objectBegin | objectEnd | arrayBegin | arrayEnd
  | string (text : List Char) | number (text : List Char)
  | true | false | null | arraySeparator | memberSeparator | comment | error
  deriving DecidableEq, Repr

def isSpace (c : Char) : Bool := c == ' ' || c == '\t' || c == '\r' || c == '\n'

def skipSpaces (cs : List Char) : List Char := cs.dropWhile isSpace

/-- `readString`, after the opening quote: the text up to the closing one. -/
def readString : List Char → Option (List Char × List Char)
  | [] => none
  | '"' :: cs => some ([], cs)
  | '\\' :: c :: cs => (readString cs).map fun (text, rest) => ('\\' :: c :: text, rest)
  | c :: cs => (readString cs).map fun (text, rest) => (c :: text, rest)

/-- `readCStyleComment`. -/
def readCStyleComment : List Char → Option (List Char)
  | '*' :: '/' :: cs => some cs
  | _ :: cs => readCStyleComment cs
  | [] => none

def readCppStyleComment : List Char → List Char
  | [] => []
  | c :: cs => if c = '\r' ∨ c = '\n' then cs else readCppStyleComment cs

/-- `readComment`, after the slash. -/
def readComment : List Char → Option (List Char)
  | '*' :: cs => readCStyleComment cs
  | '/' :: cs => some (readCppStyleComment cs)
  | _ => none

def isNumberChar (c : Char) : Bool :=
  c.isDigit || c == '.' || c == 'e' || c == 'E' || c == '+' || c == '-'

/-- `match( pattern )`: the rest when the document goes on with the pattern. -/
def matchRest (pattern cs : List Char) : Option (List Char) :=
  if pattern.isPrefixOf cs then some (cs.drop pattern.length) else none

def readToken (document : List Char) : Token × List Char :=
  match skipSpaces document with
  | [] => (.endOfStream, [])
  | c :: cs =>
    match c with
    | '{' => (.objectBegin, cs)
    | '}' => (.objectEnd, cs)
    | '[' => (.arrayBegin, cs)
    | ']' => (.arrayEnd, cs)
    | '"' =>
      match readString cs with
      | some (text, rest) => (.string text, rest)
      | none => (.error, [])
    | '/' =>
      match readComment cs with
      | some rest => (.comment, rest)
      | none => (.error, [])
    | 't' =>
      match matchRest "rue".toList cs with
      | some rest => (.true, rest)
      | none => (.error, cs)
    | 'f' =>
      match matchRest "alse".toList cs with
      | some rest => (.false, rest)
      | none => (.error, cs)
    | 'n' =>
      match matchRest "ull".toList cs with
      | some rest => (.null, rest)
      | none => (.error, cs)
    | ',' => (.arraySeparator, cs)
    | ':' => (.memberSeparator, cs)
    | '\x00' => (.endOfStream, cs)
    | c =>
      if c.isDigit || c == '-' then
        (.number (c :: cs.takeWhile isNumberChar), cs.dropWhile isNumberChar)
      else (.error, cs)

/-- `skipCommentTokens`. Every comment takes at least a character. -/
def skipCommentTokens : ℕ → List Char → Token × List Char
  | 0, _ => (.error, [])
  | fuel + 1, cs =>
    match readToken cs with
    | (.comment, rest) => skipCommentTokens fuel rest
    | other => other

/-! ### Scalars -/

/-- The outcomes of the digit loop of `decodeNumber`. -/
inductive Scan
  | notANumber | tooLarge | value (n : ℕ)
  deriving DecidableEq, Repr

/-- The digit loop of `decodeNumber`. -/
def scanInteger (maxIntegerValue : ℕ) : ℕ → List Char → Scan
  | value, [] => .value value
  | value, c :: cs =>
    if c.isDigit = Bool.false then .notANumber
    else
      let digit := c.toNat - '0'.toNat
      let threshold := maxIntegerValue / 10
      if threshold ≤ value ∧
          (threshold < value ∨ cs ≠ [] ∨ maxIntegerValue % 10 < digit) then .tooLarge
      else scanInteger maxIntegerValue (10 * value + digit) cs

def decodeDouble (token : List Char) : Option Value :=
  (Decimal.scan token).map fun (d, _) => .real d

def decodeNumber (token : List Char) : Option Value :=
  let isDouble := token.any (fun c => c == '.' || c == 'e' || c == 'E' || c == '+') ||
    token.tail.any (· == '-')
  if isDouble then decodeDouble token
  else
    let isNegative := token.head? == some '-'
    let maxIntegerValue := if isNegative then 2 ^ 63 else Value.maxLargestUInt
    match scanInteger maxIntegerValue 0 (if isNegative then token.tail else token) with
    | .notANumber => none
    | .tooLarge => decodeDouble token
    | .value n =>
      if isNegative then some (.int (-n))
      else if (n : Int) ≤ Value.maxInt then some (.int n)
      else some (.uint n)

def hexValue (c : Char) : Option ℕ :=
  if '0' ≤ c ∧ c ≤ '9' then some (c.toNat - '0'.toNat)
  else if 'a' ≤ c ∧ c ≤ 'f' then some (c.toNat - 'a'.toNat + 10)
  else if 'A' ≤ c ∧ c ≤ 'F' then some (c.toNat - 'A'.toNat + 10)
  else none

/-- `decodeUnicodeEscapeSequence`. -/
def decodeUnicodeEscapeSequence : List Char → Option (ℕ × List Char)
  | a :: b :: c :: d :: rest => do
    let a ← hexValue a
    let b ← hexValue b
    let c ← hexValue c
    let d ← hexValue d
    return (((a * 16 + b) * 16 + c) * 16 + d, rest)
  | _ => none

/-- `decodeUnicodeCodePoint`: a surrogate takes the next one with it. -/
def decodeUnicodeCodePoint (cs : List Char) : Option (ℕ × List Char) := do
  let (unicode, rest) ← decodeUnicodeEscapeSequence cs
  if 0xD800 ≤ unicode ∧ unicode ≤ 0xDBFF then
    match rest with
    | '\\' :: 'u' :: rest =>
      let (surrogatePair, rest) ← decodeUnicodeEscapeSequence rest
      return (0x10000 + unicode % 0x400 * 0x400 + surrogatePair % 0x400, rest)
    | _ => none
  else return (unicode, rest)

/-- The one-character escapes. -/
def unescape : Char → Option Char
  | '"' => some '"'
  | '/' => some '/'
  | '\\' => some '\\'
  | 'b' => some '\x08'
  | 'f' => some '\x0c'
  | 'n' => some '\n'
  | 'r' => some '\r'
  | 't' => some '\t'
  | _ => none

/-- `decodeString`, on the text between the quotes; the fuel is its length. -/
def decodeString : ℕ → List Char → Option (List Char)
  | _, [] => some []
  | 0, _ => none
  | fuel + 1, c :: cs =>
    if c = '\\' then
      match cs with
      | [] => none
      | 'u' :: cs => do
        let (unicode, rest) ← decodeUnicodeCodePoint cs
        let decoded ← decodeString fuel rest
        return Char.ofNat unicode :: decoded
      | escape :: cs => do
        let c ← unescape escape
        let decoded ← decodeString fuel cs
        return c :: decoded
    else (decodeString fuel cs).map (c :: ·)

/-! ### Values -/

mutual

/-- `readValue`. The fuel is the length of the document. -/
def readValue : ℕ → List Char → Option (Value × List Char)
  | 0, _ => none
  | fuel + 1, cs =>
    match skipCommentTokens (cs.length + 1) cs with
    | (.objectBegin, rest) => (readObject fuel [] "" rest).map fun (ms, rest) => (.object ms, rest)
    | (.arrayBegin, rest) =>
      match skipSpaces rest with
      | ']' :: rest => some (.array [], rest)
      | rest => (readArray fuel [] rest).map fun (xs, rest) => (.array xs, rest)
    | (.number text, rest) => (decodeNumber text).map fun v => (v, rest)
    | (.string text, rest) =>
      (decodeString text.length text).map fun s => (.string (String.ofList s), rest)
    | (.true, rest) => some (.bool Bool.true, rest)
    | (.false, rest) => some (.bool Bool.false, rest)
    | (.null, rest) => some (.null, rest)
    | _ => none

/-- The loop of `readObject`, with the members read and the last name. -/
def readObject : ℕ → Members → String → List Char → Option (Members × List Char)
  | 0, _, _, _ => none
  | fuel + 1, members, name, cs =>
    match skipCommentTokens (cs.length + 1) cs with
    | (.objectEnd, rest) => if name = "" then some (members, rest) else none
    | (.string text, rest) => do
      let name ← (decodeString text.length text).map String.ofList
      match readToken rest with
      | (.memberSeparator, rest) =>
        let (value, rest) ← readValue fuel rest
        let members := Members.set members (cstr name) value
        match readToken rest with
        | (.objectEnd, rest) => some (members, rest)
        | (.arraySeparator, rest) => readObject fuel members name rest
        | (.comment, rest) =>
          -- after a comment any token but the brace passes for a comma
          match skipCommentTokens (rest.length + 1) rest with
          | (.objectEnd, rest) => some (members, rest)
          | (_, rest) => readObject fuel members name rest
        | _ => none
      | _ => none
    | _ => none

/-- The loop of `readArray`, with the values read. -/
def readArray : ℕ → List Value → List Char → Option (List Value × List Char)
  | 0, _, _ => none
  | fuel + 1, values, cs => do
    let (value, rest) ← readValue fuel cs
    match skipCommentTokens (rest.length + 1) rest with
    | (.arrayEnd, rest) => some (values ++ [value], rest)
    | (.arraySeparator, rest) => readArray fuel (values ++ [value]) rest
    | _ => none

end

/-- `Reader::parse`. -/
def parse (document : String) : Option Value :=
  (readValue (document.toList.length + 1) document.toList).map (·.1)

/-! ### Reading what was written: strings -/

theorem hexValue_digitChar : ∀ n < 16, hexValue n.digitChar.toUpper = some n ∧
    n.digitChar.toUpper ≠ '"' ∧ n.digitChar.toUpper ≠ '\\' := by
  decide

/-- The three ways a character is written, and what reads them. -/
theorem quotedChar_cases (c : Char) :
    (∃ e, quotedChar c = ['\\', e] ∧ unescape e = some c ∧ e ≠ 'u') ∨
      (c.toNat < 32 ∧ quotedChar c =
        ['\\', 'u', '0', '0', (c.toNat / 16).digitChar.toUpper, (c.toNat % 16).digitChar.toUpper]) ∨
      (quotedChar c = [c] ∧ c ≠ '"' ∧ c ≠ '\\') := by
  unfold quotedChar
  split
  · exact .inl ⟨'"', rfl, rfl, by decide⟩
  · exact .inl ⟨'\\', rfl, rfl, by decide⟩
  · exact .inl ⟨'b', rfl, rfl, by decide⟩
  · exact .inl ⟨'f', rfl, rfl, by decide⟩
  · exact .inl ⟨'n', rfl, rfl, by decide⟩
  · exact .inl ⟨'r', rfl, rfl, by decide⟩
  · exact .inl ⟨'t', rfl, rfl, by decide⟩
  · rename_i h1 h2 _ _ _ _ _
    split
    · rename_i hc
      refine .inr (.inl ⟨?_, rfl⟩)
      simp only [isControlCharacter, Bool.and_eq_true, decide_eq_true_eq] at hc
      omega
    · exact .inr (.inr ⟨rfl, h1, h2⟩)

/-- A character that is neither a quote nor a backslash is part of the text. -/
theorem readString_cons {c : Char} (h1 : c ≠ '"') (h2 : c ≠ '\\') (cs : List Char) :
    readString (c :: cs) = (readString cs).map fun p => (c :: p.1, p.2) := by
  rw [readString.eq_def]
  split
  · simp_all
  · simp_all
  · simp_all
  · rename_i heq
    obtain ⟨rfl, rfl⟩ := List.cons.inj heq
    rfl

theorem readString_quotedChar (c : Char) (cs : List Char) :
    readString (quotedChar c ++ cs) = (readString cs).map fun p => (quotedChar c ++ p.1, p.2) := by
  rcases quotedChar_cases c with ⟨e, he, -, -⟩ | ⟨hlt, he⟩ | ⟨he, h1, h2⟩
  · rw [he]; rfl
  · obtain ⟨-, hh1, hh2⟩ := hexValue_digitChar (c.toNat / 16) (by omega)
    obtain ⟨-, hl1, hl2⟩ := hexValue_digitChar (c.toNat % 16) (by omega)
    rw [he]
    simp only [List.cons_append, List.nil_append]
    rw [readString, readString_cons (by decide) (by decide), readString_cons (by decide) (by decide),
      readString_cons hh1 hh2, readString_cons hl1 hl2]
    rcases readString cs with _ | ⟨text, rest⟩ <;> rfl
  · rw [he]
    exact readString_cons h1 h2 cs

theorem readString_quoted (rest : List Char) : ∀ cs : List Char,
    readString (cs.flatMap quotedChar ++ '"' :: rest) = some (cs.flatMap quotedChar, rest)
  | [] => rfl
  | c :: cs => by
    rw [List.flatMap_cons, List.append_assoc, readString_quotedChar, readString_quoted rest cs]
    rfl

theorem decodeUnicodeCodePoint_control {n : ℕ} (h : n < 32) (rest : List Char) :
    decodeUnicodeCodePoint ('0' :: '0' :: (n / 16).digitChar.toUpper ::
      (n % 16).digitChar.toUpper :: rest) = some (n, rest) := by
  have h0 : hexValue '0' = some 0 := rfl
  have h1 := (hexValue_digitChar (n / 16) (by omega)).1
  have h2 := (hexValue_digitChar (n % 16) (by omega)).1
  have hn : n / 16 * 16 + n % 16 = n := by omega
  simp only [decodeUnicodeCodePoint, decodeUnicodeEscapeSequence, h0, h1, h2, Option.pure_def,
    Option.bind_eq_bind, Option.bind_some, Nat.zero_mul, Nat.zero_add, hn]
  rw [if_neg (by omega)]

theorem decodeString_quoted : ∀ (cs : List Char) (fuel : ℕ), cs.length ≤ fuel →
    decodeString fuel (cs.flatMap quotedChar) = some cs
  | [], fuel, _ => by cases fuel <;> rfl
  | c :: cs, 0, h => by simp at h
  | c :: cs, fuel + 1, h => by
    have ih := decodeString_quoted cs fuel (by simpa using h)
    rw [List.flatMap_cons]
    rcases quotedChar_cases c with ⟨e, he, hu, hne⟩ | ⟨hlt, he⟩ | ⟨he, h1, h2⟩
    · rw [he]
      simp only [List.cons_append, List.nil_append, decodeString, if_true]
      simp [hu, ih]
    · rw [he]
      simp only [List.cons_append, List.nil_append, decodeString, if_true]
      rw [decodeUnicodeCodePoint_control hlt]
      simp [ih, Char.ofNat_toNat]
    · rw [he]
      simp only [List.cons_append, List.nil_append, decodeString, if_neg h2, ih, Option.map_some]

theorem length_le_flatMap_quotedChar : ∀ cs : List Char, cs.length ≤ (cs.flatMap quotedChar).length
  | [] => le_rfl
  | c :: cs => by
    have ih := length_le_flatMap_quotedChar cs
    have hpos : 1 ≤ (quotedChar c).length := by
      rcases quotedChar_cases c with ⟨e, he, -, -⟩ | ⟨-, he⟩ | ⟨he, -, -⟩ <;> simp [he]
    rw [List.flatMap_cons, List.length_append, List.length_cons]
    omega

/-! ### Reading what was written: numbers -/

/-- No digit makes the loop overflow when the whole number is small. -/
theorem scanInteger_eq {m : ℕ} : ∀ (cs : List Char) (n : ℕ),
    (∀ c ∈ cs, c.isDigit = Bool.true) →
    Nat.ofDigitChars 10 cs n < m / 10 →
    scanInteger m n cs = .value (Nat.ofDigitChars 10 cs n)
  | [], n, _, _ => by rw [scanInteger, Nat.ofDigitChars_nil]
  | c :: cs, n, hd, hlt => by
    have hc := hd c List.mem_cons_self
    rw [Nat.ofDigitChars_cons] at hlt ⊢
    have hle := le_ofDigitChars cs (10 * n + (c.toNat - '0'.toNat))
    have ih := scanInteger_eq cs (10 * n + (c.toNat - '0'.toNat))
      (fun d h => hd d (List.mem_cons_of_mem _ h)) hlt
    rw [scanInteger, if_neg (by simp [hc]), if_neg (fun h => absurd h.1 (by omega))]
    exact ih

/-- No digit makes a number a `double`, or is its sign. -/
theorem any_double_of_isDigit {cs : List Char} (h : ∀ c ∈ cs, c.isDigit = Bool.true) :
    cs.any (fun c => c == '.' || c == 'e' || c == 'E' || c == '+') = Bool.false ∧
      cs.any (· == '-') = Bool.false := by
  have hne : ∀ {c d : Char}, c ∈ cs → d.isDigit = Bool.false → c ≠ d := fun hc hd he => by
    rw [← he, h _ hc] at hd
    cases hd
  refine ⟨List.any_eq_false.mpr fun c hc => ?_, List.any_eq_false.mpr fun c hc => ?_⟩
  · simp only [Bool.or_eq_true, beq_iff_eq, not_or]
    exact ⟨⟨⟨hne hc rfl, hne hc rfl⟩, hne hc rfl⟩, hne hc rfl⟩
  · simp only [beq_iff_eq]
    exact hne hc rfl

/-- The integers that are read back as integers. -/
theorem decodeNumber_intDigits {i : Int} (h : Value.InIntRange i) :
    decodeNumber (intDigits i) = some (.int i) := by
  obtain ⟨hmin, hmax⟩ := h
  unfold Value.minInt at hmin
  unfold Value.maxInt at hmax
  have hdigit : ∀ c ∈ Nat.toDigits 10 i.natAbs, c.isDigit = Bool.true :=
    fun c hc => isDigit_of_mem_toDigits hc
  have hscan : ∀ m, 2 ^ 63 ≤ m → scanInteger m 0 (Nat.toDigits 10 i.natAbs) = .value i.natAbs := by
    intro m hm
    rw [scanInteger_eq _ _ hdigit] <;> rw [Nat.ofDigitChars_ten_toDigits]
    omega
  obtain ⟨hd1, hd2⟩ := any_double_of_isDigit hdigit
  by_cases hneg : i < 0
  · have htext : intDigits i = '-' :: Nat.toDigits 10 i.natAbs := if_pos hneg
    have habs : -(i.natAbs : Int) = i := by omega
    have hs := hscan 9223372036854775808 (by decide)
    unfold decodeNumber
    rw [htext]
    generalize i.natAbs = n at hd1 hd2 hs habs ⊢
    simp [hd1, hd2, hs, habs]
  · have htext : intDigits i = Nat.toDigits 10 i.natAbs := if_neg hneg
    have habs : (i.natAbs : Int) = i := by omega
    obtain ⟨c, cs, hcs, hc⟩ := exists_toDigits_eq_cons i.natAbs
    have htail : cs.any (· == '-') = Bool.false := by
      have h2 := hd2
      rw [hcs, List.any_cons, Bool.or_eq_false_iff] at h2
      exact h2.2
    have hhead : c ≠ '-' := fun he => by rw [he] at hc; cases hc
    unfold decodeNumber
    rw [htext]
    have hs := hscan Value.maxLargestUInt (by decide)
    rw [hcs] at hd1 hs ⊢
    have hmax' : i ≤ Value.maxInt := hmax
    simp [hd1, htail, hs, habs, hhead, hmax']

/-! ### Reading what was written: objects of scalars -/

/-- The scalars whose text is read back as what was written. -/
def Value.Plain : Value → Prop
  | .null => True
  | .bool _ => True
  | .int i => Value.InIntRange i
  | .string s => cstr s = s
  | _ => False

instance (v : Value) : Decidable v.Plain := by
  cases v <;> unfold Value.Plain <;> infer_instance

theorem skipSpaces_append {ws cs : List Char} {c : Char} (hws : ∀ w ∈ ws, isSpace w = Bool.true)
    (hc : isSpace c = Bool.false) : skipSpaces (ws ++ c :: cs) = c :: cs := by
  unfold skipSpaces
  rw [List.dropWhile_append_of_pos hws, List.dropWhile_cons_of_neg (by simp [hc])]

theorem skipSpaces_cons {cs : List Char} {c : Char} (hc : isSpace c = Bool.false) :
    skipSpaces (c :: cs) = c :: cs := by
  unfold skipSpaces
  rw [List.dropWhile_cons_of_neg (by simp [hc])]

theorem skipCommentTokens_eq {fuel : ℕ} {cs rest : List Char} {t : Token}
    (h : readToken cs = (t, rest)) (ht : t ≠ .comment) :
    skipCommentTokens (fuel + 1) cs = (t, rest) := by
  rw [skipCommentTokens, h]
  rcases t <;> first | rfl | exact absurd rfl ht

theorem isSpace_of_number {x : Char} (hx : x = '-' ∨ x.isDigit = Bool.true) :
    isSpace x = Bool.false := by
  by_contra h
  simp only [isSpace, Bool.not_eq_false, Bool.or_eq_true, beq_iff_eq] at h
  rcases h with ((rfl | rfl) | rfl) | rfl <;> exact absurd hx (by decide)

/-- A sign or a digit begins a number. -/
theorem readToken_number {x : Char} (hx : x = '-' ∨ x.isDigit = Bool.true) (cs : List Char) :
    readToken (x :: cs) =
      (.number (x :: cs.takeWhile isNumberChar), cs.dropWhile isNumberChar) := by
  have hskip : skipSpaces (x :: cs) = x :: cs :=
    skipSpaces_cons (isSpace_of_number hx)
  rw [readToken, hskip]
  simp only
  split <;> try exact absurd hx (by decide)
  rw [if_pos (by rcases hx with rfl | hx <;> simp [*])]

/-- What follows a number in an object. -/
def Delimiter (c : Char) : Prop := c = ',' ∨ c = '\n'

/-- The characters of a number end where the delimiter stands. -/
theorem readToken_intDigits {i : Int} {c : Char} (hc : Delimiter c) (cs : List Char) :
    ∃ x xs, intDigits i = x :: xs ∧ isSpace x = Bool.false ∧
      readToken (x :: (xs ++ c :: cs)) = (.number (x :: xs), c :: cs) := by
  have hdelim : isNumberChar c = Bool.false := by rcases hc with rfl | rfl <;> rfl
  have hnum : ∀ x ∈ intDigits i, isNumberChar x = Bool.true := by
    intro x hx
    rcases mem_intDigits hx with rfl | hx
    · rfl
    · simp [isNumberChar, hx]
  obtain ⟨x, xs, hxs⟩ := List.exists_cons_of_ne_nil (intDigits_ne_nil i)
  have hx : x = '-' ∨ x.isDigit = Bool.true := mem_intDigits (hxs ▸ List.mem_cons_self)
  have htail : ∀ y ∈ xs, isNumberChar y = Bool.true := fun y hy => hnum y (hxs ▸ List.mem_cons_of_mem _ hy)
  have htake : (xs ++ c :: cs).takeWhile isNumberChar = xs := by
    rw [List.takeWhile_append_of_pos htail, List.takeWhile_cons_of_neg (by simp [hdelim]), List.append_nil]
  have hdrop : (xs ++ c :: cs).dropWhile isNumberChar = c :: cs := by
    rw [List.dropWhile_append_of_pos htail, List.dropWhile_cons_of_neg (by simp [hdelim])]
  exact ⟨x, xs, hxs, isSpace_of_number hx, by rw [readToken_number hx, htake, hdrop]⟩

/-- A plain scalar after blanks is read, up to what follows it. -/
theorem readValue_scalarText {v : Value} (hv : v.Plain) {fuel : ℕ} {ws cs : List Char} {c : Char}
    (hws : ∀ w ∈ ws, isSpace w = Bool.true) (hc : Delimiter c) :
    readValue (fuel + 1) (ws ++ scalarText v ++ c :: cs) = some (v, c :: cs) := by
  have htoken : ∀ {t : Token} {d : Char} {ds : List Char}, scalarText v ++ c :: cs = d :: ds →
      isSpace d = Bool.false → readToken (d :: ds) = (t, c :: cs) → t ≠ .comment →
      skipCommentTokens ((ws ++ scalarText v ++ c :: cs).length + 1)
        (ws ++ scalarText v ++ c :: cs) = (t, c :: cs) := by
    intro t d ds htext hd hread ht
    refine skipCommentTokens_eq ?_ ht
    rw [List.append_assoc, htext, readToken, skipSpaces_append hws hd]
    rw [readToken, skipSpaces_cons hd] at hread
    exact hread
  rcases v with _ | i | n | d | s | b | xs | ms
  · rw [readValue, @htoken .null _ _ rfl rfl rfl (by decide)]
  · obtain ⟨x, xs, hxs, hspace, hread⟩ := @readToken_intDigits i c hc cs
    rw [readValue, htoken (by rw [scalarText, hxs]; rfl) hspace hread (by simp), ← hxs]
    simp only [decodeNumber_intDigits (show Value.InIntRange i from hv), Option.map_some]
  · cases hv
  · cases hv
  · have hread : readToken ('"' :: ((cstr s).toList.flatMap quotedChar ++ '"' :: (c :: cs))) =
        (.string ((cstr s).toList.flatMap quotedChar), c :: cs) := by
      rw [readToken, show ∀ l, skipSpaces ('"' :: l) = '"' :: l from fun l => rfl]
      simp only [readString_quoted]
    rw [readValue, htoken (by simp [scalarText, valueToQuotedString]) rfl hread (by simp)]
    simp only [decodeString_quoted _ _ (length_le_flatMap_quotedChar _), Option.map_some,
      String.ofList_toList, show cstr s = s from hv]
  · rcases b with _ | _
    · rw [readValue, @htoken .false _ _ rfl rfl rfl (by decide)]
    · rw [readValue, @htoken .true _ _ rfl rfl rfl (by decide)]
  · cases hv
  · cases hv

/-- A member on a line of its own. -/
def memberText (indentString : List Char) (m : String × Value) : List Char :=
  '\n' :: indentString ++ valueToQuotedString m.1 ++ " : ".toList ++ scalarText m.2

/-- The members of an object of scalars. -/
def membersText (indentString : List Char) : Members → List Char
  | [] => []
  | [m] => memberText indentString m
  | m :: ms => memberText indentString m ++ ',' :: membersText indentString ms

theorem writeValue_plain {v : Value} (hv : v.Plain) (w : StyledWriter) :
    w.writeValue v = w.push (scalarText v) := by
  rcases v with _ | i | n | d | s | b | xs | ms <;> first | rfl | cases hv

/-- The text ends where `writeIndent` begins a new line. -/
def EndsLine (cs : List Char) : Prop := ∃ c, cs.getLast? = some c ∧ c ≠ ' ' ∧ c ≠ '\n'

theorem EndsLine.append {cs : List Char} (h : EndsLine cs) (before : List Char) :
    EndsLine (before ++ cs) := by
  obtain ⟨c, hc, h1, h2⟩ := h
  exact ⟨c, by rw [List.getLast?_append, hc]; rfl, h1, h2⟩

theorem endsLine_scalarText {v : Value} (hv : v.Plain) : EndsLine (scalarText v) := by
  rcases v with _ | i | n | d | s | b | xs | ms
  · exact ⟨'l', rfl, by decide, by decide⟩
  · have hlast := List.getLast_mem (intDigits_ne_nil i)
    have hspace := isSpace_of_number (mem_intDigits hlast)
    refine ⟨_, List.getLast?_eq_some_getLast (intDigits_ne_nil i), fun he => ?_, fun he => ?_⟩
    · rw [he] at hspace; cases hspace
    · rw [he] at hspace; cases hspace
  · cases hv
  · cases hv
  · exact EndsLine.append ⟨'"', rfl, by decide, by decide⟩ _
  · rcases b with _ | _ <;> exact ⟨'e', rfl, by decide, by decide⟩
  · cases hv
  · cases hv

theorem endsLine_membersText (indentString : List Char) : ∀ ms : Members, ms ≠ [] →
    (∀ m ∈ ms, m.2.Plain) → EndsLine (membersText indentString ms)
  | [], h, _ => absurd rfl h
  | [m], _, hms => (endsLine_scalarText (hms m List.mem_cons_self)).append _
  | _ :: m :: ms, _, hms => by
    have ih := endsLine_membersText indentString (m :: ms) (List.cons_ne_nil _ _)
      fun x hx => hms x (List.mem_cons_of_mem _ hx)
    exact (ih.append [',']).append _

theorem writeWithIndent_eq {w : StyledWriter} (hw : EndsLine w.document) (text : List Char) :
    w.writeWithIndent text = w.push ('\n' :: w.indentString ++ text) := by
  obtain ⟨c, hc, hspace, hline⟩ := hw
  unfold StyledWriter.writeWithIndent StyledWriter.writeIndent
  rw [hc]
  split
  · rename_i h; cases h
  · rename_i h; exact absurd (Option.some.inj h) hspace
  · rename_i h; exact absurd (Option.some.inj h) hline
  · simp [StyledWriter.push]

theorem writeMembers_eq : ∀ (ms : Members) (w : StyledWriter),
    (∀ m ∈ ms, m.2.Plain) → EndsLine w.document →
    w.writeMembers ms = w.push (membersText w.indentString ms)
  | [], w, _, _ => by simp [StyledWriter.writeMembers, membersText, StyledWriter.push]
  | [(name, child)], w, hms, hw => by
    rw [StyledWriter.writeMembers, writeWithIndent_eq hw,
      writeValue_plain (hms (name, child) List.mem_cons_self)]
    simp [StyledWriter.push, membersText, memberText]
  | (name, child) :: m :: ms, w, hms, hw => by
    rw [StyledWriter.writeMembers, writeWithIndent_eq hw,
      writeValue_plain (hms (name, child) List.mem_cons_self),
      writeMembers_eq (m :: ms) _ (fun x hx => hms x (List.mem_cons_of_mem _ hx))
        (EndsLine.append ⟨',', rfl, by decide, by decide⟩ _)]
    · simp [StyledWriter.push, membersText, memberText]
    · simp

/-- The text of an object of scalars. -/
theorem toList_write_object {ms : Members} (hne : ms ≠ []) (hms : ∀ m ∈ ms, m.2.Plain) :
    (write (.object ms)).toList =
      '{' :: (membersText (List.replicate StyledWriter.indentSize ' ') ms ++ ['\n', '}', '\n']) := by
  obtain ⟨m, ms, rfl⟩ := List.exists_cons_of_ne_nil hne
  have hopen : (⟨[], []⟩ : StyledWriter).writeWithIndent ['{'] = ⟨['{'], []⟩ := rfl
  have hmembers := writeMembers_eq (m :: ms) (StyledWriter.indent ⟨['{'], []⟩) hms
    ⟨'{', rfl, by decide, by decide⟩
  have hclose : ((StyledWriter.indent ⟨['{'], []⟩).push
      (membersText (StyledWriter.indent ⟨['{'], []⟩).indentString (m :: ms))).unindent =
      ⟨'{' :: membersText (List.replicate StyledWriter.indentSize ' ') (m :: ms), []⟩ := rfl
  have hend := (endsLine_membersText (List.replicate StyledWriter.indentSize ' ') (m :: ms) hne
    hms).append ['{']
  unfold write
  rw [String.toList_ofList, StyledWriter.writeValue, hopen, hmembers, hclose, writeWithIndent_eq hend]
  simp [StyledWriter.push]

theorem set_append {k : String} {v : Value} : ∀ {acc : Members}, (∀ m ∈ acc, Before m (k, v)) →
    Members.set acc k v = acc ++ [(k, v)]
  | [], _ => rfl
  | (k', v') :: acc, h => by
    have hbefore : strcmpLess k'.toList k.toList = Bool.true := h (k', v') List.mem_cons_self
    have hne : ¬ k = k' := by
      rintro rfl
      rw [strcmpLess_self] at hbefore
      cases hbefore
    have hafter : ¬ strcmpLess k.toList k'.toList = Bool.true := by
      rw [strcmpLess_asymm hbefore]
      nofun
    have ih := @set_append k v acc fun m hm => h m (List.mem_cons_of_mem _ hm)
    rw [Members.set, if_neg hne, if_neg hafter, ih]
    rfl

/-- The name of a member is the next token but for comments. -/
theorem skipCommentTokens_memberName {ws : List Char} (hws : ∀ w ∈ ws, isSpace w = Bool.true)
    {k : String} (hkey : cstr k = k) (cs : List Char) :
    skipCommentTokens ((ws ++ valueToQuotedString k ++ cs).length + 1)
      (ws ++ valueToQuotedString k ++ cs) = (.string (k.toList.flatMap quotedChar), cs) := by
  refine skipCommentTokens_eq ?_ (by simp)
  have htext : ws ++ valueToQuotedString k ++ cs =
      ws ++ '"' :: (k.toList.flatMap quotedChar ++ '"' :: cs) := by
    simp [valueToQuotedString, hkey]
  rw [htext, readToken, skipSpaces_append hws rfl]
  simp only [readString_quoted]

theorem decodeString_memberName (k : String) :
    (decodeString (k.toList.flatMap quotedChar).length (k.toList.flatMap quotedChar)).map
      String.ofList = some k := by
  rw [decodeString_quoted _ _ (length_le_flatMap_quotedChar _), Option.map_some, String.ofList_toList]

/-- The loop of `readObject` reads the members that are left. -/
theorem readObject_membersText {indentString : List Char}
    (hindent : ∀ w ∈ indentString, isSpace w = Bool.true) :
    ∀ (ms : Members) (fuel : ℕ) (acc : Members) (name : String), ms ≠ [] → ms.length < fuel →
      (∀ m ∈ ms, m.2.Plain ∧ cstr m.1 = m.1) → (acc ++ ms).Pairwise Before →
      readObject fuel acc name (membersText indentString ms ++ ['\n', '}', '\n']) =
        some (acc ++ ms, ['\n'])
  | [], _, _, _, hne, _, _, _ => absurd rfl hne
  | _ :: _, 0, _, _, _, hfuel, _, _ => absurd hfuel (Nat.not_lt_zero _)
  | _ :: _, 1, _, _, _, hfuel, _, _ => by simp at hfuel
  | (k, v) :: ms, fuel + 2, acc, name, _, hfuel, hms, hsort => by
    have hplain := (hms (k, v) List.mem_cons_self).1
    have hkey : cstr k = k := (hms (k, v) List.mem_cons_self).2
    have hws : ∀ w ∈ '\n' :: indentString, isSpace w = Bool.true := by
      intro w hw
      rcases List.mem_cons.mp hw with rfl | hw
      · rfl
      · exact hindent w hw
    have hset : Members.set acc (cstr k) v = acc ++ [(k, v)] := by
      rw [hkey]
      exact set_append fun m hm => (List.pairwise_append.mp hsort).2.2 m hm (k, v) List.mem_cons_self
    have hname := fun cs => skipCommentTokens_memberName hws hkey cs
    have hdecode := decodeString_memberName k
    have hcolon : ∀ cs, readToken (" : ".toList ++ cs) = (.memberSeparator, ' ' :: cs) := fun cs => rfl
    have hvalue : ∀ {c : Char} (cs : List Char), Delimiter c →
        readValue (fuel + 1) (' ' :: (scalarText v ++ c :: cs)) = some (v, c :: cs) := by
      intro c cs hc
      have h := @readValue_scalarText v hplain fuel [' '] cs c (by simp [isSpace]) hc
      simpa using h
    rcases ms with _ | ⟨m, ms⟩
    · have htext : membersText indentString [(k, v)] ++ ['\n', '}', '\n'] =
          '\n' :: indentString ++ valueToQuotedString k ++
            (" : ".toList ++ (scalarText v ++ '\n' :: ['}', '\n'])) := by
        simp [membersText, memberText]
      have hend : readToken ('\n' :: ['}', '\n']) = (.objectEnd, ['\n']) := rfl
      rw [htext, readObject, hname]
      simp only [hdecode, hcolon, hvalue _ (.inr rfl), hset, hend, Option.bind_eq_bind, Option.bind_some]
    · have htext : membersText indentString ((k, v) :: m :: ms) ++ ['\n', '}', '\n'] =
          '\n' :: indentString ++ valueToQuotedString k ++ (" : ".toList ++ (scalarText v ++
            ',' :: (membersText indentString (m :: ms) ++ ['\n', '}', '\n']))) := by
        simp [membersText, memberText]
      have hcomma : ∀ cs, readToken (',' :: cs) = (.arraySeparator, cs) := fun cs => rfl
      have ih := readObject_membersText hindent (m :: ms) (fuel + 1) (acc ++ [(k, v)]) k
        (List.cons_ne_nil _ _) (by simpa using hfuel) (fun x hx => hms x (List.mem_cons_of_mem _ hx))
        (by simpa using hsort)
      rw [htext, readObject, hname]
      simp only [hdecode, hcolon, hvalue _ (.inl rfl), hset, hcomma, Option.bind_eq_bind,
        Option.bind_some]
      rw [ih]
      simp

theorem length_le_membersText (indentString : List Char) : ∀ ms : Members,
    ms.length ≤ (membersText indentString ms).length
  | [] => le_rfl
  | [m] => by simp [membersText, memberText]
  | m :: m' :: ms => by
    have ih := length_le_membersText indentString (m' :: ms)
    have htext : membersText indentString (m :: m' :: ms) =
        memberText indentString m ++ ',' :: membersText indentString (m' :: ms) := rfl
    rw [htext]
    simp only [List.length_append, List.length_cons] at ih ⊢
    omega

/-- **What is written is read back.** -/
theorem parse_write {ms : Members} (hne : ms ≠ []) (hms : ∀ m ∈ ms, m.2.Plain ∧ cstr m.1 = m.1)
    (hsort : ms.Pairwise Before) :
    parse (write (.object ms)) = some (.object ms) := by
  have htext := toList_write_object hne fun m hm => (hms m hm).1
  have hlen := length_le_membersText (List.replicate StyledWriter.indentSize ' ') ms
  have hopen : ∀ fuel cs, skipCommentTokens (fuel + 1) ('{' :: cs) = (.objectBegin, cs) :=
    fun fuel cs => rfl
  have hread := @readObject_membersText (List.replicate StyledWriter.indentSize ' ')
    (by simp [isSpace]) ms ((write (.object ms)).toList.length) [] "" hne
    (by rw [htext, List.length_cons, List.length_append]; omega) hms (by simpa using hsort)
  unfold parse
  rw [readValue]
  rw [htext] at hread ⊢
  rw [hopen]
  simp only [hread, Option.map_some, List.nil_append]

/-! ### The text as a C string -/

theorem nul_notMem_quotedChar {c : Char} (h : c ≠ '\x00') : '\x00' ∉ quotedChar c := by
  have hhex : ∀ n < 16, n.digitChar.toUpper ≠ '\x00' := by decide
  intro hmem
  rcases quotedChar_cases c with ⟨e, he, hu, -⟩ | ⟨hlt, he⟩ | ⟨he, -, -⟩
  · rw [he] at hmem
    rcases List.mem_cons.mp hmem with h0 | h0
    · cases h0
    · rw [← List.mem_singleton.mp h0] at hu
      cases hu
  · have h1 := hhex (c.toNat / 16) (by omega)
    have h2 := hhex (c.toNat % 16) (by omega)
    rw [he] at hmem
    simp only [List.mem_cons, List.not_mem_nil, or_false] at hmem
    rcases hmem with h0 | h0 | h0 | h0 | h0 | h0
    · cases h0
    · cases h0
    · cases h0
    · cases h0
    · exact h1 h0.symm
    · exact h2 h0.symm
  · rw [he] at hmem
    exact h (List.mem_singleton.mp hmem).symm

theorem nul_notMem_valueToQuotedString (s : String) : '\x00' ∉ valueToQuotedString s := by
  intro hmem
  simp only [valueToQuotedString, List.cons_append, List.mem_cons, List.mem_append, List.mem_flatMap,
    List.not_mem_nil, or_false] at hmem
  rcases hmem with h0 | ⟨c, hc, h0⟩ | h0
  · cases h0
  · have hne : c ≠ '\x00' := by
      have htake := List.mem_takeWhile_imp (by simpa [cstr] using hc)
      simpa using htake
    exact nul_notMem_quotedChar hne h0
  · cases h0

theorem nul_notMem_scalarText {v : Value} (hv : v.Plain) : '\x00' ∉ scalarText v := by
  rcases v with _ | i | n | d | s | b | xs | ms
  · decide
  · intro hmem
    rcases mem_intDigits hmem with h0 | h0 <;> cases h0
  · cases hv
  · cases hv
  · exact nul_notMem_valueToQuotedString s
  · rcases b with _ | _ <;> decide
  · cases hv
  · cases hv

theorem nul_notMem_membersText {indentString : List Char} (hindent : '\x00' ∉ indentString) :
    ∀ ms : Members, (∀ m ∈ ms, m.2.Plain) → '\x00' ∉ membersText indentString ms
  | [], _ => List.not_mem_nil
  | [m], h => by
    have h1 := nul_notMem_valueToQuotedString m.1
    have h2 := nul_notMem_scalarText (h m List.mem_cons_self)
    simp [membersText, memberText, hindent, h1, h2]
  | m :: m' :: ms, h => by
    have h1 := nul_notMem_valueToQuotedString m.1
    have h2 := nul_notMem_scalarText (h m List.mem_cons_self)
    have ih := nul_notMem_membersText hindent (m' :: ms) fun x hx => h x (List.mem_cons_of_mem _ hx)
    simp [membersText, memberText, hindent, h1, h2, ih]

/-- Nothing of the text is lost when it is passed on as a C string. -/
theorem cstr_write {ms : Members} (hne : ms ≠ []) (hms : ∀ m ∈ ms, m.2.Plain) :
    cstr (write (.object ms)) = write (.object ms) := by
  have hnul := @nul_notMem_membersText (List.replicate StyledWriter.indentSize ' ') (by decide) ms hms
  have htext := toList_write_object hne hms
  have hall : ∀ c ∈ (write (.object ms)).toList, decide (c ≠ '\x00') = Bool.true := by
    intro c hc
    rw [htext] at hc
    refine decide_eq_true fun he => ?_
    subst he
    simp [hnul] at hc
  unfold cstr
  rw [List.takeWhile_eq_self_iff.mpr hall, String.ofList_toList]

end Json
end Horo
