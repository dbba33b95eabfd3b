/-
# The URL of a picture in a style

`urlDecode` of `src/ios/Platform/Platform.mm`, with which the parser of the
page of friends undoes the escapes of CSS: a backslash, the code of a character
in hexadecimal digits and a space. The code is read from a stream, into an `n`
that is not initialized.

Key definitions: `urlDecode`, `Written`.
Key theorems: `streamHex_code`, `restore_written`, `urlDecode_written`,
`pictureOf_written`.
-/
import Horo.Html.FriendsParser
import Horo.Lib.Hex

namespace Horo
namespace Platform

open Lib

/-- What is used of `NSString`. -/
structure Foundation where
  uppercaseString : List Char → List Char
  /-- `stringWithFormat:@"%c"`. -/
  stringWithChar : Int8 → List Char
  uppercaseString_ascii : ∀ string, (∀ c ∈ string, c.toNat < 128) →
    uppercaseString string = string.map Char.toUpper
  stringWithChar_ascii : ∀ c : Char, 0 < c.toNat → c.toNat < 128 →
    stringWithChar (Int8.ofNat c.toNat) = [c]

/-- `istringstream( text ) >> std::hex >> n`. A number that is too large or too
small gives the nearest `int`. -/
def streamHex (text : List Char) (n : Int32) : Int32 :=
  match text.dropWhile isspace with
  | [] => n
  | c :: cs => Int32.ofIntClamp (Hex.read (c :: cs))

section

variable (F : Foundation) (uninitialized : ℕ → Int32)

/-- What is appended for a component; `none` where `urlDecode` returns. -/
def restoredComponent (index : ℕ) (component : List Char) : Option (List Char) :=
  if index ≠ 0 then
    match component.splitOn ' ' with
    | [hex, last] =>
      let n := streamHex (F.uppercaseString hex) (uninitialized index)
      some (F.stringWithChar n.toInt8 ++ last)
    | _ => none
  else some component

/-- The loop over the components. -/
def restore (index : ℕ) (restored : List Char) : List (List Char) → List Char
  | [] => restored.takeWhile (· ≠ '\x00')
  | component :: components =>
    match restoredComponent F uninitialized index component with
    | some text => restore (index + 1) (restored ++ text) components
    | none => []

def urlDecode (decodedUrl : List Char) : List Char :=
  restore F uninitialized 0 [] ((decodedUrl.takeWhile (· ≠ '\x00')).splitOn '\\')

end

/-! ### Reading back what is escaped -/

/-- A character that an escape is not made of. -/
def Plain (c : Char) : Prop := 0 < c.toNat ∧ c.toNat < 128 ∧ c ≠ '\\' ∧ c ≠ ' '

instance (c : Char) : Decidable (Plain c) := inferInstanceAs (Decidable (_ ∧ _))

/-- A hexadecimal code of a character: each digit is in either letter case. -/
def CodeOf (c : Char) (hex : List Char) : Prop :=
  List.Forall₂ (fun digit h => h = digit ∨ h = digit.toUpper) (Nat.toDigits 16 c.toNat) hex

/-- A character is written as it is, or as a backslash, its code and a space. -/
inductive Written (c : Char) : List Char → Prop
  | plain : Written c [c]
  | escaped {hex : List Char} (h : CodeOf c hex) : Written c ('\\' :: (hex ++ [' ']))

/-- A digit in either letter case is plain, and the same in upper case. -/
theorem spelled_digit {d : ℕ} (hd : d < 16) {h : Char}
    (hspelled : h = d.digitChar ∨ h = d.digitChar.toUpper) :
    Plain h ∧ h.toUpper = d.digitChar.toUpper := by
  have hcases : ∀ d < 16, Plain d.digitChar ∧ Plain d.digitChar.toUpper ∧
      d.digitChar.toUpper.toUpper = d.digitChar.toUpper := by decide
  obtain ⟨hlower, hupper, htwice⟩ := hcases d hd
  rcases hspelled with rfl | rfl
  · exact ⟨hlower, rfl⟩
  · exact ⟨hupper, htwice⟩

theorem spelled_digits {ds hex : List Char}
    (h : List.Forall₂ (fun digit h => h = digit ∨ h = digit.toUpper) ds hex)
    (hds : ∀ digit ∈ ds, ∃ d < 16, digit = Nat.digitChar d) :
    (∀ x ∈ hex, Plain x) ∧ hex.map Char.toUpper = ds.map Char.toUpper := by
  induction h with
  | nil => exact ⟨List.forall_mem_nil _, rfl⟩
  | @cons digit x ds hex hx _ ih =>
    obtain ⟨⟨d, hd, rfl⟩, hrest⟩ := List.forall_mem_cons.mp hds
    obtain ⟨hplain, hupper⟩ := spelled_digit hd hx
    obtain ⟨ihplain, ihupper⟩ := ih hrest
    exact ⟨List.forall_mem_cons.mpr ⟨hplain, ihplain⟩, by
      rw [List.map_cons, List.map_cons, hupper, ihupper]⟩

theorem CodeOf.plain {c : Char} {hex : List Char} (h : CodeOf c hex) : ∀ x ∈ hex, Plain x :=
  (spelled_digits h fun _ => Hex.exists_digit_of_mem_toDigits).1

theorem CodeOf.map_toUpper {c : Char} {hex : List Char} (h : CodeOf c hex) :
    hex.map Char.toUpper = (Nat.toDigits 16 c.toNat).map Char.toUpper :=
  (spelled_digits h fun _ => Hex.exists_digit_of_mem_toDigits).2

/-- The stream reads the code, whatever the case of its digits. -/
theorem streamHex_code (F : Foundation) {c : Char} {hex : List Char} (hc : c.toNat < 128)
    (h : CodeOf c hex) (n : Int32) : streamHex (F.uppercaseString hex) n = Int32.ofNat c.toNat := by
  have hdigits := Hex.digits_map_toDigits Hex.digitOf_toUpper_digitChar c.toNat
  have hread : Hex.read ((Nat.toDigits 16 c.toNat).map Char.toUpper) = c.toNat := by
    rw [Hex.read_of_digits hdigits, Hex.digits_toDigits Hex.digitOf_toUpper_digitChar]
  rw [F.uppercaseString_ascii hex fun x hx => (h.plain x hx).2.1, h.map_toUpper]
  rcases hcs : (Nat.toDigits 16 c.toNat).map Char.toUpper with _ | ⟨x, cs⟩
  · exact absurd (List.map_eq_nil_iff.mp hcs) Nat.toDigits_ne_nil
  · rw [hcs] at hdigits hread
    rw [streamHex, dropWhile_isspace_of_digitOf (hdigits x List.mem_cons_self)]
    change Int32.ofIntClamp (Hex.read (x :: cs)) = Int32.ofNat c.toNat
    rw [hread, Int32.ofIntClamp, dif_pos (by change (-2147483648 : ℤ) ≤ _; omega),
      dif_pos (by change _ ≤ (2147483647 : ℤ); omega), Int32.ofIntLE_eq_ofInt, Int32.ofInt_eq_ofNat]

/-! ### The loop -/

section

variable (F : Foundation) (uninitialized : ℕ → Int32)

/-- A component that begins with `current` gives `text` and what follows. -/
def Restores (index : ℕ) (current text : List Char) : Prop :=
  ∀ more, ' ' ∉ more →
    restoredComponent F uninitialized index (current ++ more) = some (text ++ more)

variable {F uninitialized}

theorem restores_start : Restores F uninitialized 0 [] [] := fun _ _ => rfl

theorem restores_code {c : Char} {hex : List Char} (hc : Plain c) (h : CodeOf c hex) (index : ℕ) :
    Restores F uninitialized (index + 1) (hex ++ [' ']) [c] := by
  intro more hmore
  have hhex : ' ' ∉ hex := fun hspace => (h.plain ' ' hspace).2.2.2 rfl
  have hsplit : (hex ++ [' '] ++ more).splitOn ' ' = [hex, more] := by
    rw [List.append_assoc, List.singleton_append, List.splitOn_append_cons_self_of_not_mem hhex,
      List.splitOn_eq_singleton hmore]
  rw [restoredComponent, if_pos (Nat.succ_ne_zero index), hsplit]
  change some (F.stringWithChar (streamHex (F.uppercaseString hex) (uninitialized (index + 1))).toInt8 ++
    more) = _
  rw [streamHex_code F hc.2.1 h, Int32.toInt8_ofNat', F.stringWithChar_ascii c hc.1 hc.2.1]

theorem Restores.snoc {index : ℕ} {current text : List Char} {c : Char}
    (h : Restores F uninitialized index current text) (hc : ' ' ≠ c) :
    Restores F uninitialized index (current ++ [c]) (text ++ [c]) := by
  intro more hmore
  rw [List.append_assoc, List.append_assoc]
  exact h (c :: more) (List.not_mem_cons_of_ne_of_not_mem hc hmore)

theorem Restores.component {index : ℕ} {current text : List Char}
    (h : Restores F uninitialized index current text) :
    restoredComponent F uninitialized index current = some text := by
  have hnil := h [] List.not_mem_nil
  rwa [List.append_nil, List.append_nil] at hnil

/-- What has no separator in it belongs to the current part. -/
theorem splitOnPPrepend_append {α : Type} {p : α → Bool} : ∀ {part : List α} (rest current : List α),
    (∀ a ∈ part, p a = false) →
    (part ++ rest).splitOnPPrepend p current = rest.splitOnPPrepend p (part.reverse ++ current)
  | [], _, _, _ => rfl
  | a :: part, rest, current, h => by
    obtain ⟨ha, hpart⟩ := List.forall_mem_cons.mp h
    rw [List.cons_append, List.splitOnPPrepend_cons_neg ha, splitOnPPrepend_append rest _ hpart,
      List.reverse_cons, List.append_assoc]
    rfl

/-- The characters are restored one by one, wherever in a component they stand. -/
theorem restore_written {s : List Char} {ws : List (List Char)} (h : List.Forall₂ Written s ws) :
    (∀ c ∈ s, Plain c) → ∀ {index : ℕ} (restored : List Char) {current text : List Char},
    Restores F uninitialized index current text →
    restore F uninitialized index restored
        (ws.flatten.splitOnPPrepend (· == '\\') current.reverse) =
      (restored ++ text ++ s).takeWhile (· ≠ '\x00') := by
  induction h with
  | nil =>
    intro _ index restored current text hrestores
    rw [List.flatten_nil, List.splitOnPPrepend_nil, List.reverse_reverse, restore,
      hrestores.component, List.append_nil]
    rfl
  | @cons c w s ws hw _ ih =>
    intro hs index restored current text hrestores
    obtain ⟨hc, hs⟩ := List.forall_mem_cons.mp hs
    rw [List.flatten_cons]
    cases hw with
    | plain =>
      have hplain : (c == '\\') = false := beq_eq_false_iff_ne.mpr hc.2.2.1
      rw [List.singleton_append, List.splitOnPPrepend_cons_neg (p := (· == '\\')) hplain,
        ← List.reverse_concat', ih hs restored (hrestores.snoc (Ne.symm hc.2.2.2))]
      simp
    | @escaped hex hhex =>
      have hno : ∀ x ∈ hex ++ [' '], (x == '\\') = false := by
        intro x hx
        rcases List.mem_append.mp hx with hx | hx
        · exact beq_eq_false_iff_ne.mpr (hhex.plain x hx).2.2.1
        · rw [List.mem_singleton.mp hx]
          rfl
      -- the component ends here, and the next one begins with the code
      rw [List.cons_append, List.splitOnPPrepend_cons_pos (p := (· == '\\')) rfl, List.reverse_reverse,
        restore, hrestores.component]
      change restore F uninitialized (index + 1) (restored ++ text)
        (((hex ++ [' ']) ++ ws.flatten).splitOnPPrepend (· == '\\') []) = _
      rw [splitOnPPrepend_append _ _ hno, List.append_nil,
        ih hs (restored ++ text) (restores_code hc hhex index)]
      simp

/-- The writing of plain characters is plain but for backslashes and spaces. -/
theorem ne_zero_of_mem_written {s : List Char} {ws : List (List Char)} (h : List.Forall₂ Written s ws)
    (hs : ∀ c ∈ s, Plain c) : ∀ c ∈ ws.flatten, c ≠ '\x00' := by
  induction h with
  | nil => exact List.forall_mem_nil _
  | @cons c w s ws hw _ ih =>
    obtain ⟨hc, hs⟩ := List.forall_mem_cons.mp hs
    rw [List.flatten_cons]
    have hplain : ∀ x, Plain x → x ≠ '\x00' := by
      rintro x hx rfl
      exact absurd hx.1 (by decide)
    refine List.forall_mem_append.mpr ⟨?_, ih hs⟩
    cases hw with
    | plain => exact List.forall_mem_singleton.mpr (hplain c hc)
    | escaped hhex =>
      rw [List.forall_mem_cons, List.forall_mem_append, List.forall_mem_singleton]
      exact ⟨by decide, fun x hx => hplain x (hhex.plain x hx), by decide⟩

/-- **What is escaped is restored**, whichever of the characters are escaped
and whatever the letter case of their codes, and whatever stood in `n`. -/
theorem urlDecode_written (F : Foundation) (uninitialized : ℕ → Int32) {s : List Char}
    {ws : List (List Char)} (hs : ∀ c ∈ s, Plain c) (h : List.Forall₂ Written s ws) :
    urlDecode F uninitialized ws.flatten = s := by
  have hzero : ∀ cs : List Char, (∀ c ∈ cs, c ≠ '\x00') → cs.takeWhile (· ≠ '\x00') = cs :=
    fun cs hcs => List.takeWhile_eq_self_iff.mpr fun c hc => decide_eq_true (hcs c hc)
  have hs_zero : ∀ c ∈ s, c ≠ '\x00' := by
    rintro c hc rfl
    exact absurd (hs _ hc).1 (by decide)
  rw [urlDecode, hzero _ (ne_zero_of_mem_written h hs), List.splitOn_eq_splitOnP,
    List.splitOnP_eq_splitOnPPrepend]
  exact (restore_written h hs [] restores_start).trans (hzero s hs_zero)

end

/-- On texts that have only ASCII characters. -/
def Foundation.ascii : Foundation where
  uppercaseString := List.map Char.toUpper
  stringWithChar c := [Char.ofNat c.toUInt8.toNat]
  uppercaseString_ascii _ _ := rfl
  stringWithChar_ascii c _ hc := by
    rw [Int8.toUInt8_ofNat', UInt8.toNat_ofNat_of_lt' (by change c.toNat < 256; omega), Char.ofNat_toNat]

/-- Two escapes side by side, in either letter case, before a digit that is
not part of them. -/
theorem colon_slash_restored :
    urlDecode .ascii (fun _ => 0) "a\\3a \\2F 3b".toList = "a:/3b".toList := by
  have hcolon : CodeOf ':' ['3', 'a'] := .cons (.inl rfl) (.cons (.inl rfl) .nil)
  have hslash : CodeOf '/' ['2', 'F'] := .cons (.inl rfl) (.cons (.inr rfl) .nil)
  have hwritten : List.Forall₂ Written "a:/3b".toList
      [['a'], '\\' :: (['3', 'a'] ++ [' ']), '\\' :: (['2', 'F'] ++ [' ']), ['3'], ['b']] :=
    .cons .plain (.cons (.escaped hcolon) (.cons (.escaped hslash) (.cons .plain (.cons .plain .nil))))
  exact urlDecode_written .ascii (fun _ => 0) (List.all_iff_forall_prop.mp (by decide)) hwritten

/-! ### The picture of a friend -/

/-- The image of a style stands after its first quote. -/
theorem after_quote (rest : List Char) : ∀ {start : List Char}, '\'' ∉ start →
    Html.FriendsParser.after "url('".toList (start ++ ("url('".toList ++ rest)) = some rest
  | [], _ => rfl
  | c :: start, h => by
    have hno : ¬ "url('".toList.isPrefixOf (c :: (start ++ ("url('".toList ++ rest))) = true := by
      rw [List.isPrefixOf_iff_prefix]
      rintro ⟨rest', hrest⟩
      -- four characters stand before the first quote of the one, more in the other
      have hstart : '\'' ∉ c :: start ++ "url(".toList := by
        rw [List.mem_append, not_or]
        exact ⟨h, by decide⟩
      have hshort := takeWhile_ne_append (show '\'' ∉ "url(".toList by decide) rest'
      have hlong := takeWhile_ne_append hstart rest
      rw [List.append_assoc] at hlong
      have hquote : "url(".toList = c :: start ++ "url(".toList :=
        hshort.symm.trans ((congrArg (List.takeWhile (· ≠ '\'')) hrest).trans hlong)
      have hlength := congrArg List.length hquote
      rw [List.length_append, List.length_cons] at hlength
      omega
    rw [List.cons_append, Html.FriendsParser.after, if_neg hno]
    exact after_quote rest fun hstart => h (List.mem_cons_of_mem c hstart)

/-- **The picture of a friend is the URL that its style was written for**, if
no quote is written as it is. -/
theorem pictureOf_written (F : Foundation) (uninitialized : ℕ → Int32) {s : List Char}
    {ws : List (List Char)} (hs : ∀ c ∈ s, Plain c) (h : List.Forall₂ Written s ws)
    (hquote : '\'' ∉ ws.flatten) {start rest : List Char} (hstart : '\'' ∉ start)
    {attributes iAttributes : List Html.GumboAttribute} {iChildren children : List Html.GumboNode}
    {clsAttr style : Html.GumboAttribute} (hcls : Html.getAttribute attributes "class" = some clsAttr)
    (hdark : Json.cstr clsAttr.value = "darkTouch")
    (hstyle : Html.getAttribute iAttributes "style" = some style)
    (htext : (Json.cstr style.value).toList =
      start ++ ("url('".toList ++ (ws.flatten ++ '\'' :: rest))) :
    Html.FriendsParser.pictureOf (fun url => String.ofList (urlDecode F uninitialized url.toList))
      attributes (.element .i iAttributes iChildren :: children) = some (String.ofList s) := by
  have himage : Html.FriendsParser.imageOfStyle (Json.cstr style.value).toList = some ws.flatten := by
    rw [htext, Html.FriendsParser.imageOfStyle, after_quote _ hstart]
    change (if '\'' ∈ ws.flatten ++ '\'' :: rest then _ else _) = _
    rw [if_pos (List.mem_append_right _ List.mem_cons_self), takeWhile_ne_append hquote]
  have htouch : Html.FriendsParser.isDarkTouch attributes = true := by
    rw [Html.FriendsParser.isDarkTouch, hcls]
    exact beq_iff_eq.mpr hdark
  rw [Html.FriendsParser.pictureOf, if_pos htouch]
  simp only [Html.GumboNode.vElement, if_true, Html.FriendsParser.styleImage, hstyle, himage,
    Option.map_some, String.toList_ofList, urlDecode_written F uninitialized hs h]

end Platform
end Horo
