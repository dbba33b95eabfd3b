/-
# The parser of the page of a friend

`src/friends/htmlparser/facebook/facebookuserdetailparser.cc`, over the tree
that gumbo makes of the page. It keeps the last ten texts and stops when the
text before the one that it keeps for the birthday is not empty.

* `iterate_eq_scan`: the traversal reads the texts in document order.
* `parseTimes_eq`: what is kept after any number of calls is the text before
  the first label of a birthday that is not the first text.
-/
import Horo.Birthday.Detector
import Horo.Html.Gumbo

namespace Horo
namespace Html
namespace UserDetailParser

open Json (cstr)

/-! ### The parser -/

/-- The members of the parser. -/
structure State where
  textsList : List String
  birthdate : String
  codes : List String
  results : Json.Members

def initial : State := ⟨[], "", [], []⟩

variable (D : BirthdayDetector)

/-- The texts after one more, the last ten. -/
def pushText (text : String) (textsList : List String) : List String :=
  let textsList := textsList ++ [text]
  if 10 < textsList.length then textsList.drop 1 else textsList

/-- What `iterate` does with a text. -/
def visitText (text : String) (s : State) : State :=
  let textsList := pushText text s.textsList
  let s := { s with textsList }
  let codes := D.isLocalizedBirthdayString text
  if codes ≠ [] ∧ 1 < textsList.length then
    { s with birthdate := textsList.getD (textsList.length - 2) "", codes }
  else s

mutual

def iterate : GumboNode → State → State
  | .text text _, s => visitText D (cstr text) s
  | .element _ _ children, s => iterateAll children s
  | .other _, s => s

/-- The loop over the children. -/
def iterateAll : List GumboNode → State → State
  | [], s => s
  | child :: children, s =>
    let s := iterate child s
    if s.birthdate ≠ "" then s else iterateAll children s

end

/-- `results_[ key ]` makes a member of a key that is asked for. -/
def touch (results : Json.Members) (key : String) : Json.Members :=
  if results.lookup key = none then results.set key .null else results

/-- `none` where jsoncpp throws. -/
def parse (root : GumboNode) (s : State) : Option State := do
  let url ← ((s.results.lookup "url").getD .null).asString
  let s := { s with results := touch s.results "url" }
  if url ≠ "" then return s
  let s := iterate D root { s with textsList := [] }
  if s.birthdate ≠ "" ∧ s.codes ≠ [] then
    let dateString := (D.timestampForDateString s.birthdate s.codes).toString
    if dateString ≠ [] then
      return { s with results := s.results.set "birthdayTimestamp" (.string (String.ofList dateString)) }
  return s

/-- The parser after calls of `parse`. -/
def parseTimes (root : GumboNode) : ℕ → Option State
  | 0 => some initial
  | n + 1 => (parseTimes root n).bind (parse D root)

/-! ### The texts of a page -/

def textOf : GumboNode → Option String
  | .text text _ => some (cstr text)
  | _ => none

/-- The texts of a page, in document order. -/
def texts (root : GumboNode) : List String := (preorder root).filterMap textOf

/-- The traversal of texts alone. -/
def scan : List String → State → State
  | [], s => s
  | text :: rest, s =>
    let s := visitText D text s
    if s.birthdate ≠ "" then s else scan rest s

theorem scan_append : ∀ (ts us : List String) {s : State}, s.birthdate = "" →
    scan D (ts ++ us) s = if (scan D ts s).birthdate ≠ "" then scan D ts s else scan D us (scan D ts s)
  | [], us, s, h => by simp [scan, h]
  | text :: ts, us, s, _ => by
    simp only [List.cons_append, scan]
    by_cases hstop : (visitText D text s).birthdate = ""
    · simp only [hstop, ne_eq, not_true_eq_false, if_false]
      exact scan_append ts us hstop
    · simp [hstop]

mutual

/-- The traversal reads the texts in document order, and stops with them. -/
theorem iterate_eq_scan : ∀ (n : GumboNode) {s : State}, s.birthdate = "" →
    iterate D n s = scan D (texts n) s
  | .text text overlay, s, _ => by
    have htexts : texts (.text text overlay) = [cstr text] := rfl
    rw [iterate, htexts, scan]
    simp [scan]
  | .element tag attributes children, s, h => by
    rw [iterate, iterateAll_eq_scan children h, texts, preorder, List.filterMap_cons_none rfl]
  | .other _, s, _ => rfl

theorem iterateAll_eq_scan : ∀ (children : List GumboNode) {s : State}, s.birthdate = "" →
    iterateAll D children s = scan D ((preorderAll children).filterMap textOf) s
  | [], s, _ => rfl
  | child :: children, s, h => by
    rw [preorderAll, List.filterMap_append, scan_append D _ _ h, ← texts, ← iterate_eq_scan child h,
      iterateAll]
    by_cases hstop : (iterate D child s).birthdate = ""
    · simp only [hstop, ne_eq, not_true_eq_false, if_false]
      exact iterateAll_eq_scan children hstop
    · simp [hstop]

end

/-! ### The text before the label -/

/-- The text of the label and the one before it, if the first text follows `prev`. -/
def labelAfter (prev : String) : List String → Option (String × String)
  | [] => none
  | text :: rest =>
    if D.isLocalizedBirthdayString text ≠ [] then some (prev, text) else labelAfter text rest

/-- The last two texts are kept. -/
theorem exists_pushText {text prev : String} {textsList : List String}
    (h : textsList.getLast? = some prev) : ∃ front, pushText text textsList = front ++ [prev, text] := by
  obtain ⟨front, rfl⟩ := List.getLast?_eq_some_iff.mp h
  unfold pushText
  simp only [List.append_assoc, List.singleton_append]
  split
  · rename_i hlong
    cases front with
    | nil => simp at hlong
    | cons t front => exact ⟨front, rfl⟩
  · exact ⟨front, rfl⟩

theorem visitText_eq {text prev : String} {s : State} (h : s.textsList.getLast? = some prev) :
    (visitText D text s).textsList.getLast? = some text ∧
      visitText D text s = { s with
        textsList := pushText text s.textsList
        birthdate := if D.isLocalizedBirthdayString text ≠ [] then prev else s.birthdate
        codes := if D.isLocalizedBirthdayString text ≠ [] then D.isLocalizedBirthdayString text
          else s.codes } := by
  obtain ⟨front, hfront⟩ := @exists_pushText text prev s.textsList h
  unfold visitText
  simp only [hfront]
  have hlength : (front ++ [prev, text]).length - 2 = front.length := by simp
  have hlong : 1 < (front ++ [prev, text]).length := by simp
  by_cases hlabel : D.isLocalizedBirthdayString text = []
  · simp [hlabel]
  · simp only [hlabel, hlong, ne_eq, not_false_eq_true, and_self, if_true, hlength]
    simp

/-- A first text has none before it. -/
theorem visitText_nil {text : String} {s : State} (h : s.textsList = []) :
    visitText D text s = { s with textsList := [text] } := by
  simp [visitText, pushText, h]

/-- What the traversal leaves after texts that follow `prev`. -/
theorem scan_labelAfter : ∀ (ts : List String) {prev : String} {s : State},
    (∀ t ∈ prev :: ts, t ≠ "") → s.textsList.getLast? = some prev → s.birthdate = "" →
      (scan D ts s).results = s.results ∧
      match labelAfter D prev ts with
      | some (date, label) => (scan D ts s).birthdate = date ∧
          (scan D ts s).codes = D.isLocalizedBirthdayString label
      | none => (scan D ts s).birthdate = "" ∧ (scan D ts s).codes = s.codes
  | [], prev, s, _, _, hempty => ⟨rfl, hempty, rfl⟩
  | text :: rest, prev, s, hne, hlast, hempty => by
    obtain ⟨hlast', hvisit⟩ := @visitText_eq D text prev s hlast
    have hprev : prev ≠ "" := hne prev List.mem_cons_self
    rw [scan, labelAfter]
    by_cases hlabel : D.isLocalizedBirthdayString text = []
    · have hgoes : (visitText D text s).birthdate = "" := by rw [hvisit]; simp [hlabel, hempty]
      have hcodes : (visitText D text s).codes = s.codes := by rw [hvisit]; simp [hlabel]
      have hresults : (visitText D text s).results = s.results := by rw [hvisit]
      have ih := scan_labelAfter rest (fun t ht => hne t (List.mem_cons_of_mem _ ht)) hlast' hgoes
      rw [hcodes, hresults] at ih
      simpa [hgoes, hlabel] using ih
    · have hstops : (visitText D text s).birthdate = prev := by rw [hvisit]; simp [hlabel]
      simp only [hstops, hprev, hlabel, ne_eq, not_false_eq_true, if_true]
      rw [hvisit]
      simp [hlabel]

/-- The text before the first label of a page, and the label. -/
def label : List String → Option (String × String)
  | [] => none
  | first :: rest => labelAfter D first rest

/-- What is kept for the birthday of a page. -/
def kept (root : GumboNode) : String × List String :=
  match label D (texts root) with
  | some (date, label) => (date, D.isLocalizedBirthdayString label)
  | none => ("", [])

/-- Where the label is, counted from the text after the first one. -/
theorem labelAfter_spec : ∀ (ts : List String) (prev : String),
    match labelAfter D prev ts with
    | some (date, label) => ∃ i : ℕ, (prev :: ts)[i]? = some date ∧ ts[i]? = some label ∧
        D.isLocalizedBirthdayString label ≠ [] ∧
        ∀ j < i, ∀ t ∈ ts[j]?, D.isLocalizedBirthdayString t = []
    | none => ∀ t ∈ ts, D.isLocalizedBirthdayString t = []
  | [], prev => fun t ht => absurd ht List.not_mem_nil
  | text :: rest, prev => by
    rw [labelAfter]
    by_cases hlabel : D.isLocalizedBirthdayString text = []
    · have ih := labelAfter_spec rest text
      rw [if_neg (by simp [hlabel])]
      rcases hrest : labelAfter D text rest with _ | ⟨date, label⟩
      · rw [hrest] at ih
        exact fun t ht => (List.mem_cons.mp ht).elim (fun he => he ▸ hlabel) (ih t)
      · rw [hrest] at ih
        obtain ⟨i, hdate, hlab, hne, hbefore⟩ := ih
        refine ⟨i + 1, hdate, hlab, hne, fun j hj t ht => ?_⟩
        cases j with
        | zero =>
          obtain rfl := Option.some.inj ht
          exact hlabel
        | succ j => exact hbefore j (Nat.lt_of_succ_lt_succ hj) t ht
    · rw [if_pos hlabel]
      exact ⟨0, rfl, rfl, hlabel, fun j hj => absurd hj (Nat.not_lt_zero j)⟩

theorem kept_nil {root : GumboNode} (hne : ∀ t ∈ texts root, t ≠ "") (h : (kept D root).1 = "") :
    (kept D root).2 = [] := by
  unfold kept at h ⊢
  rcases hall : texts root with _ | ⟨first, rest⟩
  · rfl
  · have hspec := labelAfter_spec D rest first
    rw [hall, label] at h
    rw [label]
    rcases hlabel : labelAfter D first rest with _ | ⟨date, text⟩
    · rfl
    · rw [hlabel] at hspec h
      obtain ⟨i, hdate, -⟩ := hspec
      exact absurd h (hne date (hall ▸ List.mem_of_getElem? hdate))

/-- The state is as the first call starts, but for what was returned. -/
theorem iterate_kept {root : GumboNode} (hne : ∀ t ∈ texts root, t ≠ "") {s : State}
    (htexts : s.textsList = []) (hbirthdate : s.birthdate = "") (hcodes : s.codes = []) :
    ((iterate D root s).birthdate, (iterate D root s).codes) = kept D root ∧
      (iterate D root s).results = s.results := by
  rw [iterate_eq_scan D root hbirthdate, kept]
  rcases hall : texts root with _ | ⟨first, rest⟩
  · exact ⟨by rw [scan, hbirthdate, hcodes]; rfl, rfl⟩
  · rw [hall] at hne
    have hfirst := @visitText_nil D first s htexts
    have hgoes : (visitText D first s).birthdate = "" := by rw [hfirst]; exact hbirthdate
    have hscan := scan_labelAfter D rest hne (s := visitText D first s)
      (by rw [hfirst]; rfl) hgoes
    have hresults : (visitText D first s).results = s.results := by rw [hfirst]
    have hcodes' : (visitText D first s).codes = [] := by rw [hfirst]; exact hcodes
    rw [hcodes', hresults] at hscan
    simp only [scan, hgoes, ne_eq, not_true_eq_false, if_false, label]
    refine ⟨?_, hscan.1⟩
    rcases hlabel : labelAfter D first rest with _ | ⟨date, text⟩
    · rw [hlabel] at hscan
      exact Prod.ext hscan.2.1 hscan.2.2
    · rw [hlabel] at hscan
      exact Prod.ext hscan.2.1 hscan.2.2

/-! ### Calling it again -/

mutual

/-- When a birthday is kept already, the first text that is met is the last. -/
theorem iterate_stopped : ∀ (n : GumboNode) {s : State}, s.textsList = [] → s.birthdate ≠ "" →
    ∃ textsList, iterate D n s = { s with textsList }
  | .text text _, s, htexts, _ => ⟨[cstr text], by rw [iterate, visitText_nil D htexts]⟩
  | .element tag attributes children, s, htexts, hstop => by
    rw [iterate]
    exact iterateAll_stopped children htexts hstop
  | .other _, s, _, _ => ⟨s.textsList, rfl⟩

theorem iterateAll_stopped : ∀ (children : List GumboNode) {s : State}, s.textsList = [] →
    s.birthdate ≠ "" → ∃ textsList, iterateAll D children s = { s with textsList }
  | [], s, _, _ => ⟨s.textsList, rfl⟩
  | child :: children, s, htexts, hstop => by
    obtain ⟨textsList, hchild⟩ := iterate_stopped child htexts hstop
    refine ⟨textsList, ?_⟩
    rw [iterateAll, hchild]
    simp [hstop]

end

/-- What is returned for what is kept. -/
def returned (birthdate : String) (codes : List String) : Json.Members :=
  let dateString := (D.timestampForDateString birthdate codes).toString
  if birthdate ≠ "" ∧ codes ≠ [] ∧ dateString ≠ [] then
    [("birthdayTimestamp", .string (String.ofList dateString)), ("url", .null)]
  else [("url", .null)]

/-- The state of the parser after a call. -/
structure Called (root : GumboNode) (s : State) : Prop where
  kept_eq : (s.birthdate, s.codes) = kept D root
  results_eq : s.results = returned D s.birthdate s.codes

theorem returned_url (birthdate : String) (codes : List String) :
    (returned D birthdate codes).lookup "url" = some .null := by
  simp only [returned]
  split <;> rfl

/-- The results that a call starts with stay as they are but for the birthday. -/
theorem parse_of_iterate {root : GumboNode} {s : State} {birthdate : String} {codes : List String}
    (hurl : ((s.results.lookup "url").getD .null).asString = some "")
    (hresults : touch s.results "url" = [("url", .null)] ∨
      touch s.results "url" = returned D birthdate codes)
    (hiterate : ∃ textsList, iterate D root
      { s with results := touch s.results "url", textsList := [] } =
        ⟨textsList, birthdate, codes, touch s.results "url"⟩) :
    ∃ s', parse D root s = some s' ∧ s'.birthdate = birthdate ∧ s'.codes = codes ∧
      s'.results = returned D birthdate codes := by
  obtain ⟨textsList, hiterate⟩ := hiterate
  unfold parse
  rw [hurl, Option.bind_eq_bind, Option.bind_some]
  simp only [ne_eq, not_true_eq_false, if_false, hiterate]
  by_cases hkept : birthdate ≠ "" ∧ codes ≠ []
  · rw [if_pos hkept]
    by_cases hdate : (D.timestampForDateString birthdate codes).toString = []
    · rw [if_neg (by simp [hdate])]
      refine ⟨_, rfl, rfl, rfl, ?_⟩
      have hreturned : returned D birthdate codes = [("url", .null)] := by simp [returned, hdate]
      rcases hresults with h | h
      · exact h.trans hreturned.symm
      · exact h
    · rw [if_pos hdate]
      refine ⟨_, rfl, rfl, rfl, ?_⟩
      have hreturned : returned D birthdate codes = [("birthdayTimestamp",
          .string (String.ofList (D.timestampForDateString birthdate codes).toString)),
          ("url", .null)] := by
        simp only [returned]
        rw [if_pos ⟨hkept.1, hkept.2, hdate⟩]
      rcases hresults with h | h
      · simp only [h, hreturned]
        simp [Json.Members.set, Json.strcmpLess]
      · simp only [h, hreturned]
        simp [Json.Members.set]
  · rw [if_neg hkept]
    refine ⟨_, rfl, rfl, rfl, ?_⟩
    have hreturned : returned D birthdate codes = [("url", .null)] := by
      simp only [returned]
      rw [if_neg fun h => hkept ⟨h.1, h.2.1⟩]
    rcases hresults with h | h
    · exact h.trans hreturned.symm
    · exact h

/-- **A call leaves what the first call leaves.** -/
theorem called_parse {root : GumboNode} (hne : ∀ t ∈ texts root, t ≠ "") {s : State}
    (h : s = initial ∨ Called D root s) : ∃ s', parse D root s = some s' ∧ Called D root s' := by
  have hurl : ((s.results.lookup "url").getD .null).asString = some "" := by
    rcases h with rfl | h
    · rfl
    · rw [h.results_eq, returned_url]
      rfl
  have htouch : touch s.results "url" = [("url", .null)] ∨
      touch s.results "url" = returned D (kept D root).1 (kept D root).2 := by
    rcases h with rfl | h
    · exact Or.inl rfl
    · refine Or.inr ?_
      rw [← h.kept_eq, touch, h.results_eq, returned_url]
      simp
  have hiterate : ∃ textsList, iterate D root
      { s with results := touch s.results "url", textsList := [] } =
        ⟨textsList, (kept D root).1, (kept D root).2, touch s.results "url"⟩ := by
    by_cases hbirthdate : s.birthdate = ""
    · have hcodes : s.codes = [] := by
        rcases h with rfl | h
        · rfl
        · have hkept := h.kept_eq
          have hnil := kept_nil D hne (by rw [← hkept]; exact hbirthdate)
          rwa [← hkept] at hnil
      obtain ⟨hkept, hresults⟩ := iterate_kept D hne
        (s := { s with results := touch s.results "url", textsList := [] }) rfl hbirthdate hcodes
      refine ⟨(iterate D root
        { s with results := touch s.results "url", textsList := [] }).textsList, ?_⟩
      rw [← hkept]
      exact congrArg (State.mk _ _ _) hresults
    · have hcalled : Called D root s := h.resolve_left fun he => hbirthdate (he ▸ rfl)
      obtain ⟨textsList, hstopped⟩ := iterate_stopped D root
        (s := { s with results := touch s.results "url", textsList := [] }) rfl hbirthdate
      exact ⟨textsList, by rw [hstopped, ← hcalled.kept_eq]⟩
  obtain ⟨s', hs', hbirthdate, hcodes, hresults⟩ := parse_of_iterate D hurl htouch hiterate
  exact ⟨s', hs', Prod.ext hbirthdate hcodes, by rw [hbirthdate, hcodes, hresults]⟩

theorem called_parseTimes {root : GumboNode} (hne : ∀ t ∈ texts root, t ≠ "") (n : ℕ) :
    ∃ s, parseTimes D root (n + 1) = some s ∧ Called D root s := by
  induction n with
  | zero => exact called_parse D hne (Or.inl rfl)
  | succ n ih =>
    obtain ⟨s, hs, hcalled⟩ := ih
    obtain ⟨s', hs', hcalled'⟩ := called_parse D hne (Or.inr hcalled)
    refine ⟨s', ?_, hcalled'⟩
    rw [parseTimes, hs, Option.bind_some, hs']

/-- The text at `i` is a label of a birthday, and not the first text. -/
def LabelAt (root : GumboNode) (i : ℕ) : Prop :=
  1 ≤ i ∧ ∃ t ∈ (texts root)[i]?, D.isLocalizedBirthdayString t ≠ []

/-- The text before the first label and the languages of the label, or nothing
if there is no label. -/
def OfFirstLabel (root : GumboNode) (birthdate : String) (codes : List String) : Prop :=
  (∃ i, LabelAt D root i ∧ (∀ j < i, ¬ LabelAt D root j) ∧
      (texts root)[i - 1]? = some birthdate ∧
      (texts root)[i]?.map D.isLocalizedBirthdayString = some codes) ∨
    (∀ i, ¬ LabelAt D root i) ∧ birthdate = "" ∧ codes = []

/-- **The parser keeps the text before the first label, however often it is
called.** -/
theorem parseTimes_eq {root : GumboNode} (hne : ∀ t ∈ texts root, t ≠ "") :
    ∃ birthdate codes, OfFirstLabel D root birthdate codes ∧
      ∀ n, ∃ s, parseTimes D root (n + 1) = some s ∧ s.birthdate = birthdate ∧ s.codes = codes ∧
        s.results = returned D birthdate codes := by
  refine ⟨(kept D root).1, (kept D root).2, ?_, fun n => ?_⟩
  · unfold kept OfFirstLabel LabelAt
    rcases hall : texts root with _ | ⟨first, rest⟩
    · exact Or.inr ⟨fun i hi => by simp at hi, rfl, rfl⟩
    · have hspec := labelAfter_spec D rest first
      rw [label]
      rcases hlabel : labelAfter D first rest with _ | ⟨date, text⟩
      · rw [hlabel] at hspec
        refine Or.inr ⟨?_, rfl, rfl⟩
        rintro (_ | i) ⟨hpos, t, ht, hlab⟩
        · cases hpos
        · exact hlab (hspec t (List.mem_of_getElem? ht))
      · rw [hlabel] at hspec
        obtain ⟨i, hdate, htext, hlab, hbefore⟩ := hspec
        refine Or.inl ⟨i + 1, ⟨Nat.succ_pos i, text, htext, hlab⟩, ?_, hdate, ?_⟩
        · rintro (_ | j) hj ⟨hpos, t, ht, hlab'⟩
          · cases hpos
          · exact hlab' (hbefore j (Nat.lt_of_succ_lt_succ hj) t ht)
        · rw [List.getElem?_cons_succ, htext]
          rfl
  · obtain ⟨s, hs, hcalled⟩ := called_parseTimes D hne n
    have hkept := hcalled.kept_eq
    refine ⟨s, hs, congrArg Prod.fst hkept, congrArg Prod.snd hkept, ?_⟩
    rw [hcalled.results_eq, ← hkept]

/-- A detector of one label. -/
def birthdayOnly : BirthdayDetector where
  isLocalizedBirthdayString text := if text = "Birthday" then ["en_US"] else []
  timestampForDateString _ _ := ⟨5, 5, 1990⟩

/-- A page with a date before the label of the birthday. -/
def detailPage : GumboNode :=
  .element (.other 0) [] [.element (.other 1) [] [.text "Ann" ⟨.other 3, []⟩], .other ⟨.other 1, []⟩,
    .element (.other 1) [] [.text "5 May 1990" ⟨.other 10, []⟩, .text "Birthday" ⟨.other 8, []⟩],
    .text "Gender" ⟨.other 6, []⟩]

theorem detailPage_birthday :
    ∃ birthdate codes, OfFirstLabel birthdayOnly detailPage birthdate codes ∧
      ∀ n, ∃ s, parseTimes birthdayOnly detailPage (n + 1) = some s ∧ s.birthdate = birthdate ∧
        s.codes = codes ∧ s.results = returned birthdayOnly birthdate codes :=
  parseTimes_eq birthdayOnly (by decide)

end UserDetailParser
end Html
end Horo
