/-
# Where a birthday is read

The friends screen with the parser of the page of a friend: what is set as a
birthday is what the detector reads before the first label of a page that was
replied in the run, and while the replies are timely the page is that of the
friend.

Key definitions: `pageBirthday`, `ReadFrom`.
Key theorems: `pageBirthday_eq`, `exists_reply_step`, `birthday_from_own_page`.
-/
import Horo.Friends.Attribution
import Horo.Html.UserDetailParser

namespace Horo
namespace Friends

open Lib PersonDao Html

/-! ### The date of a page -/

variable (D : BirthdayDetector)

/-- `asString` of a member, as a date. -/
def readDate : Option Json.Value → DateWrapper
  | some (.string dateString) => (DateWrapper.fromString dateString.toList).getD .none
  | _ => .none

/-- What a new parser gives for the birthday of a page. -/
def pageBirthday (root : GumboNode) : DateWrapper :=
  readDate ((UserDetailParser.parse D root UserDetailParser.initial).bind
    fun s => s.results.lookup "birthdayTimestamp")

/-- What is read before the first label of a page. -/
def labelledDate (root : GumboNode) : DateWrapper :=
  match UserDetailParser.label D (UserDetailParser.texts root) with
  | some (date, label) => D.timestampForDateString date (D.isLocalizedBirthdayString label)
  | none => .none

/-- What is returned for a date is read as that date. -/
theorem readDate_returned {birthdate : String} {codes : List String} (hbirthdate : birthdate ≠ "")
    (hcodes : codes ≠ []) :
    readDate ((UserDetailParser.returned D birthdate codes).lookup "birthdayTimestamp") =
      D.timestampForDateString birthdate codes := by
  have hread := DateWrapper.fromString_toString (D.timestampForDateString birthdate codes)
  unfold UserDetailParser.returned
  by_cases hempty : (D.timestampForDateString birthdate codes).toString = []
  · rw [hempty] at hread
    simp only [hempty, ne_eq, not_true_eq_false, and_false, if_false]
    exact Option.some.inj hread
  · simp only [hbirthdate, hcodes, hempty, ne_eq, not_false_eq_true, and_self, if_true]
    change readDate (some (.string (String.ofList _))) = _
    rw [readDate, String.toList_ofList, hread, Option.getD_some]

/-- **The date of a page is that before its first label.** -/
theorem pageBirthday_eq {root : GumboNode} (hne : ∀ t ∈ UserDetailParser.texts root, t ≠ "") :
    pageBirthday D root = labelledDate D root := by
  obtain ⟨s, hs, hcalled⟩ := UserDetailParser.called_parse D hne (.inl rfl)
  have hkept := hcalled.kept_eq
  rw [pageBirthday, hs, Option.bind_some, hcalled.results_eq, labelledDate]
  unfold UserDetailParser.kept at hkept
  cases hlabel : UserDetailParser.label D (UserDetailParser.texts root) with
  | none =>
    rw [hlabel] at hkept
    obtain ⟨hbirthdate, hcodes⟩ := Prod.mk.inj hkept
    rw [hbirthdate, hcodes]
    rfl
  | some found =>
    obtain ⟨date, label⟩ := found
    rw [hlabel] at hkept
    obtain ⟨hbirthdate, hcodes⟩ := Prod.mk.inj hkept
    rw [hbirthdate, hcodes]
    obtain ⟨hdate, hlabelled⟩ : date ≠ "" ∧ D.isLocalizedBirthdayString label ≠ [] := by
      cases htexts : UserDetailParser.texts root with
      | nil =>
        rw [htexts] at hlabel
        cases hlabel
      | cons first rest =>
        have hspec := UserDetailParser.labelAfter_spec D rest first
        rw [htexts, UserDetailParser.label] at hlabel
        rw [hlabel] at hspec
        obtain ⟨i, hfound, -, hlabelled, -⟩ := hspec
        exact ⟨hne date (htexts ▸ List.mem_of_getElem? hfound), hlabelled⟩
    exact readDate_returned D hdate hlabelled

/-! ### The replies of a run -/

/-- The birthday is the date of a page that a reply in `es` carries, and the
reply is one of the page that the birthday is said to be from. -/
def ReadFrom (parsers : Parsers) (es : List Event) (a : Attribution) : Prop :=
  ∃ r html, .evaluated r ∈ es ∧ r.page = a.page ∧ r.object = some html ∧ a.birthday = parsers.birthday html

theorem ReadFrom.mono {parsers : Parsers} {es es' : List Event} {a : Attribution} (hsub : es ⊆ es')
    (h : ReadFrom parsers es a) : ReadFrom parsers es' a := by
  obtain ⟨r, html, hmem, hread⟩ := h
  exact ⟨r, html, hsub hmem, hread⟩

section

variable {F : Sqlite.Doubles} {parsers : Parsers} {s : State}

/-- A birthday that a step sets is read from its reply. -/
theorem exists_reply_step (h : Paired s) {e : Event} (ha : admits s e) {a : Attribution}
    (hmem : a ∈ (step F parsers s e).attributions) :
    a ∈ s.attributions ∨ ReadFrom parsers [e] a := by
  by_cases hd : ∃ r, e = .evaluated r ∧ s.web.webViewDidLoadCompletion = some .userDetail ∧ Delivers s r
  · obtain ⟨r, rfl, hcompletion, hr⟩ := hd
    obtain ⟨path, ⟨i, o, hawaits, -⟩, -⟩ := h.completion hcompletion
    obtain ⟨html, hobject, hdelivered⟩ := delivered_object F parsers hcompletion hr hawaits.1 hawaits.2.1
    have hattributions : (step F parsers s (.evaluated r)).attributions =
        s.attributions ++ [⟨o.person, parsers.birthday html, r.page⟩] := hdelivered.attributions
    rw [hattributions] at hmem
    apply (List.mem_append.mp hmem).imp_right
    intro hlast
    rw [List.mem_singleton.mp hlast]
    exact ⟨r, html, List.mem_singleton_self _, rfl, hobject, rfl⟩
  · rw [attributions_step e ha fun r he hcompletion hr => hd ⟨r, he, hcompletion, hr⟩] at hmem
    exact .inl hmem

/-- Along a run every birthday that is set is read from a reply. -/
theorem exists_reply_run {a : Attribution} {es : List Event} : ∀ {s : State}, Paired s →
    (system F parsers).Run EventSystem.anyEvent s es →
    a ∈ ((system F parsers).exec s es).attributions → a ∈ s.attributions ∨ ReadFrom parsers es a := by
  induction es with
  | nil => exact fun _ _ hmem => .inl hmem
  | cons e es ih =>
    intro s h hrun hmem
    obtain ⟨⟨ha, -⟩, hrest⟩ := hrun
    rcases ih (paired_step h e ha) hrest hmem with hmem | hread
    · apply (exists_reply_step h ha hmem).imp_right
      exact ReadFrom.mono (List.cons_subset_cons e (List.nil_subset es))
    · exact .inr (hread.mono (List.subset_cons_self e es))

/-- **A friend has the birthday of its own page.** In a run whose replies are
timely, a birthday that is set for a friend is the date that the detector reads
before the first label of the page of that friend, as a reply of the run
carries it. -/
theorem birthday_from_own_page (D : BirthdayDetector) {gumbo : String → GumboNode}
    (hgumbo : ∀ html, ∀ t ∈ UserDetailParser.texts (gumbo html), t ≠ "") (friends : String → Json.Value)
    {es : List Event} (hinit : (system F ⟨friends, fun html => pageBirthday D (gumbo html)⟩).init s)
    (hrun : (system F ⟨friends, fun html => pageBirthday D (gumbo html)⟩).Run Timely s es)
    {a : Attribution}
    (ha : a ∈ ((system F ⟨friends, fun html => pageBirthday D (gumbo html)⟩).exec s es).attributions) :
    ∃ r html, .evaluated r ∈ es ∧ r.page = some (requestPath (userDetailPath a.person.personUrl.toList)) ∧
      r.object = some html ∧ a.birthday = labelledDate D (gumbo html) := by
  obtain ⟨table, persons, -, rfl⟩ := hinit
  have hpaired := paired_initial table persons
  have hright : Right a := ((right_run hpaired hrun.any).mpr
    ⟨fun a ha => absurd ha List.not_mem_nil, hrun⟩) a ha
  obtain ⟨r, html, hmem, hpage, hobject, hbirthday⟩ :=
    (exists_reply_run hpaired hrun.any ha).resolve_left List.not_mem_nil
  refine ⟨r, html, hmem, hpage.trans hright, hobject, ?_⟩
  rw [hbirthday, ← pageBirthday_eq D (hgumbo html)]

end

/-- The page of Ann. -/
def annHtml : String := "<html><head></head><body>5 May 1990<b>Birthday</b></body></html>"

def annTree (html : String) : GumboNode :=
  if html = annHtml then
    .element (.other 0) [] [.element (.other 1) [] [],
      .element (.other 2) [] [.text "5 May 1990" ⟨.other 10, []⟩,
        .element (.other 3) [] [.text "Birthday" ⟨.other 8, []⟩]]]
  else .other ⟨.other 0, []⟩

/-- Ann is selected, and her page arrives. -/
def annRead : List Event :=
  [.personSelected 0, .didFinishNavigation 0 annPage true false,
   .evaluated ⟨some annPage, some annHtml, annPage⟩]

/-- The detector with the resources for English. -/
def englishDetector : BirthdayDetector where
  isLocalizedBirthdayString text :=
    BirthdayDetectorImpl.isLocalizedBirthdayString BirthdayDetectorImpl.english text.toList
  timestampForDateString date codes :=
    (BirthdayDetectorImpl.timestampForDateString BirthdayDetectorImpl.english date.toList codes).getD .none

theorem annTree_texts (html : String) : ∀ t ∈ UserDetailParser.texts (annTree html), t ≠ "" := by
  unfold annTree
  split
  · decide
  · decide

theorem ann_own_page : ∃ r html, .evaluated r ∈ annRead ∧ r.page = some annPage ∧ r.object = some html ∧
    (⟨5, 5, 1990⟩ : DateWrapper) = labelledDate englishDetector (annTree html) := by
  have hpage : requestPath (userDetailPath ann.personUrl.toList) = annPage := by decide +kernel
  have hread := @birthday_from_own_page doubles annAndBob englishDetector annTree annTree_texts
    (fun _ => .array []) annRead ⟨_, _, by decide +kernel, rfl⟩ (by decide +kernel)
    ⟨ann, ⟨5, 5, 1990⟩, some annPage⟩ (by decide +kernel)
  rw [hpage] at hread
  exact hread

end Friends
end Horo
