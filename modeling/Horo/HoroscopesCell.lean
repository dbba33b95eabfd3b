/-
# The pages of the predictions

`classes/HoroscopesCell`: a page controller is allocated for an index the first
time that it is looked up, and is kept in a dictionary as long as the cell. The
heights, and the progress of an animation, are left out.

* `viewControllerByIndex_inv`: a page that is kept carries the text that its
  index had when it was allocated.
* `current_iff_agree`: the pages that a run looks up are current exactly if the
  texts have not changed at an index from one of its lookups to another.
* `current_of_setTexts`: so they are when only one list of texts is set.
-/
import Mathlib.Data.Int.Notation
import Mathlib.Data.List.Basic
import Mathlib.Logic.Function.Basic

namespace Horo
namespace HoroscopesCell

/-- `PredictionContentViewController`; its index has been in bounds once. -/
structure Page (Color : Type*) where
  index : ℕ
  text : List Char
  textColor : Option Color
  backgroundColor : Option Color
  deriving DecidableEq

/-- A call of `viewControllerByIndex`: the texts of the cell at that time, and
what is returned. -/
structure Lookup (Color : Type*) where
  index : ℤ
  texts : List (List Char)
  page : Option (Page Color)

/-- A cell, and the lookups that it has made. -/
structure Cell (Color : Type*) where
  texts : List (List Char)
  viewControllers : ℤ → Option (Page Color)
  selectedViewController : Option (Page Color)
  textColor : Option Color
  backgroundColor : Option Color
  lookups : List (Lookup Color)

variable {Color : Type*}

/-- `index < texts.count`; as an unsigned number a negative index is not. -/
def inBounds (index : ℤ) (texts : List (List Char)) : Prop := 0 ≤ index ∧ index < texts.length

instance (index : ℤ) (texts : List (List Char)) : Decidable (inBounds index texts) :=
  inferInstanceAs (Decidable (0 ≤ index ∧ index < texts.length))

/-- What stands at an index. -/
def textAt (texts : List (List Char)) (index : ℤ) : Option (List Char) := texts[index.toNat]?

/-- `awakeFromNib`. -/
def awakeFromNib : Cell Color where
  texts := []
  viewControllers := fun _ => none
  selectedViewController := none
  textColor := none
  backgroundColor := none
  lookups := []

namespace Cell

variable (c : Cell Color)

def setTextColor (color : Option Color) : Cell Color := { c with textColor := color }

def setBackgroundColor (color : Option Color) : Cell Color := { c with backgroundColor := color }

/-- The text of the index; without one an assertion fails where assertions are
compiled, and there is no page elsewhere. -/
def allocateViewControllerWithIndex (index : ℤ) : Option (Page Color) × Cell Color :=
  if inBounds index c.texts then
    let viewController : Page Color :=
      { index := index.toNat
        text := c.texts.getD index.toNat []
        textColor := c.textColor
        backgroundColor := c.backgroundColor }
    (some viewController,
      { c with viewControllers := Function.update c.viewControllers index (some viewController) })
  else (none, c)

def viewControllerByIndex (index : ℤ) : Option (Page Color) × Cell Color :=
  let (page, c) :=
    match c.viewControllers index with
    | some viewController => (some viewController, c)
    | none => c.allocateViewControllerWithIndex index
  (page, { c with lookups := c.lookups ++ [⟨index, c.texts, page⟩] })

/-- `setTexts:`; the page that is looked up is the one that is shown. -/
def setTexts (texts : List (List Char)) : Option (Page Color) × Cell Color :=
  let c := { c with texts }
  if texts.length = 0 then (none, c)
  else
    let (viewController, c) := c.viewControllerByIndex (if texts.length > 1 then 1 else 0)
    (viewController, { c with selectedViewController := viewController })

/-- `pageViewController:viewControllerBeforeViewController:`. -/
def viewControllerBefore (viewController : Page Color) : Option (Page Color) × Cell Color :=
  if viewController.index = 0 then (none, c)
  else c.viewControllerByIndex ((viewController.index : ℤ) - 1)

/-- `pageViewController:viewControllerAfterViewController:`; with no texts
`_texts.count-1` is the greatest unsigned number. -/
def viewControllerAfter (viewController : Page Color) : Option (Page Color) × Cell Color :=
  if c.texts ≠ [] ∧ viewController.index ≥ c.texts.length - 1 then (none, c)
  else c.viewControllerByIndex ((viewController.index : ℤ) + 1)

/-- `pageViewController:didFinishAnimating:` with the page that is shown then. -/
def didFinishAnimating (viewController : Page Color) (completed : Bool) : Cell Color :=
  if completed then { c with selectedViewController := some viewController } else c

/-- `setSelectedIndex:completion:`, up to the animation; a page that is not
there has the index 0. -/
def setSelectedIndex (index : ℤ) : Option (Page Color) × Cell Color :=
  if ((c.selectedViewController.map (·.index)).getD 0 : ℤ) = index then (none, c)
  else c.viewControllerByIndex index

end Cell

/-- What can happen to a cell: the calls of its owner, those of the page view
controller, and the end of an animation. -/
inductive Event (Color : Type*)
  | setTextColor (color : Option Color)
  | setBackgroundColor (color : Option Color)
  | setTexts (texts : List (List Char))
  | viewControllerBefore (viewController : Page Color)
  | viewControllerAfter (viewController : Page Color)
  | didFinishAnimating (viewController : Page Color) (completed : Bool)
  | setSelectedIndex (index : ℤ)

def step (c : Cell Color) : Event Color → Cell Color
  | .setTextColor color => c.setTextColor color
  | .setBackgroundColor color => c.setBackgroundColor color
  | .setTexts texts => (c.setTexts texts).2
  | .viewControllerBefore viewController => (c.viewControllerBefore viewController).2
  | .viewControllerAfter viewController => (c.viewControllerAfter viewController).2
  | .didFinishAnimating viewController completed => c.didFinishAnimating viewController completed
  | .setSelectedIndex index => (c.setSelectedIndex index).2

/-- A cell on which all of this has happened. -/
def run (es : List (Event Color)) : Cell Color := es.foldl step awakeFromNib

/-- The texts, the pages and the lookups are the same. -/
structure Same (c c' : Cell Color) : Prop where
  texts : c'.texts = c.texts
  viewControllers : c'.viewControllers = c.viewControllers
  lookups : c'.lookups = c.lookups

theorem Same.refl (c : Cell Color) : Same c c := ⟨rfl, rfl, rfl⟩

/-- What can happen to the pages: the texts are set, and a page is looked up. -/
theorem step_cases (c : Cell Color) (e : Event Color) :
    ∃ texts, (texts = c.texts ∨ e = .setTexts texts) ∧ (Same { c with texts } (step c e) ∨
      ∃ index, Same (Cell.viewControllerByIndex { c with texts } index).2 (step c e)) := by
  cases e with
  | setTextColor color => exact ⟨c.texts, .inl rfl, .inl ⟨rfl, rfl, rfl⟩⟩
  | setBackgroundColor color => exact ⟨c.texts, .inl rfl, .inl ⟨rfl, rfl, rfl⟩⟩
  | setTexts texts =>
    refine ⟨texts, .inr rfl, ?_⟩
    rw [step, Cell.setTexts]
    split
    · exact .inl (.refl _)
    · exact .inr ⟨_, rfl, rfl, rfl⟩
  | viewControllerBefore viewController =>
    refine ⟨c.texts, .inl rfl, ?_⟩
    rw [step, Cell.viewControllerBefore]
    split
    · exact .inl (.refl _)
    · exact .inr ⟨_, .refl _⟩
  | viewControllerAfter viewController =>
    refine ⟨c.texts, .inl rfl, ?_⟩
    rw [step, Cell.viewControllerAfter]
    split
    · exact .inl (.refl _)
    · exact .inr ⟨_, .refl _⟩
  | didFinishAnimating viewController completed =>
    refine ⟨c.texts, .inl rfl, .inl ?_⟩
    rw [step, Cell.didFinishAnimating]
    split
    · exact ⟨rfl, rfl, rfl⟩
    · exact .refl _
  | setSelectedIndex index =>
    refine ⟨c.texts, .inl rfl, ?_⟩
    rw [step, Cell.setSelectedIndex]
    split
    · exact .inl (.refl _)
    · exact .inr ⟨_, .refl _⟩

/-! ### What a page carries -/

/-- The page that was returned carries the text that its index had. -/
def Lookup.Current (l : Lookup Color) : Prop :=
  inBounds l.index l.texts → ∃ page, l.page = some page ∧ textAt l.texts l.index = some page.text

/-- The texts have not changed at an index from one lookup to another. -/
def Agree (lookups : List (Lookup Color)) : Prop :=
  ∀ l ∈ lookups, ∀ l' ∈ lookups, l.index = l'.index → inBounds l.index l.texts →
    inBounds l'.index l'.texts → textAt l.texts l.index = textAt l'.texts l'.index

/-- A page that is kept carries the text of its first lookup, and whatever is
looked up in bounds is kept. -/
structure Inv (c : Cell Color) : Prop where
  filled : ∀ {index : ℤ} {page : Page Color}, c.viewControllers index = some page →
    ∃ l ∈ c.lookups, l.index = index ∧ inBounds index l.texts ∧ textAt l.texts index = some page.text
  kept : ∀ l ∈ c.lookups, inBounds l.index l.texts →
    ∃ page, l.page = some page ∧ c.viewControllers l.index = some page

theorem awakeFromNib_inv : Inv (awakeFromNib : Cell Color) where
  filled h := nomatch h
  kept _ h := nomatch h

theorem Inv.same {c c' : Cell Color} (h : Inv c) (hsame : Same c c') : Inv c' where
  filled := by rw [hsame.viewControllers, hsame.lookups]; exact h.filled
  kept := by rw [hsame.viewControllers, hsame.lookups]; exact h.kept

theorem Inv.setTexts {c : Cell Color} (h : Inv c) (texts : List (List Char)) : Inv { c with texts } where
  filled := h.filled
  kept := h.kept

theorem textAt_of_inBounds {index : ℤ} {texts : List (List Char)} (h : inBounds index texts) :
    textAt texts index = some (texts.getD index.toNat []) := by
  have hlt : index.toNat < texts.length := by
    have := h.1
    have := h.2
    omega
  rw [textAt, List.getD_eq_getElem?_getD, List.getElem?_eq_getElem hlt, Option.getD_some]

/-- Another lookup: the pages stay, and the one that comes is filled with the
text of its index. -/
theorem Inv.lookup {c c' : Cell Color} (h : Inv c) {l : Lookup Color}
    (hlookups : c'.lookups = c.lookups ++ [l])
    (hstay : ∀ {i : ℤ} {p : Page Color}, c.viewControllers i = some p → c'.viewControllers i = some p)
    (hcome : ∀ {i : ℤ} {p : Page Color}, c'.viewControllers i = some p → c.viewControllers i = some p ∨
      l.index = i ∧ inBounds i l.texts ∧ textAt l.texts i = some p.text)
    (hpage : inBounds l.index l.texts → ∃ p, l.page = some p ∧ c'.viewControllers l.index = some p) :
    Inv c' where
  filled := by
    intro i p hp
    rw [hlookups]
    rcases hcome hp with hold | hnew
    · obtain ⟨l', hl', hrest⟩ := h.filled hold
      exact ⟨l', List.mem_append_left _ hl', hrest⟩
    · exact ⟨l, List.mem_append_right _ List.mem_cons_self, hnew⟩
  kept := by
    intro l' hl' hin
    rw [hlookups] at hl'
    rcases List.mem_append.mp hl' with hl' | hl'
    · obtain ⟨p, hp, hold⟩ := h.kept l' hl' hin
      exact ⟨p, hp, hstay hold⟩
    · obtain rfl := List.mem_singleton.mp hl'
      exact hpage hin

/-- **A lookup keeps what the pages carry.** -/
theorem viewControllerByIndex_inv {c : Cell Color} (h : Inv c) (index : ℤ) :
    Inv (c.viewControllerByIndex index).2 := by
  unfold Cell.viewControllerByIndex
  rcases hfind : c.viewControllers index with _ | viewController
  · unfold Cell.allocateViewControllerWithIndex
    by_cases hin : inBounds index c.texts
    · rw [if_pos hin]
      refine h.lookup rfl ?_ ?_ fun _ => ⟨_, rfl, Function.update_self ..⟩
      · intro i p hp
        have hne : i ≠ index := by
          rintro rfl
          rw [hfind] at hp
          cases hp
        exact (Function.update_of_ne hne ..).trans hp
      · intro i p hp
        change Function.update c.viewControllers index _ i = some p at hp
        by_cases hi : i = index
        · subst hi
          rw [Function.update_self] at hp
          obtain rfl := Option.some.inj hp
          exact .inr ⟨rfl, hin, textAt_of_inBounds hin⟩
        · rw [Function.update_of_ne hi] at hp
          exact .inl hp
    · rw [if_neg hin]
      exact h.lookup rfl id .inl fun hin' => absurd hin' hin
  · exact h.lookup rfl id .inl fun _ => ⟨viewController, rfl, hfind⟩

/-- **What happens to a cell keeps it.** -/
theorem step_inv {c : Cell Color} (h : Inv c) (e : Event Color) : Inv (step c e) := by
  obtain ⟨texts, -, hsame | ⟨index, hsame⟩⟩ := step_cases c e
  · exact (h.setTexts texts).same hsame
  · exact (viewControllerByIndex_inv (h.setTexts texts) index).same hsame

theorem run_inv (es : List (Event Color)) : Inv (run es) :=
  List.foldlRecOn es step awakeFromNib_inv fun _ h e _ => step_inv h e

/-- The pages of the lookups are current exactly if the texts agree. -/
theorem Inv.current_iff {c : Cell Color} (h : Inv c) :
    (∀ l ∈ c.lookups, l.Current) ↔ Agree c.lookups := by
  constructor
  · intro hcurrent l hl l' hl' hindex hin hin'
    obtain ⟨p, hp, htext⟩ := hcurrent l hl hin
    obtain ⟨p', hp', htext'⟩ := hcurrent l' hl' hin'
    -- both are the page that is kept
    obtain ⟨q, hq, hkept⟩ := h.kept l hl hin
    obtain ⟨q', hq', hkept'⟩ := h.kept l' hl' hin'
    obtain rfl := Option.some.inj (hp.symm.trans hq)
    obtain rfl := Option.some.inj (hp'.symm.trans hq')
    rw [hindex] at hkept
    obtain rfl := Option.some.inj (hkept.symm.trans hkept')
    rw [htext, htext']
  · intro hagree l hl hin
    obtain ⟨p, hp, hkept⟩ := h.kept l hl hin
    obtain ⟨l', hl', hindex, hin', htext'⟩ := h.filled hkept
    rw [← hindex] at hin' htext'
    exact ⟨p, hp, by rw [hagree l hl l' hl' hindex.symm hin hin', htext']⟩

/-- **The pages of a run are current exactly if** no index has been looked up
with two texts. -/
theorem current_iff_agree (es : List (Event Color)) :
    (∀ l ∈ (run es).lookups, l.Current) ↔ Agree (run es).lookups :=
  (run_inv es).current_iff

/-- Two texts have been set, and page 1, which has been shown with the first
ones, is shown with the second ones. -/
theorem shown_again_not_current :
    ¬ ∀ l ∈ (run [.setTexts [['a'], ['b']], .setTexts [['c'], ['d']]] : Cell Unit).lookups, l.Current := by
  intro h
  have hcurrent := h ⟨1, [['c'], ['d']], some ⟨1, ['b'], none, none⟩⟩
    (List.mem_cons_of_mem _ List.mem_cons_self)
  obtain ⟨page, hpage, htext⟩ := hcurrent (by decide)
  obtain rfl := Option.some.inj hpage
  exact absurd htext (by decide)

/-! ### One list of texts -/

theorem viewControllerByIndex_texts (c : Cell Color) (index : ℤ) :
    (c.viewControllerByIndex index).2.texts = c.texts ∧ ∃ page,
      (c.viewControllerByIndex index).2.lookups = c.lookups ++ [⟨index, c.texts, page⟩] := by
  unfold Cell.viewControllerByIndex Cell.allocateViewControllerWithIndex
  rcases c.viewControllers index with _ | viewController
  · by_cases hin : inBounds index c.texts
    · rw [if_pos hin]
      exact ⟨rfl, _, rfl⟩
    · rw [if_neg hin]
      exact ⟨rfl, _, rfl⟩
  · exact ⟨rfl, _, rfl⟩

/-- The texts, and those of the lookups, are among some lists. -/
def TextsIn (P : List (List Char) → Prop) (c : Cell Color) : Prop :=
  P c.texts ∧ ∀ l ∈ c.lookups, P l.texts

theorem TextsIn.lookup {P : List (List Char) → Prop} {c : Cell Color} (h : TextsIn P c) (index : ℤ) :
    TextsIn P (c.viewControllerByIndex index).2 := by
  obtain ⟨htexts, page, hlookups⟩ := viewControllerByIndex_texts c index
  refine ⟨by rw [htexts]; exact h.1, fun l hl => ?_⟩
  rw [hlookups] at hl
  rcases List.mem_append.mp hl with hl | hl
  · exact h.2 l hl
  · obtain rfl := List.mem_singleton.mp hl
    exact h.1

theorem TextsIn.same {P : List (List Char) → Prop} {c c' : Cell Color} (h : TextsIn P c)
    (hsame : Same c c') : TextsIn P c' := by
  rw [TextsIn, hsame.texts, hsame.lookups]
  exact h

theorem TextsIn.step {P : List (List Char) → Prop} {c : Cell Color} (h : TextsIn P c) {e : Event Color}
    (he : ∀ texts, e = .setTexts texts → P texts) : TextsIn P (step c e) := by
  obtain ⟨texts, htexts, hstep⟩ := step_cases c e
  have hset : TextsIn P { c with texts } := by
    rcases htexts with rfl | htexts
    · exact h
    · exact ⟨he texts htexts, h.2⟩
  rcases hstep with hsame | ⟨index, hsame⟩
  · exact hset.same hsame
  · exact (hset.lookup index).same hsame

/-- **With one list of texts the pages are current**, whatever is looked up. -/
theorem current_of_setTexts {texts : List (List Char)} {es : List (Event Color)}
    (h : ∀ texts', Event.setTexts texts' ∈ es → texts' = texts) : ∀ l ∈ (run es).lookups, l.Current := by
  have hin : TextsIn (fun texts' => texts' = [] ∨ texts' = texts) (run es) :=
    List.foldlRecOn es step ⟨.inl rfl, fun _ hl => nomatch hl⟩ fun _ hc e he =>
      hc.step fun texts' htexts' => .inr (h texts' (htexts' ▸ he))
  have hone : ∀ l ∈ (run es).lookups, inBounds l.index l.texts → l.texts = texts := by
    intro l hl hbounds
    refine (hin.2 l hl).resolve_left fun hnil => ?_
    rw [hnil] at hbounds
    exact absurd hbounds.2 (Int.not_lt.mpr hbounds.1)
  refine (run_inv es).current_iff.mpr fun l hl l' hl' hindex hbounds hbounds' => ?_
  rw [hone l hl hbounds, hone l' hl' hbounds', hindex]

end HoroscopesCell
end Horo
