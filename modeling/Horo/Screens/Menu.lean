/-
# The menu

`viewmodels/menuscreenviewmodel`, `MenuViewController` and the grid of the
signs, `classes/ZodiacsCell`. The grid has two columns, and three on wide
screens; the index of a cell is computed with two on all of them.

* `exists_cell_iff`: the items that a grid shows whose lines overlap.
* `menu_shows_iff`: a sign can be shown from the menu exactly if the screen is
  narrow or the sign is one of the first nine.
-/
import Mathlib.Data.Rat.Init
import Mathlib.Data.Nat.Init
import Horo.Screens.Navigation

namespace Horo
namespace Menu

open Lib Lib.EventSystem
open Navigation (screens setup Steady Shown)

/-! ### The grid -/

/-- An index path; its section is a line of the grid. -/
structure IndexPath where
  line : ℕ
  row : ℕ
  deriving DecidableEq, Repr

/-- An item, with the name of its image. -/
structure Item where
  name : String
  imageName : String
  deriving DecidableEq, Repr

/-- `zodiacsTitlesAndImageNames`. -/
def zodiacsTitlesAndImageNames : List Item :=
  ZodiacTypes.allZodiacs.map fun zodiac => ⟨zodiac.name, zodiac.name ++ ".png"⟩

def kNumberOfItemsInSection : ℕ := 2

/-- The width is that of the screen, in points. -/
def isPlus (width : ℚ) : Bool := 375 ≤ width

def numberOfLines (width : ℚ) : ℕ := if isPlus width then 4 else 6

def numberOfZodiacsPerLine (width : ℚ) : ℕ := if isPlus width then 3 else kNumberOfItemsInSection

/-- The cells that there are. -/
def IndexPath.InGrid (width : ℚ) (indexPath : IndexPath) : Prop :=
  indexPath.line < numberOfLines width ∧ indexPath.row < numberOfZodiacsPerLine width

instance (width : ℚ) (indexPath : IndexPath) : Decidable (indexPath.InGrid width) :=
  inferInstanceAs (Decidable (_ ∧ _))

/-- The item of a cell. -/
def cellForItemAtIndexPath (items : List Item) (indexPath : IndexPath) : Option Item :=
  items[indexPath.line * kNumberOfItemsInSection + indexPath.row]?

/-- The index that is handed on for a name. -/
def didSelectZodiacWithName (items : List Item) (zodiacName : String) : Option ℕ :=
  (items.find? fun dict => dict.name == zodiacName).bind fun dict => items.idxOf? dict

/-- The sign that is asked for. -/
def didSelectZodiacWithIndex (zodiacIndex : ℕ) (s : Navigation.State) : Navigation.State :=
  match ZodiacTypes.allZodiacs[zodiacIndex]? with
  | some zodiac => s.showPredictionViewControllerOfZodiac zodiac
  | none => s

/-- The button of a cell is tapped, which has the name of its item. -/
def buttonTapped (items : List Item) (indexPath : IndexPath) (s : Navigation.State) : Navigation.State :=
  let tappedBlock := fun item : Item => didSelectZodiacWithName items item.name
  match (cellForItemAtIndexPath items indexPath).bind tappedBlock with
  | some index => didSelectZodiacWithIndex index s
  | none => s

/-! ### The items of a grid -/

/-- **The items that a grid shows** whose lines begin `stride` apart, and are
not shorter than that. -/
theorem exists_cell_iff {stride columns lines k : ℕ} (hstride : 0 < stride) (hcolumns : stride ≤ columns) :
    (∃ line < lines + 1, ∃ row < columns, line * stride + row = k) ↔ k < lines * stride + columns := by
  constructor
  · rintro ⟨line, hline, row, hrow, rfl⟩
    have hle : line * stride ≤ lines * stride := Nat.mul_le_mul_right stride (Nat.lt_succ_iff.mp hline)
    omega
  · intro hk
    by_cases hshort : k < lines * stride
    · have hmod := Nat.mod_lt k hstride
      refine ⟨k / stride, ?_, k % stride, by omega, ?_⟩
      · exact Nat.lt_succ_of_lt ((Nat.div_lt_iff_lt_mul hstride).mpr hshort)
      · rw [Nat.mul_comm]
        exact Nat.div_add_mod k stride
    · exact ⟨lines, Nat.lt_succ_self lines, k - lines * stride, by omega, by omega⟩

/-- The items that the menu shows. -/
theorem exists_index_iff (width : ℚ) (k : ℕ) :
    (∃ indexPath : IndexPath, indexPath.InGrid width ∧
        indexPath.line * kNumberOfItemsInSection + indexPath.row = k) ↔
      k < if isPlus width then 9 else 12 := by
  have hgrid : (∃ indexPath : IndexPath, indexPath.InGrid width ∧
        indexPath.line * kNumberOfItemsInSection + indexPath.row = k) ↔
      ∃ line < numberOfLines width, ∃ row < numberOfZodiacsPerLine width,
        line * kNumberOfItemsInSection + row = k := by
    constructor
    · rintro ⟨⟨line, row⟩, ⟨hline, hrow⟩, hk⟩
      exact ⟨line, hline, row, hrow, hk⟩
    · rintro ⟨line, hline, row, hrow, hk⟩
      exact ⟨⟨line, row⟩, ⟨hline, hrow⟩, hk⟩
  rw [hgrid]
  unfold numberOfLines numberOfZodiacsPerLine
  cases isPlus width with
  | true => exact exists_cell_iff (by decide) (by decide)
  | false => exact exists_cell_iff (by decide) (by decide)

/-! ### The sign of a cell -/

/-- A tap asks for the sign whose name the cell has. -/
theorem buttonTapped_eq {indexPath : IndexPath} {zodiac : ZodiacTypes}
    (h : ZodiacTypes.allZodiacs[indexPath.line * kNumberOfItemsInSection + indexPath.row]? = some zodiac)
    (s : Navigation.State) : buttonTapped zodiacsTitlesAndImageNames indexPath s =
      s.showPredictionViewControllerOfZodiac zodiac := by
  have hcell : cellForItemAtIndexPath zodiacsTitlesAndImageNames indexPath =
      some ⟨zodiac.name, zodiac.name ++ ".png"⟩ := by
    rw [cellForItemAtIndexPath, zodiacsTitlesAndImageNames, List.getElem?_map, h, Option.map_some]
  have hindex : ∀ zodiac ∈ ZodiacTypes.allZodiacs,
      (didSelectZodiacWithName zodiacsTitlesAndImageNames zodiac.name).bind
        (ZodiacTypes.allZodiacs[·]?) = some zodiac := by
    decide
  have hselected := hindex zodiac (List.mem_of_getElem? h)
  obtain ⟨index, hname, hzodiac⟩ := Option.bind_eq_some_iff.mp hselected
  rw [buttonTapped, hcell, Option.bind_some, hname]
  simp only [didSelectZodiacWithIndex, hzodiac]

/-- The sign that is asked for is shown. -/
theorem shown_showPrediction {s : Navigation.State} (hsetup : setup s) {es : List Navigation.Event}
    (hrun : screens.Run Steady s es) (zodiac : ZodiacTypes) :
    Shown zodiac ((screens.exec s es).showPredictionViewControllerOfZodiac zodiac) := by
  obtain ⟨hinv, hlands, hupToDate⟩ := Navigation.steady_exec hsetup hrun
  exact Navigation.shown_step (e := .showPredictionOfZodiac zodiac) hinv hlands hupToDate trivial
    (Navigation.not_disturbs id (by rintro ⟨⟩)) rfl

/-- The signs of the first items. -/
theorem exists_zodiac_iff (width : ℚ) {zodiac : ZodiacTypes} (hzodiac : zodiac ≠ .unknown) :
    (∃ k, (k < if isPlus width then 9 else 12) ∧ ZodiacTypes.allZodiacs[k]? = some zodiac) ↔
      width < 375 ∨ zodiac ∉ [.scorpio, .sagittarius, .capricorn] := by
  have hnarrow : isPlus width = false ↔ width < 375 := by
    rw [isPlus, decide_eq_false_iff_not, not_le]
  have hnine : ∀ zodiac : ZodiacTypes, zodiac ≠ .unknown →
      ((∃ k < 9, ZodiacTypes.allZodiacs[k]? = some zodiac) ↔
        zodiac ∉ [.scorpio, .sagittarius, .capricorn]) := by
    intro zodiac
    cases zodiac <;> decide
  rw [← hnarrow]
  cases isPlus width with
  | true => simpa using hnine zodiac hzodiac
  | false =>
    obtain ⟨k, hk, hget⟩ := List.getElem_of_mem (ZodiacTypes.mem_allZodiacs.mpr hzodiac)
    exact iff_of_true ⟨k, hk, List.getElem?_eq_some_iff.mpr ⟨hk, hget⟩⟩ (.inl rfl)

/-- **Which signs the menu can show.** After any steady run there is a cell that
brings up the prediction of a sign if and only if the screen is narrow or the
sign is none of the last three. -/
theorem menu_shows_iff {s : Navigation.State} (hsetup : setup s) {es : List Navigation.Event}
    (hrun : screens.Run Steady s es) (width : ℚ) {zodiac : ZodiacTypes}
    (hzodiac : zodiac ≠ .unknown) :
    (∃ indexPath : IndexPath, indexPath.InGrid width ∧
        Shown zodiac (buttonTapped zodiacsTitlesAndImageNames indexPath (screens.exec s es))) ↔
      width < 375 ∨ zodiac ∉ [.scorpio, .sagittarius, .capricorn] := by
  rw [← exists_zodiac_iff width hzodiac]
  constructor
  · rintro ⟨indexPath, hgrid, hshown⟩
    have hlt := (exists_index_iff width _).mp ⟨indexPath, hgrid, rfl⟩
    have hlength : indexPath.line * kNumberOfItemsInSection + indexPath.row <
        ZodiacTypes.allZodiacs.length := by
      apply lt_of_lt_of_le hlt
      split <;> decide
    have hitem := List.getElem?_eq_getElem hlength
    rw [buttonTapped_eq hitem] at hshown
    rw [← (shown_showPrediction hsetup hrun _).unique hshown]
    exact ⟨_, hlt, hitem⟩
  · rintro ⟨k, hlt, hitem⟩
    obtain ⟨indexPath, hgrid, rfl⟩ := (exists_index_iff width k).mpr hlt
    refine ⟨indexPath, hgrid, ?_⟩
    rw [buttonTapped_eq hitem]
    exact shown_showPrediction hsetup hrun zodiac

/-- A screen of 414 points shows no cell for Scorpio, the one of 320 does. -/
theorem scorpio_shown :
    (¬ ∃ indexPath : IndexPath, indexPath.InGrid 414 ∧ Shown .scorpio
        (buttonTapped zodiacsTitlesAndImageNames indexPath
          (screens.exec Navigation.launched Navigation.friendsAsked))) ∧
      ∃ indexPath : IndexPath, indexPath.InGrid 320 ∧ Shown .scorpio
        (buttonTapped zodiacsTitlesAndImageNames indexPath
          (screens.exec Navigation.launched Navigation.friendsAsked)) := by
  have hiff := fun width : ℚ => @menu_shows_iff Navigation.launched Navigation.launched_setup
    Navigation.friendsAsked (by decide) width .scorpio (by decide)
  constructor
  · rw [hiff 414]
    decide +kernel
  · rw [hiff 320]
    decide +kernel

end Menu
end Horo
