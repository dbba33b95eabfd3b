/-
# The parser of the pages

`src/server/updater/horoscopesparser.js`, over the tree that gumbo makes of a
page. The sign and the text are variables of the module and outlive a call; the
flags in `parameters`, which nothing reads, are left out.

* `invokePayloadData_eq`: a page acts by the contents and the signs in it, in
  document order.
* `independent_iff`: what is parsed of a page does not depend on the pages
  before exactly when the page names a sign and has a content, and its last
  content comes after a sign or has no text.
-/
import Mathlib.Data.List.Basic

namespace Horo
namespace Server
namespace PageParser

/-! ### The program -/

structure Attribute where
  name : String
  value : String
  deriving DecidableEq, Repr

/-- A node of the tree. Nodes that are neither elements nor texts are passed
over. -/
inductive Node
  | element (nodeName : String) (attributes : List Attribute) (childNodes : List Node)
  | text (textContent : String)
  | other
  deriving Repr

/-- The variables of the module. -/
structure Variables where
  zodiacKey : String
  textStorage : String
  deriving DecidableEq, Repr

def initial : Variables := ⟨"", ""⟩

/-- The value of the attribute `class`, as the loops over the attributes leave
it in a variable. -/
def classValue (attributes : List Attribute) (value : String) : String :=
  attributes.foldl (fun value attr => if attr.name = "class" then attr.value else value) value

/-- A paragraph with a class is no part of the text. -/
def isClassed (nodeName : String) (attributes : List Attribute) : Bool :=
  nodeName = "p" ∧ classValue attributes "" ≠ ""

mutual

/-- What is in `textStorage` afterwards. -/
def invokeTextFromTreeWithZodiacKey (key : String) : Node → String → String
  | .element nodeName attributes childNodes, textStorage =>
    if key = "" ∨ isClassed nodeName attributes then textStorage
    else invokeTextFromChildren key childNodes textStorage
  | .text _, textStorage => textStorage
  | .other, textStorage => textStorage

/-- The loop over the child nodes. -/
def invokeTextFromChildren (key : String) : List Node → String → String
  | [], textStorage => textStorage
  | .text textContent :: children, textStorage =>
    invokeTextFromChildren key children (textStorage ++ textContent)
  | child :: children, textStorage =>
    invokeTextFromChildren key children (invokeTextFromTreeWithZodiacKey key child textStorage)

end

/-- The attribute is the class of a content. -/
def isContent (attr : Attribute) : Bool := attr.name = "class" ∧ attr.value = "horoscope-content"

/-- What `invokePayloadData` does with an element before its children. -/
def visit (tree : Node) (s : Variables) : Variables :=
  match tree with
  | .element nodeName attributes _ =>
    let s :=
      if nodeName = "div" then
        attributes.foldl (fun s attr =>
          if isContent attr then
            { s with textStorage := invokeTextFromTreeWithZodiacKey s.zodiacKey tree "" }
          else s) s
      else s
    if nodeName = "body" then { s with zodiacKey := classValue attributes s.zodiacKey } else s
  | _ => s

mutual

def invokePayloadData : Node → Variables → Variables
  | .element nodeName attributes childNodes, s =>
    invokePayloadDataChildren childNodes (visit (.element nodeName attributes childNodes) s)
  | .text _, s => s
  | .other, s => s

/-- The loop over the child nodes that are elements. -/
def invokePayloadDataChildren : List Node → Variables → Variables
  | [], s => s
  | child :: children, s => invokePayloadDataChildren children (invokePayloadData child s)

end

/-- The completion is called once, with the two variables. -/
def parse (root : Node) (s : Variables) : Variables := invokePayloadData root s

/-- The variables after a history of pages. -/
def parseAll (pages : List Node) : Variables := pages.foldl (fun s root => parse root s) initial

/-- What is parsed of the page is the same after any two histories. -/
def Independent (root : Node) : Prop :=
  ∀ pages pages', parse root (parseAll pages) = parse root (parseAll pages')

/-! ### The marks of a page -/

mutual

/-- The text below a node, without the paragraphs that have a class. -/
def textOf : Node → String
  | .element nodeName attributes childNodes =>
    if isClassed nodeName attributes then "" else textOfChildren childNodes
  | .text _ => ""
  | .other => ""

def textOfChildren : List Node → String
  | [] => ""
  | .text textContent :: children => textContent ++ textOfChildren children
  | child :: children => textOf child ++ textOfChildren children

end

/-- What of a page changes the variables: a content with its text, and the
class of a body. -/
inductive Mark
  | content (text : String)
  | sign (value : String)
  deriving DecidableEq, Repr

/-- A content has no text before a sign is known. -/
def Mark.apply (s : Variables) : Mark → Variables
  | .content text => { s with textStorage := if s.zodiacKey = "" then "" else text }
  | .sign value => { s with zodiacKey := value }

/-- The marks of an element itself. -/
def marksOfElement (nodeName : String) (attributes : List Attribute) (text : String) : List Mark :=
  (if nodeName = "div" then (attributes.filter isContent).map fun _ => Mark.content text else []) ++
    if nodeName = "body" then
      (attributes.filter fun a => a.name = "class").map fun a => Mark.sign a.value
    else []

mutual

/-- The marks of a page, in document order. -/
def marks : Node → List Mark
  | .element nodeName attributes childNodes =>
    marksOfElement nodeName attributes (textOf (.element nodeName attributes childNodes)) ++
      marksOfChildren childNodes
  | .text _ => []
  | .other => []

def marksOfChildren : List Node → List Mark
  | [] => []
  | child :: children => marks child ++ marksOfChildren children

end

mutual

theorem invokeTextFromTreeWithZodiacKey_eq (key : String) : ∀ (tree : Node) (textStorage : String),
    invokeTextFromTreeWithZodiacKey key tree textStorage =
      textStorage ++ if key = "" then "" else textOf tree
  | .element nodeName attributes childNodes, textStorage => by
    rw [invokeTextFromTreeWithZodiacKey, textOf]
    by_cases hkey : key = ""
    · simp [hkey]
    · by_cases hclass : isClassed nodeName attributes
      · simp [hclass]
      · simp [hkey, hclass, invokeTextFromChildren_eq key hkey childNodes textStorage]
  | .text _, textStorage => by simp [invokeTextFromTreeWithZodiacKey, textOf]
  | .other, textStorage => by simp [invokeTextFromTreeWithZodiacKey, textOf]

theorem invokeTextFromChildren_eq (key : String) (hkey : key ≠ "") :
    ∀ (children : List Node) (textStorage : String),
      invokeTextFromChildren key children textStorage = textStorage ++ textOfChildren children
  | [], textStorage => by simp [invokeTextFromChildren, textOfChildren]
  | .text textContent :: children, textStorage => by
    rw [invokeTextFromChildren, textOfChildren, invokeTextFromChildren_eq key hkey children,
      String.append_assoc]
  | .element nodeName attributes childNodes :: children, textStorage => by
    rw [invokeTextFromChildren, textOfChildren, invokeTextFromChildren_eq key hkey children,
      invokeTextFromTreeWithZodiacKey_eq key _ textStorage, if_neg hkey, String.append_assoc]
    all_goals simp
  | .other :: children, textStorage => by
    rw [invokeTextFromChildren, textOfChildren, invokeTextFromChildren_eq key hkey children,
      invokeTextFromTreeWithZodiacKey_eq key _ textStorage, if_neg hkey, String.append_assoc]
    all_goals simp

end

/-- The class that the loop leaves is the last one. -/
theorem foldl_sign (attributes : List Attribute) : ∀ s : Variables,
    ((attributes.filter fun a => a.name = "class").map fun a => Mark.sign a.value).foldl Mark.apply s =
      { s with zodiacKey := classValue attributes s.zodiacKey } := by
  induction attributes with
  | nil => intro s; rfl
  | cons a attributes ih =>
    intro s
    rw [List.filter_cons, classValue, List.foldl_cons]
    by_cases h : a.name = "class"
    · simp only [h, decide_true, if_true, List.map_cons, List.foldl_cons, ih]
      rfl
    · simp only [h, decide_false, if_false, Bool.false_eq_true, ih]
      rfl

theorem foldl_content (tree : Node) (attributes : List Attribute) : ∀ s : Variables,
    attributes.foldl (fun s attr =>
      if isContent attr then
        { s with textStorage := invokeTextFromTreeWithZodiacKey s.zodiacKey tree "" }
      else s) s =
      ((attributes.filter isContent).map fun _ => Mark.content (textOf tree)).foldl Mark.apply s := by
  induction attributes with
  | nil => intro s; rfl
  | cons a attributes ih =>
    intro s
    rw [List.foldl_cons, List.filter_cons, ih]
    by_cases h : isContent a
    · simp only [h, if_true, List.map_cons, List.foldl_cons, Mark.apply,
        invokeTextFromTreeWithZodiacKey_eq, String.empty_append]
    · simp only [h, if_false, Bool.false_eq_true]

/-- An element acts by its marks. -/
theorem visit_eq (nodeName : String) (attributes : List Attribute) (childNodes : List Node)
    (s : Variables) : visit (.element nodeName attributes childNodes) s =
      (marksOfElement nodeName attributes (textOf (.element nodeName attributes childNodes))).foldl
        Mark.apply s := by
  unfold visit marksOfElement
  rw [List.foldl_append]
  simp only [foldl_content]
  by_cases hbody : nodeName = "body"
  · simp only [hbody, if_true, foldl_sign]
    simp
  · simp only [hbody, if_false, List.foldl_nil]
    split <;> rfl

mutual

/-- **A page acts by its marks**, in document order. -/
theorem invokePayloadData_eq : ∀ (tree : Node) (s : Variables),
    invokePayloadData tree s = (marks tree).foldl Mark.apply s
  | .element nodeName attributes childNodes, s => by
    rw [invokePayloadData, marks, List.foldl_append, ← visit_eq,
      invokePayloadDataChildren_eq childNodes]
  | .text _, s => by rw [invokePayloadData, marks, List.foldl_nil]
  | .other, s => by rw [invokePayloadData, marks, List.foldl_nil]

theorem invokePayloadDataChildren_eq : ∀ (children : List Node) (s : Variables),
    invokePayloadDataChildren children s = (marksOfChildren children).foldl Mark.apply s
  | [], s => by rw [invokePayloadDataChildren, marksOfChildren, List.foldl_nil]
  | child :: children, s => by
    rw [invokePayloadDataChildren, marksOfChildren, List.foldl_append, ← invokePayloadData_eq child,
      invokePayloadDataChildren_eq children]

end

/-! ### What the marks leave in the variables -/

def Mark.IsSign (m : Mark) : Prop := ∃ value, m = .sign value

def Mark.IsContent (m : Mark) : Prop := ∃ text, m = .content text

theorem zodiacKey_congr (ms : List Mark) : ∀ {s s' : Variables}, s.zodiacKey = s'.zodiacKey →
    (ms.foldl Mark.apply s).zodiacKey = (ms.foldl Mark.apply s').zodiacKey := by
  induction ms with
  | nil => intro s s' h; exact h
  | cons m ms ih =>
    intro s s' h
    apply ih
    cases m with
    | content text => exact h
    | sign value => rfl

/-- A page that names a sign leaves the same sign for all. -/
theorem zodiacKey_of_sign {ms : List Mark} (h : ∃ m ∈ ms, m.IsSign) : ∀ s s' : Variables,
    (ms.foldl Mark.apply s).zodiacKey = (ms.foldl Mark.apply s').zodiacKey := by
  induction ms with
  | nil => obtain ⟨m, hm, _⟩ := h; cases hm
  | cons m ms ih =>
    intro s s'
    obtain ⟨m', hm', value, rfl⟩ := h
    rcases List.mem_cons.mp hm' with rfl | hm'
    · exact zodiacKey_congr ms rfl
    · exact ih ⟨_, hm', value, rfl⟩ _ _

theorem zodiacKey_of_no_sign {ms : List Mark} (h : ∀ m ∈ ms, ¬ m.IsSign) : ∀ s : Variables,
    (ms.foldl Mark.apply s).zodiacKey = s.zodiacKey := by
  induction ms with
  | nil => intro s; rfl
  | cons m ms ih =>
    intro s
    rw [List.foldl_cons, ih fun m' hm' => h m' (List.mem_cons_of_mem m hm')]
    cases m with
    | content text => rfl
    | sign value => exact absurd ⟨value, rfl⟩ (h _ List.mem_cons_self)

theorem textStorage_of_no_content {ms : List Mark} (h : ∀ m ∈ ms, ¬ m.IsContent) :
    ∀ s : Variables, (ms.foldl Mark.apply s).textStorage = s.textStorage := by
  induction ms with
  | nil => intro s; rfl
  | cons m ms ih =>
    intro s
    rw [List.foldl_cons, ih fun m' hm' => h m' (List.mem_cons_of_mem m hm')]
    cases m with
    | content text => exact absurd ⟨text, rfl⟩ (h _ List.mem_cons_self)
    | sign value => rfl

/-- The text is that of the last content, if the sign was known then. -/
theorem textStorage_of_last {before after : List Mark} (h : ∀ m ∈ after, ¬ m.IsContent)
    (text : String) (s : Variables) :
    ((before ++ .content text :: after).foldl Mark.apply s).textStorage =
      if (before.foldl Mark.apply s).zodiacKey = "" then "" else text := by
  rw [List.foldl_append, List.foldl_cons, textStorage_of_no_content h]
  rfl

theorem exists_last_content {ms : List Mark} (h : ∃ m ∈ ms, m.IsContent) :
    ∃ before text after, ms = before ++ .content text :: after ∧ ∀ m ∈ after, ¬ m.IsContent := by
  induction ms with
  | nil => obtain ⟨m, hm, _⟩ := h; cases hm
  | cons m ms ih =>
    by_cases hms : ∃ m ∈ ms, m.IsContent
    · obtain ⟨before, text, after, rfl, hafter⟩ := ih hms
      exact ⟨m :: before, text, after, rfl, hafter⟩
    · obtain ⟨m', hm', text, rfl⟩ := h
      rcases List.mem_cons.mp hm' with rfl | hm'
      · exact ⟨[], text, ms, rfl, fun m hm hc => hms ⟨m, hm, hc⟩⟩
      · exact absurd ⟨_, hm', text, rfl⟩ hms

/-! ### The histories -/

def page (zodiacName : String) (childNodes : List Node) : Node :=
  .element "body" [⟨"class", zodiacName⟩] childNodes

def content (text : String) : Node :=
  .element "div" [⟨"class", "horoscope-content"⟩] [.text text]

/-- Two pages leave any values in the variables. -/
theorem exists_parseAll (s : Variables) : ∃ pages, parseAll pages = s := by
  refine ⟨[page "leo" [content s.textStorage], page s.zodiacKey []], ?_⟩
  have hmarks : marks (page "leo" [content s.textStorage]) = [.sign "leo", .content s.textStorage] := by
    simp [page, content, marks, marksOfChildren, marksOfElement, isContent, textOf, textOfChildren,
      isClassed]
  have hmarks' : marks (page s.zodiacKey []) = [.sign s.zodiacKey] := by
    simp [page, marks, marksOfChildren, marksOfElement]
  simp only [parseAll, List.foldl_cons, List.foldl_nil, parse, invokePayloadData_eq, hmarks, hmarks']
  rfl

/-! ### The theorem -/

/-- The page names a sign and has a content, and its last content comes after a
sign or has no text. -/
def Settled (root : Node) : Prop :=
  (∃ m ∈ marks root, m.IsSign) ∧ ∃ before text after,
    marks root = before ++ .content text :: after ∧ (∀ m ∈ after, ¬ m.IsContent) ∧
      ((∃ m ∈ before, m.IsSign) ∨ text = "")

/-- Any two histories leave any two values of the variables. -/
theorem independent_iff_foldl (root : Node) : Independent root ↔
    ∀ s s', (marks root).foldl Mark.apply s = (marks root).foldl Mark.apply s' := by
  simp only [Independent, parse, invokePayloadData_eq]
  constructor
  · intro h s s'
    obtain ⟨pages, rfl⟩ := exists_parseAll s
    obtain ⟨pages', rfl⟩ := exists_parseAll s'
    exact h pages pages'
  · exact fun h pages pages' => h _ _

section Marks

variable {ms : List Mark} (h : ∀ s s', ms.foldl Mark.apply s = ms.foldl Mark.apply s')

include h

/-- A sign that is not named is that of the page before. -/
theorem exists_sign_of_foldl_eq : ∃ m ∈ ms, m.IsSign := by
  by_contra hno
  have hnone : ∀ m ∈ ms, ¬ m.IsSign := fun m hm hs => hno ⟨m, hm, hs⟩
  have hkey := congrArg Variables.zodiacKey (h ⟨"", ""⟩ ⟨"leo", ""⟩)
  rw [zodiacKey_of_no_sign hnone, zodiacKey_of_no_sign hnone] at hkey
  exact absurd hkey (by decide)

/-- So is the text of a page without a content. -/
theorem exists_content_of_foldl_eq : ∃ m ∈ ms, m.IsContent := by
  by_contra hno
  have hnone : ∀ m ∈ ms, ¬ m.IsContent := fun m hm hc => hno ⟨m, hm, hc⟩
  have htext := congrArg Variables.textStorage (h ⟨"", ""⟩ ⟨"", "leo"⟩)
  rw [textStorage_of_no_content hnone, textStorage_of_no_content hnone] at htext
  exact absurd htext (by decide)

/-- And a last content before any sign has its text only after a page with one. -/
theorem sign_before_of_foldl_eq {before after : List Mark} {text : String}
    (hms : ms = before ++ .content text :: after) (hafter : ∀ m ∈ after, ¬ m.IsContent) :
    (∃ m ∈ before, m.IsSign) ∨ text = "" := by
  by_cases hsome : ∃ m ∈ before, m.IsSign
  · exact .inl hsome
  · have hbefore : ∀ m ∈ before, ¬ m.IsSign := fun m hm hs => hsome ⟨m, hm, hs⟩
    right
    have htext := congrArg Variables.textStorage (h ⟨"leo", ""⟩ ⟨"", ""⟩)
    rw [hms, textStorage_of_last hafter, textStorage_of_last hafter,
      zodiacKey_of_no_sign hbefore, zodiacKey_of_no_sign hbefore] at htext
    simpa using htext

end Marks

/-- A settled page overwrites both variables. -/
theorem Settled.foldl_eq {root : Node} (h : Settled root) (s s' : Variables) :
    (marks root).foldl Mark.apply s = (marks root).foldl Mark.apply s' := by
  obtain ⟨hsign, before, text, after, hmarks, hafter, hlast⟩ := h
  have hkey := zodiacKey_of_sign hsign s s'
  have htext : ((marks root).foldl Mark.apply s).textStorage =
      ((marks root).foldl Mark.apply s').textStorage := by
    rw [hmarks, textStorage_of_last hafter, textStorage_of_last hafter]
    rcases hlast with hbefore | rfl
    · rw [zodiacKey_of_sign hbefore s s']
    · rw [ite_self, ite_self]
  calc (marks root).foldl Mark.apply s
      = ⟨((marks root).foldl Mark.apply s).zodiacKey,
          ((marks root).foldl Mark.apply s).textStorage⟩ := rfl
    _ = ⟨((marks root).foldl Mark.apply s').zodiacKey,
          ((marks root).foldl Mark.apply s').textStorage⟩ := by rw [hkey, htext]
    _ = (marks root).foldl Mark.apply s' := rfl

/-- **When a page is parsed on its own.** What is parsed of a page is the same
after any two histories of pages if and only if the page is settled. -/
theorem independent_iff (root : Node) : Independent root ↔ Settled root := by
  rw [independent_iff_foldl]
  constructor
  · intro h
    obtain ⟨before, text, after, hmarks, hafter⟩ :=
      exists_last_content (exists_content_of_foldl_eq h)
    exact ⟨exists_sign_of_foldl_eq h, before, text, after, hmarks, hafter,
      sign_before_of_foldl_eq h hmarks hafter⟩
  · exact fun h s s' => h.foldl_eq s s'

/-- A page without a class gives what was parsed before it. -/
theorem plain_page_repeats :
    parse (.element "html" [] [.element "body" [] [content "Courage."]]) (parseAll []) = ⟨"", ""⟩ ∧
      parse (.element "html" [] [.element "body" [] [content "Courage."]])
        (parseAll [page "leo" []]) = ⟨"leo", "Courage."⟩ ∧
      parse (.element "html" [] [.element "body" [] []])
        (parseAll [page "leo" [content "Courage."]]) = ⟨"leo", "Courage."⟩ ∧
      ¬ Independent (.element "html" [] [.element "body" [] []]) := by
  have hempty : parse (.element "html" [] [.element "body" [] []]) (parseAll []) = ⟨"", ""⟩ := by
    decide +kernel
  have hleo : parse (.element "html" [] [.element "body" [] []])
      (parseAll [page "leo" [content "Courage."]]) = ⟨"leo", "Courage."⟩ := by decide +kernel
  refine ⟨by decide +kernel, by decide +kernel, hleo, fun h => ?_⟩
  have hsame := h [] [page "leo" [content "Courage."]]
  rw [hempty, hleo] at hsame
  exact absurd hsame (by decide)

end PageParser
end Server
end Horo
