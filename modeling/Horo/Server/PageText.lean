/-
# What is on a page

What the parser of the pages reports of a page it starts with, said of the tree
alone: the class of its body, and the text below its last content.

Key definitions: `walk`, `Page`, `textBelow`.
Key theorems: `invokePayloadData_walk`, `textBelow_eq`, `parse_initial`.
-/
import Horo.Server.PageParser

namespace Horo
namespace Server
namespace PageParser

/-! ### Document order -/

/-- A node of a tree, with its ancestors from the root down. -/
structure Place where
  ancestors : List Node
  node : Node

mutual

/-- A tree in document order, below the nodes `above`. -/
def walk (above : List Node) : Node → List Place
  | .element nodeName attributes childNodes =>
    ⟨above, .element nodeName attributes childNodes⟩ ::
      walkChildren (above ++ [.element nodeName attributes childNodes]) childNodes
  | .text textContent => [⟨above, .text textContent⟩]
  | .other => [⟨above, .other⟩]

def walkChildren (above : List Node) : List Node → List Place
  | [] => []
  | child :: children => walk above child ++ walkChildren above children

end

namespace Node

def attributes : Node → List Attribute
  | .element _ attributes _ => attributes
  | _ => []

/-- The value of the attribute `class`. -/
def className (n : Node) : String := classValue n.attributes ""

def isBody : Node → Bool
  | .element nodeName _ _ => nodeName = "body"
  | _ => false

def isContentDiv : Node → Bool
  | .element nodeName attributes _ => nodeName = "div" ∧ attributes.any isContent
  | _ => false

def isClassedParagraph : Node → Bool
  | .element nodeName attributes _ => isClassed nodeName attributes
  | _ => false

/-- The text of a text node. -/
def ownText : Node → String
  | .text textContent => textContent
  | _ => ""

end Node

/-- What the text nodes of a tree say that stand in no paragraph with a class
below the root of the tree. -/
def textBelow (tree : Node) : String :=
  String.join (((walk [] tree).filter fun p => !p.ancestors.tail.any Node.isClassedParagraph).map
    fun p => p.node.ownText)

def bodies (places : List Place) : List Place := places.filter fun p => p.node.isBody

def contents (places : List Place) : List Place := places.filter fun p => p.node.isContentDiv

/-- The tree of a page. An HTML parser makes one body of all there are. -/
structure Page where
  nodeName : String
  attributes : List Attribute
  childNodes : List Node
  one_body : (bodies (walk [] (.element nodeName attributes childNodes))).length ≤ 1

namespace Page

def root (page : Page) : Node := .element page.nodeName page.attributes page.childNodes

def places (page : Page) : List Place := walk [] page.root

/-- The class of the body. -/
def sign (page : Page) : String := ((bodies page.places).head?.map fun p => p.node.className).getD ""

/-- The text of the last content. -/
def text (page : Page) : String :=
  ((contents page.places).getLast?.map fun p => textBelow p.node).getD ""

end Page

/-! ### One node -/

/-- A content empties the text and fills it again, as often as the class is given. -/
theorem foldl_isContent (tree : Node) : ∀ (attributes : List Attribute) (s : Variables),
    attributes.foldl (fun s attr =>
      if isContent attr then
        { s with textStorage := invokeTextFromTreeWithZodiacKey s.zodiacKey tree "" }
      else s) s =
      if attributes.any isContent then
        { s with textStorage := if s.zodiacKey = "" then "" else textOf tree }
      else s
  | [], s => rfl
  | a :: attributes, s => by
    rw [List.foldl_cons, foldl_isContent tree attributes, List.any_cons]
    by_cases ha : isContent a
    · simp [ha, invokeTextFromTreeWithZodiacKey_eq]
    · simp [ha]

theorem visit_zodiacKey (n : Node) (s : Variables) :
    (visit n s).zodiacKey = if n.isBody then classValue n.attributes s.zodiacKey else s.zodiacKey := by
  cases n with
  | element nodeName attributes childNodes =>
    simp only [visit, foldl_isContent, Node.isBody, Node.attributes, decide_eq_true_eq]
    by_cases hbody : nodeName = "body"
    · simp [hbody]
    · rw [if_neg hbody, if_neg hbody]
      split
      · split <;> rfl
      · rfl
  | text textContent => rfl
  | other => rfl

theorem visit_textStorage (n : Node) (s : Variables) :
    (visit n s).textStorage =
      if n.isContentDiv then (if s.zodiacKey = "" then "" else textOf n) else s.textStorage := by
  cases n with
  | element nodeName attributes childNodes =>
    simp only [visit, foldl_isContent, Node.isContentDiv, decide_eq_true_eq]
    by_cases hdiv : nodeName = "div"
    · have hbody : ¬ nodeName = "body" := by rw [hdiv]; decide
      by_cases hcontent : attributes.any isContent
      · simp [hdiv, hcontent]
      · simp [hdiv, hcontent]
    · have hno : ¬ (nodeName = "div" ∧ attributes.any isContent = true) := fun h => hdiv h.1
      rw [if_neg hdiv, if_neg hno]
      split <;> rfl
  | text textContent => rfl
  | other => rfl

mutual

/-- **The recursion is a loop in document order.** -/
theorem invokePayloadData_walk (above : List Node) : ∀ (tree : Node) (s : Variables),
    invokePayloadData tree s = (walk above tree).foldl (fun s p => visit p.node s) s
  | .element nodeName attributes childNodes, s => by
    rw [invokePayloadData, walk, List.foldl_cons, invokePayloadDataChildren_walk _ childNodes]
  | .text _, s => by rw [invokePayloadData, walk]; rfl
  | .other, s => by rw [invokePayloadData, walk]; rfl

theorem invokePayloadDataChildren_walk (above : List Node) : ∀ (children : List Node) (s : Variables),
    invokePayloadDataChildren children s =
      (walkChildren above children).foldl (fun s p => visit p.node s) s
  | [], s => by rw [invokePayloadDataChildren, walkChildren, List.foldl_nil]
  | child :: children, s => by
    rw [invokePayloadDataChildren, walkChildren, List.foldl_append, ← invokePayloadData_walk above child,
      invokePayloadDataChildren_walk above children]

end

/-! ### The text -/

/-- What the places say that are in no paragraph with a class, but for that of
the first ancestor. -/
def shownText (places : List Place) : String :=
  String.join ((places.filter fun p => !p.ancestors.tail.any Node.isClassedParagraph).map
    fun p => p.node.ownText)

theorem shownText_append (ps qs : List Place) : shownText (ps ++ qs) = shownText ps ++ shownText qs := by
  rw [shownText, List.filter_append, List.map_append, String.join_append]
  rfl

theorem shownText_singleton (p : Place) : shownText [p] =
    if p.ancestors.tail.any Node.isClassedParagraph then "" else p.node.ownText := by
  rw [shownText, List.filter_cons]
  by_cases h : p.ancestors.tail.any Node.isClassedParagraph
  · simp [h]
  · simp [h]

theorem any_tail_append {above : List Node} (h : above ≠ []) (n : Node) :
    (above ++ [n]).tail.any Node.isClassedParagraph =
      (above.tail.any Node.isClassedParagraph || n.isClassedParagraph) := by
  obtain ⟨m, above, rfl⟩ := List.exists_cons_of_ne_nil h
  simp

mutual

theorem shownText_walk {above : List Node} (h : above ≠ []) : ∀ tree : Node,
    shownText (walk above tree) =
      if above.tail.any Node.isClassedParagraph then "" else tree.ownText ++ textOf tree
  | .element nodeName attributes childNodes => by
    have hself : shownText [⟨above, .element nodeName attributes childNodes⟩] = "" := by
      rw [shownText_singleton]
      exact ite_self _
    have hown : (Node.element nodeName attributes childNodes).ownText = "" := rfl
    rw [walk, ← List.singleton_append, shownText_append, hself, String.empty_append,
      shownText_walkChildren (by simp) childNodes, any_tail_append h, textOf, hown,
      String.empty_append, Node.isClassedParagraph]
    by_cases habove : above.tail.any Node.isClassedParagraph
    · simp [habove]
    · simp [habove]
  | .text textContent => by rw [walk, shownText_singleton, textOf, String.append_empty]
  | .other => by rw [walk, shownText_singleton, textOf, String.append_empty]

theorem shownText_walkChildren {above : List Node} (h : above ≠ []) : ∀ children : List Node,
    shownText (walkChildren above children) =
      if above.tail.any Node.isClassedParagraph then "" else textOfChildren children
  | [] => by
    rw [walkChildren, textOfChildren]
    exact (ite_self _).symm
  | child :: children => by
    have htext : textOfChildren (child :: children) =
        (child.ownText ++ textOf child) ++ textOfChildren children := by
      cases child with
      | text textContent => rw [textOfChildren, textOf, String.append_empty, Node.ownText]
      | _ =>
        rw [textOfChildren, Node.ownText, String.empty_append]
        all_goals simp
    rw [walkChildren, shownText_append, shownText_walk h child, shownText_walkChildren h children, htext]
    by_cases habove : above.tail.any Node.isClassedParagraph
    · simp [habove]
    · simp [habove]

end

/-- **The text of a content is the text below it.** -/
theorem textBelow_eq {tree : Node} (h : tree.isContentDiv = true) : textBelow tree = textOf tree := by
  cases tree with
  | element nodeName attributes childNodes =>
    have hdiv : nodeName = "div" := (of_decide_eq_true h).1
    have hclass : isClassed nodeName attributes = false := by
      simp [isClassed, hdiv]
    change shownText (walk [] (.element nodeName attributes childNodes)) = _
    rw [walk, ← List.singleton_append, shownText_append, shownText_walkChildren (by simp), textOf, hclass,
      shownText_singleton]
    simp [Node.ownText]
  | text textContent => cases h
  | other => cases h

/-! ### Ancestors come first -/

/-- The ancestors of every place are among the nodes seen before it. -/
def Founded : List Node → List Place → Prop
  | _, [] => True
  | seen, p :: places => p.ancestors ⊆ seen ∧ Founded (seen ++ [p.node]) places

theorem subset_concat {above seen : List Node} (h : above ⊆ seen) (n : Node) :
    above ++ [n] ⊆ seen ++ [n] :=
  List.append_subset.mpr ⟨List.Subset.trans h (List.subset_append_left _ _), List.subset_append_right _ _⟩

theorem Founded.mono : ∀ {places : List Place} {seen seen' : List Node}, seen ⊆ seen' →
    Founded seen places → Founded seen' places
  | [], _, _, _, _ => trivial
  | _ :: _, _, _, hsub, ⟨hancestors, hplaces⟩ =>
    ⟨List.Subset.trans hancestors hsub, hplaces.mono (subset_concat hsub _)⟩

theorem Founded.append : ∀ {ps qs : List Place} {seen : List Node}, Founded seen ps →
    Founded seen qs → Founded seen (ps ++ qs)
  | [], _, _, _, hqs => hqs
  | _ :: _, _, _, ⟨hancestors, hps⟩, hqs =>
    ⟨hancestors, hps.append (hqs.mono (List.subset_append_left _ _))⟩

mutual

theorem founded_walk {above seen : List Node} (h : above ⊆ seen) : ∀ tree : Node,
    Founded seen (walk above tree)
  | .element _ _ childNodes => by
    rw [walk]
    exact ⟨h, founded_walkChildren (subset_concat h _) childNodes⟩
  | .text _ => by
    rw [walk]
    exact ⟨h, trivial⟩
  | .other => by
    rw [walk]
    exact ⟨h, trivial⟩

theorem founded_walkChildren {above seen : List Node} (h : above ⊆ seen) : ∀ children : List Node,
    Founded seen (walkChildren above children)
  | [] => by
    rw [walkChildren]
    trivial
  | child :: children => by
    rw [walkChildren]
    exact (founded_walk h child).append (founded_walkChildren h children)

end

theorem Founded.exists_before {p : Place} {post : List Place} : ∀ {pre : List Place} {seen : List Node},
    Founded seen (pre ++ p :: post) → ∀ n ∈ p.ancestors, n ∈ seen ∨ ∃ q ∈ pre, q.node = n
  | [], _, h, n, hn => .inl (h.1 hn)
  | q :: pre, seen, h, n, hn => by
    rcases h.2.exists_before n hn with hseen | ⟨r, hr, hrn⟩
    · rcases List.mem_append.mp hseen with hseen | hq
      · exact .inl hseen
      · exact .inr ⟨q, List.mem_cons_self, (List.mem_singleton.mp hq).symm⟩
    · exact .inr ⟨r, List.mem_cons_of_mem q hr, hrn⟩

/-! ### A page read first -/

/-- The sign is left by the bodies. -/
theorem foldl_visit_zodiacKey : ∀ (places : List Place) (s : Variables),
    (places.foldl (fun s p => visit p.node s) s).zodiacKey =
      (bodies places).foldl (fun key p => classValue p.node.attributes key) s.zodiacKey
  | [], _ => rfl
  | p :: places, s => by
    have hcons : bodies (p :: places) = if p.node.isBody then p :: bodies places else bodies places :=
      List.filter_cons
    rw [List.foldl_cons, foldl_visit_zodiacKey places, visit_zodiacKey, hcons]
    by_cases h : p.node.isBody
    · rw [if_pos h, if_pos h, List.foldl_cons]
    · rw [if_neg h, if_neg h]

/-- The text is left by the last content. -/
theorem foldl_visit_textStorage_of_no_content : ∀ {places : List Place} (s : Variables),
    (∀ p ∈ places, p.node.isContentDiv = false) →
    (places.foldl (fun s p => visit p.node s) s).textStorage = s.textStorage
  | [], _, _ => rfl
  | p :: places, s, h => by
    have hp := h p List.mem_cons_self
    rw [List.foldl_cons,
      foldl_visit_textStorage_of_no_content _ fun q hq => h q (List.mem_cons_of_mem p hq),
      visit_textStorage, if_neg (by simp [hp])]

theorem classValue_eq : ∀ attributes : List Attribute,
    (∀ value, classValue attributes value = value) ∨
      ∃ last, ∀ value, classValue attributes value = last
  | [] => .inl fun _ => rfl
  | attr :: attributes => by
    have hcons : ∀ value, classValue (attr :: attributes) value =
        classValue attributes (if attr.name = "class" then attr.value else value) := fun _ => rfl
    simp only [hcons]
    rcases classValue_eq attributes with h | ⟨last, h⟩
    · simp only [h]
      by_cases hname : attr.name = "class"
      · exact .inr ⟨attr.value, fun _ => if_pos hname⟩
      · exact .inl fun _ => if_neg hname
    · exact .inr ⟨last, fun _ => h _⟩

theorem classValue_of_ne {attributes : List Attribute} (h : classValue attributes "" ≠ "")
    (value : String) :
    classValue attributes value = classValue attributes "" := by
  rcases classValue_eq attributes with hkept | ⟨last, hlast⟩
  · exact absurd (hkept "") h
  · rw [hlast, hlast]

theorem bodies_eq_singleton {places : List Place} (hone : (bodies places).length ≤ 1) {p : Place}
    (hp : p ∈ bodies places) : bodies places = [p] := by
  rcases hbodies : bodies places with _ | ⟨q, _ | ⟨r, rest⟩⟩
  · rw [hbodies] at hp
    cases hp
  · rw [hbodies, List.mem_singleton] at hp
    rw [hp]
  · rw [hbodies] at hone
    exact absurd hone (by simp)

/-- With one body, what has passed it has its class. -/
theorem foldl_visit_body {places : List Place} (hone : (bodies places).length ≤ 1) {p : Place}
    (hp : p ∈ bodies places) (hclass : p.node.className ≠ "") (s : Variables) :
    (places.foldl (fun s p => visit p.node s) s).zodiacKey = p.node.className := by
  rw [foldl_visit_zodiacKey, bodies_eq_singleton hone hp, List.foldl_cons, List.foldl_nil]
  exact classValue_of_ne hclass s.zodiacKey

theorem foldl_visit_initial {places : List Place} (hone : (bodies places).length ≤ 1) {p : Place}
    (hp : p ∈ bodies places) :
    (places.foldl (fun s p => visit p.node s) initial).zodiacKey = p.node.className := by
  rw [foldl_visit_zodiacKey, bodies_eq_singleton hone hp, List.foldl_cons, List.foldl_nil]
  rfl

namespace Page

theorem bodies_places_le (page : Page) : (bodies page.places).length ≤ 1 := page.one_body

/-- Every content stands in a body with a class. -/
def Classed (page : Page) : Prop :=
  ∀ p ∈ contents page.places, ∃ b ∈ p.ancestors, b.isBody = true ∧ b.className ≠ ""

/-- What of the page comes before an ancestor's descendant has the ancestor in it. -/
theorem exists_body_before (page : Page) {pre post : List Place} {p : Place}
    (hplaces : page.places = pre ++ p :: post) {b : Node} (hb : b ∈ p.ancestors) (hbody : b.isBody = true) :
    ∃ q ∈ bodies pre, q.node = b := by
  have hfounded : Founded [] (pre ++ p :: post) := by
    rw [← hplaces]
    exact founded_walk (List.Subset.refl _) page.root
  rcases hfounded.exists_before b hb with hnil | ⟨q, hq, rfl⟩
  · cases hnil
  · exact ⟨q, List.mem_filter.mpr ⟨hq, hbody⟩, rfl⟩

/-- The body around a content gives the sign. -/
theorem zodiacKey_eq (page : Page) {p : Place} (hp : p ∈ contents page.places) {b : Node}
    (hb : b ∈ p.ancestors) (hbody : b.isBody = true) :
    (parse page.root initial).zodiacKey = b.className := by
  obtain ⟨pre, post, hplaces⟩ := List.append_of_mem (List.mem_of_mem_filter hp)
  obtain ⟨q, hq, rfl⟩ := page.exists_body_before hplaces hb hbody
  have hmem : q ∈ bodies page.places := by
    rw [hplaces, bodies, List.filter_append]
    exact List.mem_append_left _ hq
  rw [parse, invokePayloadData_walk []]
  exact foldl_visit_initial page.bodies_places_le hmem

theorem zodiacKey_eq_sign (page : Page) : (parse page.root initial).zodiacKey = page.sign := by
  rw [parse, invokePayloadData_walk []]
  change (page.places.foldl (fun s p => visit p.node s) initial).zodiacKey = page.sign
  rw [sign]
  rcases hbodies : bodies page.places with _ | ⟨q, rest⟩
  · rw [foldl_visit_zodiacKey, hbodies]
    rfl
  · have hmem : q ∈ bodies page.places := by
      rw [hbodies]
      exact List.mem_cons_self
    rw [foldl_visit_initial page.bodies_places_le hmem]
    rfl

/-- The last content leaves its text, whatever was there before. -/
theorem textStorage_of_getLast? (page : Page) (h : page.Classed) {p : Place}
    (hlast : (contents page.places).getLast? = some p) (s : Variables) :
    (parse page.root s).textStorage = textBelow p.node := by
  rw [parse, invokePayloadData_walk []]
  change (page.places.foldl (fun s p => visit p.node s) s).textStorage = textBelow p.node
  obtain ⟨front, hfront⟩ := List.getLast?_eq_some_iff.mp hlast
  obtain ⟨pre, rest, hplaces, -, hrest⟩ := List.filter_eq_append_iff.mp hfront
  obtain ⟨between, post, rfl, hbetween, hp, hpost⟩ := List.filter_eq_cons_iff.mp hrest
  have hsplit : page.places = (pre ++ between) ++ p :: post := by rw [hplaces, List.append_assoc]
  have hmem : p ∈ contents page.places := by rw [hfront]; simp
  obtain ⟨b, hb, hbody, hclass⟩ := h p hmem
  obtain ⟨q, hq, rfl⟩ := page.exists_body_before hsplit hb hbody
  have hone : (bodies (pre ++ between)).length ≤ 1 := by
    have hle := page.bodies_places_le
    rw [hsplit, bodies, List.filter_append, List.length_append] at hle
    exact Nat.le_trans (Nat.le_add_right _ _) hle
  have hnone : ∀ r ∈ post, r.node.isContentDiv = false :=
    fun r hr => by simpa using List.filter_eq_nil_iff.mp hpost r hr
  rw [hsplit, List.foldl_append, List.foldl_cons, foldl_visit_textStorage_of_no_content _ hnone,
    visit_textStorage, if_pos hp, foldl_visit_body hone hq hclass, if_neg hclass, ← textBelow_eq hp]

theorem textStorage_eq_text (page : Page) (h : page.Classed) :
    (parse page.root initial).textStorage = page.text := by
  rcases hlast : (contents page.places).getLast? with _ | p
  · have hnone := List.getLast?_eq_none_iff.mp hlast
    rw [text, hlast, parse, invokePayloadData_walk []]
    change (page.places.foldl (fun s p => visit p.node s) initial).textStorage = ""
    rw [foldl_visit_textStorage_of_no_content]
    · rfl
    · exact fun p hp => Bool.not_eq_true _ ▸ List.filter_eq_nil_iff.mp hnone p hp
  · rw [page.textStorage_of_getLast? h hlast, text, hlast]
    rfl

/-- **A page with a text is read as it is**, whatever pages have been read before. -/
theorem parse_eq (page : Page) (h : page.Classed) (hne : page.text ≠ "") (s : Variables) :
    parse page.root s = ⟨page.sign, page.text⟩ := by
  rcases hlast : (contents page.places).getLast? with _ | p
  · exact absurd (by rw [text, hlast]; rfl) hne
  · have htext : (parse page.root s).textStorage = page.text := by
      rw [page.textStorage_of_getLast? h hlast, text, hlast]
      rfl
    have hsign : (parse page.root s).zodiacKey = page.sign := by
      obtain ⟨b, hb, hbody, hclass⟩ := h p (List.mem_of_getLast? hlast)
      obtain ⟨pre, post, hplaces⟩ :=
        List.append_of_mem (List.mem_of_mem_filter (List.mem_of_getLast? hlast))
      obtain ⟨q, hq, rfl⟩ := page.exists_body_before hplaces hb hbody
      have hmem : q ∈ bodies page.places := by
        rw [hplaces, bodies, List.filter_append]
        exact List.mem_append_left _ hq
      rw [← page.zodiacKey_eq_sign, page.zodiacKey_eq (List.mem_of_getLast? hlast) hb hbody, parse,
        invokePayloadData_walk []]
      exact foldl_visit_body page.bodies_places_le hmem hclass s
    calc parse page.root s
        = ⟨(parse page.root s).zodiacKey, (parse page.root s).textStorage⟩ := rfl
      _ = ⟨page.sign, page.text⟩ := by rw [hsign, htext]

/-- **The first page is read as it is.** If its contents stand in a body with a
class, then that class is reported as the sign, and the text below the last
content as the text. -/
theorem parse_initial (page : Page) (h : page.Classed) :
    parse page.root initial = ⟨page.sign, page.text⟩ ∧
      ∀ p ∈ contents page.places, ∀ b ∈ p.ancestors, b.isBody = true → page.sign = b.className := by
  have hsign := page.zodiacKey_eq_sign
  have htext := page.textStorage_eq_text h
  constructor
  · calc parse page.root initial
        = ⟨(parse page.root initial).zodiacKey, (parse page.root initial).textStorage⟩ := rfl
      _ = ⟨page.sign, page.text⟩ := by rw [hsign, htext]
  · intro p hp b hb hbody
    rw [← hsign, page.zodiacKey_eq hp hb hbody]

/-- A page of leo with a content that has another content in it, between two
paragraphs of which one has a class. -/
def nested : Page where
  nodeName := "html"
  attributes := []
  childNodes := [.element "body" [⟨"class", "leo"⟩] [.element "div" [⟨"class", "horoscope-content"⟩]
    [.text "Old.", .element "div" [⟨"class", "horoscope-content"⟩] [.element "p" [] [.text "Cou"],
      .element "p" [⟨"class", "date"⟩] [.text "1 May"], .text "rage."]]]]
  one_body := by decide

/-- Of that page the inner content is read, without the date. -/
theorem parse_nested : parse nested.root initial = ⟨"leo", "Courage."⟩ := by
  have hall : (contents nested.places).all fun p =>
      p.ancestors.any fun b => b.isBody && decide (b.className ≠ "") := by decide
  have hclassed : nested.Classed := fun p hp => by
    obtain ⟨b, hb, hbody⟩ := List.any_eq_true.mp (List.all_eq_true.mp hall p hp)
    rw [Bool.and_eq_true, decide_eq_true_eq] at hbody
    exact ⟨b, hb, hbody⟩
  have hsign : nested.sign = "leo" := by decide
  have htext : nested.text = "Courage." := by decide
  rw [(nested.parse_initial hclassed).1, hsign, htext]

end Page

end PageParser
end Server
end Horo
