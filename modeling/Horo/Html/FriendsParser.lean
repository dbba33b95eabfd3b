/-
# The parser of the page of friends

`src/friends/htmlparser/facebook/facebookfriendsparser.cc`, over the tree that
gumbo makes of the page. `imageUrl_` is a member: the picture of one link stays
in it until a link with a text takes it. `urlDecode` is a parameter.

* `uniqueIdentifier_iff`: identifiers tell accounts apart but for URLs of one
  `profile.php`.
* `persons_eq`: the persons of a page, by its links to friends.
* `identified_iff`, `ownPictures_iff`: which pages give friends that can be
  identified, and which give each friend a picture of his own.
-/
import Horo.Data.Url
import Horo.FriendsManager
import Horo.Html.Gumbo

namespace Horo
namespace Html
namespace FriendsParser

open Json (cstr)

/-! ### The parser -/

/-- `isFriendUrl`. -/
def isFriendUrl (source : List Char) : Bool :=
  match source with
  | '/' :: _ =>
    urlPath source = "profile.php".toList ∨
      (urlQueries source).length = 0 ∧ contains ".php".toList (urlPath source) = false ∧
        contains ['/'] (urlPath source) = false
  | _ => false

/-- What stands after the first occurrence of a pattern. -/
def after (pattern : List Char) : List Char → Option (List Char)
  | [] => if pattern = [] then some [] else none
  | c :: cs =>
    if pattern.isPrefixOf (c :: cs) then some ((c :: cs).drop pattern.length) else after pattern cs

/-- The image of a style. -/
def imageOfStyle (styleString : List Char) : Option (List Char) :=
  match after "url('".toList styleString with
  | some rest => if '\'' ∈ rest then some (rest.takeWhile (· ≠ '\'')) else none
  | none => none

variable (urlDecode : String → String)

/-- The image of the style among attributes. -/
def styleImage (attributes : List GumboAttribute) : Option String :=
  match getAttribute attributes "style" with
  | some style =>
    (imageOfStyle (cstr style.value).toList).map fun imageUrl => urlDecode (String.ofList imageUrl)
  | none => none

def isDarkTouch (attributes : List GumboAttribute) : Bool :=
  match getAttribute attributes "class" with
  | some clsAttr => cstr clsAttr.value == "darkTouch"
  | none => false

/-- The image that a link puts in `imageUrl_`. The type of the first child is
not asked for. -/
def pictureOf (attributes : List GumboAttribute) (children : List GumboNode) : Option String :=
  if isDarkTouch attributes then
    match children with
    | iNode :: _ =>
      if iNode.vElement.tag = .i then styleImage urlDecode iNode.vElement.attributes else none
    | [] => none
  else none

/-- The text of the first child, if it is a text. -/
def nameOf : List GumboNode → String
  | .text text _ :: _ => cstr text
  | _ => ""

/-- An element of `persons_`. -/
structure Friend where
  name : String
  personUrl : String
  imageUrl : Option String
  deriving DecidableEq, Repr

def Friend.data (f : Friend) : Json.Value :=
  .object ((f.imageUrl.map fun imageUrl => ("imageUrl", Json.Value.string imageUrl)).toList ++
    [("name", .string f.name), ("personUrl", .string f.personUrl)])

/-- The members of the parser. -/
structure State where
  persons : List Friend
  imageUrl : String
  deriving DecidableEq, Repr

def processATag (attributes : List GumboAttribute) (children : List GumboNode) (href : GumboAttribute)
    (s : State) : State :=
  let url := cstr href.value
  if url = "" ∨ isFriendUrl url.toList = false then s
  else
    let s : State :=
      match pictureOf urlDecode attributes children with
      | some imageUrl => { s with imageUrl }
      | none => s
    let name := nameOf children
    if name = "" then s
    else if s.imageUrl = "" then { s with persons := s.persons ++ [⟨name, url, none⟩] }
    else { persons := s.persons ++ [⟨name, url, some s.imageUrl⟩], imageUrl := "" }

/-- What `iterate` does with a node before its children. -/
def visit (s : State) : GumboNode → State
  | .element .a attributes children =>
    match getAttribute attributes "href" with
    | some href => processATag urlDecode attributes children href s
    | none => s
  | _ => s

mutual

def iterate : GumboNode → State → State
  | .element tag attributes children, s =>
    iterateAll children (visit urlDecode s (.element tag attributes children))
  | .text _ _, s => s
  | .other _, s => s

/-- The loop over the children. -/
def iterateAll : List GumboNode → State → State
  | [], s => s
  | child :: children, s => iterateAll children (iterate child s)

end

def persons (root : GumboNode) : List Friend := (iterate urlDecode root ⟨[], ""⟩).persons

/-- What `parse` returns the first time: without a person `persons_` is null. -/
def parse (root : GumboNode) : Json.Value :=
  .object [("results", if persons urlDecode root = [] then .null
    else .array ((persons urlDecode root).map Friend.data))]

/-! ### Accounts -/

/-- The two URLs name one account. -/
def SameAccount (u v : List Char) : Prop :=
  urlPath u = urlPath v ∧
    (urlPath u = "profile.php".toList → urlGet u "id".toList = urlGet v "id".toList)

instance (u v : List Char) : Decidable (SameAccount u v) := inferInstanceAs (Decidable (_ ∧ _))

theorem isFriendUrl_cases {source : List Char} (h : isFriendUrl source = true) :
    (∃ rest, source = '/' :: rest) ∧
      (urlPath source = "profile.php".toList ∨ contains ['/'] (urlPath source) = false) := by
  unfold isFriendUrl at h
  split at h
  · rename_i rest
    refine ⟨⟨rest, rfl⟩, ?_⟩
    rcases of_decide_eq_true h with hpath | ⟨_, _, hslash⟩
    · exact Or.inl hpath
    · exact Or.inr hslash
  · cases h

theorem contains_slash_cons (cs : List Char) : contains ['/'] ('/' :: cs) = true := by
  simp [contains]

/-- The identifier of a person whose URL is that of a friend. -/
theorem uniqueIdentifier_eq {p : Person} (h : isFriendUrl p.personUrl.toList = true) :
    p.uniqueIdentifier =
      if urlPath p.personUrl.toList = "profile.php".toList then p.personUrl
      else String.ofList (urlPath p.personUrl.toList) := by
  have hne : p.personUrl ≠ "" := by
    intro he
    rw [he] at h
    cases h
  have hpath : String.ofList (urlPath p.personUrl.toList) = "profile.php" ↔
      urlPath p.personUrl.toList = "profile.php".toList :=
    ⟨fun he => by rw [← he, String.toList_ofList], fun he => by rw [he, String.ofList_toList]⟩
  simp only [Person.uniqueIdentifier, if_neg hne, hpath]

/-- The whole of one URL is not the path of another. -/
theorem ne_urlPath {u v : List Char} (hu : isFriendUrl u = true) (hv : isFriendUrl v = true)
    (hpath : urlPath v ≠ "profile.php".toList) : u ≠ urlPath v := by
  intro he
  obtain ⟨⟨rest, hrest⟩, -⟩ := isFriendUrl_cases hu
  obtain ⟨-, hslash⟩ := isFriendUrl_cases hv
  have hcontains := contains_slash_cons rest
  rw [← hrest, he, hslash.resolve_left hpath] at hcontains
  cases hcontains

/-- **Identifiers are equal exactly for one account, if `profile.php` with one
id is one URL.** -/
theorem uniqueIdentifier_iff {p q : Person} (hp : isFriendUrl p.personUrl.toList = true)
    (hq : isFriendUrl q.personUrl.toList = true) :
    (p.uniqueIdentifier = q.uniqueIdentifier ↔
        SameAccount p.personUrl.toList q.personUrl.toList) ↔
      (urlPath p.personUrl.toList = "profile.php".toList →
        urlPath q.personUrl.toList = "profile.php".toList →
        urlGet p.personUrl.toList "id".toList = urlGet q.personUrl.toList "id".toList →
        p.personUrl = q.personUrl) := by
  rw [uniqueIdentifier_eq hp, uniqueIdentifier_eq hq]
  by_cases hpp : urlPath p.personUrl.toList = "profile.php".toList <;>
    by_cases hqp : urlPath q.personUrl.toList = "profile.php".toList
  · rw [if_pos hpp, if_pos hqp]
    have hsame : SameAccount p.personUrl.toList q.personUrl.toList ↔
        urlGet p.personUrl.toList "id".toList = urlGet q.personUrl.toList "id".toList :=
      ⟨fun h => h.2 hpp, fun h => ⟨hpp.trans hqp.symm, fun _ => h⟩⟩
    rw [hsame]
    exact ⟨fun h _ _ hid => h.mpr hid, fun h => ⟨fun he => by rw [he], h hpp hqp⟩⟩
  · rw [if_pos hpp, if_neg hqp]
    refine iff_of_true (iff_of_false (fun he => ?_) fun h => ?_) fun _ h => absurd h hqp
    · apply ne_urlPath hp hq hqp
      rw [he, String.toList_ofList]
    · exact hqp (h.1 ▸ hpp)
  · rw [if_neg hpp, if_pos hqp]
    refine iff_of_true (iff_of_false (fun he => ?_) fun h => ?_) fun h => absurd h hpp
    · apply ne_urlPath hq hp hpp
      rw [← he, String.toList_ofList]
    · exact hpp (h.1.trans hqp)
  · rw [if_neg hpp, if_neg hqp]
    refine iff_of_true ⟨fun he => ?_, fun h => congrArg String.ofList h.1⟩ fun h => absurd h hpp
    have hpath := congrArg String.toList he
    rw [String.toList_ofList, String.toList_ofList] at hpath
    exact ⟨hpath, fun h => absurd h hpp⟩

theorem ann_and_bob_identified :
    (PersonDao.friend "/ann" .none).uniqueIdentifier = (PersonDao.friend "/bob" .none).uniqueIdentifier ↔
      SameAccount "/ann".toList "/bob".toList :=
  (@uniqueIdentifier_iff (PersonDao.friend "/ann" .none) (PersonDao.friend "/bob" .none)
    (by decide) (by decide)).mpr (by decide)

/-- One account is two persons when the link to it comes from another place. -/
theorem tracked_links_differ :
    isFriendUrl "/profile.php?id=7&fref=pb".toList = true ∧
      isFriendUrl "/profile.php?id=7&fref=ufi".toList = true ∧
      SameAccount "/profile.php?id=7&fref=pb".toList "/profile.php?id=7&fref=ufi".toList ∧
      (PersonDao.friend "/profile.php?id=7&fref=pb" .none).uniqueIdentifier ≠
        (PersonDao.friend "/profile.php?id=7&fref=ufi" .none).uniqueIdentifier := by
  decide

/-! ### The links of a page -/

/-- The image in the style of the `<i>` that a `darkTouch` link begins with. -/
def ownImage (attributes : List GumboAttribute) : List GumboNode → Option String
  | .element .i iAttributes _ :: _ =>
    if isDarkTouch attributes then styleImage urlDecode iAttributes else none
  | _ => none

/-- A link: what the parser reads of it, and the image that it has. -/
structure Anchor where
  href : String
  picture : Option String
  name : String
  image : Option String
  deriving DecidableEq, Repr

def anchorOf : GumboNode → Option Anchor
  | .element .a attributes children => (getAttribute attributes "href").map fun href =>
      { href := cstr href.value, picture := pictureOf urlDecode attributes children
        name := nameOf children, image := ownImage urlDecode attributes children }
  | _ => none

/-- The links of a page, in document order. -/
def anchors (root : GumboNode) : List Anchor := (preorder root).filterMap (anchorOf urlDecode)

def friendAnchors (root : GumboNode) : List Anchor :=
  (anchors urlDecode root).filter fun a => isFriendUrl a.href.toList

/-- An image that is not there is not set. -/
def imageOf (imageUrl : String) : Option String := if imageUrl = "" then none else some imageUrl

/-- What a link to a friend does. -/
def follow (s : State) (a : Anchor) : State :=
  if a.name = "" then { s with imageUrl := a.picture.getD s.imageUrl }
  else ⟨s.persons ++ [⟨a.name, a.href, imageOf (a.picture.getD s.imageUrl)⟩], ""⟩

theorem processATag_eq (attributes : List GumboAttribute) (children : List GumboNode)
    (href : GumboAttribute) (s : State) :
    processATag urlDecode attributes children href s =
      if isFriendUrl (cstr href.value).toList = true then
        follow s { href := cstr href.value, picture := pictureOf urlDecode attributes children
                   name := nameOf children, image := ownImage urlDecode attributes children }
      else s := by
  unfold processATag
  by_cases hfriend : isFriendUrl (cstr href.value).toList = true
  · have hne : cstr href.value ≠ "" := by
      intro he
      rw [he] at hfriend
      cases hfriend
    rw [if_neg (by simp [hne, hfriend]), if_pos hfriend]
    simp only [follow, imageOf]
    by_cases hname : nameOf children = ""
    · rw [if_pos hname, if_pos hname]
      cases pictureOf urlDecode attributes children <;> rfl
    · rw [if_neg hname, if_neg hname]
      -- an image that is taken, or none that stays
      cases pictureOf urlDecode attributes children with
      | none =>
        by_cases hparked : s.imageUrl = "" <;> simp [hparked]
      | some imageUrl =>
        by_cases hparked : imageUrl = "" <;> simp [hparked]
  · rw [if_pos (Or.inr (by simpa using hfriend)), if_neg hfriend]

theorem visit_eq (s : State) (n : GumboNode) :
    visit urlDecode s n =
      (((anchorOf urlDecode n).toList).filter fun a => isFriendUrl a.href.toList).foldl follow s := by
  unfold visit anchorOf
  split
  · rename_i attributes children
    rcases getAttribute attributes "href" with _ | href
    · rfl
    · simp only [processATag_eq, Option.map_some, Option.toList_some, List.filter_cons, List.filter_nil]
      split <;> rfl
  · rfl

mutual

theorem iterate_eq : ∀ (n : GumboNode) (s : State), iterate urlDecode n s =
    (((preorder n).filterMap (anchorOf urlDecode)).filter fun a =>
      isFriendUrl a.href.toList).foldl follow s
  | .element tag attributes children, s => by
    rw [iterate, iterateAll_eq children, visit_eq, ← List.foldl_append, ← List.filter_append, preorder]
    cases h : anchorOf urlDecode (.element tag attributes children) with
    | none => rw [List.filterMap_cons_none h, Option.toList_none, List.nil_append]
    | some a => rw [List.filterMap_cons_some h, Option.toList_some, List.singleton_append]
  | .text _ _, s => rfl
  | .other _, s => rfl

theorem iterateAll_eq : ∀ (children : List GumboNode) (s : State), iterateAll urlDecode children s =
    (((preorderAll children).filterMap (anchorOf urlDecode)).filter fun a =>
      isFriendUrl a.href.toList).foldl follow s
  | [], s => rfl
  | child :: children, s => by
    rw [iterateAll, iterateAll_eq children, iterate_eq child, preorderAll, List.filterMap_append,
      List.filter_append, List.foldl_append]

end

/-- The persons that links give, when an image has been left by the ones before. -/
def friendsOf : String → List Anchor → List Friend
  | _, [] => []
  | parked, a :: as =>
    if a.name = "" then friendsOf (a.picture.getD parked) as
    else ⟨a.name, a.href, imageOf (a.picture.getD parked)⟩ :: friendsOf "" as

theorem foldl_follow : ∀ (as : List Anchor) (s : State),
    (as.foldl follow s).persons = s.persons ++ friendsOf s.imageUrl as
  | [], s => by simp [friendsOf]
  | a :: as, s => by
    rw [List.foldl_cons, foldl_follow as, friendsOf]
    by_cases hname : a.name = ""
    · simp only [follow, if_pos hname]
    · simp only [follow, if_neg hname, List.append_assoc, List.singleton_append]

/-- **The persons of a page.** -/
theorem persons_eq (root : GumboNode) :
    persons urlDecode root = friendsOf "" (friendAnchors urlDecode root) := by
  calc persons urlDecode root
      = ((friendAnchors urlDecode root).foldl follow ⟨[], ""⟩).persons := by
        rw [persons, iterate_eq, friendAnchors, anchors]
    _ = friendsOf "" (friendAnchors urlDecode root) := by rw [foldl_follow, List.nil_append]

/-! ### Friends that can be identified -/

/-- The names and URLs of the persons are those of the links with a text. -/
theorem map_friendsOf : ∀ (parked : String) (as : List Anchor),
    (friendsOf parked as).map (fun f => (f.name, f.personUrl)) =
      (as.filter fun a => a.name ≠ "").map fun a => (a.name, a.href)
  | _, [] => rfl
  | parked, a :: as => by
    rw [friendsOf, List.filter_cons]
    by_cases hname : a.name = ""
    · simp [hname, map_friendsOf]
    · simp [hname, map_friendsOf]

/-- The person that is imported. -/
def Friend.person (f : Friend) : Person :=
  { zodiac := some .unknown, name := cstr f.name, imageUrl := cstr (f.imageUrl.getD ""),
    personUrl := cstr f.personUrl, gender := .unknown, status := .readyForRequest, type := .friend,
    birthdayDate := .none, withFacebook := true }

theorem personOfData_data (f : Friend) : FriendsManager.personOfData f.data = some f.person := by
  have hkeys : ∀ key ∈ ["imageUrl", "name", "personUrl"], cstr key = key := by decide
  simp only [List.mem_cons, List.not_mem_nil, or_false, forall_eq_or_imp, forall_eq] at hkeys
  obtain ⟨himageUrl, hname, hpersonUrl⟩ := hkeys
  obtain ⟨name, personUrl, _ | imageUrl⟩ := f
  all_goals
    simp only [FriendsManager.personOfData, Friend.data, Json.Value.get, himageUrl, hname, hpersonUrl,
      Option.map_none, Option.map_some, Option.toList_none, Option.toList_some, List.nil_append,
      List.singleton_append, List.lookup_cons]
  all_goals rfl

/-- A person of the results has a name and an account. -/
structure Identified (f : Friend) : Prop where
  name_ne : f.name ≠ ""
  path_ne : urlPath f.personUrl.toList ≠ []
  id_ne : urlPath f.personUrl.toList = "profile.php".toList → urlGet f.personUrl.toList "id".toList ≠ []
  identifier_ne : ∃ p ∈ FriendsManager.personOfData f.data,
    p.uniqueIdentifier ≠ "" ∧ p.uniqueIdentifier ≠ "0"

/-- The path is one of an account, and `profile.php` has an id. -/
def NamesAccount (url : List Char) : Prop :=
  urlPath url ∉ [[], ['0']] ∧
    (urlPath url = "profile.php".toList → urlGet url "id".toList ≠ [])

instance (url : List Char) : Decidable (NamesAccount url) := inferInstanceAs (Decidable (_ ∧ _))

/-- The links of a page hold C strings. -/
theorem cstr_href {root : GumboNode} {a : Anchor} (ha : a ∈ anchors urlDecode root) :
    cstr a.href = a.href := by
  obtain ⟨n, -, hn⟩ := List.mem_filterMap.mp ha
  unfold anchorOf at hn
  split at hn
  · obtain ⟨href, -, rfl⟩ := Option.map_eq_some_iff.mp hn
    exact Json.cstr_cstr _
  · cases hn

theorem identified_iff_namesAccount {f : Friend} (hname : f.name ≠ "")
    (hfriend : isFriendUrl f.personUrl.toList = true) (hcstr : cstr f.personUrl = f.personUrl) :
    Identified f ↔ NamesAccount f.personUrl.toList := by
  have hperson : f.person.personUrl = f.personUrl := hcstr
  have hidentifier := @uniqueIdentifier_eq f.person (by rw [hperson]; exact hfriend)
  rw [hperson] at hidentifier
  obtain ⟨⟨rest, hrest⟩, -⟩ := isFriendUrl_cases hfriend
  constructor
  · intro h
    refine ⟨?_, h.id_ne⟩
    simp only [List.mem_cons, List.not_mem_nil, or_false, not_or]
    refine ⟨h.path_ne, fun hpath => ?_⟩
    obtain ⟨p, hp, -, hzero⟩ := h.identifier_ne
    obtain rfl : f.person = p := Option.some.inj ((personOfData_data f).symm.trans hp)
    apply hzero
    rw [hidentifier, if_neg (by rw [hpath]; decide), hpath]
  · rintro ⟨hpath, hid⟩
    simp only [List.mem_cons, List.not_mem_nil, or_false, not_or] at hpath
    refine ⟨hname, hpath.1, hid, f.person, personOfData_data f, ?_⟩
    rw [hidentifier]
    by_cases hprofile : urlPath f.personUrl.toList = "profile.php".toList
    · rw [if_pos hprofile]
      refine ⟨fun he => ?_, fun he => ?_⟩
      · rw [he] at hrest
        cases hrest
      · rw [he] at hrest
        cases hrest
    · rw [if_neg hprofile]
      refine ⟨fun he => hpath.1 ?_, fun he => hpath.2 ?_⟩
      · have hlist := congrArg String.toList he
        rwa [String.toList_ofList] at hlist
      · have hlist := congrArg String.toList he
        rwa [String.toList_ofList] at hlist

/-- **The friends of a page can be identified exactly if its links to friends
that have a text name accounts.** -/
theorem identified_iff (root : GumboNode) :
    (∀ f ∈ persons urlDecode root, Identified f) ↔
      ∀ a ∈ friendAnchors urlDecode root, a.name ≠ "" → NamesAccount a.href.toList := by
  have hmap := map_friendsOf "" (friendAnchors urlDecode root)
  rw [← persons_eq] at hmap
  -- what holds of the names and URLs of the one holds of those of the other
  have hforall : ∀ P : String × String → Prop,
      (∀ f ∈ persons urlDecode root, P (f.name, f.personUrl)) ↔
        ∀ a ∈ friendAnchors urlDecode root, a.name ≠ "" → P (a.name, a.href) := by
    intro P
    have hlist : (∀ x ∈ (persons urlDecode root).map (fun f => (f.name, f.personUrl)), P x) ↔
        ∀ x ∈ ((friendAnchors urlDecode root).filter fun a => a.name ≠ "").map
          fun a => (a.name, a.href), P x := by rw [hmap]
    simpa only [List.forall_mem_map, List.mem_filter, decide_eq_true_eq, and_imp] using hlist
  have hlinks : ∀ f ∈ persons urlDecode root, f.name ≠ "" ∧
      isFriendUrl f.personUrl.toList = true ∧ cstr f.personUrl = f.personUrl := by
    refine (hforall fun x => x.1 ≠ "" ∧ isFriendUrl x.2.toList = true ∧ cstr x.2 = x.2).mpr ?_
    intro a ha hname
    have hmem := List.mem_filter.mp ha
    exact ⟨hname, hmem.2, cstr_href urlDecode hmem.1⟩
  rw [← hforall fun x => NamesAccount x.2.toList]
  refine forall₂_congr fun f hf => ?_
  obtain ⟨hname, hfriend, hcstr⟩ := hlinks f hf
  exact identified_iff_namesAccount hname hfriend hcstr

/-! ### Pictures -/

/-- The image of a person is that of a link to him. -/
def OwnPictures (root : GumboNode) : Prop :=
  ∀ f ∈ persons urlDecode root, ∀ imageUrl ∈ f.imageUrl,
    ∃ a ∈ anchors urlDecode root, a.href = f.personUrl ∧ a.image = some imageUrl

/-- A link that has a picture or a text. -/
def Anchor.isShown (a : Anchor) : Bool := a.picture.isSome || a.name != ""

/-- The links to friends that have a picture or a text. -/
def shown (root : GumboNode) : List Anchor := (friendAnchors urlDecode root).filter Anchor.isShown

/-- Before the first link nothing has been read. -/
def Anchor.none : Anchor := ⟨"", Option.none, "", Option.none⟩

/-- The picture that a link leaves to the next one: a link with a text takes it. -/
def Anchor.left (a : Anchor) : Option String := if a.name = "" then a.picture else Option.none

/-- If a link has a text, the picture that is read of it, or else left by the
one before, is the image of a link to the same person. -/
def Hands (root : GumboNode) (a b : Anchor) : Prop :=
  b.name ≠ "" → ∀ imageUrl ∈ b.picture.or a.left, imageUrl ≠ "" →
    ∃ c ∈ anchors urlDecode root, c.href = b.href ∧ c.image = some imageUrl

theorem friendsOf_shown (parked : String) (as : List Anchor) :
    friendsOf parked (as.filter Anchor.isShown) = friendsOf parked as := by
  induction as generalizing parked with
  | nil => rfl
  | cons a as ih =>
    by_cases hshown : a.isShown = true
    · rw [List.filter_cons_of_pos hshown, friendsOf, friendsOf]
      split
      · exact ih _
      · rw [ih]
    · rw [List.filter_cons_of_neg hshown, ih, friendsOf]
      simp only [Anchor.isShown, Bool.or_eq_true, not_or, Option.not_isSome_iff_eq_none, bne_iff_ne,
        ne_eq, not_not] at hshown
      rw [if_pos hshown.2, hshown.1, Option.getD_none]

theorem imageOf_eq_some {imageUrl parked : String} :
    imageOf parked = some imageUrl ↔ parked = imageUrl ∧ imageUrl ≠ "" := by
  unfold imageOf
  split
  · rename_i h
    simp only [reduceCtorEq, false_iff]
    rintro ⟨rfl, hne⟩
    exact hne h
  · rename_i h
    refine ⟨fun he => ?_, fun he => congrArg some he.1⟩
    obtain rfl := Option.some.inj he
    exact ⟨rfl, h⟩

/-- A picture goes from a link to the next one: that is all that the images of
the persons depend on. -/
theorem forall_friendsOf_iff (root : GumboNode) : ∀ (as : List Anchor) (a : Anchor),
    (∀ b ∈ as, b.isShown = true) →
      ((∀ f ∈ friendsOf (a.left.getD "") as, ∀ imageUrl ∈ f.imageUrl,
          ∃ c ∈ anchors urlDecode root, c.href = f.personUrl ∧ c.image = some imageUrl) ↔
        (a :: as).IsChain (Hands urlDecode root))
  | [], a, _ => by simp [friendsOf]
  | b :: as, a, h => by
    have ih := forall_friendsOf_iff root as b fun c hc => h c (List.mem_cons_of_mem _ hc)
    have hshown := h b List.mem_cons_self
    rw [List.isChain_cons_cons, friendsOf]
    by_cases hname : b.name = ""
    · -- the picture of `b` takes the place of the one that was left
      have hpicture : b.picture ≠ none := by
        intro hnone
        simp [Anchor.isShown, hnone, hname] at hshown
      obtain ⟨imageUrl, himageUrl⟩ := Option.ne_none_iff_exists'.mp hpicture
      have hands : Hands urlDecode root a b := fun hne => absurd hname hne
      have hleft : b.left = some imageUrl := by rw [Anchor.left, if_pos hname, himageUrl]
      rw [hleft, Option.getD_some] at ih
      rw [if_pos hname, himageUrl, Option.getD_some, ih]
      exact ⟨fun hchain => ⟨hands, hchain⟩, And.right⟩
    · have hleft : b.left = none := if_neg hname
      have hparked : b.picture.getD (a.left.getD "") = (b.picture.or a.left).getD "" := by
        cases b.picture <;> rfl
      rw [hleft, Option.getD_none] at ih
      rw [if_neg hname, List.forall_mem_cons, ih, hparked]
      refine and_congr_left fun _ => ?_
      constructor
      · intro hown _ imageUrl himageUrl hne
        rw [Option.mem_def.mp himageUrl] at hown
        exact hown imageUrl (imageOf_eq_some.mpr ⟨rfl, hne⟩)
      · intro hands imageUrl himageUrl
        obtain ⟨hread, hne⟩ := imageOf_eq_some.mp himageUrl
        rcases hpicture : b.picture.or a.left with _ | imageUrl'
        · rw [hpicture] at hread
          exact absurd hread.symm hne
        · rw [hpicture] at hread
          exact hands hname imageUrl (by rw [hpicture, ← hread]; rfl) hne

/-- **Each friend has a picture of his own exactly if** at every link with a
text the picture that is there is the image of a link to the same person. -/
theorem ownPictures_iff (root : GumboNode) :
    OwnPictures urlDecode root ↔
      (Anchor.none :: shown urlDecode root).IsChain (Hands urlDecode root) := by
  have hshown : ∀ b ∈ shown urlDecode root, b.isShown = true :=
    fun b hb => (List.mem_filter.mp hb).2
  rw [← forall_friendsOf_iff urlDecode root _ _ hshown]
  unfold OwnPictures
  rw [persons_eq, ← friendsOf_shown]
  rfl

/-- A page with the pictures of two friends, one after the other. -/
def twoPictures : GumboNode :=
  let picture (href imageUrl : String) : GumboNode :=
    .element .a [⟨"href", href⟩, ⟨"class", "darkTouch"⟩]
      [.element .i [⟨"style", "background: url('" ++ imageUrl ++ "')"⟩] []]
  .element (.other 0) []
    [picture "/ann" "ann.jpg", .element .a [⟨"href", "/bob"⟩] [.text "Bob" ⟨.other 3, []⟩]]

/-- Ann's link has no text: Bob gets her picture. -/
theorem bob_gets_ann :
    persons id twoPictures = [⟨"Bob", "/bob", some "ann.jpg"⟩] ∧ ¬ OwnPictures id twoPictures := by
  have hpersons : persons id twoPictures = [⟨"Bob", "/bob", some "ann.jpg"⟩] := by decide +kernel
  have hanchors : ∀ a ∈ anchors id twoPictures, a.href = "/bob" → a.image = none := by decide +kernel
  refine ⟨hpersons, fun h => ?_⟩
  obtain ⟨a, ha, hhref, himage⟩ := h ⟨"Bob", "/bob", some "ann.jpg"⟩
    (by rw [hpersons]; exact List.mem_cons_self) "ann.jpg" rfl
  rw [hanchors a ha hhref] at himage
  cases himage

/-- The link to the start page is taken for a friend. -/
theorem home_is_a_friend : ¬ ∀ f ∈ persons id (.element .a [⟨"href", "/"⟩] [.text "Home" ⟨.other 4, []⟩]), Identified f := by
  intro h
  have hmem : (⟨"Home", "/", none⟩ : Friend) ∈ persons id (.element .a [⟨"href", "/"⟩] [.text "Home" ⟨.other 4, []⟩]) := by
    decide +kernel
  exact (h _ hmem).path_ne (by decide)

end FriendsParser
end Html
end Horo
