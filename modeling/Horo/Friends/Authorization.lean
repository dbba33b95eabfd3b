/-
# Whether a friend's page is taken for the login page

`isRequiredAuthorizationResponse` and `webViewDidLoad` look for `login`
anywhere in a URL. The URL of a detail page is made of the URL of the friend by
`requestUserInformation` and `executeRequest`.

Key definitions: `HandsOver`, `requestedPart`.
Key theorems: `login_detailUrl_iff`, `handsOver_iff`.
-/
import Horo.Friends.Steps
import Horo.Html.FriendsParser

namespace Horo
namespace Friends

open Lib PersonDao Html.FriendsParser

/-- The base of all URLs of the web view. -/
def baseUrl : List Char := "https://m.facebook.com/".toList

def login : List Char := "login".toList

section

variable (F : Sqlite.Doubles) (parsers : Parsers)

/-- The response to the request for a friend, whenever it comes, gets to
`parseUserDetailPage`. -/
def HandsOver (p : List Char) : Prop :=
  ∀ (i : ℕ) (s s' : State) (text : String) (page : Option (List Char)), text ≠ "" →
    let url := baseUrl ++ (requestUserInformation p i s).provider.currentPath
    requestCompleted F parsers .userDetail (some text) url page s' =
        parseUserDetailPage F parsers text page
          (s'.setProvider fun q => { q with responseTimeoutTimer := none }) ∧
      (isRequiredAuthorizationResponse F url s').2 = false ∧ webViewDidLoad url = false

/-- What of the URL of a friend is in the URL of the detail page: of a
`profile.php` all but the base of a URL in it, of an account its name. -/
def requestedPart (p : List Char) : List Char :=
  if contains "profile.php".toList p then replaceAll p baseUrl [] else p.takeWhile (· ≠ '?')

/-! ### The path of the request -/

/-- The base of a URL and the slash after it are taken off. -/
theorem requestPath_eq {path rest : List Char} (h : replaceAll path baseUrl [] = '/' :: rest) :
    requestPath path = rest := by
  have hpath : (if contains "http".toList path then replaceAll path baseUrl [] else path) = '/' :: rest := by
    by_cases hhttp : contains "http".toList path = true
    · rw [if_pos hhttp, h]
    · have hno : ¬ baseUrl <:+: path := fun hbase =>
        hhttp ((contains_iff_isInfix _ _).mpr ((show "http".toList <:+: baseUrl by decide).trans hbase))
      rw [if_neg hhttp, ← h, replaceAll_of_not_isInfix hno]
  have hbase : "https://m.facebook.com/".toList = baseUrl := rfl
  unfold requestPath
  simp only [hbase, hpath]

/-- A detail page of `profile.php` is asked for by a query. -/
theorem requestPath_info (rest : List Char) :
    requestPath (('/' :: rest) ++ '&' :: "v=info".toList) =
      replaceAll rest baseUrl [] ++ '&' :: "v=info".toList := by
  have hinfo : replaceAll "v=info".toList baseUrl [] = "v=info".toList := by decide
  apply requestPath_eq
  rw [replaceAll_append_cons (by decide) (by decide), hinfo]
  rfl

/-- That of an account is below its name. -/
theorem requestPath_about {name : List Char} (hslash : '/' ∉ name) :
    requestPath (('/' :: name) ++ '/' :: "about".toList) = name ++ '/' :: "about".toList := by
  have hno : ¬ baseUrl <:+: ('/' :: name) ++ '/' :: "about".toList := by
    intro hbase
    have hcount := hbase.sublist.count_le '/'
    have hthree : baseUrl.count '/' = 3 := by decide
    have hone : ('/' :: "about".toList).count '/' = 1 := by decide
    rw [hthree, List.count_append, hone, List.count_cons_self, List.count_eq_zero.mpr hslash] at hcount
    omega
  apply requestPath_eq
  rw [replaceAll_of_not_isInfix hno, List.cons_append]

/-- Where the request looks for the detail page. -/
theorem currentPath_requestUserInformation (p : List Char) (i : ℕ) (s : State) :
    (requestUserInformation p i s).provider.currentPath = requestPath (userDetailPath p) := by
  unfold requestUserInformation executeUserDetailPageRequest
  rw [if_neg (userDetailPath_ne_nil p)]
  rfl

/-- **The URL of the detail page mentions a login if and only if** what is
requested of the URL of the friend does. -/
theorem login_detailUrl_iff {p : List Char} (h : isFriendUrl p = true) :
    login <:+: baseUrl ++ requestPath (userDetailPath p) ↔ login <:+: requestedPart p := by
  obtain ⟨⟨rest, rfl⟩, hcases⟩ := isFriendUrl_cases h
  have hslash : '/' ∉ login := by decide
  have hend : baseUrl = "https://m.facebook.com".toList ++ ['/'] := by decide
  have hbase : ∀ cs : List Char,
      baseUrl ++ cs = "https://m.facebook.com".toList ++ '/' :: cs := fun cs => by
    rw [hend, List.append_assoc, List.singleton_append]
  have hhost : ¬ login <:+: "https://m.facebook.com".toList := by decide
  have hstart : ∀ cs : List Char, login <:+: '/' :: cs ↔ login <:+: cs := fun cs => by
    rw [← List.nil_append ('/' :: cs), isInfix_append_cons_iff hslash, or_iff_right (by decide)]
  rw [hbase, isInfix_append_cons_iff hslash, or_iff_right hhost, requestedPart, userDetailPath]
  by_cases hprofile : contains "profile.php".toList ('/' :: rest) = true
  · have hinfo : ¬ login <:+: "v=info".toList := by decide
    have hreplace : replaceAll ('/' :: rest) baseUrl [] = '/' :: replaceAll rest baseUrl [] := rfl
    rw [if_pos hprofile, if_pos hprofile, hreplace, hstart]
    change login <:+: requestPath (('/' :: rest) ++ '&' :: "v=info".toList) ↔ _
    rw [requestPath_info, isInfix_append_cons_iff (by decide), or_iff_left hinfo]
  · have habout : ¬ login <:+: "about".toList := by decide
    have hname : urlPath ('/' :: rest) = rest.takeWhile (· ≠ '?') := rfl
    have hpath : urlPath ('/' :: rest) ≠ "profile.php".toList := by
      intro he
      refine hprofile ((contains_iff_isInfix _ _).mpr ?_)
      rw [← he, hname]
      exact (List.takeWhile_prefix _).isInfix.trans (List.suffix_cons '/' rest).isInfix
    have hnameSlash : '/' ∉ rest.takeWhile (· ≠ '?') := by
      intro hmem
      have hcontains := hcases.resolve_left hpath
      obtain ⟨before, after, hsplit⟩ := List.append_of_mem hmem
      have hinfix : ['/'] <:+: urlPath ('/' :: rest) := by
        rw [hname, hsplit]
        exact ⟨before, after, by simp⟩
      rw [(contains_iff_isInfix _ _).mpr hinfix] at hcontains
      cases hcontains
    have htake : ('/' :: rest).takeWhile (· ≠ '?') = '/' :: rest.takeWhile (· ≠ '?') := rfl
    rw [if_neg hprofile, if_neg hprofile, htake, hstart]
    change login <:+: requestPath (('/' :: rest.takeWhile (· ≠ '?')) ++ '/' :: "about".toList) ↔ _
    rw [requestPath_about hnameSlash, isInfix_append_cons_iff hslash, or_iff_left habout]

/-- **A friend's page is taken for what it is if and only if** no `login` is in
what is requested of the URL of the friend. -/
theorem handsOver_iff {p : List Char} (h : isFriendUrl p = true) :
    HandsOver F parsers p ↔ contains login (requestedPart p) = false := by
  have hlogin : contains login (baseUrl ++ requestPath (userDetailPath p)) =
      contains login (requestedPart p) := by
    rw [Bool.eq_iff_iff, contains_iff_isInfix, contains_iff_isInfix, login_detailUrl_iff h]
  constructor
  · intro hover
    have hnot := (hover 0 annAndBob annAndBob "x" none (by decide)).2.2
    rw [currentPath_requestUserInformation, webViewDidLoad] at hnot
    rw [← hlogin, ← hnot]
    rfl
  · intro hnot i s s' text page htext
    have hurl : contains "login".toList
        (baseUrl ++ (requestUserInformation p i s).provider.currentPath) = false := by
      rw [currentPath_requestUserInformation, ← hnot, ← hlogin]
      rfl
    have hrequired : isRequiredAuthorizationResponse F
        (baseUrl ++ (requestUserInformation p i s).provider.currentPath) s' = (s', false) := by
      rw [isRequiredAuthorizationResponse, if_neg (by rw [hurl]; exact Bool.false_ne_true)]
    have hload : webViewDidLoad
        (baseUrl ++ (requestUserInformation p i s).provider.currentPath) = false := by
      rw [webViewDidLoad]
      exact hurl
    refine ⟨?_, congrArg Prod.snd hrequired, hload⟩
    simp only [requestCompleted, if_neg htext, hrequired, Bool.false_eq_true, if_false]
    rfl

end

theorem ann_handedOver : HandsOver doubles plainParsers "/ann".toList :=
  (@handsOver_iff doubles plainParsers "/ann".toList (by decide)).mpr (by decide)

/-- The page of a friend of that name is taken for the login page. -/
theorem loginova_not_handedOver : isFriendUrl "/loginova".toList = true ∧
    "/loginova".toList ≠ "/login".toList ∧ ¬ HandsOver doubles plainParsers "/loginova".toList := by
  refine ⟨by decide, by decide, fun hover => ?_⟩
  have hnot := (hover 0 annAndBob annAndBob "x" none (by decide)).2.2
  rw [currentPath_requestUserInformation] at hnot
  exact absurd hnot (by decide)

end Friends
end Horo
