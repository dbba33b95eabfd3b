/-
# The queries of a URL

`src/data/url`; `Url::path` is with the persons.

* `mem_urlQueries`: what is read of a query has a key and a value.
* `separateString_ne_nil`: no part of a separated text is empty.
* `urlQueries_segments`: the segments between the `&` are read one by one.
* `urlQueries_written_iff`: the queries that were written are read, whatever
  segments stand between them that have not two parts.
-/
import Horo.Data.Person

namespace Horo

/-- `Url::queries`. -/
def urlQueries (url : List Char) : List (List Char × List Char) :=
  match url.dropWhile (· ≠ '?') with
  | [] => []
  | _ :: queriesString =>
    (separateString queriesString '&').filterMap fun fullQuery =>
      match separateString fullQuery '=' with
      | [key, value] => some (key, value)
      | _ => none

/-- `Url::get`. -/
def urlGet (url parameterName : List Char) : List Char :=
  match (urlQueries url).find? fun q => q.1 = parameterName with
  | some q => q.2
  | none => []

theorem separateFrom_ne_nil {d : Char} : ∀ {cs substr part : List Char},
    part ∈ separateFrom d substr cs → part ≠ []
  | [], substr, part, h => by
    rw [separateFrom] at h
    split at h
    · cases h
    · rename_i hne
      rwa [List.mem_singleton.mp h]
  | c :: cs, substr, part, h => by
    rw [separateFrom] at h
    split at h
    · split at h
      · exact separateFrom_ne_nil h
      · rename_i hne
        rcases List.mem_cons.mp h with rfl | h
        · exact hne
        · exact separateFrom_ne_nil h
    · exact separateFrom_ne_nil h

theorem separateString_ne_nil {d : Char} {str part : List Char} (h : part ∈ separateString str d) :
    part ≠ [] := separateFrom_ne_nil h

theorem mem_urlQueries {url : List Char} {q : List Char × List Char} (h : q ∈ urlQueries url) :
    q.1 ≠ [] ∧ q.2 ≠ [] := by
  unfold urlQueries at h
  split at h
  · cases h
  · obtain ⟨fullQuery, -, hquery⟩ := List.mem_filterMap.mp h
    split at hquery
    · rename_i key value hparts
      obtain rfl := Option.some.inj hquery
      constructor
      · apply @separateString_ne_nil '=' fullQuery
        rw [hparts]
        exact List.mem_cons_self
      · apply @separateString_ne_nil '=' fullQuery
        rw [hparts]
        exact List.mem_cons_of_mem _ List.mem_cons_self
    · cases hquery

/-! ### Reading back the queries that are written -/

/-- A query that can be written `k=v`. -/
structure Query where
  key : List Char
  value : List Char
  key_ne_nil : key ≠ []
  value_ne_nil : value ≠ []
  key_plain : '&' ∉ key ∧ '=' ∉ key
  value_plain : '&' ∉ value ∧ '=' ∉ value

/-- What stands between two `&`: a query, or anything else. -/
inductive Segment
  | query (q : Query)
  | other (text : List Char) (h : '&' ∉ text)

namespace Segment

def text : Segment → List Char
  | query q => q.key ++ '=' :: q.value
  | other text _ => text

/-- The query a segment is written for. -/
def written : Segment → Option (List Char × List Char)
  | query q => some (q.key, q.value)
  | other _ _ => none

theorem amp_notMem_text : ∀ s : Segment, '&' ∉ s.text
  | query q => by
    rw [text, List.mem_append, List.mem_cons]
    rintro (h | h | h)
    · exact q.key_plain.1 h
    · cases h
    · exact q.value_plain.1 h
  | other _ h => h

end Segment

/-- The loop over the segments reads a query where there are two parts. -/
def readQuery (fullQuery : List Char) : Option (List Char × List Char) :=
  match separateString fullQuery '=' with
  | [key, value] => some (key, value)
  | _ => none

/-- The segments, joined by `&`. -/
def joinSegments : List Segment → List Char
  | [] => []
  | [s] => s.text
  | s :: ss => s.text ++ '&' :: joinSegments ss

theorem readQuery_query (q : Query) : readQuery (q.key ++ '=' :: q.value) = some (q.key, q.value) := by
  rw [readQuery, separateString_append q.key_plain.2 q.key_ne_nil,
    separateString_last q.value_plain.2 q.value_ne_nil]

/-- **The segments are read one by one**; the empty ones are passed over, and
give no query either. -/
theorem filterMap_separateString_joinSegments : ∀ ss : List Segment,
    (separateString (joinSegments ss) '&').filterMap readQuery = ss.filterMap fun s => readQuery s.text
  | [] => rfl
  | [s] => by
    rw [joinSegments, List.filterMap_cons, List.filterMap_nil]
    by_cases h : s.text = []
    · rw [h]
      rfl
    · rw [separateString_last s.amp_notMem_text h, List.filterMap_cons, List.filterMap_nil]
  | s :: s' :: ss => by
    have ih := filterMap_separateString_joinSegments (s' :: ss)
    rw [joinSegments, List.filterMap_cons, ← ih]
    · by_cases h : s.text = []
      · rw [h, List.nil_append, separateString_delimeter]
        rfl
      · rw [separateString_append s.amp_notMem_text h, List.filterMap_cons]
    · exact List.cons_ne_nil s' ss

theorem urlQueries_eq (url queriesString : List Char)
    (hurl : url.dropWhile (· ≠ '?') = '?' :: queriesString) :
    urlQueries url = (separateString queriesString '&').filterMap readQuery := by
  unfold urlQueries
  rw [hurl]
  rfl

/-- The URL with the segments as its queries. -/
theorem urlQueries_segments {start : List Char} (h : '?' ∉ start) (ss : List Segment) :
    urlQueries (start ++ '?' :: joinSegments ss) = ss.filterMap fun s => readQuery s.text := by
  rw [urlQueries_eq _ (joinSegments ss), filterMap_separateString_joinSegments]
  exact Lib.dropWhile_ne_append h (joinSegments ss)

/-- A segment in which no query is read that was not written: one that is no
query has not exactly two non-empty parts between its `=`. -/
def Segment.Quiet : Segment → Prop
  | query _ => True
  | other text _ => ((text.splitOn '=').filter (· ≠ [])).length ≠ 2

instance : DecidablePred Segment.Quiet
  | .query _ => isTrue trivial
  | .other text _ => inferInstanceAs (Decidable (((text.splitOn '=').filter (· ≠ [])).length ≠ 2))

theorem readQuery_eq_none_iff (text : List Char) :
    readQuery text = none ↔ ((text.splitOn '=').filter (· ≠ [])).length ≠ 2 := by
  rw [← separateString_eq, readQuery]
  split
  · rename_i key value hparts
    rw [hparts]
    exact iff_of_false (fun h => nomatch h) (fun h => h rfl)
  · rename_i hparts
    refine iff_of_true rfl fun hlength => ?_
    obtain ⟨key, value, hkeyvalue⟩ := List.length_eq_two.mp hlength
    exact hparts key value hkeyvalue

/-- What is read of a segment is the query that was written, and one more where
the segment is not quiet. -/
theorem readQuery_text_iff : ∀ s : Segment, readQuery s.text = s.written ↔ s.Quiet
  | .query q => iff_of_true (readQuery_query q) trivial
  | .other text _ => readQuery_eq_none_iff text

theorem written_eq_readQuery {s : Segment} {q : List Char × List Char} (h : s.written = some q) :
    readQuery s.text = some q := by
  cases s with
  | query q' =>
    rw [← h]
    exact readQuery_query q'
  | other text _ => cases h

section
variable {α β : Type} {f g : α → Option β} (hle : ∀ a b, g a = some b → f a = some b)
include hle

theorem filterMap_length_le : ∀ l : List α, (l.filterMap g).length ≤ (l.filterMap f).length
  | [] => le_rfl
  | a :: l => by
    have ih := filterMap_length_le l
    rw [List.filterMap_cons, List.filterMap_cons]
    cases hg : g a with
    | none =>
      cases f a with
      | none => exact ih
      | some b => exact Nat.le_succ_of_le ih
    | some b =>
      rw [hle a b hg]
      exact Nat.succ_le_succ ih

/-- Where one function reads all that the other does, they give the same of a
list only when they do of each element. -/
theorem filterMap_eq_iff : ∀ l : List α, l.filterMap f = l.filterMap g ↔ ∀ a ∈ l, f a = g a
  | [] => iff_of_true rfl fun _ ha => nomatch ha
  | a :: l => by
    have ih := filterMap_eq_iff l
    rw [List.forall_mem_cons, List.filterMap_cons, List.filterMap_cons, ← ih]
    cases hg : g a with
    | none =>
      cases hf : f a with
      | none => exact (and_iff_right rfl).symm
      | some b =>
        refine iff_of_false (fun h => ?_) fun h => nomatch h.1
        -- the list of `f` has one more
        have hlength : (l.filterMap f).length + 1 = (l.filterMap g).length :=
          congrArg List.length h
        have hless := filterMap_length_le hle l
        omega
    | some b =>
      rw [hle a b hg, and_iff_right rfl]
      exact List.cons_inj_right b

end

/-- **The queries that were written are read**, in their order, whatever else
stands between them, exactly when each segment is quiet; the first of them with
a key is then what is got for it. -/
theorem urlQueries_written_iff {start : List Char} (h : '?' ∉ start) (ss : List Segment) :
    (urlQueries (start ++ '?' :: joinSegments ss) = ss.filterMap Segment.written ↔
      ∀ s ∈ ss, s.Quiet) ∧
    ((∀ s ∈ ss, s.Quiet) → ∀ parameterName, urlGet (start ++ '?' :: joinSegments ss) parameterName =
      (((ss.filterMap Segment.written).find? fun q => q.1 = parameterName).map Prod.snd).getD []) := by
  have hiff : urlQueries (start ++ '?' :: joinSegments ss) = ss.filterMap Segment.written ↔
      ∀ s ∈ ss, s.Quiet := by
    rw [urlQueries_segments h, filterMap_eq_iff fun _ _ => written_eq_readQuery]
    exact forall₂_congr fun s _ => readQuery_text_iff s
  refine ⟨hiff, fun hquiet parameterName => ?_⟩
  rw [urlGet, hiff.mpr hquiet]
  cases (ss.filterMap Segment.written).find? fun q => q.1 = parameterName with
  | none => rfl
  | some q => rfl

/-- `k` stands twice, with an empty segment, one without a value and one with
two values around it. -/
theorem k_written_twice : urlGet "/a?&k=1&k&k=2&k=3=4".toList "k".toList = "1".toList :=
  (urlQueries_written_iff (show '?' ∉ "/a".toList by decide) [.other [] (by decide),
    .query ⟨"k".toList, "1".toList, by decide, by decide, by decide, by decide⟩,
    .other "k".toList (by decide),
    .query ⟨"k".toList, "2".toList, by decide, by decide, by decide, by decide⟩,
    .other "k=3=4".toList (by decide)]).2
    (by decide) "k".toList

/-- A segment with an empty part is read as a query it is not written as. -/
theorem empty_part_is_read :
    urlQueries "/a?a=1&c=3".toList = [("a".toList, "1".toList), ("c".toList, "3".toList)] ∧
    urlQueries "/a?a=1&b==2&c=3".toList =
      [("a".toList, "1".toList), ("b".toList, "2".toList), ("c".toList, "3".toList)] ∧
    ¬ ∃ q : Query, q.key ++ '=' :: q.value = "b==2".toList := by
  refine ⟨by decide, by decide, fun ⟨q, hq⟩ => ?_⟩
  have hcount := congrArg (List.count '=') hq
  rw [List.count_append, List.count_cons_self, List.count_eq_zero.mpr q.key_plain.2,
    List.count_eq_zero.mpr q.value_plain.2] at hcount
  revert hcount
  decide

end Horo
