/-
# Importing the friends

`src/managers/friendsmanager`, over the table of persons: the pages of friends
that the provider delivers, and the birthdays it finds.

* `keeps_iff_unlisted`: handling a page keeps what is known about a friend
  exactly when the page does not list the friend.
-/
import Horo.PersonDao

namespace Horo
namespace FriendsManager

open Lib PersonDao

/-! ### The manager -/

/-- `FriendsProvider::RequestStatus`. -/
inductive RequestStatus
  | unknown | ok | partialResult | authorizationRequired | failed
  deriving DecidableEq, Repr

/-- What the loop goes through: jsoncpp refuses an index into anything but an
array, and a null has no elements. -/
def elements : Json.Value → List Json.Value
  | .array xs => xs
  | _ => []

/-- The person of an element, `none` where jsoncpp throws. -/
def personOfData (personData : Json.Value) : Option Person := do
  let name ← (← personData.get "name").asString
  let personUrl ← (← personData.get "personUrl").asString
  let imageUrl ← (← personData.get "imageUrl").asString
  return { zodiac := some .unknown, name, imageUrl, personUrl, gender := .unknown,
           status := .readyForRequest, type := .friend, birthdayDate := .none, withFacebook := true }

/-- The persons that are written before the loop ends, or an element throws. -/
def listed (friends : Json.Value) : List Person :=
  ((elements friends).map personOfData).takeWhile Option.isSome |>.filterMap id

/-- No element throws. -/
def readable (friends : Json.Value) : Bool :=
  (elements friends).all fun personData => (personOfData personData).isSome

variable (F : Sqlite.Doubles)

/-- The completion `loadFacebookFriends` hands to the provider. -/
def friendsLoaded (friends : Json.Value) (status : RequestStatus) (t : Persons) : Persons :=
  if status = .partialResult then (listed friends).foldl (fun t p => writePerson F p t) t else t

/-- The person as `birthdayUpdated` leaves it. -/
def withBirthday (person : Person) (birthday : DateWrapper) : Person :=
  { person with
    birthdayDate := birthday
    status := if 0 < birthday.month then .completed else .failed
    zodiac := some (ZodiacTypes.zodiacTypeByDate birthday) }

def birthdayUpdated (person : Person) (birthday : DateWrapper) (t : Persons) : Persons :=
  writePerson F (withBirthday person birthday) t

inductive Event
  | friendsLoaded (friends : Json.Value) (status : RequestStatus)
  | birthdayUpdated (person : Person) (birthday : DateWrapper)

def step (t : Persons) : Event → Persons
  | .friendsLoaded friends status => friendsLoaded F friends status t
  | .birthdayUpdated person birthday => birthdayUpdated F person birthday t

/-- The table after a history of events. -/
def stored (es : List Event) : Persons := es.foldl (step F) Table.empty

/-! ### What a page leaves alone -/

/-- The row still says of the friend what it said before. -/
def Keeps (r : Row Values) (t : Persons) : Prop :=
  ∃ r' ∈ t.rows, r'.id = r.id ∧ r'.values .status = r.values .status ∧
    r'.values .birthdayDate = r.values .birthdayDate ∧ r'.values .zodiacType = r.values .zodiacType

instance (r : Row Values) (t : Persons) : Decidable (Keeps r t) := inferInstanceAs (Decidable (∃ _, _))

section

variable {F}

theorem friendsLoaded_eq (friends : Json.Value) (t : Persons) :
    friendsLoaded F friends .partialResult t =
      t.putAll uniqueIdentifier ((listed friends).map fun p => columnValue F p.encode) := by
  rw [friendsLoaded, if_pos rfl, foldl_writePerson]

theorem unique_step {t : Persons} (hu : Table.Unique uniqueIdentifier t) (e : Event) :
    Table.Unique uniqueIdentifier (step F t e) := by
  cases e with
  | friendsLoaded friends status =>
    change Table.Unique uniqueIdentifier (friendsLoaded F friends status t)
    unfold friendsLoaded
    split
    · rw [foldl_writePerson]
      exact Table.unique_putAll hu
    · exact hu
  | birthdayUpdated person birthday =>
    change Table.Unique uniqueIdentifier (writePerson F (withBirthday person birthday) t)
    rw [writePerson_eq]
    exact Table.unique_put hu _

/-- No identifier is stored twice. -/
theorem unique_stored (es : List Event) : Table.Unique uniqueIdentifier (stored F es) := by
  induction es using List.reverseRecOn with
  | nil => exact Table.unique_empty _
  | append_singleton es e ih =>
    rw [stored, List.foldl_append]
    exact unique_step ih e

theorem of_mem_listed {friends : Json.Value} {p : Person} (hp : p ∈ listed friends) :
    p.status = .readyForRequest ∧ p.birthdayDate = .none := by
  obtain ⟨o, ho, rfl⟩ := List.mem_filterMap.mp hp
  obtain ⟨personData, -, hdata⟩ := List.mem_map.mp (List.takeWhile_subset _ ho)
  simp only [personOfData, Option.bind_eq_bind, Option.bind_eq_some_iff] at hdata
  obtain ⟨_, _, _, _, _, _, _, _, _, _, _, _, hperson⟩ := hdata
  rw [← Option.some.inj hperson]
  exact ⟨rfl, rfl⟩

/-- **A page keeps what is known about a friend exactly when it does not list
the friend.** -/
theorem keeps_iff_unlisted (es : List Event) {r : Row Values} (hr : r ∈ (stored F es).rows)
    (hstatus : r.values .status = .integer PersonStatus.completed.toInt32.toInt)
    (friends : Json.Value) :
    Keeps r (friendsLoaded F friends .partialResult (stored F es)) ↔
      ∀ p ∈ listed friends, storedIdentifier F p.uniqueIdentifier ≠ uniqueIdentifier r.values := by
  have hunique := unique_stored (F := F) es
  rw [friendsLoaded_eq]
  refine ⟨fun ⟨r', hr', hid, hkept, _⟩ p hp hkey => ?_, fun h => ?_⟩
  · -- the page has written a person that is ready for a request
    have hlisted : ∃ a ∈ (listed friends).map fun p => columnValue F p.encode,
        uniqueIdentifier a = uniqueIdentifier r.values := by
      refine ⟨columnValue F p.encode, List.mem_map_of_mem hp, ?_⟩
      rw [uniqueIdentifier_encode]
      exact hkey
    obtain ⟨a, ha, hrow⟩ := Table.exists_row_putAll hunique hr hlisted
    obtain ⟨q, hq, rfl⟩ := List.mem_map.mp ha
    have hstored : columnValue F q.encode .status = .integer q.status.toInt32.toInt := by
      rw [columnValue_encode]
      exact store_int _
    have hvalues : r'.values = columnValue F q.encode :=
      congrArg Row.values (Table.id_injective _ hr' hrow hid)
    rw [hvalues, hstatus, hstored, (of_mem_listed hq).1] at hkept
    exact absurd (Sqlite.Value.integer.inj hkept) (by decide)
  · refine ⟨r, Table.mem_rows_putAll hunique hr fun a ha => ?_, rfl, rfl, rfl, rfl⟩
    obtain ⟨p, hp, rfl⟩ := List.mem_map.mp ha
    rw [uniqueIdentifier_encode]
    exact h p hp

end

/-! ### What a page takes from a stored friend -/

/-- What is known of a friend. -/
def known (v : Values) : Sqlite.Value × Sqlite.Value := (v .birthdayDate, v .status)

/-- The page lists a person that has a row, and the row says something else of
the birthday and the status than an import writes. -/
def Resets (friends : Json.Value) (t : Persons) : Prop :=
  ∃ p ∈ listed friends, ∃ v,
    t.first uniqueIdentifier (storedIdentifier F p.uniqueIdentifier) = some v ∧
      known v ≠ known (columnValue F p.encode)

section

variable {F} {t : Persons} {friends friends' : Json.Value}

/-- Home pages come without friends. -/
theorem friendsLoaded_null (t : Persons) : friendsLoaded F .null .partialResult t = t := by
  rw [friendsLoaded_eq]
  rfl

/-- An import writes the same of all that it lists. -/
theorem known_listed {p q : Person} (hp : p ∈ listed friends) (hq : q ∈ listed friends') :
    known (columnValue F p.encode) = known (columnValue F q.encode) := by
  obtain ⟨hpstatus, hpdate⟩ := of_mem_listed hp
  obtain ⟨hqstatus, hqdate⟩ := of_mem_listed hq
  unfold known
  rw [columnValue_encode, columnValue_encode, columnValue_encode, columnValue_encode]
  unfold field
  rw [hpstatus, hpdate, hqstatus, hqdate]

/-- **A page leaves alone what the table knows of the friends exactly if it
resets nobody.** -/
theorem keepsRows_friendsLoaded_iff :
    t.KeepsRows known (friendsLoaded F friends .partialResult t) ↔ ¬ Resets F friends t := by
  rw [friendsLoaded_eq]
  rcases hempty : listed friends with _ | ⟨q, qs⟩
  · refine ⟨fun _ ⟨p, hp, _⟩ => ?_, fun _ => Table.KeepsRows.refl t⟩
    rw [hempty] at hp
    cases hp
  · have hq : q ∈ listed friends := hempty ▸ List.mem_cons_self
    rw [← hempty, Table.keepsRows_putAll_iff (b := known (columnValue F q.encode))]
    · constructor
      · intro h ⟨p, hp, v, hv, hne⟩
        refine hne ((h _ (List.mem_map_of_mem hp) v ?_).trans (known_listed hq hp))
        rw [uniqueIdentifier_encode]
        exact hv
      · intro h a ha v hv
        obtain ⟨p, hp, rfl⟩ := List.mem_map.mp ha
        rw [uniqueIdentifier_encode] at hv
        by_contra hne
        exact h ⟨p, hp, v, hv, fun he => hne (he.trans (known_listed hp hq))⟩
    · intro a ha
      obtain ⟨p, hp, rfl⟩ := List.mem_map.mp ha
      exact known_listed hp hq

/-- What an import has written is what an import writes. -/
theorem resets_friendsLoaded (h : Resets F friends' (friendsLoaded F friends .partialResult t)) :
    Resets F friends' t := by
  obtain ⟨p, hp, v, hv, hne⟩ := h
  rw [friendsLoaded_eq, Table.first_putAll, Option.or_eq_some_iff] at hv
  rcases hv with hv | ⟨-, hv⟩
  · obtain ⟨q, hq, rfl⟩ := List.mem_map.mp (Table.mem_of_lastOf hv).1
    exact absurd (known_listed hq hp) hne
  · exact ⟨p, hp, v, hv, hne⟩

/-- A page that has been imported resets nobody. -/
theorem not_resets_friendsLoaded : ¬ Resets F friends (friendsLoaded F friends .partialResult t) := by
  rintro ⟨p, hp, v, hv, hne⟩
  have hwritten : columnValue F p.encode ∈ (listed friends).map fun p => columnValue F p.encode :=
    List.mem_map_of_mem hp
  obtain ⟨c, hc⟩ : ∃ c, Table.lastOf uniqueIdentifier ((listed friends).map fun p => columnValue F p.encode)
      (uniqueIdentifier (columnValue F p.encode)) = some c := Table.exists_lastOf hwritten
  rw [uniqueIdentifier_encode] at hc
  rw [friendsLoaded_eq, Table.first_putAll, hc, Option.some_or] at hv
  obtain ⟨q, hq, rfl⟩ := List.mem_map.mp (Table.mem_of_lastOf hc).1
  exact hne ((congrArg known (Option.some.inj hv)).symm.trans (known_listed hq hp))

end

/-! ### A list that is imported twice -/

/-- The element of a page for a friend. -/
def personData (name personUrl : String) : Json.Value :=
  .object [("imageUrl", .string ""), ("name", .string name), ("personUrl", .string personUrl)]

/-- Ann has been imported, and her birthday found. -/
def annCompleted : List Event :=
  [.friendsLoaded (.array [personData "Ann" "fb.com/ann"]) .partialResult,
   .birthdayUpdated (friend "fb.com/ann" .none) ⟨5, 5, 1990⟩]

theorem keeps_ann : ∃ r ∈ (stored doubles annCompleted).rows, Keeps r
    (friendsLoaded doubles (.array [personData "Bob" "fb.com/bob"]) .partialResult
      (stored doubles annCompleted)) := by
  have hne : (stored doubles annCompleted).rows ≠ [] := by decide +kernel
  have hstatus : ((stored doubles annCompleted).rows.head hne).values .status =
      .integer PersonStatus.completed.toInt32.toInt := by decide +kernel +revert
  refine ⟨_, List.head_mem hne, (keeps_iff_unlisted _ (List.head_mem hne) hstatus _).mpr ?_⟩
  decide +kernel +revert

/-- Ann is listed again: her birthday and her sign are lost. -/
theorem reimport_forgets : ∃ r ∈ (stored doubles annCompleted).rows,
    r.values .status = .integer PersonStatus.completed.toInt32.toInt ∧ ¬ Keeps r
      (friendsLoaded doubles (.array [personData "Ann" "fb.com/ann"]) .partialResult
        (stored doubles annCompleted)) := by
  decide +kernel

end FriendsManager
end Horo
