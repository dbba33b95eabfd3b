/-
# The current person in the settings

What `currentPerson` gives after `setCurrentPerson`, when other keys have been
written in between and the application has been launched again. jsoncpp keeps
of a text what stands before its first NUL.

Key theorems: `decode_cut`, `currentPerson_after`.
-/
import Horo.Settings

namespace Horo

open Json

namespace Person

/-- What is kept of a person with a known sign. -/
def kept (p : Person) : Person :=
  { p with zodiac := some p.zodiacType, name := cstr p.name, imageUrl := cstr p.imageUrl,
           personUrl := cstr p.personUrl }

/-- What `encode` sets, in the order of the names. -/
def members (p : Person) : Members :=
  [("birthdayDate", .string (String.ofList p.birthdayDate.toString)),
   ("gender", .int p.gender.toInt32.toInt),
   ("imageUrl", .string p.imageUrl),
   ("name", .string p.name),
   ("personUrl", .string p.personUrl),
   ("status", .int p.status.toInt32.toInt),
   ("type", .int p.type.toInt32.toInt),
   ("uniqueIdentifier", .string p.uniqueIdentifier),
   ("withFacebook", .bool p.withFacebook),
   ("zodiacType", .int p.zodiacType.toInt32.toInt)]

theorem plain_cut (p : Person) : ∀ m ∈ p.members.cut, m.2.Plain ∧ cstr m.1 = m.1 := by
  have hnames : ∀ m ∈ p.members, cstr m.1 = m.1 := by
    simp only [members, List.mem_cons, List.not_mem_nil, or_false, forall_eq_or_imp, forall_eq]
    decide
  intro m hm
  obtain ⟨m', hm', rfl⟩ := List.mem_map.mp hm
  refine ⟨?_, hnames m' hm'⟩
  simp only [members, List.mem_cons, List.not_mem_nil, or_false] at hm'
  rcases hm' with rfl | rfl | rfl | rfl | rfl | rfl | rfl | rfl | rfl | rfl <;>
    simp [Value.cut, Value.Plain, Value.inIntRange_toInt]

/-- **What is encoded is decoded**, up to the first NUL of a text; a person
without a known sign has none. -/
theorem decode_cut (p : Person) : decode (.object p.members.cut) =
    some { p.kept with zodiac := if p.zodiacType = .unknown then none else some p.zodiacType } := by
  have hkeys : ∀ key ∈ ["zodiacType", "name", "imageUrl", "personUrl", "gender", "status", "type",
      "birthdayDate", "withFacebook"], cstr key = key := by decide
  simp only [List.mem_cons, List.not_mem_nil, or_false, forall_eq_or_imp, forall_eq] at hkeys
  obtain ⟨hz, hn, hi, hu, hg, hs, ht, hb, hw⟩ := hkeys
  simp [decode, Value.get, hz, hn, hi, hu, hg, hs, ht, hb, hw, List.lookup_cons, Value.asString,
    Value.asBool, cstr_birthdayDate, DateWrapper.fromString_toString, members, Members.cut, Value.cut, kept]

end Person

namespace Settings

/-- What happens to the store meanwhile: another key is written, or the
application is launched again. -/
inductive Meanwhile
  | save (key : String) (dictionary : Value) (other : cstr key ≠ "currentPerson")
  | launch

def Meanwhile.run (a : App) : Meanwhile → App
  | .save key dictionary _ => saveDictionary key dictionary a
  | .launch => Horo.launch a

theorem currentPerson_congr {a b : App} (h : loadString "currentPerson" a = loadString "currentPerson" b) :
    currentPerson a = currentPerson b := by
  rw [currentPerson, currentPerson, dictionaryWithKey, dictionaryWithKey, h]

/-- What happens meanwhile leaves the store there and the person in it. -/
theorem loadString_meanwhile {a : App} (ha : a.privateInstance = true) : ∀ m : Meanwhile,
    (m.run a).privateInstance = true ∧ loadString "currentPerson" (m.run a) = loadString "currentPerson" a
  | .save key dictionary other => by
    have hother : "currentPerson" ≠ key := fun he => other (by rw [← he]; decide)
    exact ⟨(saveDictionary_privateInstance _).trans ha, loadString_of_ne hother _⟩
  | .launch => by
    rw [Meanwhile.run, launch_eq]
    simp [loadString, ha]

theorem loadString_foldl_meanwhile (ms : List Meanwhile) : ∀ {a : App}, a.privateInstance = true →
    loadString "currentPerson" (ms.foldl Meanwhile.run a) = loadString "currentPerson" a := by
  induction ms with
  | nil => exact fun _ => rfl
  | cons m ms ih =>
    intro a ha
    obtain ⟨hstore, hload⟩ := loadString_meanwhile ha m
    rw [List.foldl_cons, ih hstore, hload]

theorem currentPerson_set {a : App} (ha : a.privateInstance = true) (p : Person) :
    currentPerson (setCurrentPerson p a) =
      some (if p.zodiacType = .unknown then none else some p.kept) := by
  have hset : setCurrentPerson p a = saveDictionary "currentPerson" (.object p.members.cut) a := by
    rw [setCurrentPerson, saveObject, Person.encode_eq, saveDictionary, saveDictionary, write_cut]
    rfl
  have hne : p.members.cut ≠ [] := List.cons_ne_nil _ _
  have hsort : p.members.cut.Pairwise Before := by simp [Person.members, Members.cut, Before, strcmpLess]
  have htype : (if p.zodiacType = .unknown then none else some p.zodiacType).getD .unknown = p.zodiacType := by
    split
    · rename_i h
      exact h.symm
    · rfl
  rw [hset, currentPerson, dictionaryWithKey_saveDictionary ha hne p.plain_cut hsort, p.decode_cut]
  change some (if (if p.zodiacType = .unknown then none else some p.zodiacType).getD .unknown = .unknown
    then none else some _) = _
  rw [htype]
  by_cases h : p.zodiacType = .unknown
  · rw [if_pos h, if_pos h]
  · rw [if_neg h, if_neg h, if_neg h]
    rfl

/-- **The person set last is read**, with texts up to their first NUL; null is
read where its sign is not known. -/
theorem currentPerson_after {a : App} (ha : a.privateInstance = true) (p : Person) (ms : List Meanwhile) :
    currentPerson (ms.foldl Meanwhile.run (setCurrentPerson p a)) =
      some (if p.zodiacType = .unknown then none else some p.kept) := by
  have hstore : (setCurrentPerson p a).privateInstance = true :=
    (saveDictionary_privateInstance _).trans ha
  rw [currentPerson_congr (loadString_foldl_meanwhile ms hstore), currentPerson_set ha]

/-- A friend with a NUL in her name. -/
def annWithNul : Person :=
  { Person.new with zodiac := some .leo, name := "Ann\x00Lee", personUrl := "/ann" }

def store : App := ⟨fun _ => none, true, true⟩

theorem ann_is_read : currentPerson ([.save "pushTime" (.object [("pushTime", .int 7)]) (by decide),
    .launch].foldl Meanwhile.run (setCurrentPerson annWithNul store)) =
      some (some { annWithNul with name := "Ann" }) := by
  have hkept : annWithNul.kept = { annWithNul with name := "Ann" } := by decide
  have h := @currentPerson_after store rfl annWithNul
    [.save "pushTime" (.object [("pushTime", .int 7)]) (by decide), .launch]
  rw [hkept] at h
  exact h

/-- The rest of the name is lost. -/
theorem name_is_cut : annWithNul.zodiacType ≠ .unknown ∧
    (currentPerson (setCurrentPerson annWithNul store)).map (Option.map Person.name) =
      some (some "Ann") ∧ annWithNul.name ≠ "Ann" := by
  refine ⟨by decide, ?_, by decide⟩
  rw [currentPerson_set rfl]
  decide

end Settings

end Horo
