/-
# The data of the application

`src/data/zodiac`, `datewrapper`, `url` and `person`. `decode` is `none` where
jsoncpp or `std::stoi` throws.
-/
import Horo.Text

namespace Horo

open Json

/-! ### Signs -/

inductive ZodiacTypes
  | unknown | aquarius | pisces | aries | taurus | gemini | cancer | leo | virgo | libra | scorpio
  | sagittarius | capricorn
  deriving DecidableEq, Repr

namespace ZodiacTypes

/-- The value of the enumerator. -/
def toInt32 (z : ZodiacTypes) : Int32 := Int32.ofNat z.ctorIdx

def all : List ZodiacTypes :=
  [unknown, aquarius, pisces, aries, taurus, gemini, cancer, leo, virgo, libra, scorpio,
    sagittarius, capricorn]

/-- `(ZodiacTypes) value`. -/
def ofInt32 (i : Int32) : Option ZodiacTypes := all.find? fun z => z.toInt32 == i

/-- `zodiacsNamesAndTypes`. -/
def name : ZodiacTypes → String
  | unknown => ""
  | aquarius => "aquarius"
  | pisces => "pisces"
  | aries => "aries"
  | taurus => "taurus"
  | gemini => "gemini"
  | cancer => "cancer"
  | leo => "leo"
  | virgo => "virgo"
  | libra => "libra"
  | scorpio => "scorpio"
  | sagittarius => "sagittarius"
  | capricorn => "capricorn"

@[simp] theorem ofInt32_toInt32 (z : ZodiacTypes) : ofInt32 z.toInt32 = some z := by
  cases z <;> decide

/-- `allZodiacs`, which are also those of `zodiacsNamesAndTypes`, in the order
of their indices. -/
def allZodiacs : List ZodiacTypes :=
  [aquarius, pisces, aries, taurus, gemini, cancer, leo, virgo, libra, scorpio, sagittarius, capricorn]

theorem mem_allZodiacs {z : ZodiacTypes} : z ∈ allZodiacs ↔ z ≠ unknown := by
  cases z <;> decide

theorem nodup_names : (allZodiacs.map name).Nodup := by decide

theorem toInt32_injective {z w : ZodiacTypes} (h : z.toInt32 = w.toInt32) : z = w := by
  have hz := ofInt32_toInt32 z
  rw [h, ofInt32_toInt32] at hz
  exact (Option.some.inj hz).symm

end ZodiacTypes

/-! ### Dates -/

structure DateWrapper where
  day : Int32
  month : Int32
  year : Int32
  deriving DecidableEq, Repr

namespace DateWrapper

/-- `DateWrapper()`. -/
def none : DateWrapper := ⟨0, 0, 0⟩

def toString (date : DateWrapper) : List Char :=
  if date.day = 0 ∧ date.month = 0 ∧ date.year = 0 then []
  else
    let result := Horo.toString date.day ++ '.' :: Horo.toString date.month
    if date.year = 0 then result else result ++ '.' :: Horo.toString date.year

/-- The loop of `fromString`: the parts after the third are read and dropped. -/
def fromParts : ℕ → List (List Char) → DateWrapper → Option DateWrapper
  | _, [], date => some date
  | counter, part :: parts, date => do
    let value ← stoi part
    fromParts (counter + 1) parts
      (match counter with
        | 0 => { date with day := value }
        | 1 => { date with month := value }
        | 2 => { date with year := value }
        | _ => date)

def fromString (string : List Char) : Option DateWrapper :=
  fromParts 0 (separateString string '.') none

/-- A date is read back from its text. -/
theorem fromString_toString (date : DateWrapper) : fromString date.toString = some date := by
  obtain ⟨d, m, y⟩ := date
  unfold toString fromString
  by_cases h : d = 0 ∧ m = 0 ∧ y = 0
  · obtain ⟨rfl, rfl, rfl⟩ := h
    rfl
  · rw [if_neg h]
    have hd := dot_notMem_toString d
    have hm := dot_notMem_toString m
    by_cases hy : y = 0
    · subst hy
      simp only [if_true]
      rw [separateString_append hd (toString_ne_nil d), separateString_last hm (toString_ne_nil m)]
      simp [fromParts, stoi_toString, none]
    · simp only [if_neg hy]
      rw [List.append_assoc, List.cons_append,
        separateString_append hd (toString_ne_nil d), separateString_append hm (toString_ne_nil m),
        separateString_last (dot_notMem_toString y) (toString_ne_nil y)]
      simp [fromParts, stoi_toString]

theorem nul_notMem_toString (date : DateWrapper) : '\x00' ∉ date.toString := by
  have hint : ∀ i : Int32, '\x00' ∉ Horo.toString i := fun i h => by
    rcases Lib.mem_intDigits h with h | h <;> cases h
  unfold toString
  split
  · exact List.not_mem_nil
  · split <;> simp [hint]

end DateWrapper

/-! ### The sign of a date -/

namespace ZodiacTypes

/-- `createValue`. -/
structure Period where
  startMonth : Int32
  startDay : Int32
  endMonth : Int32
  endDay : Int32
  deriving DecidableEq, Repr

/-- `zodiacTypesDatasource`, in the order of the indices. -/
def datasource : List (ZodiacTypes × Period) :=
  [(aquarius, ⟨1, 20, 2, 18⟩), (pisces, ⟨2, 19, 3, 20⟩), (aries, ⟨3, 21, 4, 19⟩),
   (taurus, ⟨4, 20, 5, 20⟩), (gemini, ⟨5, 21, 6, 20⟩), (cancer, ⟨6, 21, 7, 22⟩),
   (leo, ⟨7, 23, 8, 22⟩), (virgo, ⟨8, 23, 9, 22⟩), (libra, ⟨9, 23, 10, 22⟩),
   (scorpio, ⟨10, 23, 11, 21⟩), (sagittarius, ⟨11, 22, 12, 21⟩), (capricorn, ⟨12, 22, 1, 19⟩)]

def zodiacTypeByDate (date : DateWrapper) : ZodiacTypes :=
  match datasource.find? fun (_, value) =>
    (value.startMonth == date.month && decide (value.startDay ≤ date.day)) ||
      (value.endMonth == date.month && decide (date.day ≤ value.endDay)) with
  | some (type, _) => type
  | none => unknown

end ZodiacTypes

/-! ### Persons -/

/-- `Url::path`: what stands after the first slash, up to the query. -/
def urlPath (url : List Char) : List Char :=
  ((url.dropWhile (· ≠ '/')).drop 1).takeWhile (· ≠ '?')

inductive Gender
  | unknown | male | female
  deriving DecidableEq, Repr

def Gender.toInt32 (g : Gender) : Int32 := Int32.ofNat g.ctorIdx

def Gender.ofInt32 (i : Int32) : Option Gender :=
  [Gender.unknown, .male, .female].find? fun g => g.toInt32 == i

@[simp] theorem Gender.ofInt32_toInt32 (g : Gender) : ofInt32 g.toInt32 = some g := by
  cases g <;> decide

inductive PersonStatus
  | unknown | readyForRequest | completed | failed
  deriving DecidableEq, Repr

def PersonStatus.toInt32 (s : PersonStatus) : Int32 := Int32.ofNat s.ctorIdx

def PersonStatus.ofInt32 (i : Int32) : Option PersonStatus :=
  [PersonStatus.unknown, .readyForRequest, .completed, .failed].find? fun s => s.toInt32 == i

@[simp] theorem PersonStatus.ofInt32_toInt32 (s : PersonStatus) : ofInt32 s.toInt32 = some s := by
  cases s <;> decide

inductive PersonType
  | unknown | user | friend
  deriving DecidableEq, Repr

def PersonType.toInt32 (t : PersonType) : Int32 := Int32.ofNat t.ctorIdx

def PersonType.ofInt32 (i : Int32) : Option PersonType :=
  [PersonType.unknown, .user, .friend].find? fun t => t.toInt32 == i

@[simp] theorem PersonType.ofInt32_toInt32 (t : PersonType) : ofInt32 t.toInt32 = some t := by
  cases t <;> decide

/-- What is stored of a person. `zodiac` is `none` for a null pointer. -/
structure Person where
  zodiac : Option ZodiacTypes
  name : String
  imageUrl : String
  personUrl : String
  gender : Gender
  status : PersonStatus
  type : PersonType
  birthdayDate : DateWrapper
  withFacebook : Bool
  deriving DecidableEq, Repr

namespace Person

/-- `new Person()`. -/
def new : Person :=
  { zodiac := none, name := "", imageUrl := "", personUrl := "", gender := .unknown,
    status := .unknown, type := .unknown, birthdayDate := .none, withFacebook := false }

def uniqueIdentifier (p : Person) : String :=
  if p.personUrl = "" then "0"
  else
    let path := String.ofList (urlPath p.personUrl.toList)
    if path = "profile.php" then p.personUrl else path

/-- The type of the sign, a person without one having the unknown. -/
def zodiacType (p : Person) : ZodiacTypes := p.zodiac.getD .unknown

/-- What `encode` sets, in its order. -/
def encoded (p : Person) : List (String × Value) :=
  [("zodiacType", .int p.zodiacType.toInt32.toInt),
   ("name", .string p.name),
   ("imageUrl", .string p.imageUrl),
   ("personUrl", .string p.personUrl),
   ("gender", .int p.gender.toInt32.toInt),
   ("status", .int p.status.toInt32.toInt),
   ("type", .int p.type.toInt32.toInt),
   ("birthdayDate", .string (String.ofList p.birthdayDate.toString)),
   ("withFacebook", .bool p.withFacebook),
   ("uniqueIdentifier", .string p.uniqueIdentifier)]

def encode (p : Person) : Value :=
  .object (p.encoded.foldl (fun members m => Members.set members m.1 m.2) [])

def decode (coder : Value) : Option Person := do
  let type ← ZodiacTypes.ofInt32 (← (← coder.get "zodiacType").asInt)
  let name ← (← coder.get "name").asString
  let imageUrl ← (← coder.get "imageUrl").asString
  let personUrl ← (← coder.get "personUrl").asString
  let gender ← Gender.ofInt32 (← (← coder.get "gender").asInt)
  let status ← PersonStatus.ofInt32 (← (← coder.get "status").asInt)
  let personType ← PersonType.ofInt32 (← (← coder.get "type").asInt)
  let birthdayDate ← DateWrapper.fromString (← (← coder.get "birthdayDate").asString).toList
  let withFacebook ← (← coder.get "withFacebook").asBool
  return { zodiac := if type = .unknown then none else some type, name, imageUrl, personUrl, gender,
           status, type := personType, birthdayDate, withFacebook }

def logout (p : Person) : Person :=
  { p with name := "", imageUrl := "", gender := .unknown, withFacebook := false, personUrl := "" }

def setBirthdayDate (date : DateWrapper) (p : Person) : Person :=
  { p with birthdayDate := date, zodiac := some (ZodiacTypes.zodiacTypeByDate date) }

/-- The members in the order of their names. -/
theorem encode_eq (p : Person) : p.encode = .object
    [("birthdayDate", .string (String.ofList p.birthdayDate.toString)),
     ("gender", .int p.gender.toInt32.toInt),
     ("imageUrl", .string p.imageUrl),
     ("name", .string p.name),
     ("personUrl", .string p.personUrl),
     ("status", .int p.status.toInt32.toInt),
     ("type", .int p.type.toInt32.toInt),
     ("uniqueIdentifier", .string p.uniqueIdentifier),
     ("withFacebook", .bool p.withFacebook),
     ("zodiacType", .int p.zodiacType.toInt32.toInt)] := by
  simp [encode, encoded, Members.set, strcmpLess]

/-! ### Reading back what `encode` writes -/

theorem nul_notMem_urlPath {url : List Char} (h : '\x00' ∉ url) : '\x00' ∉ urlPath url := by
  intro hmem
  exact h ((List.dropWhile_sublist _).subset
    ((List.drop_sublist _ _).subset ((List.takeWhile_sublist _).subset hmem)))

/-- The identifier of a person is a part of its URL. -/
theorem cstr_uniqueIdentifier {p : Person} (h : cstr p.personUrl = p.personUrl) :
    cstr p.uniqueIdentifier = p.uniqueIdentifier := by
  unfold uniqueIdentifier
  split
  · decide
  · simp only
    split
    · exact h
    · refine cstr_of_notMem ?_
      rw [String.toList_ofList]
      exact nul_notMem_urlPath (cstr_eq_self_iff.mp h)

theorem cstr_birthdayDate (date : DateWrapper) :
    cstr (String.ofList date.toString) = String.ofList date.toString :=
  cstr_of_notMem (by rw [String.toList_ofList]; exact DateWrapper.nul_notMem_toString date)

/-- The texts are C strings and the sign is known. -/
structure Plain (p : Person) : Prop where
  name : cstr p.name = p.name
  imageUrl : cstr p.imageUrl = p.imageUrl
  personUrl : cstr p.personUrl = p.personUrl
  zodiac : p.zodiac = some p.zodiacType
  known : p.zodiacType ≠ .unknown

/-- **What is encoded is decoded.** -/
theorem decode_encode {p : Person} (h : p.Plain) : decode p.encode = some p := by
  have hkeys : ∀ key ∈ ["zodiacType", "name", "imageUrl", "personUrl", "gender", "status", "type",
      "birthdayDate", "withFacebook"], cstr key = key := by decide
  simp only [List.mem_cons, List.not_mem_nil, or_false, forall_eq_or_imp, forall_eq] at hkeys
  obtain ⟨hz, hn, hi, hu, hg, hs, ht, hb, hw⟩ := hkeys
  have hdecode : decode p.encode = some { p with
      zodiac := if p.zodiacType = .unknown then none else some p.zodiacType } := by
    rw [encode_eq]
    simp [decode, Value.get, hz, hn, hi, hu, hg, hs, ht, hb, hw, List.lookup_cons, Value.asString,
      Value.asBool, h.name, h.imageUrl, h.personUrl, cstr_birthdayDate,
      DateWrapper.fromString_toString]
  rw [hdecode, if_neg h.known, ← h.zodiac]

end Person

end Horo
