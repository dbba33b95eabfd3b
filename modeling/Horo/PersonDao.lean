/-
# The table of persons

`src/managers/persondao` over `src/database` and `src/ios/DatabaseObjc`: a
person goes through its JSON, the parameters of the statement, the affinities
of the columns and the getters of the result set. The column of the birthday
has numeric affinity, so that a date is the number that its text spells.

Key definitions: `writePerson`, `readFacebookFriends`, `Faithful`.
Key theorems: `birthdayBack_eq_self_iff`, `month_of_print`, `faithful_iff`.
-/
import Horo.Data.Person
import Horo.Lib.MapM
import Horo.Lib.Sqlite
import Horo.Lib.Table
import Mathlib.Data.Finset.Card

namespace Horo
namespace PersonDao

open Lib

/-! ### The table -/

/-- The columns of `kPersonsSQLCreate` after `id`. -/
inductive Column
  | name | imageUrl | personUrl | zodiacType | gender | status | type | birthdayDate
  | withFacebook | uniqueIdentifier
  deriving DecidableEq, Repr

def Column.key : Column → String
  | .name => "name"
  | .imageUrl => "imageUrl"
  | .personUrl => "personUrl"
  | .zodiacType => "zodiacType"
  | .gender => "gender"
  | .status => "status"
  | .type => "type"
  | .birthdayDate => "birthdayDate"
  | .withFacebook => "withFacebook"
  | .uniqueIdentifier => "uniqueIdentifier"

/-- The affinity of the declared type: `STRING` is no text type. -/
def Column.affinity : Column → Sqlite.Affinity
  | .name | .imageUrl | .personUrl => .text
  | .birthdayDate | .uniqueIdentifier => .numeric
  | _ => .integer

/-- The values of a row. -/
abbrev Values := Column → Sqlite.Value

abbrev Persons := Table Values

variable (F : Sqlite.Doubles)

/-- `horo_dictionaryFromJsonValue`, and what FMDB binds for it: an integer is
a double for jsoncpp, a text ends at its first NUL. -/
def parameter (v : Json.Value) : Sqlite.Value :=
  match v with
  | .int i => .real (F.nearest ⟨i, 0⟩)
  | .uint n => .real (F.nearest ⟨n, 0⟩)
  | .real d => .real d
  | .string s => .text (Json.cstr s)
  | .bool b => .integer (if b then 1 else 0)
  | _ => .null

/-- The value that is stored in a column for the parameters of a statement. -/
def columnValue (parameters : Json.Value) (c : Column) : Sqlite.Value :=
  c.affinity.store F (parameter F ((parameters.get c.key).getD .null))

/-- The key of the statements. -/
abbrev uniqueIdentifier (values : Values) : Sqlite.Value := values .uniqueIdentifier

/-- `kPersonsSQLSelect`: the parameter is converted as the column is, before
they are compared. -/
def select (parameters : Json.Value) (t : Persons) : Option ℕ :=
  t.select uniqueIdentifier (columnValue F parameters .uniqueIdentifier)

/-- `kPersonsSQLInsert`. -/
def insert (parameters : Json.Value) (t : Persons) : Persons := t.insert (columnValue F parameters)

/-- `PersonDAOImpl::update`. -/
def update (person : Person) (rowid : ℕ) (t : Persons) : Persons :=
  if rowid = 0 then t else t.update rowid (columnValue F person.encode)

def writePerson (person : Person) (t : Persons) : Persons :=
  let value := person.encode
  match select F value t with
  | some rowid => update F person rowid t
  | none => insert F value t

/-- What `resultSetToJsonValue` reads for a key, by the type it has in the
encoding of a new object. -/
def columnJson (keyValue : Json.Value) (v : Sqlite.Value) : Option Json.Value :=
  match keyValue with
  | .int _ | .uint _ => some (.real (v.columnDouble F))
  | .bool _ => some (.bool (v.columnInt F != 0))
  | .string _ => v.columnText.map .string
  | _ => none

/-- The keys of `resultSetToJsonValue<Person>`. -/
def keys : List (Column × Json.Value) :=
  [Column.birthdayDate, .gender, .imageUrl, .name, .personUrl, .status, .type, .uniqueIdentifier,
    .withFacebook, .zodiacType].map fun c => (c, (Person.new.encode.get c.key).getD .null)

def resultSetToJsonValue (row : Values) : Option Person := do
  let resultData ← keys.mapM fun (c, keyValue) => do
    return (c.key, ← columnJson F keyValue (row c))
  Person.decode (.object resultData)

/-- `withFacebook != 0 AND type = 2`. -/
def isFacebookFriend (row : Values) : Bool :=
  (row .withFacebook).columnInt F != 0 && row .type == .integer 2

/-- The set that is returned holds a new object for each row: the order of the
rows does not matter. -/
def readFacebookFriends (t : Persons) : Option (List Person) :=
  (t.rows.filter fun r => isFacebookFriend F r.values).mapM fun r => resultSetToJsonValue F r.values

/-- The table after a sequence of writes. -/
def written (ps : List Person) : Persons := ps.foldl (fun t p => writePerson F p t) Table.empty

/-! ### What a write stores -/

/-- What `encode` sets under the key of a column. -/
def field (p : Person) : Column → Json.Value
  | .name => .string p.name
  | .imageUrl => .string p.imageUrl
  | .personUrl => .string p.personUrl
  | .zodiacType => .int p.zodiacType.toInt32.toInt
  | .gender => .int p.gender.toInt32.toInt
  | .status => .int p.status.toInt32.toInt
  | .type => .int p.type.toInt32.toInt
  | .birthdayDate => .string (String.ofList p.birthdayDate.toString)
  | .withFacebook => .bool p.withFacebook
  | .uniqueIdentifier => .string p.uniqueIdentifier

theorem cstr_key (c : Column) : Json.cstr c.key = c.key := by
  cases c <;> decide

theorem get_encode (p : Person) (c : Column) : p.encode.get c.key = some (field p c) := by
  rw [Person.encode_eq, Json.Value.get, cstr_key]
  cases c <;> rfl

/-- The date that is read for a date that was written. -/
def birthdayBack (date : DateWrapper) : Option DateWrapper :=
  (Sqlite.Affinity.numeric.store F (.text (Json.cstr (String.ofList date.toString)))).columnText.bind
    fun text => DateWrapper.fromString (Json.cstr text).toList

/-- The person that is read for a person that was written, but for the date. -/
def back (p : Person) (date : DateWrapper) : Person :=
  { zodiac := if p.zodiacType = .unknown then none else some p.zodiacType
    name := Json.cstr p.name, imageUrl := Json.cstr p.imageUrl, personUrl := Json.cstr p.personUrl
    gender := p.gender, status := p.status, type := p.type
    birthdayDate := date, withFacebook := p.withFacebook }

section Columns

variable {F}

theorem writePerson_eq (p : Person) (t : Persons) :
    writePerson F p t = t.put uniqueIdentifier (columnValue F p.encode) := by
  have hselect : select F p.encode t =
      t.select uniqueIdentifier (uniqueIdentifier (columnValue F p.encode)) := rfl
  unfold writePerson Table.put
  simp only [hselect]
  rcases h : t.select uniqueIdentifier (uniqueIdentifier (columnValue F p.encode)) with _ | id
  · rfl
  · have hpos : id ≠ 0 := by
      obtain ⟨r, hr, rfl⟩ := Option.map_eq_some_iff.mp h
      exact Nat.pos_iff_ne_zero.mp (t.bounded r (List.mem_of_find?_eq_some hr)).1
    simp only [update, if_neg hpos]

theorem columnValue_encode (p : Person) (c : Column) :
    columnValue F p.encode c = c.affinity.store F (parameter F (field p c)) := by
  rw [columnValue, get_encode, Option.getD_some]

theorem nearest_toInt (i : Int32) : F.nearest ⟨i.toInt, 0⟩ = ⟨i.toInt, 0⟩ := by
  have hlow := i.le_toInt
  have hhigh := i.toInt_lt
  exact F.nearest_integer _ (by omega)

/-- An `int` reaches an integer column as a double and is stored as an integer. -/
theorem store_int (i : Int32) :
    Sqlite.Affinity.integer.store F (parameter F (.int i.toInt)) = .integer i.toInt := by
  have hlow := i.le_toInt
  have hhigh := i.toInt_lt
  have htrunc : (⟨i.toInt, 0⟩ : Decimal).trunc = i.toInt := by simp [Decimal.trunc]
  have hfits : Sqlite.fits i.toInt = true := by
    simp only [Sqlite.fits, Bool.and_eq_true, decide_eq_true_eq]
    omega
  simp only [parameter, nearest_toInt, Sqlite.Affinity.store, Sqlite.ofReal, htrunc, hfits,
    Decimal.isIntegral]
  simp

/-- A stored text or number can be read as a text. -/
theorem columnText_numeric (s : String) :
    ∃ s', (Sqlite.Affinity.numeric.store F (.text s)).columnText = some s' := by
  have hreal : ∀ d, ∃ s', (Sqlite.ofReal d).columnText = some s' := by
    intro d
    unfold Sqlite.ofReal
    split <;> exact ⟨_, rfl⟩
  unfold Sqlite.Affinity.store
  simp only
  split
  · unfold Sqlite.ofLiteral
    split
    · exact ⟨_, rfl⟩
    · exact hreal _
  · exact ⟨_, rfl⟩

theorem keys_eq : keys = [(.birthdayDate, .string ""), (.gender, .int 0), (.imageUrl, .string ""),
    (.name, .string ""), (.personUrl, .string ""), (.status, .int 0), (.type, .int 0),
    (.uniqueIdentifier, .string "0"), (.withFacebook, .bool false), (.zodiacType, .int 0)] := by
  simp only [keys, List.map_cons, List.map_nil, get_encode, Option.getD_some]
  rfl

/-- The values of a row, as they are read. -/
theorem resultData_encode (p : Person) {date id : String}
    (hdate : (columnValue F p.encode .birthdayDate).columnText = some date)
    (hid : (columnValue F p.encode .uniqueIdentifier).columnText = some id) :
    (keys.mapM fun (c, keyValue) => do
      return (c.key, ← columnJson F keyValue (columnValue F p.encode c))) =
      some [("birthdayDate", .string date), ("gender", .real ⟨p.gender.toInt32.toInt, 0⟩),
        ("imageUrl", .string (Json.cstr p.imageUrl)), ("name", .string (Json.cstr p.name)),
        ("personUrl", .string (Json.cstr p.personUrl)),
        ("status", .real ⟨p.status.toInt32.toInt, 0⟩), ("type", .real ⟨p.type.toInt32.toInt, 0⟩),
        ("uniqueIdentifier", .string id), ("withFacebook", .bool p.withFacebook),
        ("zodiacType", .real ⟨p.zodiacType.toInt32.toInt, 0⟩)] := by
  have hint : ∀ c i, c.affinity = .integer → field p c = .int (Int32.toInt i) →
      columnJson F (.int 0) (columnValue F p.encode c) = some (.real ⟨i.toInt, 0⟩) := by
    intro c i hc hi
    rw [columnValue_encode, hi, hc, store_int, columnJson, Sqlite.Value.columnDouble, nearest_toInt]
  have htext : ∀ c s, c.affinity = .text → field p c = .string s →
      columnJson F (.string "") (columnValue F p.encode c) = some (.string (Json.cstr s)) := by
    intro c s hc hs
    rw [columnValue_encode, hs, hc]
    rfl
  have hbool : columnJson F (.bool false) (columnValue F p.encode .withFacebook) =
      some (.bool p.withFacebook) := by
    rw [columnValue_encode]
    cases hb : p.withFacebook <;> simp [field, hb, parameter, columnJson, Column.affinity,
      Sqlite.Affinity.store, Sqlite.Value.columnInt]
  have hstring : ∀ c s t, (columnValue F p.encode c).columnText = some s →
      columnJson F (.string t) (columnValue F p.encode c) = some (.string s) := by
    intro c s t hs
    rw [columnJson, hs]
    rfl
  rw [keys_eq]
  simp only [List.mapM_cons, List.mapM_nil, hstring _ _ _ hdate, hstring _ _ _ hid, hbool,
    hint .gender _ rfl rfl, hint .status _ rfl rfl, hint .type _ rfl rfl,
    hint .zodiacType _ rfl rfl, htext .imageUrl _ rfl rfl, htext .name _ rfl rfl,
    htext .personUrl _ rfl rfl]
  rfl

theorem get_object (members : Json.Members) (c : Column) :
    (Json.Value.object members).get c.key = some ((members.lookup c.key).getD .null) := by
  rw [Json.Value.get, cstr_key]

/-- The person that is decoded from members that have these values. -/
theorem decode_of_lookup {members : Json.Members} {p : Person} {date name imageUrl personUrl : String}
    (hz : members.lookup "zodiacType" = some (.real ⟨p.zodiacType.toInt32.toInt, 0⟩))
    (hn : members.lookup "name" = some (.string name))
    (hi : members.lookup "imageUrl" = some (.string imageUrl))
    (hu : members.lookup "personUrl" = some (.string personUrl))
    (hg : members.lookup "gender" = some (.real ⟨p.gender.toInt32.toInt, 0⟩))
    (hs : members.lookup "status" = some (.real ⟨p.status.toInt32.toInt, 0⟩))
    (ht : members.lookup "type" = some (.real ⟨p.type.toInt32.toInt, 0⟩))
    (hd : members.lookup "birthdayDate" = some (.string date))
    (hw : members.lookup "withFacebook" = some (.bool p.withFacebook)) :
    Person.decode (.object members) = (DateWrapper.fromString (Json.cstr date).toList).map fun d =>
      { zodiac := if p.zodiacType = .unknown then none else some p.zodiacType
        name := Json.cstr name, imageUrl := Json.cstr imageUrl, personUrl := Json.cstr personUrl
        gender := p.gender, status := p.status, type := p.type
        birthdayDate := d, withFacebook := p.withFacebook } := by
  have hz' := get_object members .zodiacType
  have hn' := get_object members .name
  have hi' := get_object members .imageUrl
  have hu' := get_object members .personUrl
  have hg' := get_object members .gender
  have hs' := get_object members .status
  have ht' := get_object members .type
  have hd' := get_object members .birthdayDate
  have hw' := get_object members .withFacebook
  simp only [Column.key, hz, hn, hi, hu, hg, hs, ht, hd, hw, Option.getD_some] at *
  unfold Person.decode
  rw [hz', hn', hi', hu', hg', hs', ht', hd', hw']
  simp only [Option.bind_eq_bind, Option.bind_some, Json.Value.asInt_real, ZodiacTypes.ofInt32_toInt32,
    Gender.ofInt32_toInt32, PersonStatus.ofInt32_toInt32, PersonType.ofInt32_toInt32,
    Json.Value.asString, Json.Value.asBool]
  rcases DateWrapper.fromString (Json.cstr date).toList with _ | _ <;> rfl

/-- **A row is read as the person it was written for**, its texts up to the
first NUL and its date as the column gives it back. -/
theorem resultSetToJsonValue_encode (p : Person) :
    resultSetToJsonValue F (columnValue F p.encode) = (birthdayBack F p.birthdayDate).map (back p) := by
  obtain ⟨date, hdate⟩ := @columnText_numeric F (Json.cstr (String.ofList p.birthdayDate.toString))
  obtain ⟨id, hid⟩ := @columnText_numeric F (Json.cstr p.uniqueIdentifier)
  unfold resultSetToJsonValue
  rw [resultData_encode p (by rw [columnValue_encode]; exact hdate)
    (by rw [columnValue_encode]; exact hid), birthdayBack, hdate]
  rw [Option.bind_some, Option.bind_eq_bind, Option.bind_some,
    decode_of_lookup (p := p) rfl rfl rfl rfl rfl rfl rfl rfl rfl]
  simp only [Json.cstr_cstr]
  rfl

/-! ### Dates in a numeric column -/

/-- The numeric affinity does not change a date: it is no number, or it is one
with a month of which the fraction keeps every digit. -/
def Survives (date : DateWrapper) : Prop :=
  date.year ≠ 0 ∨ date.month.toInt ≤ 0 ∨
    date.month.toInt % 10 ≠ 0 ∧ (Nat.toDigits 10 date.day.toInt.natAbs).length +
      (Nat.toDigits 10 date.month.toInt.natAbs).length ≤ 15

instance (date : DateWrapper) : Decidable (Survives date) := inferInstanceAs (Decidable (_ ∨ _))

/-- The date that is read from what the column gives. -/
theorem birthdayBack_eq {date : DateWrapper} {text : List Char} (hnul : '\x00' ∉ text)
    (h : (Sqlite.Affinity.numeric.store F (.text (String.ofList date.toString))).columnText =
      some (String.ofList text)) : birthdayBack F date = DateWrapper.fromString text := by
  have hcstr : ∀ {cs : List Char}, '\x00' ∉ cs → Json.cstr (String.ofList cs) = String.ofList cs :=
    fun hcs => Json.cstr_of_notMem (by rw [String.toList_ofList]; exact hcs)
  rw [birthdayBack, hcstr (DateWrapper.nul_notMem_toString date), h, Option.bind_some, hcstr hnul,
    String.toList_ofList]

theorem birthdayBack_of_columnText {date date' : DateWrapper}
    (h : (Sqlite.Affinity.numeric.store F (.text (String.ofList date.toString))).columnText =
      some (String.ofList date'.toString)) : birthdayBack F date = some date' := by
  rw [birthdayBack_eq (DateWrapper.nul_notMem_toString date') h, DateWrapper.fromString_toString]

/-- A date that is no number is stored as the text it is. -/
theorem birthdayBack_of_literal_eq_none {date : DateWrapper}
    (h : Sqlite.literal date.toString = none) : birthdayBack F date = some date := by
  refine birthdayBack_of_columnText ?_
  rw [Sqlite.store_of_literal_eq_none (by rw [String.toList_ofList]; exact h)]
  rfl

/-- The text of a date without a year. -/
theorem toString_of_year_eq_zero {day month : Int32} (h : ¬ (day = 0 ∧ month = 0)) :
    DateWrapper.toString ⟨day, month, 0⟩ = intDigits day.toInt ++ '.' :: intDigits month.toInt := by
  unfold DateWrapper.toString
  rw [if_neg fun hz => h ⟨hz.1, hz.2.1⟩, if_pos rfl]
  rfl

theorem literal_eq_none_of_year {date : DateWrapper} (h : date.year ≠ 0) :
    Sqlite.literal date.toString = none := by
  obtain ⟨d, m, y⟩ := date
  have htext : DateWrapper.toString ⟨d, m, y⟩ =
      intDigits d.toInt ++ '.' :: (intDigits m.toInt ++ '.' :: intDigits y.toInt) := by
    unfold DateWrapper.toString
    rw [if_neg fun hz => h hz.2.2, if_neg h, List.append_assoc]
    rfl
  rw [htext]
  by_cases hm : m.toInt < 0
  · have hlit := @Sqlite.literal_point d.toInt [] (intDigits m.toInt ++ '.' :: intDigits y.toInt)
      (by simp) (by simp [intDigits, hm])
    rw [List.nil_append] at hlit
    rw [hlit, if_neg]
    simp [intDigits, hm, Sqlite.isSpace]
  · have hdigits : intDigits m.toInt = Nat.toDigits 10 m.toInt.natAbs := if_neg hm
    rw [hdigits, Sqlite.literal_point d.toInt (fun c hc => isDigit_of_mem_toDigits hc) (by simp), if_neg]
    simp [Sqlite.isSpace]

theorem literal_eq_none_of_month {d m : Int32} (h : m.toInt < 0) :
    Sqlite.literal (DateWrapper.toString ⟨d, m, 0⟩) = none := by
  have hm : m ≠ 0 := fun he => by rw [he] at h; exact absurd h (by decide)
  have hlit := @Sqlite.literal_point d.toInt [] (intDigits m.toInt) (by simp) (by simp [intDigits, h])
  rw [toString_of_year_eq_zero fun hz => hm hz.2]
  rw [List.nil_append] at hlit
  rw [hlit, if_neg]
  simp [intDigits, h, Sqlite.isSpace]

theorem natAbs_toInt_le (i : Int32) : i.toInt.natAbs ≤ 2 ^ 31 := by
  have hlow := i.le_toInt
  have hhigh := i.toInt_lt
  omega

theorem nul_notMem_intDigits {i : Int} : '\x00' ∉ intDigits i := by
  intro hmem
  rcases mem_intDigits hmem with hc | hc <;> cases hc

theorem nul_notMem_print {d : Decimal} : '\x00' ∉ d.print 15 := by
  intro hmem
  exact absurd (Decimal.printChar_print 15 d _ hmem) (by decide)

/-- An `int` has at most ten digits. -/
theorem length_toDigits_le (i : Int32) : (Nat.toDigits 10 i.toInt.natAbs).length ≤ 10 :=
  (Nat.length_toDigits_le_iff (by decide) (by decide)).mpr
    (Nat.lt_of_le_of_lt (natAbs_toInt_le i) (by decide))

/-- A day without a month. -/
theorem birthdayBack_of_month_eq_zero {d : Int32} (h : d ≠ 0) :
    birthdayBack F ⟨d, 0, 0⟩ = some ⟨d, 0, 0⟩ := by
  have hlit := @Sqlite.literal_point d.toInt ['0'] [] (by simp) (by simp)
  have hvalue : Decimal.signed d.toInt (Nat.ofDigitChars 10 ['0'] d.toInt.natAbs) = 10 * d.toInt := by
    have hdigit : Nat.ofDigitChars 10 ['0'] d.toInt.natAbs = 10 * d.toInt.natAbs := by
      simp [Nat.ofDigitChars_cons]
    unfold Decimal.signed
    split <;> omega
  have htext := Sqlite.columnText_of_zero_fraction (F := F)
    (s := String.ofList (DateWrapper.toString ⟨d, 0, 0⟩)) (i := d.toInt)
    (by
      rw [String.toList_ofList, toString_of_year_eq_zero fun hz => h hz.1, ← hvalue]
      exact hlit)
    (le_trans (natAbs_toInt_le d) (by decide))
  have hback : DateWrapper.fromString (intDigits d.toInt) = some ⟨d, 0, 0⟩ := by
    have hpart := separateString_last (dot_notMem_toString d) (toString_ne_nil d)
    unfold DateWrapper.fromString
    rw [show intDigits d.toInt = Horo.toString d from rfl, hpart]
    simp [DateWrapper.fromParts, stoi_toString, DateWrapper.none]
  rw [birthdayBack_eq nul_notMem_intDigits htext, hback]

/-- The number that a month stands for behind the point is printed as it was
written, if it has at most fifteen digits with the day. -/
theorem print_of_month {d m : Int32}
    (hlen : (Nat.toDigits 10 d.toInt.natAbs).length + (Nat.toDigits 10 m.toInt.natAbs).length ≤ 15)
    (hvalue : Nat.ofDigitChars 10 (Nat.toDigits 10 m.toInt.natAbs) d.toInt.natAbs % 10 ≠ 0) :
    Nat.ofDigitChars 10 (Nat.toDigits 10 m.toInt.natAbs) d.toInt.natAbs < 10 ^ 15 ∧
      Decimal.print 15 ⟨Decimal.signed d.toInt
        (Nat.ofDigitChars 10 (Nat.toDigits 10 m.toInt.natAbs) d.toInt.natAbs),
        (Nat.toDigits 10 m.toInt.natAbs).length⟩ =
      intDigits d.toInt ++ '.' :: Nat.toDigits 10 m.toInt.natAbs := by
  have hdigits : ∀ c ∈ Nat.toDigits 10 m.toInt.natAbs, c.isDigit = true :=
    fun c hc => isDigit_of_mem_toDigits hc
  have hne : Nat.toDigits 10 m.toInt.natAbs ≠ [] := Nat.toDigits_ne_nil
  by_cases hd : d.toInt = 0
  · rw [hd, Int.natAbs_zero, Nat.ofDigitChars_ten_toDigits] at hvalue ⊢
    refine ⟨(Nat.length_toDigits_le_iff (by decide) (by decide)).mp (by omega), ?_⟩
    exact Decimal.print_fraction hvalue (by omega)
  · refine ⟨(Nat.length_toDigits_le_iff (by decide) (by decide)).mp ?_, ?_⟩
    · rw [toDigits_ofDigitChars (Int.natAbs_pos.mpr hd) hdigits, List.length_append]
      exact hlen
    · exact Decimal.print_point d.toInt hd hne hdigits hvalue hlen

/-- A day and a month of at most fifteen digits. -/
theorem birthdayBack_of_month {d m : Int32} (hpos : 0 < m.toInt) (hmod : m.toInt % 10 ≠ 0)
    (hlen : (Nat.toDigits 10 d.toInt.natAbs).length + (Nat.toDigits 10 m.toInt.natAbs).length ≤ 15) :
    birthdayBack F ⟨d, m, 0⟩ = some ⟨d, m, 0⟩ := by
  have hm : m ≠ 0 := fun he => by rw [he] at hpos; exact absurd hpos (by decide)
  have hmonth : intDigits m.toInt = Nat.toDigits 10 m.toInt.natAbs := if_neg (by omega)
  have htext : DateWrapper.toString ⟨d, m, 0⟩ =
      intDigits d.toInt ++ '.' :: Nat.toDigits 10 m.toInt.natAbs := by
    rw [toString_of_year_eq_zero fun hz => hm hz.2, hmonth]
  have hlit := @Sqlite.literal_point d.toInt _ []
    (fun c (hc : c ∈ Nat.toDigits 10 m.toInt.natAbs) => isDigit_of_mem_toDigits hc) (by simp)
  rw [List.append_nil, ← htext] at hlit
  have hlenpos : 0 < (Nat.toDigits 10 m.toInt.natAbs).length :=
    List.length_pos_iff.mpr Nat.toDigits_ne_nil
  have hvalue : Nat.ofDigitChars 10 (Nat.toDigits 10 m.toInt.natAbs) d.toInt.natAbs % 10 ≠ 0 := by
    obtain ⟨k, hk⟩ := Nat.exists_eq_add_of_lt hlenpos
    rw [Nat.ofDigitChars_eq_ofDigitChars_zero, Nat.ofDigitChars_ten_toDigits, hk, Nat.pow_succ]
    have hdvd : 10 ^ (0 + k) * 10 * d.toInt.natAbs = 10 * (10 ^ (0 + k) * d.toInt.natAbs) := by ring
    omega
  obtain ⟨hlt, hprint⟩ := print_of_month hlen hvalue
  refine birthdayBack_of_columnText ?_
  rw [Sqlite.columnText_of_fraction (by rw [String.toList_ofList]; exact hlit), hprint, htext]
  · exact Decimal.signed_mod_ten_ne hvalue
  · exact Nat.pos_iff_ne_zero.mp hlenpos
  · simp only
    omega
  · simpa using hlt

theorem birthdayBack_of_survives {date : DateWrapper} (h : Survives date) :
    birthdayBack F date = some date := by
  obtain ⟨d, m, y⟩ := date
  by_cases hy : y = 0
  · subst hy
    by_cases hpos : 0 < m.toInt
    · rcases h with h | h | ⟨hmod, hlen⟩
      · exact absurd rfl h
      · exact absurd hpos (Int.not_lt.mpr h)
      · exact birthdayBack_of_month hpos hmod hlen
    · rcases Int.lt_or_eq_of_le (Int.not_lt.mp hpos) with h | h
      · exact birthdayBack_of_literal_eq_none (literal_eq_none_of_month h)
      · obtain rfl : m = 0 := Int32.toInt_inj.mp h
        by_cases hd : d = 0
        · subst hd
          exact birthdayBack_of_literal_eq_none rfl
        · exact birthdayBack_of_month_eq_zero hd
  · exact birthdayBack_of_literal_eq_none (literal_eq_none_of_year hy)

/-! ### Dates that do not survive -/

/-- A number is read as a date by the digits on both sides of its point. -/
theorem exists_parts_of_print {d : Decimal} {date : DateWrapper}
    (h : DateWrapper.fromString (d.print 15) = some date) :
    ∃ whole frac, Decimal.Printed 15 whole frac ∧
      date.day.toInt.natAbs = Nat.ofDigitChars 10 whole 0 ∧
        date.month.toInt = Nat.ofDigitChars 10 frac 0 := by
  obtain ⟨sign, whole, frac, rest, hprint, hsign, hrest, hpoint, hprinted⟩ :=
    Decimal.exists_print (by decide : 0 < 15) d
  have hdots : ∀ {ds : List Char}, (∀ c ∈ ds, c.isDigit = true) → '.' ∉ ds := by
    intro ds hds hmem
    cases hds '.' hmem
  have hfirst : '.' ∉ sign ++ whole := by
    apply List.not_mem_append
    · rcases hsign with rfl | rfl <;> decide
    · exact hdots hprinted.whole_digits
  have hsecond : '.' ∉ frac ++ rest := List.not_mem_append (hdots hprinted.frac_digits) hpoint
  rw [hprint, DateWrapper.fromString,
    separateString_append hfirst (List.append_ne_nil_of_right_ne_nil _ hprinted.whole_ne),
    separateString_last hsecond (List.append_ne_nil_of_left_ne_nil hprinted.frac_ne _)] at h
  simp only [DateWrapper.fromParts, Option.bind_eq_bind, Option.bind_eq_some_iff] at h
  obtain ⟨i, hi, j, hj, hdate⟩ := h
  obtain rfl := Option.some.inj hdate
  refine ⟨whole, frac, hprinted, ?_, ?_⟩
  · show i.toInt.natAbs = _
    rcases hsign with rfl | rfl
    · rw [List.nil_append, stoi_digits hprinted.whole_ne hprinted.whole_digits] at hi
      rw [Json.Value.toInt_of_toInt32 hi, Int.natAbs_natCast]
    · rw [List.singleton_append, stoi_neg hprinted.whole_ne hprinted.whole_digits] at hi
      rw [Json.Value.toInt_of_toInt32 hi, Int.natAbs_neg, Int.natAbs_natCast]
  · rw [stoi_append hprinted.frac_ne hprinted.frac_digits hrest] at hj
    exact Json.Value.toInt_of_toInt32 hj

/-- What is printed of a number is read as a date only if the day and the month
have fifteen digits together, or the day has one, and the month does not end in
zero. -/
theorem month_of_print {d : Decimal} {date : DateWrapper}
    (h : DateWrapper.fromString (d.print 15) = some date) (hpos : 0 < date.month.toInt) :
    date.month.toInt % 10 ≠ 0 ∧ ((Nat.toDigits 10 date.day.toInt.natAbs).length ≤ 1 ∨
      (Nat.toDigits 10 date.day.toInt.natAbs).length +
        (Nat.toDigits 10 date.month.toInt.natAbs).length ≤ 15) := by
  obtain ⟨whole, frac, hprinted, hday, hmonth⟩ := exists_parts_of_print h
  rcases hprinted.last with rfl | ⟨hlast, hlength⟩
  · rw [hmonth] at hpos
    exact absurd hpos (by decide)
  · have hwhole := length_toDigits_ofDigitChars hprinted.whole_ne hprinted.whole_digits
    have hfrac := length_toDigits_ofDigitChars hprinted.frac_ne hprinted.frac_digits
    rw [hday, hmonth, Int.natAbs_natCast]
    constructor
    · omega
    · omega

/-- An integer is read as a date without a month. -/
theorem month_of_intDigits {i : Int} {date : DateWrapper}
    (h : DateWrapper.fromString (intDigits i) = some date) : date.month = 0 := by
  have hdot : '.' ∉ intDigits i := by
    intro hmem
    rcases mem_intDigits hmem with hc | hc <;> cases hc
  rw [DateWrapper.fromString, separateString_last hdot (intDigits_ne_nil i)] at h
  simp only [DateWrapper.fromParts, Option.bind_eq_bind, Option.bind_eq_some_iff] at h
  obtain ⟨value, -, hdate⟩ := h
  rw [← Option.some.inj hdate]
  rfl

/-- **A date is read back exactly if it survives.** -/
theorem birthdayBack_eq_self_iff {date : DateWrapper} :
    birthdayBack F date = some date ↔ Survives date := by
  refine ⟨fun h => ?_, birthdayBack_of_survives⟩
  obtain ⟨day, month, year⟩ := date
  by_cases hyear : year = 0
  swap
  · exact .inl hyear
  by_cases hpos : 0 < month.toInt
  swap
  · exact .inr (.inl (Int.not_lt.mp hpos))
  subst hyear
  have hm : month ≠ 0 := fun he => by rw [he] at hpos; exact absurd hpos (by decide)
  have hmonth : intDigits month.toInt = Nat.toDigits 10 month.toInt.natAbs := if_neg (by omega)
  -- the text is a number with a fraction
  have hlit := @Sqlite.literal_point day.toInt _ []
    (fun c (hc : c ∈ Nat.toDigits 10 month.toInt.natAbs) => isDigit_of_mem_toDigits hc) (by simp)
  have htext : DateWrapper.toString ⟨day, month, 0⟩ =
      intDigits day.toInt ++ '.' :: (Nat.toDigits 10 month.toInt.natAbs ++ []) := by
    rw [toString_of_year_eq_zero fun hz => hm hz.2, hmonth, List.append_nil]
  rw [← htext, List.all_nil, if_pos rfl] at hlit
  have hstore := Sqlite.store_of_fraction (F := F)
    (s := String.ofList (DateWrapper.toString ⟨day, month, 0⟩)) (by rw [String.toList_ofList]; exact hlit)
  unfold Sqlite.ofReal at hstore
  split at hstore
  · rw [birthdayBack_eq nul_notMem_intDigits (by rw [hstore]; rfl)] at h
    exact absurd (month_of_intDigits h) hm
  · rw [birthdayBack_eq nul_notMem_print (by rw [hstore]; rfl)] at h
    obtain ⟨hmod, hlength⟩ : month.toInt % 10 ≠ 0 ∧ ((Nat.toDigits 10 day.toInt.natAbs).length ≤ 1 ∨
        (Nat.toDigits 10 day.toInt.natAbs).length +
          (Nat.toDigits 10 month.toInt.natAbs).length ≤ 15) := month_of_print h hpos
    refine .inr (.inr ⟨hmod, ?_⟩)
    have hshort := length_toDigits_le month
    show (Nat.toDigits 10 day.toInt.natAbs).length + (Nat.toDigits 10 month.toInt.natAbs).length ≤ 15
    omega

/-! ### Sequences of writes -/

/-- The key a person is stored under. -/
abbrev storedIdentifier (F : Sqlite.Doubles) (id : String) : Sqlite.Value :=
  Sqlite.Affinity.numeric.store F (.text (Json.cstr id))

theorem uniqueIdentifier_encode (p : Person) :
    uniqueIdentifier (columnValue F p.encode) = storedIdentifier F p.uniqueIdentifier :=
  columnValue_encode p .uniqueIdentifier

/-- Writing persons is putting their values. -/
theorem foldl_writePerson (ps : List Person) (t : Persons) :
    ps.foldl (fun t p => writePerson F p t) t =
      t.putAll uniqueIdentifier (ps.map fun p => columnValue F p.encode) := by
  unfold Table.putAll
  rw [List.foldl_map]
  congr
  funext t p
  exact writePerson_eq p t

theorem written_eq (ps : List Person) :
    written F ps = Table.puts uniqueIdentifier (ps.map fun p => columnValue F p.encode) :=
  foldl_writePerson ps Table.empty

theorem isFacebookFriend_encode (p : Person) :
    isFacebookFriend F (columnValue F p.encode) = (p.withFacebook && p.type == .friend) := by
  have htype : columnValue F p.encode .type = .integer p.type.toInt32.toInt := by
    rw [columnValue_encode]
    exact store_int _
  have hfacebook : columnValue F p.encode .withFacebook = .integer (if p.withFacebook then 1 else 0) := by
    rw [columnValue_encode]
    rfl
  rw [isFacebookFriend, htype, hfacebook]
  simp only [Sqlite.Value.columnInt]
  cases p.withFacebook <;> cases p.type <;> decide

/-- The last person that was written under an identifier. -/
def lastWritten (ps : List Person) (id : String) : Option Person :=
  Table.lastOf Person.uniqueIdentifier ps id

/-- What is compared of a person: one without a sign has the unknown. -/
def fields (p : Person) : Person := { p with zodiac := some p.zodiacType }

variable (F) in
/-- The table is a map from identifiers to the persons written last. -/
structure Faithful (ps : List Person) : Prop where
  rows : (written F ps).rows.length = (ps.map Person.uniqueIdentifier).dedup.length
  identifiers : ∀ p ∈ ps, ((written F ps).valuesOf uniqueIdentifier
    (storedIdentifier F p.uniqueIdentifier)).length = 1
  friends : ∃ found, readFacebookFriends F (written F ps) = some found ∧
    ∀ id p, lastWritten ps id = some p → p.type = .friend → p.withFacebook = true →
      (found.filter fun q => fields q = fields p).length = 1

/-- No text ends at a NUL, and the birthday survives. -/
structure Storable (p : Person) : Prop where
  name : '\x00' ∉ p.name.toList
  imageUrl : '\x00' ∉ p.imageUrl.toList
  personUrl : '\x00' ∉ p.personUrl.toList
  birthday : Survives p.birthdayDate

/-- The friends that were written last under their identifiers can be stored. -/
def LastStorable (ps : List Person) : Prop :=
  ∀ id p, lastWritten ps id = some p → p.type = .friend → p.withFacebook = true → Storable p

theorem fields_back {p : Person} (h : Storable p) : fields (back p p.birthdayDate) = fields p := by
  have hzodiac : (back p p.birthdayDate).zodiacType = p.zodiacType := by
    unfold back Person.zodiacType
    cases p.zodiac with
    | none => rfl
    | some z => cases z <;> rfl
  unfold fields
  rw [hzodiac]
  unfold back
  simp only [Json.cstr_of_notMem h.name, Json.cstr_of_notMem h.imageUrl, Json.cstr_of_notMem h.personUrl]

theorem uniqueIdentifier_of_fields_eq {p q : Person} (h : fields p = fields q) :
    p.uniqueIdentifier = q.uniqueIdentifier := by
  have hurl : (fields p).personUrl = (fields q).personUrl := congrArg Person.personUrl h
  change p.personUrl = q.personUrl at hurl
  unfold Person.uniqueIdentifier
  rw [hurl]

/-- No two of the identifiers are stored as one value. -/
def Apart (F : Sqlite.Doubles) (ps : List Person) : Prop :=
  ∀ p ∈ ps, ∀ q ∈ ps, storedIdentifier F p.uniqueIdentifier = storedIdentifier F q.uniqueIdentifier →
    p.uniqueIdentifier = q.uniqueIdentifier

theorem lastOf_storedIdentifier {ps : List Person} (hids : Apart F ps) {p : Person} (hp : p ∈ ps) :
    Table.lastOf uniqueIdentifier (ps.map fun q => columnValue F q.encode)
        (storedIdentifier F p.uniqueIdentifier) =
      (lastWritten ps p.uniqueIdentifier).map fun q => columnValue F q.encode := by
  have hfilter : (ps.filter fun q => storedIdentifier F q.uniqueIdentifier =
      storedIdentifier F p.uniqueIdentifier) =
      ps.filter fun q => q.uniqueIdentifier = p.uniqueIdentifier := by
    refine List.filter_congr fun q hq => ?_
    rw [decide_eq_decide]
    exact ⟨fun h => hids q hq p hp h, fun h => by rw [h]⟩
  unfold lastWritten Table.lastOf
  rw [List.filter_map, List.getLast?_map, ← hfilter]
  simp only [Function.comp_def, uniqueIdentifier_encode]

/-- There are as many rows as identifiers. -/
theorem length_rows_written {ps : List Person} (hids : Apart F ps) :
    (written F ps).rows.length = (ps.map Person.uniqueIdentifier).dedup.length := by
  have hkeys : (ps.map fun p => columnValue F p.encode).map uniqueIdentifier =
      (ps.map Person.uniqueIdentifier).map (storedIdentifier F) := by
    simp only [List.map_map, Function.comp_def, uniqueIdentifier_encode]
  have hinj : Set.InjOn (storedIdentifier F) ↑(ps.map Person.uniqueIdentifier).toFinset := by
    intro x hx y hy hxy
    rw [List.coe_toFinset, Set.mem_ofPred, List.mem_map] at hx hy
    obtain ⟨p, hp, rfl⟩ := hx
    obtain ⟨q, hq, rfl⟩ := hy
    exact hids p hp q hq hxy
  rw [written_eq, Table.length_rows_puts, hkeys, ← List.card_toFinset, ← List.card_toFinset,
    ← Finset.card_image_of_injOn hinj]
  congr 1
  ext x
  simp

/-- What a row holds was written by a person that is the last one with its
identifier. -/
theorem exists_of_mem_rows {ps : List Person} (hids : Apart F ps) {r : Row Values}
    (hr : r ∈ (written F ps).rows) :
    ∃ p ∈ ps, r.values = columnValue F p.encode ∧ lastWritten ps p.uniqueIdentifier = some p := by
  rw [written_eq] at hr
  have hlast := Table.lastOf_of_mem_rows hr
  obtain ⟨hmem, -⟩ := Table.mem_of_lastOf hlast
  obtain ⟨q, hq, hqr⟩ := List.mem_map.mp hmem
  rw [← hqr, uniqueIdentifier_encode, lastOf_storedIdentifier hids hq] at hlast
  obtain ⟨p, hp, hpq⟩ := Option.map_eq_some_iff.mp hlast
  obtain ⟨hpmem, hpid⟩ := Table.mem_of_lastOf hp
  exact ⟨p, hpmem, by rw [← hqr, hpq], by rw [hpid]; exact hp⟩

theorem valuesOf_written {ps : List Person} (hids : Apart F ps) {p : Person} (hp : p ∈ ps) :
    (written F ps).valuesOf uniqueIdentifier (storedIdentifier F p.uniqueIdentifier) =
      ((lastWritten ps p.uniqueIdentifier).map fun q => columnValue F q.encode).toList := by
  rw [written_eq, Table.valuesOf_puts, lastOf_storedIdentifier hids hp]

/-- A row that is read is the last one of a friend, who is read back. -/
theorem read_of_mem_rows {ps : List Person} (hids : Apart F ps) (hps : LastStorable ps)
    {r : Row Values} (hr : r ∈ (written F ps).rows)
    (hfriend : isFacebookFriend F r.values = true) :
    ∃ p ∈ ps, r.values = columnValue F p.encode ∧
      resultSetToJsonValue F r.values = some (back p p.birthdayDate) ∧ Storable p := by
  obtain ⟨p, hp, hval, hlast⟩ := exists_of_mem_rows hids hr
  rw [hval, isFacebookFriend_encode, Bool.and_eq_true, beq_iff_eq] at hfriend
  have hstorable := hps _ p hlast hfriend.2 hfriend.1
  refine ⟨p, hp, hval, ?_, hstorable⟩
  rw [hval, resultSetToJsonValue_encode, birthdayBack_of_survives hstorable.birthday]
  rfl

/-- The row with the values of a friend is the one that is read as this friend. -/
theorem filter_fields_eq {ps : List Person} (hids : Apart F ps) (hps : LastStorable ps)
    {p : Person} (hp : p ∈ ps) (hlast : lastWritten ps p.uniqueIdentifier = some p)
    (htype : p.type = .friend) (hfacebook : p.withFacebook = true) :
    ((written F ps).rows.filter fun r => isFacebookFriend F r.values).filter
        (fun r => fields ((resultSetToJsonValue F r.values).getD Person.new) = fields p) =
      (written F ps).rows.filter fun r =>
        uniqueIdentifier r.values = storedIdentifier F p.uniqueIdentifier := by
  have hvalues := valuesOf_written hids hp
  rw [hlast] at hvalues
  rw [List.filter_filter]
  refine List.filter_congr fun r hr => ?_
  rw [Bool.eq_iff_iff, Bool.and_eq_true, decide_eq_true_eq, decide_eq_true_eq]
  refine ⟨fun ⟨hfields, hfriend⟩ => ?_, fun hkey => ?_⟩
  · obtain ⟨q, hq, hval, hres, hstorable⟩ := read_of_mem_rows hids hps hr hfriend
    rw [hres, Option.getD_some, fields_back hstorable] at hfields
    rw [hval, uniqueIdentifier_encode, uniqueIdentifier_of_fields_eq hfields]
  · have hmem : r.values ∈ (written F ps).valuesOf uniqueIdentifier
        (storedIdentifier F p.uniqueIdentifier) := Table.mem_valuesOf.mpr ⟨⟨r, hr, rfl⟩, hkey⟩
    rw [hvalues] at hmem
    have hval : r.values = columnValue F p.encode := List.mem_singleton.mp hmem
    have hstorable := hps _ p hlast htype hfacebook
    have hfriend : isFacebookFriend F r.values = true := by
      rw [hval, isFacebookFriend_encode, htype, hfacebook]
      rfl
    refine ⟨?_, hfriend⟩
    rw [hval, resultSetToJsonValue_encode, birthdayBack_of_survives hstorable.birthday,
      Option.map_some, Option.getD_some, fields_back hstorable]

/-- If no two identifiers are stored as one value, and the friends can be
stored, the table is faithful. -/
theorem faithful_of_lastStorable {ps : List Person} (hids : Apart F ps) (hps : LastStorable ps) :
    Faithful F ps := by
  refine ⟨length_rows_written hids, fun p hp => ?_, ?_⟩
  · obtain ⟨q, hq⟩ := @Table.exists_lastOf _ _ _ Person.uniqueIdentifier _ _ hp
    rw [valuesOf_written hids hp, lastWritten, hq]
    rfl
  · refine ⟨_, mapM_eq_some (g := fun r => (resultSetToJsonValue F r.values).getD Person.new) ?_, ?_⟩
    · intro r hr
      obtain ⟨hr, hfriend⟩ := List.mem_filter.mp hr
      obtain ⟨p, -, -, hres, -⟩ := read_of_mem_rows hids hps hr hfriend
      rw [hres, Option.getD_some]
    · intro id p hlast htype hfacebook
      obtain ⟨hp, rfl⟩ := Table.mem_of_lastOf hlast
      have hvalues := valuesOf_written hids hp
      rw [hlast] at hvalues
      have hlen := congrArg List.length hvalues
      unfold Table.valuesOf at hlen
      rw [List.filter_map, List.length_map]
      rw [List.length_map, ← filter_fields_eq hids hps hp hlast htype hfacebook] at hlen
      exact hlen

/-- As many rows as identifiers: no two are stored as one value. -/
theorem apart_of_length {ps : List Person}
    (h : (written F ps).rows.length = (ps.map Person.uniqueIdentifier).dedup.length) : Apart F ps := by
  have hkeys : (ps.map fun p => columnValue F p.encode).map uniqueIdentifier =
      (ps.map Person.uniqueIdentifier).map (storedIdentifier F) := by
    simp only [List.map_map, Function.comp_def, uniqueIdentifier_encode]
  have himage : ((ps.map Person.uniqueIdentifier).map (storedIdentifier F)).toFinset =
      (ps.map Person.uniqueIdentifier).toFinset.image (storedIdentifier F) := by
    ext x
    simp
  rw [written_eq, Table.length_rows_puts, hkeys, ← List.card_toFinset, ← List.card_toFinset,
    himage] at h
  have hinj := Finset.card_image_iff.mp h
  intro p hp q hq hsame
  refine hinj ?_ ?_ hsame
  · simpa using ⟨p, hp, rfl⟩
  · simpa using ⟨q, hq, rfl⟩

/-- What is read of a table comes from persons that were written last. -/
theorem exists_of_mem_read {ps : List Person} (hids : Apart F ps) {found : List Person}
    (hfound : readFacebookFriends F (written F ps) = some found) {q : Person} (hq : q ∈ found) :
    ∃ p date, lastWritten ps p.uniqueIdentifier = some p ∧ p.type = .friend ∧ p.withFacebook = true ∧
      birthdayBack F p.birthdayDate = some date ∧ q = back p date := by
  obtain ⟨r, hr, hread⟩ := (mem_of_mapM hfound q).mp hq
  obtain ⟨hr, hfriend⟩ := List.mem_filter.mp hr
  obtain ⟨p, hp, hval, hlast⟩ := exists_of_mem_rows hids hr
  rw [hval, isFacebookFriend_encode, Bool.and_eq_true, beq_iff_eq] at hfriend
  rw [hval, resultSetToJsonValue_encode] at hread
  obtain ⟨date, hdate, rfl⟩ := Option.map_eq_some_iff.mp hread
  exact ⟨p, date, hlast, hfriend.2, hfriend.1, hdate, rfl⟩

/-- A friend that is read back as written. -/
theorem exists_read {ps : List Person} (hids : Apart F ps) (h : Faithful F ps) {id : String} {p : Person}
    (hlast : lastWritten ps id = some p) (htype : p.type = .friend) (hfacebook : p.withFacebook = true) :
    ∃ q date, lastWritten ps q.uniqueIdentifier = some q ∧ q.type = .friend ∧ q.withFacebook = true ∧
      birthdayBack F q.birthdayDate = some date ∧ fields (back q date) = fields p := by
  obtain ⟨found, hfound, hone⟩ := h.friends
  have hlength := hone id p hlast htype hfacebook
  obtain ⟨x, hx⟩ := List.length_pos_iff_exists_mem.mp (hlength ▸ Nat.one_pos)
  obtain ⟨hmem, hfields⟩ := List.mem_filter.mp hx
  obtain ⟨q, date, hq, hqtype, hqfacebook, hdate, rfl⟩ := exists_of_mem_read hids hfound hmem
  exact ⟨q, date, hq, hqtype, hqfacebook, hdate, of_decide_eq_true hfields⟩

theorem lastStorable_of_faithful {ps : List Person} (h : Faithful F ps) : LastStorable ps := by
  have hids := apart_of_length h.rows
  have htexts : ∀ id p, lastWritten ps id = some p → p.type = .friend → p.withFacebook = true →
      '\x00' ∉ p.name.toList ∧ '\x00' ∉ p.imageUrl.toList ∧ '\x00' ∉ p.personUrl.toList := by
    intro id p hlast htype hfacebook
    obtain ⟨q, date, -, -, -, -, hfields⟩ := exists_read hids h hlast htype hfacebook
    have hname : Json.cstr q.name = p.name := congrArg Person.name hfields
    have himage : Json.cstr q.imageUrl = p.imageUrl := congrArg Person.imageUrl hfields
    have hurl : Json.cstr q.personUrl = p.personUrl := congrArg Person.personUrl hfields
    rw [← hname, ← himage, ← hurl]
    exact ⟨Json.nul_notMem_cstr _, Json.nul_notMem_cstr _, Json.nul_notMem_cstr _⟩
  intro id p hlast htype hfacebook
  obtain ⟨hname, himage, hurl⟩ := htexts id p hlast htype hfacebook
  refine ⟨hname, himage, hurl, ?_⟩
  obtain ⟨q, date, hq, hqtype, hqfacebook, hdate, hfields⟩ := exists_read hids h hlast htype hfacebook
  obtain ⟨-, -, hqurl⟩ := htexts _ q hq hqtype hqfacebook
  -- the person that is read has the URL, and so is this one
  have hsame : q.personUrl = p.personUrl := by
    rw [← Json.cstr_of_notMem hqurl]
    exact congrArg Person.personUrl hfields
  have hidentifier : q.uniqueIdentifier = p.uniqueIdentifier := by
    unfold Person.uniqueIdentifier
    rw [hsame]
  have hpid : p.uniqueIdentifier = id := (Table.mem_of_lastOf hlast).2
  rw [hidentifier, hpid, hlast] at hq
  obtain rfl := Option.some.inj hq
  have hback : date = p.birthdayDate := congrArg Person.birthdayDate hfields
  exact birthdayBack_eq_self_iff.mp (hback ▸ hdate)

/-- **The table is faithful exactly if** no two identifiers are stored as one
value, and the friends that were written last can be stored. -/
theorem faithful_iff {ps : List Person} : Faithful F ps ↔ Apart F ps ∧ LastStorable ps :=
  ⟨fun h => ⟨apart_of_length h.rows, lastStorable_of_faithful h⟩,
    fun h => faithful_of_lastStorable h.1 h.2⟩

end Columns

/-! ### Runs -/

/-- A rounding that is exact but at 5.1, where it is the double. -/
def doubles : Sqlite.Doubles where
  nearest d :=
    if d.norm = ⟨51, 1⟩ then ⟨50999999999999996447286321199499070644378662109375, 49⟩ else d.norm
  nearest_integer i _ := if_neg fun h => absurd (congrArg Decimal.scale h) Nat.zero_ne_one
  nearest_digits d _ _ hd := by
    have hzero : d.mantissa ≠ 0 := fun h => by simp [Decimal.isIntegral, h] at hd
    have hprint := Decimal.print_norm 15 d.scale hzero
    split
    · rename_i h
      refine ⟨by decide, ?_⟩
      rw [← hprint]
      change _ = Decimal.print 15 d.norm
      rw [h]
      decide
    · exact ⟨(Decimal.isIntegral_norm d.mantissa d.scale).trans hd, hprint⟩

/-- A friend that was born on a day of a month. -/
def friend (personUrl : String) (birthdayDate : DateWrapper) : Person :=
  { zodiac := none, name := "Ann", imageUrl := "", personUrl, gender := .unknown,
    status := .completed, type := .friend, birthdayDate, withFacebook := true }

theorem faithful_two_friends :
    Faithful doubles [friend "fb.com/ann" ⟨5, 5, 0⟩, friend "fb.com/bob" ⟨5, 10, 1990⟩] := by
  refine faithful_iff.mpr ⟨?_, fun id p hlast _ _ => ?_⟩
  · unfold Apart
    decide +kernel
  · rcases List.mem_pair.mp (Table.mem_of_lastOf hlast).1 with rfl | rfl
    · exact ⟨by decide, by decide, by decide, by decide⟩
    · exact ⟨by decide, by decide, by decide, by decide⟩

/-- October is read as January: 5.10 is the number 5.1. -/
theorem october_is_lost : ¬ Faithful doubles [friend "fb.com/ann" ⟨5, 10, 0⟩] := by
  intro h
  obtain ⟨found, hfound, hfriends⟩ := h.friends
  have hread : readFacebookFriends doubles (written doubles [friend "fb.com/ann" ⟨5, 10, 0⟩]) =
      some [friend "fb.com/ann" ⟨5, 1, 0⟩] := by decide +kernel
  obtain rfl := Option.some.inj (hread.symm.trans hfound)
  have hone := hfriends "ann" (friend "fb.com/ann" ⟨5, 10, 0⟩) (by decide) rfl rfl
  exact absurd hone (by decide)

end PersonDao
end Horo
