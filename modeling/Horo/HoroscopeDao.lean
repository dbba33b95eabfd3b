/-
# The table of horoscopes

`src/managers/horoscopedao` over `src/database` and `src/ios/DatabaseObjc`. A
horoscope whose type and date are in the table already is updated in these two
columns alone, so that nothing of it changes.

* `writeHoroscope_eq`: a write keeps the row that is there.
* `readHoroscope_written`: what is read for a type and a date is what the first
  row with them stores, whatever its sign.
* `lastIsRead_iff`: that is what was written last if nothing but the type and
  the date of it was ever new.
-/
import Horo.Data.Horoscope
import Horo.PersonDao

namespace Horo
namespace HoroscopeDao

open Lib

/-! ### The table -/

/-- The columns of `kHoroscopesSQLCreate` after `id`. -/
inductive Column
  | zodiac | type | date | content
  deriving DecidableEq, Repr

def Column.key : Column → String
  | .zodiac => "zodiac"
  | .type => "type"
  | .date => "date"
  | .content => "content"

def Column.affinity : Column → Sqlite.Affinity
  | .content => .text
  | _ => .integer

/-- The values of a row. -/
abbrev Values := Column → Sqlite.Value

abbrev HoroscopesTable := Table Values

variable (F : Sqlite.Doubles)

/-- The value that a parameter has in a column, where it is stored or compared. -/
def columnValue (parameters : Json.Value) (c : Column) : Sqlite.Value :=
  c.affinity.store F (PersonDao.parameter F ((parameters.get c.key).getD .null))

/-- What the statements select by: `type = :type AND date = :date`. -/
abbrev typeAndDate (values : Values) : Sqlite.Value × Sqlite.Value := (values .type, values .date)

/-- `kHoroscopesSQLUpdate`. -/
def update (parameters : Json.Value) (rowid : ℕ) (t : HoroscopesTable) : HoroscopesTable :=
  t.modify rowid fun values c =>
    match c with
    | .type => columnValue F parameters .type
    | .date => columnValue F parameters .date
    | c => values c

/-- A null horoscope is not written. -/
def writeHoroscope (horoscope : Option HoroscopeDTO) (t : HoroscopesTable) : HoroscopesTable :=
  match horoscope with
  | none => t
  | some horoscope =>
    let parameters := horoscope.encode
    match t.select typeAndDate (typeAndDate (columnValue F parameters)) with
    | some rowid => update F parameters rowid t
    | none => t.insert (columnValue F parameters)

/-- The keys of `resultSetToJsonValue<HoroscopeDTO>`. -/
def keys : List (Column × Json.Value) :=
  [Column.content, .date, .type, .zodiac].map fun c =>
    (c, (HoroscopeDTO.new.encode.get c.key).getD .null)

def resultSetToJsonValue (row : Values) : Option HoroscopeDTO := do
  let resultData ← keys.mapM fun (c, keyValue) => do
    return (c.key, ← PersonDao.columnJson F keyValue (row c))
  HoroscopeDTO.decode (.object resultData)

/-- The parameters of `kHoroscopesSQLSelectByDateType`. -/
def readParameters (date : UInt64) (type : HoroscopeType) : Json.Value :=
  .object [("date", .uint date.toNat), ("type", .int type.toInt32.toInt)]

/-- `none` where a row cannot be read. -/
def readHoroscope (date : UInt64) (type : HoroscopeType) (t : HoroscopesTable) :
    Option (Option HoroscopeDTO) :=
  match t.first typeAndDate (typeAndDate (columnValue F (readParameters date type))) with
  | some row => (resultSetToJsonValue F row).map some
  | none => some none

/-! ### What a write stores -/

section Columns

variable {F}

theorem cstr_key (c : Column) : Json.cstr c.key = c.key := by
  cases c <;> decide

theorem writeHoroscope_eq (h : HoroscopeDTO) (t : HoroscopesTable) :
    writeHoroscope F (some h) t = t.putNew typeAndDate (columnValue F h.encode) := by
  unfold writeHoroscope Table.putNew
  rcases hselect : t.select typeAndDate (typeAndDate (columnValue F h.encode)) with _ | id
  · simp only [hselect]
  · simp only [hselect]
    obtain ⟨r, hr, rfl⟩ := Option.map_eq_some_iff.mp hselect
    refine Table.modify_eq_self fun r' hr' hid => ?_
    obtain rfl := t.id_injective hr' (List.mem_of_find?_eq_some hr) hid
    -- the columns that are set hold these values already
    have hkey : typeAndDate r'.values = typeAndDate (columnValue F h.encode) := by
      simpa using List.find?_some hr
    funext c
    cases c with
    | type => exact (congrArg Prod.fst hkey).symm
    | date => exact (congrArg Prod.snd hkey).symm
    | zodiac => rfl
    | content => rfl

/-- The date that is stored for a number of seconds. -/
def storedDate (F : Sqlite.Doubles) (date : ℕ) : Sqlite.Value :=
  Sqlite.Affinity.integer.store F (.real (F.nearest ⟨date, 0⟩))

theorem columnValue_encode (h : HoroscopeDTO) :
    columnValue F h.encode .zodiac = .integer h.zodiac.toInt32.toInt ∧
      columnValue F h.encode .type = .integer h.type.toInt32.toInt ∧
      columnValue F h.encode .date = storedDate F h.date.toNat ∧
      columnValue F h.encode .content = .text (Json.cstr h.content) := by
  simp only [columnValue, HoroscopeDTO.encode, Json.Value.get, cstr_key]
  refine ⟨?_, ?_, rfl, rfl⟩
  · exact PersonDao.store_int _
  · exact PersonDao.store_int _

theorem columnValue_readParameters (date : UInt64) (type : HoroscopeType) :
    typeAndDate (columnValue F (readParameters date type)) =
      (.integer type.toInt32.toInt, storedDate F date.toNat) := by
  simp only [typeAndDate, columnValue, readParameters, Json.Value.get, cstr_key]
  exact Prod.ext (PersonDao.store_int _) rfl

/-! ### What is read -/

theorem keys_eq : keys =
    [(.content, .string ""), (.date, .uint 0), (.type, .int 0), (.zodiac, .int 0)] := by
  simp only [keys, HoroscopeDTO.encode, Json.Value.get, cstr_key]
  rfl

/-- **A row is read as the horoscope it was written for**, its text up to the
first NUL and its date as the column gives it back. -/
theorem resultSetToJsonValue_encode (h : HoroscopeDTO) :
    resultSetToJsonValue F (columnValue F h.encode) =
      ((Json.Value.real ((storedDate F h.date.toNat).columnDouble F)).asUInt64).map fun date =>
        { h with content := Json.cstr h.content, date } := by
  obtain ⟨hzodiac, htype, hdate, hcontent⟩ := @columnValue_encode F h
  have hresult : (keys.mapM fun (c, keyValue) => do
      return (c.key, ← PersonDao.columnJson F keyValue (columnValue F h.encode c))) =
      some [("content", .string (Json.cstr h.content)),
        ("date", .real ((storedDate F h.date.toNat).columnDouble F)),
        ("type", .real ⟨h.type.toInt32.toInt, 0⟩), ("zodiac", .real ⟨h.zodiac.toInt32.toInt, 0⟩)] := by
    rw [keys_eq]
    simp only [List.mapM_cons, List.mapM_nil, PersonDao.columnJson, hzodiac, htype, hdate, hcontent,
      Sqlite.Value.columnDouble, Sqlite.Value.columnText, PersonDao.nearest_toInt]
    rfl
  unfold resultSetToJsonValue
  rw [hresult]
  rw [Option.bind_eq_bind, Option.bind_some, HoroscopeDTO.decode_object rfl (Json.Value.asInt_real _)
    rfl rfl rfl (Json.Value.asInt_real _)]
  simp only [HoroscopeType.ofInt32_toInt32, ZodiacTypes.ofInt32_toInt32, Json.Value.asString,
    Json.cstr_cstr, Option.bind_eq_bind, Option.bind_some]
  rcases Json.Value.asUInt64 _ with _ | _ <;> rfl

/-- A date that is a double is stored and read as it is. -/
theorem storedDate_eq {n : ℕ} (h : n ≤ 2 ^ 53) : storedDate F n = .integer n := by
  have hnearest := F.nearest_integer n (by omega)
  have htrunc : (⟨n, 0⟩ : Decimal).trunc = n := by simp [Decimal.trunc]
  have hfits : Sqlite.fits n = true := by
    simp only [Sqlite.fits, Bool.and_eq_true, decide_eq_true_eq]
    omega
  simp [storedDate, hnearest, Sqlite.Affinity.store, Sqlite.ofReal, htrunc, hfits, Decimal.isIntegral]

theorem resultSetToJsonValue_of_le {h : HoroscopeDTO} (hdate : h.date.toNat ≤ 2 ^ 53) :
    resultSetToJsonValue F (columnValue F h.encode) = some { h with content := Json.cstr h.content } := by
  have hnearest := F.nearest_integer h.date.toNat (by omega)
  have htrunc : (⟨h.date.toNat, 0⟩ : Decimal).trunc = h.date.toNat := by simp [Decimal.trunc]
  have hasUInt64 : (Json.Value.real ⟨h.date.toNat, 0⟩).asUInt64 = some h.date := by
    have hmax : Json.Value.maxLargestUInt = 2 ^ 64 - 1 := rfl
    rw [Json.Value.asUInt64, htrunc, if_pos ⟨by simp, by omega⟩, Json.Value.ofInt_toNat]
  rw [resultSetToJsonValue_encode, storedDate_eq hdate, Sqlite.Value.columnDouble, hnearest, hasUInt64]
  rfl

/-- A date is found only if it is the one that was stored, if that is a
double. -/
theorem storedDate_inj (hF : F.Monotone) {m n : ℕ} (hm : m < 2 ^ 53) :
    storedDate F n = storedDate F m ↔ n = m := by
  refine ⟨fun h => ?_, fun h => by rw [h]⟩
  rw [@storedDate_eq F m (by omega)] at h
  rcases Nat.lt_or_ge (2 ^ 53) n with hn | hn
  · have hlow := hF (2 ^ 53) n (by omega)
    rw [F.nearest_integer _ (by decide)] at hlow
    unfold storedDate Sqlite.Affinity.store Sqlite.ofReal at h
    simp only at h
    split at h
    · have htrunc := Sqlite.Value.integer.inj h
      have hbound : (⟨2 ^ 53, 0⟩ : Decimal).trunc = 2 ^ 53 := by decide
      omega
    · cases h
  · rw [storedDate_eq hn] at h
    exact_mod_cast Sqlite.Value.integer.inj h

/-! ### Histories -/

variable (F) in
/-- The table after a history of writes. -/
def written (history : List (Option HoroscopeDTO)) : HoroscopesTable :=
  history.foldl (fun t h => writeHoroscope F h t) Table.empty

/-- The horoscopes that were written with a date and a type. -/
def writtenWith (history : List (Option HoroscopeDTO)) (date : UInt64) (type : HoroscopeType) :
    List HoroscopeDTO :=
  (history.filterMap id).filter fun h => h.date = date ∧ h.type = type

def lastWritten (history : List (Option HoroscopeDTO)) (date : UInt64) (type : HoroscopeType) :
    Option HoroscopeDTO := (writtenWith history date type).getLast?

def firstWritten (history : List (Option HoroscopeDTO)) (date : UInt64) (type : HoroscopeType) :
    Option HoroscopeDTO := (writtenWith history date type).head?

variable (F) in
/-- Whatever is asked for, the answer is what was written last. -/
def LastIsRead (history : List (Option HoroscopeDTO)) : Prop :=
  ∀ date type, readHoroscope F date type (written F history) = some (lastWritten history date type)

variable (F) in
/-- A date is read back from the column, and no other date is stored as it is. -/
structure DateKept (date : UInt64) : Prop where
  asUInt64 : (Json.Value.real ((storedDate F date.toNat).columnDouble F)).asUInt64 = some date
  eq_of_stored : ∀ date' : UInt64, storedDate F date'.toNat = storedDate F date.toNat → date' = date

variable (F) in
/-- What was written last with a date and a type has the sign of what was
written first with them, and its text if that is no longer than a C string. -/
def Unrevised (history : List (Option HoroscopeDTO)) : Prop :=
  ∀ date type, ∀ last ∈ lastWritten history date type, ∀ first ∈ firstWritten history date type,
    first.zodiac = last.zodiac ∧ Json.cstr first.content = last.content ∧ DateKept F date

theorem dateKept_of_lt (hF : F.Monotone) {date : UInt64} (h : date.toNat < 2 ^ 53) : DateKept F date where
  asUInt64 := by
    have hnearest := F.nearest_integer date.toNat (by omega)
    have htrunc : (⟨date.toNat, 0⟩ : Decimal).trunc = date.toNat := by simp [Decimal.trunc]
    have hmax : Json.Value.maxLargestUInt = 2 ^ 64 - 1 := rfl
    rw [storedDate_eq (by omega), Sqlite.Value.columnDouble, hnearest, Json.Value.asUInt64, htrunc,
      if_pos ⟨by simp, by omega⟩, Json.Value.ofInt_toNat]
  eq_of_stored date' hstored := UInt64.toNat_inj.mp ((storedDate_inj hF h).mp hstored)

theorem mem_writtenWith {history : List (Option HoroscopeDTO)} {date : UInt64} {type : HoroscopeType}
    {h : HoroscopeDTO} :
    h ∈ writtenWith history date type ↔ some h ∈ history ∧ h.date = date ∧ h.type = type := by
  simp [writtenWith, List.mem_filterMap]

theorem foldl_writeHoroscope : ∀ (history : List (Option HoroscopeDTO)) (t : HoroscopesTable),
    history.foldl (fun t h => writeHoroscope F h t) t =
      ((history.filterMap id).map fun h => columnValue F h.encode).foldl
        (fun t a => t.putNew typeAndDate a) t
  | [], _ => rfl
  | none :: history, t => foldl_writeHoroscope history t
  | some h :: history, t => by
    rw [List.foldl_cons, foldl_writeHoroscope history, writeHoroscope_eq]
    rfl

/-- What the statements find for a date and a type. -/
def found (F : Sqlite.Doubles) (history : List (Option HoroscopeDTO)) (date : UInt64)
    (type : HoroscopeType) : Option HoroscopeDTO :=
  (history.filterMap id).find? fun h =>
    h.type = type ∧ storedDate F h.date.toNat = storedDate F date.toNat

/-- **What is read is the first horoscope with the type and a date that is
stored as the one asked for.** -/
theorem readHoroscope_written (history : List (Option HoroscopeDTO)) (date : UInt64)
    (type : HoroscopeType) :
    readHoroscope F date type (written F history) =
      match found F history date type with
      | some h => (resultSetToJsonValue F (columnValue F h.encode)).map some
      | none => some none := by
  have hkey : ∀ h : HoroscopeDTO, typeAndDate (columnValue F h.encode) =
      typeAndDate (columnValue F (readParameters date type)) ↔
        h.type = type ∧ storedDate F h.date.toNat = storedDate F date.toNat := by
    intro h
    obtain ⟨_, htype, hdate, _⟩ := @columnValue_encode F h
    have htypes : Sqlite.Value.integer h.type.toInt32.toInt = .integer type.toInt32.toInt ↔
        h.type = type := by
      rw [Sqlite.Value.integer.injEq, Int32.toInt_inj]
      exact ⟨HoroscopeType.toInt32_injective, fun h => congrArg HoroscopeType.toInt32 h⟩
    rw [columnValue_readParameters, typeAndDate, htype, hdate, Prod.mk.injEq, htypes]
  have hfirst : (written F history).first typeAndDate
      (typeAndDate (columnValue F (readParameters date type))) =
        (found F history date type).map fun h => columnValue F h.encode := by
    rw [written, foldl_writeHoroscope, Table.first_putNews, Table.first_empty, Option.none_or,
      List.find?_map, found]
    congr 2
    funext h
    exact decide_eq_decide.mpr (hkey h)
  unfold readHoroscope
  rw [hfirst]
  cases found F history date type with
  | none => rfl
  | some h => rfl

/-- For a date that is stored as no other one it is what was written first. -/
theorem found_eq_firstWritten {date : UInt64}
    (hdate : ∀ date' : UInt64, storedDate F date'.toNat = storedDate F date.toNat → date' = date)
    (history : List (Option HoroscopeDTO)) (type : HoroscopeType) :
    found F history date type = firstWritten history date type := by
  rw [found, firstWritten, writtenWith, List.head?_filter]
  congr 1
  funext h
  refine decide_eq_decide.mpr ⟨fun hh => ⟨hdate _ hh.2, hh.1⟩, fun hh => ?_⟩
  rw [hh.1]
  exact ⟨hh.2, rfl⟩

theorem resultSetToJsonValue_eq_some_iff {first last : HoroscopeDTO} (htype : first.type = last.type) :
    resultSetToJsonValue F (columnValue F first.encode) = some last ↔
      first.zodiac = last.zodiac ∧ Json.cstr first.content = last.content ∧
        (Json.Value.real ((storedDate F first.date.toNat).columnDouble F)).asUInt64 = some last.date := by
  rw [resultSetToJsonValue_encode]
  obtain ⟨zodiac, type, content, date⟩ := last
  rcases (Json.Value.real ((storedDate F first.date.toNat).columnDouble F)).asUInt64 with _ | date'
  · simp
  · simp only [Option.map_some, Option.some.injEq, HoroscopeDTO.mk.injEq]
    simp only at htype
    tauto

/-- Of what is written with a date and a type, something is first and last. -/
theorem exists_firstWritten {history : List (Option HoroscopeDTO)} {date : UInt64}
    {type : HoroscopeType} {last : HoroscopeDTO} (h : lastWritten history date type = some last) :
    (last.date = date ∧ last.type = type) ∧ ∃ first, firstWritten history date type = some first ∧
      first.date = date ∧ first.type = type := by
  have hlast := mem_writtenWith.mp (List.mem_of_getLast? h)
  have hne : writtenWith history date type ≠ [] := List.ne_nil_of_mem (List.mem_of_getLast? h)
  have hhead := List.head?_eq_some_head hne
  exact ⟨hlast.2, _, hhead, (mem_writtenWith.mp (List.mem_of_mem_head? hhead)).2⟩

/-- Nothing is found of what was never written. -/
theorem lastWritten_eq_none {history : List (Option HoroscopeDTO)} {date : UInt64} {type : HoroscopeType}
    (h : found F history date type = none) : lastWritten history date type = none := by
  by_contra hne
  obtain ⟨last, hlast⟩ := Option.ne_none_iff_exists'.mp hne
  obtain ⟨hmem, hdate, htype⟩ := mem_writtenWith.mp (List.mem_of_getLast? hlast)
  have hall := List.find?_eq_none.mp h last (List.mem_filterMap.mpr ⟨_, hmem, rfl⟩)
  simp [hdate, htype] at hall

/-- What is found was written with the type and a date that is stored as the
one asked for. -/
theorem mem_of_found {history : List (Option HoroscopeDTO)} {date : UInt64} {type : HoroscopeType}
    {h : HoroscopeDTO} (hfound : found F history date type = some h) :
    h ∈ writtenWith history h.date type ∧ storedDate F h.date.toNat = storedDate F date.toNat := by
  have hkey := List.find?_some hfound
  simp only [decide_eq_true_eq] at hkey
  obtain ⟨h', hh', hid⟩ := List.mem_filterMap.mp (List.mem_of_find?_eq_some hfound)
  obtain rfl : h' = some h := hid
  exact ⟨mem_writtenWith.mpr ⟨hh', rfl, hkey.1⟩, hkey.2⟩

theorem unrevised_of_lastIsRead {history : List (Option HoroscopeDTO)} (hread : LastIsRead F history) :
    Unrevised F history := by
  intro date type last hlast first hfirst
  obtain ⟨⟨hlastDate, hlastType⟩, first', hfirst', hfirstDate, hfirstType⟩ := exists_firstWritten hlast
  obtain rfl : first' = first := Option.some.inj (hfirst'.symm.trans hfirst)
  -- a date that is stored as this one reads the same row
  have hunique : ∀ date' : UInt64, storedDate F date'.toNat = storedDate F date.toNat → date' = date := by
    intro date' hstored
    have hsame : found F history date' type = found F history date type := by
      rw [found, found, hstored]
    have hother := hread date' type
    rw [readHoroscope_written, hsame, ← readHoroscope_written, hread date type, hlast] at hother
    have hlast' := (exists_firstWritten (Option.some.inj hother).symm).1
    exact hlast'.1.symm.trans hlastDate
  have hanswer := hread date type
  rw [readHoroscope_written, found_eq_firstWritten hunique, hfirst', hlast] at hanswer
  obtain ⟨row, hrow, hsome⟩ := Option.map_eq_some_iff.mp hanswer
  rw [Option.some.inj hsome] at hrow
  obtain ⟨hzodiac, hcontent, hback⟩ :=
    (resultSetToJsonValue_eq_some_iff (hfirstType.trans hlastType.symm)).mp hrow
  rw [hfirstDate, hlastDate] at hback
  exact ⟨hzodiac, hcontent, hback, hunique⟩

theorem lastIsRead_of_unrevised {history : List (Option HoroscopeDTO)} (hkept : Unrevised F history) :
    LastIsRead F history := by
  intro date type
  rw [readHoroscope_written]
  rcases hfound : found F history date type with _ | h
  · rw [lastWritten_eq_none hfound]
  · -- the row that is found was written with this date
    obtain ⟨hmem, hstored⟩ := mem_of_found hfound
    have hlast : lastWritten history h.date type = some _ :=
      List.getLast?_eq_some_getLast (List.ne_nil_of_mem hmem)
    obtain ⟨⟨hlastDate, hlastType⟩, first, hfirst, -⟩ := exists_firstWritten hlast
    obtain ⟨hzodiac, hcontent, hdate⟩ := hkept h.date type _ hlast first hfirst
    obtain rfl := hdate.eq_of_stored date hstored.symm
    rw [found_eq_firstWritten hdate.eq_of_stored, hfirst] at hfound
    obtain rfl := Option.some.inj hfound
    have htype := (mem_writtenWith.mp hmem).2.2
    have hrow := (resultSetToJsonValue_eq_some_iff (htype.trans hlastType.symm)).mpr
      ⟨hzodiac, hcontent, by rw [hlastDate]; exact hdate.asUInt64⟩
    simp only [hrow, hlast, Option.map_some]

/-- **The last horoscope is read exactly if it does not revise the first.** -/
theorem lastIsRead_iff (history : List (Option HoroscopeDTO)) :
    LastIsRead F history ↔ Unrevised F history :=
  ⟨unrevised_of_lastIsRead, lastIsRead_of_unrevised⟩

/-- A day that the server publishes twice, with another text. -/
def republished : List (Option HoroscopeDTO) :=
  [some ⟨.unknown, .day, "Sunny", 1514764800⟩, some ⟨.unknown, .day, "Rainy", 1514764800⟩]

theorem republished_keeps_first : ¬ LastIsRead PersonDao.doubles republished := by
  intro h
  have hread : readHoroscope PersonDao.doubles 1514764800 .day (written PersonDao.doubles republished) =
      some (some ⟨.unknown, .day, "Sunny", 1514764800⟩) := by decide +kernel
  have hlast : lastWritten republished 1514764800 .day =
      some ⟨.unknown, .day, "Rainy", 1514764800⟩ := by decide
  have hsome := h 1514764800 .day
  rw [hread, hlast] at hsome
  exact absurd hsome (by decide)

end Columns

end HoroscopeDao
end Horo
