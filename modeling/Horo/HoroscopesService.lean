/-
# The horoscopes service

`src/managers/horoscopesservice`: the horoscopes of a sign are fetched from the
document the server created for it, and stored; without the server they are
looked up by the dates of the local day.

* `lookupDate_eq_dateStringToDate`: the dates that are looked up are those the
  server labels its horoscopes with.
* `belong_iff`: a lookup does not ask for the sign. It finds what was stored
  first for its type and date, and this belongs to the sign only if it was
  fetched for the sign too.
-/
import Horo.HoroscopeDao
import Horo.HoroscopesParser
import Horo.PredictionScreen
import Horo.Server.TtyDates

namespace Horo
namespace HoroscopesService

open Lib Calendar EcmaDate HoroscopesParser Server

/-! ### The program -/

/-- The dates `offlineFetchHoroscopes` looks up, where `time` is what the clock
of the device shows. -/
def lookupDate (gmtoff time : Int) : Period → Int :=
  let localTm := localtime gmtoff (PredictionScreen.timestempToTime time)
  let wday := if localTm.wday ≠ 0 then localTm.wday - 1 else 6
  let mday := localTm.mday - 1
  let yday := localTm.yday
  let datetime := timegm { localTm with sec := 0, min := 0, hour := 0, wday := 0, yday := 0,
                                        isdst := 0, gmtoff := 0 }
  let secondsInDay := 60 * 60 * 24
  fun
    | .yesterday => datetime - secondsInDay
    | .today => datetime
    | .tomorrow => datetime + secondsInDay
    | .week => datetime - secondsInDay * wday
    | .month => datetime - secondsInDay * mday
    | .year => datetime - secondsInDay * yday

variable (F : Sqlite.Doubles)

/-- What the service has stored, and what it has handed to its callbacks: for
which sign, and the horoscopes. -/
structure State where
  table : HoroscopeDao.HoroscopesTable
  delivered : List (ZodiacTypes × Horoscopes)

/-- `fetchHoroscopes`, when the snapshot has come or is null. Nothing is called
back where the parser throws. -/
def fetchHoroscopes (zodiac : ZodiacTypes) (snapshot : Option Json.Value) (s : State) : State :=
  match snapshot with
  | none => { s with delivered := s.delivered ++ [(zodiac, Horoscopes.none)] }
  | some data =>
    match parse data with
    | none => s
    | some horoscopes =>
      let table :=
        if horoscopes .today = none then s.table
        else Period.all.foldl (fun t p => HoroscopeDao.writeHoroscope F (horoscopes p) t) s.table
      ⟨table, s.delivered ++ [(zodiac, horoscopes)]⟩

/-- What `offlineFetchHoroscopes` calls back with, whatever the sign; `none`
where a row cannot be read. -/
def offlineFetchHoroscopes (gmtoff time : Int) (t : HoroscopeDao.HoroscopesTable) :
    Option Horoscopes := do
  let read := fun p : Period =>
    HoroscopeDao.readHoroscope F (UInt64.ofInt (lookupDate gmtoff time p)) p.type t
  let yesterday ← read .yesterday
  let today ← read .today
  let tomorrow ← read .tomorrow
  let week ← read .week
  let month ← read .month
  let year ← read .year
  return fun
    | .yesterday => yesterday
    | .today => today
    | .tomorrow => tomorrow
    | .week => week
    | .month => month
    | .year => year

/-! ### The dates that are looked up -/

/-- The type of the server that a period is labelled by. -/
def tabsType : Period → TabsType
  | .yesterday => .yesterday
  | .today => .today
  | .tomorrow => .tomorrow
  | .week => .weekly
  | .month => .monthly
  | .year => .year

/-- The day of the date of a period, on a local day. -/
def periodDay (day : Int) (p : Period) : Int := namedDay day day (tabsType p)

theorem periodDay_near (day : Int) (p : Period) :
    day - 366 ≤ periodDay day p ∧ periodDay day p ≤ day + 1 := by
  have hday := (ofDayNumber day).day_le_thirtyOne
  have hpos := (ofDayNumber day).day_pos
  obtain ⟨hyesterday, htomorrow, hweek⟩ := namedDay_self day
  unfold periodDay tabsType
  cases p with
  | yesterday => simp only [hyesterday]; omega
  | today => simp only [namedDay]; omega
  | tomorrow => simp only [htomorrow]; omega
  | week => simp only [hweek, monday]; omega
  | month => simp only [namedDay, mday]; omega
  | year =>
    obtain ⟨hlow, hhigh⟩ := yearOf_spec day
    have hsucc := firstOfYear_succ (yearOf day)
    have hsum : (monthLengths (isLeap (yearOf day))).sum ≤ 366 := by
      cases isLeap (yearOf day) <;> decide
    simp only [namedDay, ofDayNumber]
    omega

/-- Every date that is looked up is the midnight of a day. -/
theorem lookupDate_eq (gmtoff time : Int) (p : Period) :
    lookupDate gmtoff time p = 86400 * periodDay ((time + gmtoff) / 86400) p := by
  obtain ⟨hyesterday, htomorrow, hweek⟩ := namedDay_self ((time + gmtoff) / 86400)
  have hmidnight : timegm { localtime gmtoff time with
        sec := 0, min := 0, hour := 0, wday := 0, yday := 0, isdst := 0, gmtoff := 0 } =
      86400 * ((time + gmtoff) / 86400) := by
    have hday := dayNumberOf_localtime gmtoff time
    unfold timegm
    simp only [hday]
    omega
  have hwday : (if (localtime gmtoff time).wday ≠ 0 then (localtime gmtoff time).wday - 1 else 6) =
      (time + gmtoff) / 86400 - monday ((time + gmtoff) / 86400) := by
    have hday : (localtime gmtoff time).wday = ((time + gmtoff) / 86400 + 4) % 7 := rfl
    rw [hday, monday]
    split <;> omega
  unfold lookupDate periodDay tabsType PredictionScreen.timestempToTime
  simp only [hmidnight, hwday]
  cases p with
  | yesterday => simp only [hyesterday]; omega
  | today => rfl
  | tomorrow => simp only [htomorrow]; omega
  | week => simp only [hweek]; omega
  | month => simp only [namedDay, localtime, mday]; omega
  | year => simp only [namedDay, localtime]; omega

/-- **The dates that are looked up are the dates of the server.** If the device
and the server show one date, the date that is looked up for a period is the
one that is parsed of the server's date string for it. -/
theorem lookupDate_eq_dateStringToDate (server : Reading) {gmtoff time : Int}
    (h : (time + gmtoff) / 86400 = server.day) (p : Period) :
    dateStringToDate (dateStringFromType server.offset server.time server.time (tabsType p)).toList =
      some (lookupDate gmtoff time p) := by
  obtain ⟨hlow, hhigh⟩ := server.day_le
  obtain ⟨hnear, hnear'⟩ := periodDay_near server.day p
  have hday : localDate server.offset
      (dateFromType server.offset server.time server.time (tabsType p)) =
        ofDayNumber (periodDay server.day p) := by
    rw [localDate, localDay_dateFromType]
    rfl
  have hnamed : Named (ofDayNumber (periodDay server.day p)) := named_ofDayNumber (by omega)
  rw [dateStringFromType, dateToDateString_eq, String.toList_ofList, dateStringToDate_dateString,
    hday, if_pos hnamed, dayNumber_ofDayNumber, lookupDate_eq, h]

/-- An hour after midnight in Moscow on 2 January 2018. -/
theorem moscow_looks_up :
    dateStringToDate (dateStringFromType 10800000 1514844000000 1514844000000 .weekly).toList =
      some (lookupDate 10800 1514844000 .week) :=
  lookupDate_eq_dateStringToDate ⟨10800000, 1514844000000, by decide, by decide⟩ (by decide) .week

/-! ### The documents of the server -/

/-- An element of a document, as it is read from the JSON of the snapshot. -/
def entryData (e : Entry) : Json.Value :=
  .object [("content", .string e.content), ("date", .string e.date), ("type", .string e.type)]

/-- A document as `createTTYDocument` writes it, labelled with the days that a
JavaScript clock can show. -/
structure TTYDocument where
  contents : TabsType → Option String
  day : TabsType → Int
  day_le : ∀ t, (day t).natAbs ≤ 100000400

namespace TTYDocument

variable (d : TTYDocument)

def entries : List Entry :=
  documentOf d.contents fun t => String.ofList (dateString (ofDayNumber (d.day t)))

def data : Json.Value := .object [("result", .array (d.entries.map entryData))]

end TTYDocument

/-- The days on which the clock is read bound the days that are named. -/
theorem namedDay_le {day newDay : Int} (h : day.natAbs ≤ 100000001) (h' : newDay.natAbs ≤ 100000001)
    (t : TabsType) : (namedDay day newDay t).natAbs ≤ 100000400 := by
  have hday := (ofDayNumber day).day_le_thirtyOne
  have hpos := (ofDayNumber day).day_pos
  have hday' := (ofDayNumber newDay).day_le_thirtyOne
  have hpos' := (ofDayNumber newDay).day_pos
  cases t with
  | year =>
    have hnear := periodDay_near day .year
    simp only [periodDay, tabsType, namedDay] at hnear ⊢
    omega
  | _ =>
    simp only [namedDay, mday, monday]
    omega

/-- Every array that `createTTYDocument` writes is that of a document. -/
theorem exists_entries_eq (contents : TabsType → Option String) (offset : Int) {labelled : Readings}
    (h : ∀ t, (localDay offset (labelled t).1).natAbs ≤ 100000001 ∧
      (localDay offset (labelled t).2).natAbs ≤ 100000001) :
    ∃ d : TTYDocument, d.entries = documentOf contents (datesAt offset labelled) := by
  refine ⟨⟨contents, fun t => namedDay (localDay offset (labelled t).1)
    (localDay offset (labelled t).2) t, fun t => namedDay_le (h t).1 (h t).2 t⟩, ?_⟩
  have hdates : datesAt offset labelled = fun t => String.ofList (dateString (ofDayNumber
      (namedDay (localDay offset (labelled t).1) (localDay offset (labelled t).2) t))) := by
    funext t
    rw [datesAt, dateStringFromType, dateToDateString_eq, localDate, localDay_dateFromType]
  rw [hdates]
  rfl

/-- What a horoscope has from a document: its type, the day and the text that
a C string keeps. -/
structure Item where
  type : HoroscopeType
  day : Int
  content : String
  deriving DecidableEq, Repr

namespace Item

/-- The document has no sign. -/
def horoscope (i : Item) : HoroscopeDTO :=
  { zodiac := .unknown, type := i.type, content := i.content, date := UInt64.ofInt (86400 * i.day) }

end Item

namespace TTYDocument

variable (d : TTYDocument)

def item (p : Period) : Option Item :=
  (d.contents (tabsType p)).map fun content => ⟨p.type, d.day (tabsType p), Json.cstr content⟩

def items : List Item := Period.all.filterMap d.item

/-- No day is before 1970: a negative date is no `uint64`. -/
def Readable : Prop := ∀ i ∈ d.items, 0 ≤ i.day

instance : Decidable d.Readable := inferInstanceAs (Decidable (∀ i ∈ d.items, 0 ≤ i.day))

theorem entries_eq : d.entries = Period.all.filterMap fun p => (d.contents (tabsType p)).map
    fun content => ⟨p.key, content, String.ofList (dateString (ofDayNumber (d.day (tabsType p))))⟩ := by
  have hpush : ∀ type content date, pushEntry type content date =
      (content.map fun content => (⟨type, content, date⟩ : Entry)).toList := by
    intro type content date
    cases content <;> rfl
  rw [List.filterMap_eq_flatMap_toList]
  simp only [entries, documentOf, createTTYDocument, hpush, Period.all, List.flatMap_cons,
    List.flatMap_nil, List.append_nil, List.append_assoc]
  rfl

end TTYDocument

/-- The horoscope of a period in a list that has one under each key. -/
theorem pointers_eq (f : Period → Option HoroscopeDTO) (q : Period) : ∀ ps : List Period,
    pointers (ps.filterMap fun p => (f p).map fun h => (p.key, h)) q.key =
      if q ∈ ps then f q else none
  | [] => rfl
  | p :: ps => by
    have ih := pointers_eq f q ps
    unfold pointers at ih ⊢
    rw [List.filterMap_cons]
    by_cases hqp : q = p
    · subst hqp
      rcases hf : f q with _ | h
      · simp only [Option.map_none, ih, hf, ite_self]
      · simp only [Option.map_some, List.reverse_cons, List.lookup_append, ih, hf]
        split <;> simp
    · have hkey : (q.key == p.key) = false := beq_false_of_ne fun h => hqp (Period.key_injective h)
      rcases hf : f p with _ | h
      · simp [ih, hqp]
      · simp [List.lookup_append, ih, hkey, hqp, List.lookup_cons]

theorem parseObject_entry (p : Period) (content : String) {day : Int}
    (hday : day.natAbs ≤ 100000400) :
    parseObject 0 (entryData ⟨p.key, content, String.ofList (dateString (ofDayNumber day))⟩) =
      if 0 ≤ day then some (p.key, Item.horoscope ⟨p.type, day, Json.cstr content⟩) else none := by
  have hkeys : ∀ key ∈ ["content", "date", "type"], Json.cstr key = key := by decide
  simp only [List.mem_cons, List.not_mem_nil, or_false, forall_eq_or_imp, forall_eq] at hkeys
  obtain ⟨hcontent, hdate, htype⟩ := hkeys
  have hstring : Json.cstr (String.ofList (dateString (ofDayNumber day))) =
      String.ofList (dateString (ofDayNumber day)) :=
    Json.cstr_of_notMem (by rw [String.toList_ofList]; exact nul_notMem_dateString _)
  have hkey : Json.cstr p.key = p.key := by cases p <;> decide
  have htypes : types.lookup p.key = some p.type := by cases p <;> decide
  have hnamed : Named (ofDayNumber day) := named_ofDayNumber (by omega)
  have hmapped : HoroscopeDTO.decode (.object [("content", .string content),
      ("date", .int (86400 * day)), ("type", .int p.type.toInt32.toInt),
      ("zodiac", .int (0 : Int32).toInt)]) =
      if 0 ≤ day then some (Item.horoscope ⟨p.type, day, Json.cstr content⟩) else none := by
    rw [HoroscopeDTO.decode_object rfl (Json.Value.asInt_int _) rfl rfl rfl (Json.Value.asInt_int _)]
    have hzodiac : ZodiacTypes.ofInt32 0 = some .unknown := by decide
    have hsign : (0 : Int) ≤ 86400 * day ↔ 0 ≤ day := by omega
    simp only [HoroscopeType.ofInt32_toInt32, hzodiac, Json.Value.asString, Json.Value.asUInt64,
      hsign, Option.bind_eq_bind, Option.bind_some]
    split <;> rfl
  unfold parseObject entryData
  rw [Json.Value.get_object hcontent rfl, Json.Value.get_object hdate rfl,
    Json.Value.get_object htype rfl]
  simp only [Json.Value.asString, hstring, hkey, String.toList_ofList, dateStringToDate_dateString,
    if_pos hnamed, dayNumber_ofDayNumber, htypes, Option.getD_some, Option.bind_eq_bind,
    Option.bind_some, hmapped]
  split <;> rfl

namespace TTYDocument

variable (d : TTYDocument)

/-- The horoscope of a period. -/
def horoscope (p : Period) : Option HoroscopeDTO := (d.item p).map Item.horoscope

theorem mapM_parseObject : ∀ ps : List Period,
    ((ps.filterMap fun p => (d.contents (tabsType p)).map fun content => (⟨p.key, content,
      String.ofList (dateString (ofDayNumber (d.day (tabsType p))))⟩ : Entry)).map entryData).mapM
        (parseObject 0) =
      if ∀ p ∈ ps, ∀ i ∈ d.item p, 0 ≤ i.day then
        some (ps.filterMap fun p => (d.horoscope p).map fun h => (p.key, h))
      else none
  | [] => by simp
  | p :: ps => by
    have ih := mapM_parseObject ps
    rcases hcontent : d.contents (tabsType p) with _ | content
    · have hitem : d.item p = none := by rw [item, hcontent, Option.map_none]
      have hhoroscope : d.horoscope p = none := by rw [horoscope, hitem, Option.map_none]
      simp only [List.filterMap_cons, hcontent, hhoroscope, Option.map_none, ih, List.forall_mem_cons,
        hitem, Option.not_mem_none, false_implies, implies_true, true_and]
    · have hitem : d.item p = some ⟨p.type, d.day (tabsType p), Json.cstr content⟩ := by
        rw [item, hcontent, Option.map_some]
      have hhoroscope : d.horoscope p =
          some (Item.horoscope ⟨p.type, d.day (tabsType p), Json.cstr content⟩) := by
        rw [horoscope, hitem, Option.map_some]
      simp only [List.filterMap_cons, hcontent, hhoroscope, Option.map_some, List.map_cons,
        List.mapM_cons, parseObject_entry p content (d.day_le _), ih, List.forall_mem_cons, hitem,
        Option.mem_def, Option.some.injEq, forall_eq']
      by_cases hday : 0 ≤ d.day (tabsType p)
      · simp only [hday, true_and, if_true]
        split <;> rfl
      · simp only [hday, false_and, if_false]
        rfl

/-- **What is parsed of a document of the server.** -/
theorem parse_data : parse d.data = if d.Readable then some d.horoscope else none := by
  have hkeys : ∀ key ∈ ["result", "zodiac"], Json.cstr key = key := by decide
  simp only [List.mem_cons, List.not_mem_nil, or_false, forall_eq_or_imp, forall_eq] at hkeys
  have hzodiac : d.data.get "zodiac" = some .null := by
    rw [data, Json.Value.get, hkeys.2]
    rfl
  have hall : d.Readable ↔ ∀ p ∈ Period.all, ∀ i ∈ d.item p, 0 ≤ i.day := by
    simp only [Readable, items, List.mem_filterMap]
    constructor
    · exact fun h p hp i hi => h i ⟨p, hp, hi⟩
    · rintro h i ⟨p, hp, hi⟩
      exact h p hp i hi
  have hpointers : (fun p : Period => pointers
      (Period.all.filterMap fun p => (d.horoscope p).map fun h => (p.key, h)) p.key) = d.horoscope := by
    funext p
    rw [pointers_eq, if_pos p.mem_all]
  unfold parse
  rw [hzodiac, data, Json.Value.get_object hkeys.1 rfl]
  simp only [Json.Value.asInt, entries_eq, mapM_parseObject, hall, Option.bind_eq_bind,
    Option.bind_some]
  split
  · rw [Option.bind_some, hpointers]
    rfl
  · rfl

end TTYDocument

/-! ### Histories of fetches -/

/-- What Firestore answers to a request. -/
inductive Reply
  | failed
  | missing
  | document (d : TTYDocument)

def Reply.snapshot : Reply → Option Json.Value
  | failed => none
  | missing => some .null
  | document d => some d.data

structure Fetch where
  zodiac : ZodiacTypes
  reply : Reply

/-- A history, from the empty table on. -/
def fetchAll (fetches : List Fetch) : State :=
  fetches.foldl (fun s f => fetchHoroscopes F f.zodiac f.reply.snapshot s) ⟨Table.empty, []⟩

/-- A horoscope was handed to a callback for the sign. -/
def Delivered (delivered : List (ZodiacTypes × Horoscopes)) (zodiac : ZodiacTypes)
    (h : HoroscopeDTO) : Prop :=
  ∃ d ∈ delivered, d.1 = zodiac ∧ ∃ p, d.2 p = some h

/-- What is looked up after a history was fetched for the sign in it. -/
def Belong (fetches : List Fetch) (gmtoff time : Int) (zodiac : ZodiacTypes) : Prop :=
  ∃ horoscopes, offlineFetchHoroscopes F gmtoff time (fetchAll F fetches).table = some horoscopes ∧
    ∀ p h, horoscopes p = some h → Delivered (fetchAll F fetches).delivered zodiac h

namespace Fetch

variable (f : Fetch)

/-- What is handed over. -/
def items : List Item :=
  match f.reply with
  | .document d => if d.Readable then d.items else []
  | _ => []

/-- What is written: nothing of a document that has nothing for today. -/
def stored : List Item :=
  match f.reply with
  | .document d => if d.contents .today = none then [] else f.items
  | _ => []

theorem mem_items_of_mem_stored {f : Fetch} {i : Item} (h : i ∈ f.stored) : i ∈ f.items := by
  unfold stored at h
  split at h
  · split at h
    · exact absurd h List.not_mem_nil
    · exact h
  · exact absurd h List.not_mem_nil

/-- The days that reach the table. -/
theorem day_of_mem_items {f : Fetch} {i : Item} (h : i ∈ f.items) : 0 ≤ i.day ∧ i.day ≤ 100000400 := by
  unfold items at h
  split at h
  · rename_i d _
    split at h
    · rename_i hreadable
      refine ⟨hreadable i h, ?_⟩
      obtain ⟨p, _, hp⟩ := List.mem_filterMap.mp h
      obtain ⟨content, _, rfl⟩ := Option.map_eq_some_iff.mp hp
      have hle := d.day_le (tabsType p)
      simp only
      omega
    · exact absurd h List.not_mem_nil
  · exact absurd h List.not_mem_nil

/-- The texts that reach the table. -/
theorem cstr_of_mem_items {f : Fetch} {i : Item} (h : i ∈ f.items) :
    Json.cstr i.content = i.content := by
  unfold items at h
  split at h
  · split at h
    · obtain ⟨p, _, hp⟩ := List.mem_filterMap.mp h
      obtain ⟨content, _, rfl⟩ := Option.map_eq_some_iff.mp hp
      exact Json.cstr_cstr content
    · exact absurd h List.not_mem_nil
  · exact absurd h List.not_mem_nil

end Fetch

theorem Item.date_toNat {i : Item} (h : 0 ≤ i.day ∧ i.day ≤ 100000400) :
    i.horoscope.date.toNat = (86400 * i.day).toNat := by
  rw [Item.horoscope, Json.Value.toNat_ofInt_eq_iff (by omega) (by omega)]

/-- An item is the only one with its horoscope. -/
theorem Item.horoscope_inj {i j : Item} (hi : 0 ≤ i.day ∧ i.day ≤ 100000400)
    (hj : 0 ≤ j.day ∧ j.day ≤ 100000400) (h : i.horoscope = j.horoscope) : i = j := by
  have htype : i.type = j.type := congrArg HoroscopeDTO.type h
  have hcontent : i.content = j.content := congrArg HoroscopeDTO.content h
  have hdate : (86400 * i.day).toNat = (86400 * j.day).toNat := by
    rw [← Item.date_toNat hi, ← Item.date_toNat hj, h]
  have hday : i.day = j.day := by omega
  obtain ⟨type, day, content⟩ := i
  obtain ⟨type', day', content'⟩ := j
  simp only [Item.mk.injEq]
  exact ⟨htype, hday, hcontent⟩

/-- The row of an item. -/
def row (i : Item) : HoroscopeDao.Values := HoroscopeDao.columnValue F i.horoscope.encode

section Runs

variable {F}

theorem foldl_writeHoroscope (horoscopes : Horoscopes) : ∀ (ps : List Period)
    (t : HoroscopeDao.HoroscopesTable),
    ps.foldl (fun t p => HoroscopeDao.writeHoroscope F (horoscopes p) t) t =
      ((ps.filterMap horoscopes).map fun h => HoroscopeDao.columnValue F h.encode).foldl
        (fun t a => t.putNew HoroscopeDao.typeAndDate a) t
  | [], _ => rfl
  | p :: ps, t => by
    rw [List.foldl_cons, foldl_writeHoroscope horoscopes ps, List.filterMap_cons]
    cases hp : horoscopes p with
    | none => rfl
    | some h => rw [HoroscopeDao.writeHoroscope_eq]; rfl

theorem parse_null : parse .null = some Horoscopes.none := rfl

/-- What one fetch writes. -/
theorem fetchHoroscopes_table (f : Fetch) (s : State) :
    (fetchHoroscopes F f.zodiac f.reply.snapshot s).table =
      (f.stored.map (row F)).foldl (fun t a => t.putNew HoroscopeDao.typeAndDate a) s.table := by
  obtain ⟨zodiac, reply⟩ := f
  cases reply with
  | failed => rfl
  | missing => rfl
  | document d =>
    have htoday : d.horoscope .today = none ↔ d.contents .today = none := by
      rw [TTYDocument.horoscope, TTYDocument.item, Option.map_eq_none_iff, Option.map_eq_none_iff]
      rfl
    have hitems : (Period.all.filterMap d.horoscope).map
        (fun h => HoroscopeDao.columnValue F h.encode) = d.items.map (row F) := by
      have hmap : Period.all.filterMap d.horoscope = d.items.map Item.horoscope :=
        List.map_filterMap.symm
      rw [hmap, List.map_map]
      rfl
    simp only [fetchHoroscopes, Reply.snapshot, TTYDocument.parse_data, Fetch.stored, Fetch.items]
    by_cases hreadable : d.Readable
    · by_cases hnone : d.contents .today = none
      · simp only [if_pos hreadable, htoday, if_pos hnone, List.map_nil, List.foldl_nil]
      · simp only [if_pos hreadable, htoday, if_neg hnone, foldl_writeHoroscope, hitems]
    · simp only [if_neg hreadable, ite_self, List.map_nil, List.foldl_nil]

/-- What one fetch hands over. -/
theorem fetchHoroscopes_delivered (f : Fetch) (s : State) (zodiac : ZodiacTypes) (h : HoroscopeDTO) :
    Delivered (fetchHoroscopes F f.zodiac f.reply.snapshot s).delivered zodiac h ↔
      Delivered s.delivered zodiac h ∨ f.zodiac = zodiac ∧ ∃ i ∈ f.items, i.horoscope = h := by
  have happend : ∀ delivered d, Delivered (delivered ++ [d]) zodiac h ↔
      Delivered delivered zodiac h ∨ d.1 = zodiac ∧ ∃ p, d.2 p = some h := by
    intro delivered d
    simp only [Delivered, List.mem_append, List.mem_singleton, or_and_right, exists_or,
      exists_eq_left]
  obtain ⟨z, reply⟩ := f
  cases reply with
  | failed =>
    simp [fetchHoroscopes, Reply.snapshot, happend, Fetch.items, Horoscopes.none]
  | missing =>
    simp [fetchHoroscopes, Reply.snapshot, happend, Fetch.items, Horoscopes.none, parse_null]
  | document d =>
    have hitems : (∃ p, d.horoscope p = some h) ↔ ∃ i ∈ d.items, i.horoscope = h := by
      simp only [TTYDocument.horoscope, Option.map_eq_some_iff, TTYDocument.items,
        List.mem_filterMap, Period.mem_all, true_and]
      constructor
      · rintro ⟨p, i, hp, hi⟩
        exact ⟨i, ⟨p, hp⟩, hi⟩
      · rintro ⟨i, ⟨p, hp⟩, hi⟩
        exact ⟨p, i, hp, hi⟩
    simp only [fetchHoroscopes, Reply.snapshot, TTYDocument.parse_data, Fetch.items]
    by_cases hreadable : d.Readable
    · simp only [if_pos hreadable, happend, hitems]
    · simp [if_neg hreadable]

theorem foldl_table : ∀ (fetches : List Fetch) (s : State),
    (fetches.foldl (fun s f => fetchHoroscopes F f.zodiac f.reply.snapshot s) s).table =
      ((fetches.flatMap Fetch.stored).map (row F)).foldl
        (fun t a => t.putNew HoroscopeDao.typeAndDate a) s.table
  | [], _ => rfl
  | f :: fetches, s => by
    rw [List.foldl_cons, foldl_table fetches, fetchHoroscopes_table, List.flatMap_cons,
      List.map_append, List.foldl_append]

theorem foldl_delivered (zodiac : ZodiacTypes) (h : HoroscopeDTO) : ∀ (fetches : List Fetch)
    (s : State),
    Delivered (fetches.foldl (fun s f => fetchHoroscopes F f.zodiac f.reply.snapshot s) s).delivered
        zodiac h ↔
      Delivered s.delivered zodiac h ∨
        ∃ f ∈ fetches, f.zodiac = zodiac ∧ ∃ i ∈ f.items, i.horoscope = h
  | [], s => by simp
  | f :: fetches, s => by
    rw [List.foldl_cons, foldl_delivered zodiac h fetches, fetchHoroscopes_delivered,
      List.exists_mem_cons_iff, or_assoc]

/-- **What a history writes**: every item, unless its type and date are in the
table. -/
theorem fetchAll_table (fetches : List Fetch) : (fetchAll F fetches).table =
    ((fetches.flatMap Fetch.stored).map (row F)).foldl
      (fun t a => t.putNew HoroscopeDao.typeAndDate a) Table.empty := foldl_table fetches _

/-- What a history hands over. -/
theorem fetchAll_delivered (fetches : List Fetch) (zodiac : ZodiacTypes) (h : HoroscopeDTO) :
    Delivered (fetchAll F fetches).delivered zodiac h ↔
      ∃ f ∈ fetches, f.zodiac = zodiac ∧ ∃ i ∈ f.items, i.horoscope = h := by
  unfold fetchAll
  rw [foldl_delivered]
  simp [Delivered]

/-- The first item with a type and a day. -/
def firstItem (items : List Item) (type : HoroscopeType) (day : Int) : Option Item :=
  items.find? fun i => i.type = type ∧ i.day = day

/-- A lookup asks for the key of an item if it asks for its type and day. -/
theorem key_eq_iff (hF : F.Monotone) {i : Item} (hi : 0 ≤ i.day ∧ i.day ≤ 100000400)
    {type : HoroscopeType} {day : Int} (hday : day.natAbs ≤ 100000000000000) :
    HoroscopeDao.typeAndDate (row F i) = HoroscopeDao.typeAndDate
        (HoroscopeDao.columnValue F (HoroscopeDao.readParameters (UInt64.ofInt (86400 * day)) type)) ↔
      i.type = type ∧ i.day = day := by
  obtain ⟨_, htype, hdate, _⟩ := @HoroscopeDao.columnValue_encode F i.horoscope
  rw [HoroscopeDao.columnValue_readParameters, row, HoroscopeDao.typeAndDate, htype, hdate,
    Item.date_toNat hi, Prod.mk.injEq, @eq_comm _ (HoroscopeDao.storedDate F (86400 * i.day).toNat),
    HoroscopeDao.storedDate_inj hF (by omega), Json.Value.toNat_ofInt_eq_iff (by omega) (by omega)]
  have htypes : Sqlite.Value.integer i.horoscope.type.toInt32.toInt = .integer type.toInt32.toInt ↔
      i.type = type := by
    rw [Sqlite.Value.integer.injEq, Int32.toInt_inj]
    exact ⟨HoroscopeType.toInt32_injective, fun h => congrArg HoroscopeType.toInt32 h⟩
  rw [htypes]
  have hdays : 86400 * day = 86400 * i.day ↔ i.day = day := by omega
  rw [hdays]

/-- The first row with the key of a lookup is that of the first item with its
type and day. -/
theorem find?_row (hF : F.Monotone) (type : HoroscopeType) {day : Int}
    (hday : day.natAbs ≤ 100000000000000) : ∀ {items : List Item},
    (∀ i ∈ items, 0 ≤ i.day ∧ i.day ≤ 100000400) →
      (items.map (row F)).find? (fun a => decide (HoroscopeDao.typeAndDate a =
        HoroscopeDao.typeAndDate (HoroscopeDao.columnValue F
          (HoroscopeDao.readParameters (UInt64.ofInt (86400 * day)) type)))) =
      (firstItem items type day).map (row F)
  | [], _ => rfl
  | i :: items, hitems => by
    have hkey := @key_eq_iff F hF i (hitems i List.mem_cons_self) type day hday
    have ih := find?_row hF type hday fun j hj => hitems j (List.mem_cons_of_mem i hj)
    rw [firstItem] at ih ⊢
    rw [List.map_cons, List.find?_cons, List.find?_cons, decide_eq_decide.mpr hkey, ih]
    cases decide (i.type = type ∧ i.day = day) with
    | true => rfl
    | false => rfl

/-- What is read for a type and a day: what was first stored with them. -/
theorem readHoroscope_fetchAll (hF : F.Monotone) (fetches : List Fetch) (type : HoroscopeType)
    {day : Int} (hday : day.natAbs ≤ 100000000000000) :
    HoroscopeDao.readHoroscope F (UInt64.ofInt (86400 * day)) type (fetchAll F fetches).table =
      some ((firstItem (fetches.flatMap Fetch.stored) type day).map Item.horoscope) := by
  have hitems : ∀ i ∈ fetches.flatMap Fetch.stored, ∃ f : Fetch, i ∈ f.items := by
    intro i hi
    obtain ⟨f, _, hf⟩ := List.mem_flatMap.mp hi
    exact ⟨f, Fetch.mem_items_of_mem_stored hf⟩
  have hdays : ∀ i ∈ fetches.flatMap Fetch.stored, 0 ≤ i.day ∧ i.day ≤ 100000400 := by
    intro i hi
    obtain ⟨f, hf⟩ := hitems i hi
    exact Fetch.day_of_mem_items hf
  unfold HoroscopeDao.readHoroscope
  rw [fetchAll_table, Table.first_putNews, Table.first_empty, Option.none_or,
    find?_row hF type hday hdays]
  rcases hfirst : firstItem (fetches.flatMap Fetch.stored) type day with _ | i
  · rfl
  · have hmem := List.mem_of_find?_eq_some hfirst
    obtain ⟨f, hf⟩ := hitems i hmem
    have htoNat := Item.date_toNat (hdays i hmem)
    have hle := (hdays i hmem).2
    have hread := @HoroscopeDao.resultSetToJsonValue_of_le F i.horoscope (by omega)
    have hcontent : Json.cstr i.horoscope.content = i.horoscope.content := Fetch.cstr_of_mem_items hf
    rw [hcontent] at hread
    simp only [Option.map_some, row, hread]

theorem day_of_named {k : Int} (h : Named (ofDayNumber k)) : k.natAbs ≤ 1000000000000 := by
  obtain ⟨hlow, hhigh⟩ := yearOf_spec k
  unfold firstOfYear at hlow hhigh
  unfold Named at h
  simp only [ofDayNumber] at h
  omega

/-- **What is looked up after a history**: the first item with the type and the
day that was stored, whatever its sign. -/
theorem offlineFetchHoroscopes_fetchAll (hF : F.Monotone) (fetches : List Fetch) {gmtoff time : Int}
    (hclock : Named (ofDayNumber ((time + gmtoff) / 86400))) :
    offlineFetchHoroscopes F gmtoff time (fetchAll F fetches).table =
      some fun p => (firstItem (fetches.flatMap Fetch.stored) p.type
        (periodDay ((time + gmtoff) / 86400) p)).map Item.horoscope := by
  have hread : ∀ p : Period, HoroscopeDao.readHoroscope F (UInt64.ofInt (lookupDate gmtoff time p))
      p.type (fetchAll F fetches).table = some ((firstItem (fetches.flatMap Fetch.stored) p.type
        (periodDay ((time + gmtoff) / 86400) p)).map Item.horoscope) := by
    intro p
    have hday := day_of_named hclock
    have hnear := periodDay_near ((time + gmtoff) / 86400) p
    rw [lookupDate_eq]
    exact readHoroscope_fetchAll hF fetches p.type (by omega)
  unfold offlineFetchHoroscopes
  simp only [hread, Option.bind_eq_bind, Option.bind_some]
  refine congrArg some (funext fun p => ?_)
  cases p <;> rfl

end Runs

/-! ### The theorem -/

/-- What is first stored for a lookup was handed over for the sign too. -/
def FirstBelong (fetches : List Fetch) (day : Int) (zodiac : ZodiacTypes) : Prop :=
  ∀ p i, firstItem (fetches.flatMap Fetch.stored) p.type (periodDay day p) = some i →
    ∃ f ∈ fetches, f.zodiac = zodiac ∧ i ∈ f.items

/-- **When offline horoscopes belong to the sign.** After a history of fetches
every horoscope that is looked up was handed over for the sign if and only if,
for each of the periods, what any sign stored first with its type and date was
handed over for this sign too. -/
theorem belong_iff {F : Sqlite.Doubles} (hF : F.Monotone) (fetches : List Fetch)
    {gmtoff time : Int} (hclock : Named (ofDayNumber ((time + gmtoff) / 86400)))
    (zodiac : ZodiacTypes) :
    Belong F fetches gmtoff time zodiac ↔
      FirstBelong fetches ((time + gmtoff) / 86400) zodiac := by
  have hoffline := offlineFetchHoroscopes_fetchAll hF fetches hclock
  unfold Belong FirstBelong
  simp only [hoffline, Option.some.injEq, exists_eq_left', fetchAll_delivered, Option.map_eq_some_iff]
  constructor
  · intro h p i hi
    obtain ⟨f, hf, hzodiac, j, hj, hji⟩ := h p _ ⟨i, hi, rfl⟩
    obtain ⟨g, _, hg⟩ := List.mem_flatMap.mp (List.mem_of_find?_eq_some hi)
    obtain rfl := Item.horoscope_inj (Fetch.day_of_mem_items hj)
      (Fetch.day_of_mem_items (Fetch.mem_items_of_mem_stored hg)) hji
    exact ⟨f, hf, hzodiac, hj⟩
  · rintro h p _ ⟨i, hi, rfl⟩
    obtain ⟨f, hf, hzodiac, hmem⟩ := h p i hi
    exact ⟨f, hf, hzodiac, i, hmem, rfl⟩

/-- A document with a text for the first day of 2018. -/
def newYear (content : String) : TTYDocument where
  contents t := if t = .today then some content else none
  day _ := 17532
  day_le _ := by decide

/-- Two signs are fetched on that day. -/
def twoSigns : List Fetch :=
  [⟨.virgo, .document (newYear "order")⟩, ⟨.leo, .document (newYear "courage")⟩]

theorem stored_twoSigns :
    twoSigns.flatMap Fetch.stored = [⟨.day, 17532, "order"⟩, ⟨.day, 17532, "courage"⟩] := by
  decide +kernel

theorem monotone_doubles : PersonDao.doubles.Monotone := by
  have hnearest : ∀ i : Int, PersonDao.doubles.nearest ⟨i, 0⟩ = ⟨i, 0⟩ := fun i =>
    if_neg fun h => absurd (congrArg Decimal.scale h) Nat.zero_ne_one
  intro i j hij
  rw [hnearest, hnearest]
  simpa [Decimal.trunc] using hij

theorem virgo_belongs : Belong PersonDao.doubles twoSigns 0 1514764800 .virgo := by
  refine (belong_iff monotone_doubles twoSigns (by decide +kernel) .virgo).mpr fun p i hi => ?_
  refine ⟨_, List.mem_cons_self, rfl, ?_⟩
  rw [stored_twoSigns, firstItem, List.find?_cons] at hi
  split at hi
  · obtain rfl := Option.some.inj hi
    decide +kernel
  · rename_i hother
    rw [List.find?_cons] at hi
    simp only at hother
    rw [hother] at hi
    cases hi

/-- What is looked up for the second sign is the text of the first. -/
theorem leo_gets_virgo :
    (∃ horoscopes, offlineFetchHoroscopes PersonDao.doubles 0 1514764800
      (fetchAll PersonDao.doubles twoSigns).table = some horoscopes ∧
        (horoscopes .today).map HoroscopeDTO.content = some "order") ∧
      ¬ Belong PersonDao.doubles twoSigns 0 1514764800 .leo := by
  have hoffline := @offlineFetchHoroscopes_fetchAll PersonDao.doubles monotone_doubles twoSigns 0
    1514764800 (by decide +kernel)
  have hfirst : firstItem (twoSigns.flatMap Fetch.stored) .day
      (periodDay ((1514764800 + 0) / 86400) .today) = some ⟨.day, 17532, "order"⟩ := by
    rw [stored_twoSigns]
    decide +kernel
  refine ⟨⟨_, hoffline, ?_⟩, ?_⟩
  · rw [show Period.type .today = .day from rfl, hfirst]
    rfl
  · rintro ⟨horoscopes, hsome, hall⟩
    rw [hoffline] at hsome
    obtain rfl := Option.some.inj hsome
    obtain ⟨f, hf, hzodiac, i, hi, hih⟩ := (fetchAll_delivered twoSigns .leo _).mp
      (hall .today (Item.horoscope ⟨.day, 17532, "order"⟩) (congrArg _ hfirst))
    have hcontent : i.content = "order" := congrArg HoroscopeDTO.content hih
    rcases List.mem_pair.mp hf with rfl | rfl
    · cases hzodiac
    · have hitems : Fetch.items ⟨.leo, .document (newYear "courage")⟩ = [⟨.day, 17532, "courage"⟩] := by
        decide +kernel
      rw [hitems, List.mem_singleton] at hi
      rw [hi] at hcontent
      exact absurd hcontent (by decide)

end HoroscopesService
end Horo
