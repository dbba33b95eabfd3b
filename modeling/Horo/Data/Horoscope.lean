/-
# The horoscopes of the application

`src/data/horoscopedto`, and the six periods that a callback of the horoscopes
has its arguments for. `decode` is `none` where jsoncpp throws.
-/
import Horo.Data.Person

namespace Horo

open Json

inductive HoroscopeType
  | day | week | month | year
  deriving DecidableEq, Repr

namespace HoroscopeType

def toInt32 (t : HoroscopeType) : Int32 := Int32.ofNat t.ctorIdx

def all : List HoroscopeType := [day, week, month, year]

/-- `(HoroscopeType) value`. -/
def ofInt32 (i : Int32) : Option HoroscopeType := all.find? fun t => t.toInt32 == i

@[simp] theorem ofInt32_toInt32 (t : HoroscopeType) : ofInt32 t.toInt32 = some t := by
  cases t <;> decide

theorem toInt32_injective {t t' : HoroscopeType} (h : t.toInt32 = t'.toInt32) : t = t' := by
  have ht := ofInt32_toInt32 t
  rw [h, ofInt32_toInt32] at ht
  exact (Option.some.inj ht).symm

end HoroscopeType

structure HoroscopeDTO where
  zodiac : ZodiacTypes
  type : HoroscopeType
  content : String
  date : UInt64
  deriving DecidableEq, Repr

namespace HoroscopeDTO

/-- `new HoroscopeDTO()`. -/
def new : HoroscopeDTO := { zodiac := .unknown, type := .day, content := "", date := 0 }

/-- What `encode` sets, in the order of the names. -/
def encode (h : HoroscopeDTO) : Value :=
  .object [("content", .string h.content), ("date", .uint h.date.toNat),
    ("type", .int h.type.toInt32.toInt), ("zodiac", .int h.zodiac.toInt32.toInt)]

def decode (coder : Value) : Option HoroscopeDTO := do
  let type ← HoroscopeType.ofInt32 (← (← coder.get "type").asInt)
  let content ← (← coder.get "content").asString
  let date ← (← coder.get "date").asUInt64
  let zodiac ← ZodiacTypes.ofInt32 (← (← coder.get "zodiac").asInt)
  return { zodiac, type, content, date }

/-- What is decoded of the values of the members. -/
theorem decode_object {members : Members} {type zodiac : Int32} {content date typeValue zodiacValue : Value}
    (htype : members.lookup "type" = some typeValue) (htypeInt : typeValue.asInt = some type)
    (hcontent : members.lookup "content" = some content) (hdate : members.lookup "date" = some date)
    (hzodiac : members.lookup "zodiac" = some zodiacValue) (hzodiacInt : zodiacValue.asInt = some zodiac) :
    decode (.object members) = do
      let type ← HoroscopeType.ofInt32 type
      let content ← content.asString
      let date ← date.asUInt64
      let zodiac ← ZodiacTypes.ofInt32 zodiac
      return { zodiac, type, content, date } := by
  have hkeys : ∀ key ∈ ["type", "content", "date", "zodiac"], cstr key = key := by decide
  simp only [List.mem_cons, List.not_mem_nil, or_false, forall_eq_or_imp, forall_eq] at hkeys
  obtain ⟨ht, hc, hd, hz⟩ := hkeys
  rw [decode, Value.get_object ht htype, Value.get_object hc hcontent, Value.get_object hd hdate,
    Value.get_object hz hzodiac]
  simp only [Option.bind_eq_bind, Option.bind_some, htypeInt, hzodiacInt]

end HoroscopeDTO

/-! ### The periods -/

/-- The arguments of a `HoroscopesServiceCallback`. -/
inductive Period
  | yesterday | today | tomorrow | week | month | year
  deriving DecidableEq, Repr

namespace Period

def all : List Period := [yesterday, today, tomorrow, week, month, year]

theorem mem_all (p : Period) : p ∈ all := by cases p <;> decide

/-- The `type` of an entry of the server's document. -/
def key : Period → String
  | yesterday => "yesterday"
  | today => "today"
  | tomorrow => "tomorrow"
  | week => "week"
  | month => "month"
  | year => "year"

/-- The value under the key in the table `types` of the parser. -/
def type : Period → HoroscopeType
  | yesterday => .day
  | today => .day
  | tomorrow => .day
  | week => .week
  | month => .month
  | year => .year

theorem key_injective {p q : Period} (h : p.key = q.key) : p = q := by
  revert h
  cases p <;> cases q <;> decide

end Period

abbrev Horoscopes := Period → Option HoroscopeDTO

/-- Every argument is null. -/
def Horoscopes.none : Horoscopes := fun _ => .none

end Horo
