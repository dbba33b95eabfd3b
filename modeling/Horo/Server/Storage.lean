/-
# The server's storage: tabs, paths and documents

`src/server/common/common.js` and `src/server/common/horostorage.js`, as far
as the builder of the application's documents uses them: the horoscope type
of a tab, what a read of a stored prediction hands to its completion, and the
document written for a sign.

A JavaScript value that may be `undefined` is an `Option String`.
-/
import Mathlib.Data.List.Basic
import Mathlib.Data.Fintype.OfMap

namespace Horo
namespace Server

/-- The signs of `ttycreator.js`, in the order of its list `zodiacs`. -/
inductive Sign
  | aquarius | pisces | aries | taurus | gemini | cancer
  | leo | virgo | libra | scorpio | sagittarius | capricorn
  deriving DecidableEq, Repr

/-- The list `zodiacs`. -/
def zodiacs : List Sign :=
  [.aquarius, .pisces, .aries, .taurus, .gemini, .cancer,
   .leo, .virgo, .libra, .scorpio, .sagittarius, .capricorn]

/-- A sign as the string it is in `zodiacs`. -/
def Sign.name : Sign → String
  | .aquarius => "aquarius" | .pisces => "pisces" | .aries => "aries" | .taurus => "taurus"
  | .gemini => "gemini" | .cancer => "cancer" | .leo => "leo" | .virgo => "virgo"
  | .libra => "libra" | .scorpio => "scorpio" | .sagittarius => "sagittarius"
  | .capricorn => "capricorn"

theorem mem_zodiacs (z : Sign) : z ∈ zodiacs := by cases z <;> decide

instance : Fintype Sign := .ofList zodiacs mem_zodiacs

theorem nodup_names : (zodiacs.map Sign.name).Nodup := by decide

theorem Sign.name_injective {z w : Sign} (h : z.name = w.name) : z = w :=
  List.inj_on_of_nodup_map nodup_names (mem_zodiacs z) (mem_zodiacs w) h

/-- The keys of `horoTypes`. -/
inductive TabsType
  | yesterday | today | tomorrow | weekly | monthly | year
  deriving DecidableEq, Repr

instance : Fintype TabsType :=
  .ofList [.yesterday, .today, .tomorrow, .weekly, .monthly, .year] fun t => by cases t <;> decide

/-- `horoTypeByTabsType`: the table `horoTypes`. -/
def horoTypeByTabsType : TabsType → String
  | .yesterday => "days"
  | .today => "days"
  | .tomorrow => "days"
  | .weekly => "week"
  | .monthly => "month"
  | .year => "year"

/-- The data of a stored prediction; `content` may be missing. -/
structure Document where
  content : Option String
  deriving DecidableEq, Repr

/-- What `getDocumentData` hands to its completion. A document that does not
exist has no data, reading its content throws, and the `catch` answers `""`. -/
def getDocumentData : Option Document → Option String
  | some data => data.content
  | none => some ""

/-- An element of the array that `createTTYDocument` writes. -/
structure Entry where
  type : String
  content : String
  date : String
  deriving DecidableEq, Repr

/-- The push of `createTTYDocument` for one argument: nothing for a missing
one. -/
def pushEntry (type : String) (content : Option String) (date : String) : List Entry :=
  match content with
  | some content => [⟨type, content, date⟩]
  | none => []

/-- The array of `createTTYDocument`, with the date strings it computes. -/
def createTTYDocument (yesterday today tomorrow weekly monthly year : Option String)
    (dateStringFromType : TabsType → String) : List Entry :=
  pushEntry "yesterday" yesterday (dateStringFromType .yesterday) ++
  pushEntry "today" today (dateStringFromType .today) ++
  pushEntry "tomorrow" tomorrow (dateStringFromType .tomorrow) ++
  pushEntry "week" weekly (dateStringFromType .weekly) ++
  pushEntry "month" monthly (dateStringFromType .monthly) ++
  pushEntry "year" year (dateStringFromType .year)

end Server
end Horo
