/-
# The dictionaries of Foundation

`Categories/NSDictionary+Horo.mm`: what `horo_jsonValue` makes of a dictionary.
A dictionary has its entries in the order of `allKeys`, whatever it is.

Key definitions: `jsonValue`, `NSValue.Plain`.
Key theorem: `get_jsonValue`.
-/
import Horo.Json.Value

namespace Horo
namespace Json

/-- What of Foundation stands in a property list; bytes are left out, which the
code does not copy. -/
inductive NSValue
  | string (s : String)
  /-- A number or a bool, by its `integerValue`. -/
  | number (integerValue : Int64)
  | dictionary (entries : List (String × NSValue))
  /-- An array or a null. -/
  | other

/-- The entries of a dictionary. -/
abbrev Entries := List (String × NSValue)

/-- What the members make up: in an empty dictionary nothing makes an object of
the root. -/
def ofMembers : Members → Value
  | [] => .null
  | member :: members => .object (member :: members)

mutual

/-- What is set for a value, if anything is. -/
def NSValue.json : NSValue → Option Value
  | .string s => some (.string (cstr s))
  | .number integerValue => some (.int (Int32.ofInt integerValue.toInt).toInt)
  | .dictionary entries => some (ofMembers (setEntries entries []))
  | .other => none

/-- The loop, with what is set so far. -/
def setEntries : Entries → Members → Members
  | [], root => root
  | (key, value) :: entries, root =>
    setEntries entries
      (match value.json with
      | some v => Members.set root (cstr key) v
      | none => root)

end

mutual

/-- No key is taken for another one: `valueForKey:` takes one that begins with
`@` for a property, and jsoncpp cuts it at a NUL. -/
def NSValue.Plain : NSValue → Prop
  | .dictionary entries => PlainEntries entries
  | _ => True

def PlainEntries : Entries → Prop
  | [] => True
  | (key, value) :: entries =>
    (key.toList.head? ≠ some '@' ∧ (∀ e ∈ entries, cstr e.1 ≠ cstr key) ∧ value.Plain) ∧
      PlainEntries entries

end

end Json
end Horo
