/-
# `Json::StyledWriter`

`Components/jsoncpp/include/json_writer.cpp`.
-/
import Horo.Json.Value

namespace Horo
namespace Json

open Lib

/-! ### Texts of scalars -/

def isControlCharacter (c : Char) : Bool := 0 < c.toNat && c.toNat ≤ 0x1F

/-- How `valueToQuotedString` writes a character: a control character without
an escape of its own as four upper-case hexadecimal digits. -/
def quotedChar (c : Char) : List Char :=
  match c with
  | '"' => ['\\', '"']
  | '\\' => ['\\', '\\']
  | '\x08' => ['\\', 'b']
  | '\x0c' => ['\\', 'f']
  | '\n' => ['\\', 'n']
  | '\r' => ['\\', 'r']
  | '\t' => ['\\', 't']
  | c => if isControlCharacter c then
      ['\\', 'u', '0', '0', (c.toNat / 16).digitChar.toUpper, (c.toNat % 16).digitChar.toUpper]
    else [c]

def valueToQuotedString (value : String) : List Char :=
  '"' :: (cstr value).toList.flatMap quotedChar ++ ['"']

/-- What is written for a value without elements. -/
def scalarText : Value → List Char
  | .null => "null".toList
  | .int i => intDigits i
  | .uint n => intDigits n
  | .real d => d.print 16
  | .string s => valueToQuotedString s
  | .bool b => (Value.boolToString b).toList
  | .array _ => "[]".toList
  | .object _ => ['{', '}']

/-! ### The writer -/

/-- The members of `StyledWriter` that are written to while it works. -/
structure StyledWriter where
  document : List Char
  indentString : List Char

namespace StyledWriter

def rightMargin : ℕ := 74
def indentSize : ℕ := 3

def push (w : StyledWriter) (value : List Char) : StyledWriter :=
  { w with document := w.document ++ value }

def writeIndent (w : StyledWriter) : StyledWriter :=
  match w.document.getLast? with
  | none => w.push w.indentString
  | some ' ' => w
  | some '\n' => w.push w.indentString
  | some _ => w.push ('\n' :: w.indentString)

def writeWithIndent (w : StyledWriter) (value : List Char) : StyledWriter :=
  w.writeIndent.push value

def indent (w : StyledWriter) : StyledWriter :=
  { w with indentString := w.indentString ++ List.replicate indentSize ' ' }

def unindent (w : StyledWriter) : StyledWriter :=
  { w with indentString := w.indentString.rdrop indentSize }

/-- A child that takes lines of its own. -/
def takesLines : Value → Bool
  | .array xs => !xs.isEmpty
  | .object members => !members.isEmpty
  | _ => false

/-- `length()` of a `std::string`: a text is kept in UTF-8. -/
def byteLength (text : List Char) : ℕ := (text.map Char.utf8Size).sum

/-- `isMultineArray`: the array does not fit into a line. The texts of the
children are kept when only their length decides it. -/
def isMultineArray (xs : List Value) : Bool × List (List Char) :=
  if rightMargin ≤ xs.length * 3 || xs.any takesLines then (true, [])
  else
    let childValues := xs.map scalarText
    (rightMargin ≤ 4 + (xs.length - 1) * 2 + (childValues.map byteLength).sum, childValues)

/-- The texts of children, one a line. -/
def writeTexts (w : StyledWriter) : List (List Char) → StyledWriter
  | [] => w
  | [text] => w.writeWithIndent text
  | text :: texts => writeTexts ((w.writeWithIndent text).push [',']) texts

mutual

def writeValue (w : StyledWriter) : Value → StyledWriter
  | .array [] => w.push "[]".toList
  | .array (x :: xs) =>
    match isMultineArray (x :: xs) with
    | (true, []) =>
      (writeElements (w.writeWithIndent ['[']).indent (x :: xs)).unindent.writeWithIndent [']']
    | (true, childValues) =>
      (writeTexts (w.writeWithIndent ['[']).indent childValues).unindent.writeWithIndent [']']
    | (false, childValues) =>
      w.push ("[ ".toList ++ (childValues.intersperse ", ".toList).flatten ++ " ]".toList)
  | .object [] => w.push ['{', '}']
  | .object (m :: ms) =>
    (writeMembers (w.writeWithIndent ['{']).indent (m :: ms)).unindent.writeWithIndent ['}']
  | value => w.push (scalarText value)

def writeElements (w : StyledWriter) : List Value → StyledWriter
  | [] => w
  | [x] => writeValue w.writeIndent x
  | x :: xs => writeElements ((writeValue w.writeIndent x).push [',']) xs

def writeMembers (w : StyledWriter) : List (String × Value) → StyledWriter
  | [] => w
  | [(name, child)] =>
    writeValue ((w.writeWithIndent (valueToQuotedString name)).push " : ".toList) child
  | (name, child) :: ms =>
    writeMembers ((writeValue
      ((w.writeWithIndent (valueToQuotedString name)).push " : ".toList) child).push [',']) ms

end

end StyledWriter

/-- `StyledWriter::write`, and `Value::toStyledString`. -/
def write (root : Value) : String :=
  String.ofList ((StyledWriter.writeValue ⟨[], []⟩ root).push ['\n']).document

/-- What is written of a value: of a text what a C string keeps of it. -/
def Value.cut : Value → Value
  | .string s => .string (cstr s)
  | v => v

/-- The members with what is written of their values. -/
def Members.cut (members : Members) : Members := members.map fun m => (m.1, m.2.cut)

theorem writeValue_cut (w : StyledWriter) (v : Value) : w.writeValue v.cut = w.writeValue v := by
  cases v with
  | string s =>
    have htext : scalarText (.string (cstr s)) = scalarText (.string s) := by
      rw [scalarText, scalarText, valueToQuotedString, valueToQuotedString, cstr_cstr]
    rw [Value.cut, StyledWriter.writeValue, StyledWriter.writeValue, htext]
    all_goals simp
  | _ => rfl

theorem writeMembers_cons_cons (w : StyledWriter) (name : String) (child : Value) (m : String × Value)
    (members : Members) : w.writeMembers ((name, child) :: m :: members) =
      ((StyledWriter.writeValue ((w.writeWithIndent (valueToQuotedString name)).push " : ".toList)
        child).push [',']).writeMembers (m :: members) := by
  rw [StyledWriter.writeMembers]
  simp

theorem writeMembers_cut : ∀ (members : Members) (w : StyledWriter),
    w.writeMembers members.cut = w.writeMembers members
  | [], _ => rfl
  | [(name, child)], w => by
    change w.writeMembers [(name, child.cut)] = _
    rw [StyledWriter.writeMembers, StyledWriter.writeMembers, writeValue_cut]
  | (name, child) :: m :: members, w => by
    change w.writeMembers ((name, child.cut) :: (m.1, m.2.cut) :: Members.cut members) = _
    rw [writeMembers_cons_cons, writeMembers_cons_cons, writeValue_cut]
    exact writeMembers_cut (m :: members) _

/-- Nothing after a NUL is written. -/
theorem write_cut (members : Members) : write (.object members.cut) = write (.object members) := by
  rcases members with _ | ⟨m, members⟩
  · rfl
  · have hcut := fun w => writeMembers_cut (m :: members) w
    change write (.object ((m.1, m.2.cut) :: Members.cut members)) = _
    rw [write, write, StyledWriter.writeValue, StyledWriter.writeValue]
    rw [← hcut]
    rfl

example : write (.object [("disabled", .bool false), ("time", .int 11)]) =
    "\x7b\n   \"disabled\" : false,\n   \"time\" : 11\n\x7d\n" := by decide

end Json
end Horo
