/-
# The tree that gumbo makes of a page

What the parsers of the application use of `src/thirdparty/gumbo`: elements
with their attributes and children, and texts. Texts and values are C strings
where they are read.

* `preorder`: the nodes of a page, in document order.
-/
import Horo.Json.Value
import Mathlib.Data.List.Basic

namespace Horo
namespace Html

inductive GumboTag
  | a | i
  /-- A tag that no parser asks for, by its value. -/
  | other (value : ℕ)
  deriving DecidableEq, Repr

structure GumboAttribute where
  name : String
  value : String
  deriving DecidableEq, Repr

/-- What `v.element` is read as. -/
structure GumboElement where
  tag : GumboTag
  attributes : List GumboAttribute
  deriving DecidableEq, Repr

/-- A node, by its type: elements, texts, and what is neither (documents,
templates, comments, white space and character data). `v` is a union: `overlay`
is what `v.element` is read as where another member is set. Its tag is then the
length of a text in the source, its attributes lie behind the text. -/
inductive GumboNode
  | element (tag : GumboTag) (attributes : List GumboAttribute) (children : List GumboNode)
  | text (text : String) (overlay : GumboElement)
  | other (overlay : GumboElement)
  deriving Repr

/-- `v.element`, whatever the type of the node is. -/
def GumboNode.vElement : GumboNode → GumboElement
  | .element tag attributes _ => ⟨tag, attributes⟩
  | .text _ overlay | .other overlay => overlay

/-- `strcasecmp` is zero. -/
def strcaseEq (s t : String) : Bool :=
  ((Json.cstr s).toList.map Char.toLower) == ((Json.cstr t).toList.map Char.toLower)

/-- `gumbo_get_attribute`. -/
def getAttribute (attributes : List GumboAttribute) (name : String) : Option GumboAttribute :=
  attributes.find? fun attr => strcaseEq attr.name name

mutual

/-- The nodes that are reached from a node through elements, in document order. -/
def preorder : GumboNode → List GumboNode
  | .element tag attributes children => .element tag attributes children :: preorderAll children
  | .text text overlay => [.text text overlay]
  | .other overlay => [.other overlay]

def preorderAll : List GumboNode → List GumboNode
  | [] => []
  | child :: children => preorder child ++ preorderAll children

end

end Html
end Horo
