import ContentOverlay.Config.Basic
import ContentOverlay.Identity
import ContentOverlay.Json.Basic
import ContentOverlay.Status
import ContentOverlay.Timestamp

/-!
# JSON forms

How the types of the library are written as JSON documents, and how they are read from them.

* A status or a kind is the name of its case: a string, or an object with that name as the only
  field and null in it.
* An identifier, a definition and a timestamp are what they wrap: a string, a string, an integer.
* A name, the identity of a property and a configuration are objects with a field for each part.
  Other fields are ignored.  They may also be arrays of their parts in order.
* The identity of an item is an object with one field, which says what the item is.

The reader of names takes the parts as they are.  It does not check them, unlike the reader of a
name's text.
-/

set_option autoImplicit false

namespace ContentOverlay

/-! ## Cases without content -/

namespace Json

/-- The name of a case that has no content. -/
def caseName? : Json → Option String
  | string name => some name
  | object [(name, null)] => some name
  | _ => none

/-- The one among some cases whose name a document gives. -/
def case? {α : Type} (all : List α) (name : α → String) (j : Json) : Option α :=
  j.caseName?.bind fun n => all.find? (name · == n)

end Json

namespace Status

/-- The name of a status in documents. -/
def caseName : Status → String
  | undefined => "Undefined"
  | existing => "Existing"
  | existingModified => "ExistingModified"
  | existingRemoved => "ExistingRemoved"
  | new => "New"
  | staleModified => "StaleModified"
  | staleDestroyed => "StaleDestroyed"

/-- The document of a status. -/
def toJson (s : Status) : Json := .string s.caseName

/-- The status of a document. -/
def ofJson? (j : Json) : Option Status := j.case? all caseName

end Status

namespace Kind

/-- The document of a kind. -/
def toJson (k : Kind) : Json := .string k.label

/-- The kind of a document. -/
def ofJson? (j : Json) : Option Kind := j.case? all label

end Kind

/-! ## Wrapped texts and numbers -/

namespace NodeId

/-- The document of an identifier. -/
def toJson (id : NodeId) : Json := .string id.text

/-- The identifier of a document, in any of its spellings. -/
def ofJson? (j : Json) : Option NodeId := j.text?.bind read?

end NodeId

namespace DefinitionId

/-- The document of a definition's identity. -/
def toJson (d : DefinitionId) : Json := .string d.text

/-- The definition's identity of a document. -/
def ofJson? (j : Json) : Option DefinitionId := j.text?.map DefinitionId.mk

end DefinitionId

namespace Timestamp

/-- The document of a timestamp. -/
def toJson (t : Timestamp) : Json := .ofInt t.millis.toNat

/-- The timestamp of a document. -/
def ofJson? (j : Json) : Option Timestamp := (j.below? Json.wordBound).map fun n => ⟨UInt64.ofNat n⟩

end Timestamp

/-! ## Parts with names -/

namespace Name

/-- The document of a name. -/
def toJson (n : Name) : Json :=
  .object [("namespace_uri", .string n.uri), ("local_name", .string n.localPart)]

/-- The name of a document. -/
def ofJson? : Json → Option Name
  | .object fields => do
    let uri ← (← Json.field? fields "namespace_uri").text?
    return ⟨uri, ← (← Json.field? fields "local_name").text?⟩
  | .array [uri, localPart] => do return ⟨← uri.text?, ← localPart.text?⟩
  | _ => none

end Name

namespace PropertyId

/-- The parent in a document, which may be null. -/
def parentOfJson? : Json → Option (Option NodeId)
  | .null => some none
  | j => (NodeId.ofJson? j).map some

/-- The document of a property's identity. -/
def toJson (id : PropertyId) : Json :=
  .object [("parent", (id.parent.map NodeId.toJson).getD .null), ("name", id.name.toJson)]

/-- The property's identity of a document.  A parent that is not mentioned is none. -/
def ofJson? : Json → Option PropertyId
  | .object fields => do
    let parent ← parentOfJson? ((Json.field? fields "parent").getD .null)
    return ⟨parent, ← Name.ofJson? (← Json.field? fields "name")⟩
  | .array [parent, name] => do return ⟨← parentOfJson? parent, ← Name.ofJson? name⟩
  | _ => none

end PropertyId

namespace ItemId

/-- The document of an item's identity. -/
def toJson : ItemId → Json
  | node id => .object [("Node", id.toJson)]
  | property id => .object [("Property", id.toJson)]

/-- The item's identity of a document. -/
def ofJson? : Json → Option ItemId
  | .object [("Node", j)] => (NodeId.ofJson? j).map node
  | .object [("Property", j)] => (PropertyId.ofJson? j).map property
  | _ => none

end ItemId

namespace Config

/-- The base version in a document, or the default one when it is missing. -/
def baseVersionOfJson? : Option Json → Option String
  | none => some default.baseVersion
  | some j => j.text?

/-- The buffer size in a document, or the default one when it is missing. -/
def capacityOfJson? : Option Json → Option Nat
  | none => some default.capacity
  | some j => j.below? Json.wordBound

/-- The document of a configuration. -/
def toJson (c : Config) : Json :=
  .object [("initial_base_version", .string c.baseVersion),
    ("binary_buffer_capacity", .ofInt c.capacity)]

/-- The configuration of a document, which need not be one that may be used. -/
def ofJson? : Json → Option Config
  | .object fields => do
    let baseVersion ← baseVersionOfJson? (Json.field? fields "initial_base_version")
    return ⟨baseVersion, ← capacityOfJson? (Json.field? fields "binary_buffer_capacity")⟩
  | .array [] => some default
  | .array [baseVersion] => do
    return ⟨← baseVersionOfJson? (some baseVersion), ← capacityOfJson? none⟩
  | .array [baseVersion, capacity] => do
    return ⟨← baseVersionOfJson? (some baseVersion), ← capacityOfJson? (some capacity)⟩
  | _ => none

end Config
end ContentOverlay
