import ContentOverlay.Name
import ContentOverlay.Text.Hex

/-!
# Identities

A node is identified by a universally unique identifier of 128 bits, a property by its parent node
and its name, and the definition of a property by an opaque text.

An identifier is written with 32 lower-case digits in groups of 8, 4, 4, 4 and 12.  It is read in
either case, with or without the hyphens, and in the longer spellings with braces around it or
`urn:uuid:` in front, in either case too, which need the hyphens.
-/

set_option autoImplicit false

namespace ContentOverlay

/-! ## Nodes -/

/-- The identity of a node. -/
structure NodeId where
  bits : BitVec 128
deriving DecidableEq

namespace NodeId

/-- Where the hyphens stand: the lengths of the groups of digits. -/
def groups : List Nat := [8, 4, 4, 4, 12]

/-- Cuts digits into groups, with a hyphen between them. -/
def hyphenate : List Nat → List Char → List Char
  | [], _ => []
  | [n], ds => ds.take n
  | n :: ns, ds => ds.take n ++ '-' :: hyphenate ns (ds.drop n)

/-- The text of an identifier. -/
def text (id : NodeId) : String := String.ofList (hyphenate groups (Hex.digits 32 id.bits.toNat))

/-- The identifier of 32 hexadecimal digits. -/
def ofDigits? (ds : List Char) : Option NodeId :=
  if ds.length = 32 then (Hex.number? ds).map fun n => ⟨BitVec.ofNat 128 n⟩ else none

/-- The digits of a text that has hyphens exactly between the groups. -/
def dehyphenate? : List Nat → List Char → Option (List Char)
  | [], cs => if cs = [] then some [] else none
  | [n], cs => if cs.length = n then some cs else none
  | n :: ns, cs =>
    match cs.drop n with
    | '-' :: rest => (dehyphenate? ns rest).map (cs.take n ++ ·)
    | _ => none

/-- The identifier of a hyphenated text. -/
def ofHyphenated? (cs : List Char) : Option NodeId := (dehyphenate? groups cs).bind ofDigits?

/-- The rest of a text that begins with `start`. -/
def after? (start cs : List Char) : Option (List Char) :=
  if start.isPrefixOf cs then some (cs.drop start.length) else none

/-- The rest of a text that begins with `start`, which is in lower case, in either case. -/
def afterEither? (start cs : List Char) : Option (List Char) :=
  (after? start ((cs.take start.length).map Char.toLower)).map fun _ => cs.drop start.length

/-- Reads an identifier.  The length of the text decides the spelling. -/
def read? (text : String) : Option NodeId :=
  let cs := text.toList
  if cs.length = 32 then ofDigits? cs
  else if cs.length = 36 then ofHyphenated? cs
  else if cs.length = 38 then
    if cs.getLast? = some '}' then (after? ['{'] cs.dropLast).bind ofHyphenated? else none
  else if cs.length = 45 then (afterEither? "urn:uuid:".toList cs).bind ofHyphenated?
  else none

/-- The bytes of an identifier, first byte first. -/
def bytes (id : NodeId) : List UInt8 :=
  (List.range 16).map fun i => UInt8.ofNat (id.bits.toNat / Nat.pow 256 (15 - i) % 256)

/-- The identifier of sixteen bytes. -/
def ofBytes (bs : List UInt8) : NodeId :=
  ⟨BitVec.ofNat 128 (bs.foldl (fun acc b => acc * 256 + b.toNat) 0)⟩

/-- The version of an identifier, a number of four bits. -/
def version (id : NodeId) : Nat := id.bits.toNat / Nat.pow 2 76 % 16

/-- The variant of an identifier, a number of two bits. -/
def variant (id : NodeId) : Nat := id.bits.toNat / Nat.pow 2 62 % 4

/-- An identifier made of random bits: version 4, variant 2. -/
def ofRandom (random : BitVec 128) : NodeId :=
  let cleared := random &&& ~~~ (BitVec.ofNat 128 (15 * Nat.pow 2 76 + 3 * Nat.pow 2 62))
  ⟨cleared ||| BitVec.ofNat 128 (4 * Nat.pow 2 76 + 2 * Nat.pow 2 62)⟩

/-- Identifiers are ordered as numbers, which is the order of their bytes. -/
def sorted (ids : List NodeId) : List NodeId :=
  ids.mergeSort fun a b => a.bits.toNat ≤ b.bits.toNat

end NodeId

/-! ## Properties, items, definitions -/

/-- The identity of a property: its name under its parent node, if it has one. -/
structure PropertyId where
  parent : Option NodeId
  name : Name
deriving DecidableEq

/-- The text of a property's identity. -/
def PropertyId.text (id : PropertyId) : String :=
  (id.parent.map (·.text)).getD "" ++ "/" ++ id.name.text

/-- The identity of an item of the repository. -/
inductive ItemId where
  | node (id : NodeId)
  | property (id : PropertyId)
deriving DecidableEq

namespace ItemId

/-- The text of an item's identity. -/
def text : ItemId → String
  | node id => "node:" ++ id.text
  | property id => "property:" ++ id.text

/-- Whether the item is a node. -/
def isNode : ItemId → Bool
  | node _ => true
  | property _ => false

end ItemId

/-- The identity of a property definition. -/
structure DefinitionId where
  text : String
deriving DecidableEq

end ContentOverlay
