import ContentOverlay.Record.Basic

/-!
# Reading records

A record is read field by field from a reader, and no byte beyond its last field is touched.  The
first thing that goes wrong ends the reading, and the reader stays where it was noticed.

Each step gives its result together with the reader after it, also when it fails.
-/

set_option autoImplicit false

namespace ContentOverlay
namespace Record

/-- A step of reading: a result or an error, and the reader after it. -/
abbrev Reading (α : Type) := ExceptT Error (StateM Reader) α

/-- What a reader's fault means for a record. -/
def readCause : Reader.Fault → Cause
  | .refused => .readRefused
  | .ended => .sourceEnded

/-- Reads with a method of the reader, for a part of the record. -/
def reading (part : Part) (method : Reader → Except Reader.Fault (List UInt8) × Reader) :
    Reading (List UInt8) := fun r =>
  match method r with
  | (.ok bytes, r) => (.ok bytes, r)
  | (.error fault, r) => (.error ⟨part, readCause fault⟩, r)

/-- Goes on with a result, or fails with the cause in a part of the record. -/
def expect {α : Type} (part : Part) : Except Cause α → Reading α
  | .ok a => pure a
  | .error cause => throw ⟨part, cause⟩

/-- Reads a field of fixed size. -/
def readFixed (part : Part) (size : Nat) : Reading (List UInt8) :=
  reading part (Reader.readExactly · size)

/-- Reads a text as bytes. -/
def readTextBytes : Reading (List UInt8) := do
  let length := numberOf (← readFixed .textLength 4)
  let bytes ← reading .text (Reader.readUpTo · length)
  if bytes.length = length then return bytes else throw ⟨.text, .truncated⟩

/-- Reads a text. -/
def readText : Reading String := do
  expect .text ((Utf8.toString? (← readTextBytes)).mapError .encoding)

/-- The value that a text stands for. -/
def valueOf (kind : Kind) (text : String) : Except Cause Value :=
  if kind = .binary then ((Base64.decode (Utf8.ofString text)).map .binary).mapError .base64
  else (Value.read kind text).mapError .value

/-- Reads `count` values, the first of them having the given index; `acc` holds those before, last
one first. -/
def readValues (name : Name) (kind : Kind) (index : Nat) (acc : List Value) :
    (count : Nat) → Reading (List Value)
  | 0 => pure acc.reverse
  | count + 1 => do
    let value ← expect (.value index name) (valueOf kind (← readText))
    readValues name kind (index + 1) (value :: acc) count

/-- Reads the name of a record. -/
def readName : Reading Name := do
  expect .name ((Name.read (← readText)).mapError .name)

/-- Reads the kind of a record. -/
def readKind : Reading Kind := do
  let code := codeOf (← readFixed .kind 4)
  match Kind.ofCode? code with
  | some kind => return kind
  | none => throw ⟨.kind, .unknownKind code⟩

/-- Reads the values of a record. -/
def readBlock (name : Name) (kind : Kind) : Reading (Option (List Value)) := do
  let tag := UInt8.ofNat (numberOf (← readFixed .valueBlock 1))
  if tag = absentTag then return none
  else if tag = presentTag then
    let count := numberOf (← readFixed .valueCount 4)
    return some (← readValues name kind 0 [] count)
  else throw ⟨.valueBlock, .unknownTag tag⟩

/-- Reads a record. -/
def readRecord : Reading Record := do
  let name ← readName
  let kind ← readKind
  return ⟨name, kind, ← readBlock name kind⟩

/-- Reads a record from a reader. -/
def decode (r : Reader) : Except Error Record × Reader := readRecord.run r

/-- Reads up to `count` records, each with the position after it, up to the first error. -/
def decodeMany (r : Reader) : (count : Nat) → List (Record × Nat) × Option Error × Reader
  | 0 => ([], none, r)
  | count + 1 =>
    match decode r with
    | (.error e, r) => ([], some e, r)
    | (.ok record, r) =>
      let (records, e, last) := decodeMany r count
      ((record, r.position) :: records, e, last)

end Record
end ContentOverlay
