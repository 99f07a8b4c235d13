import ContentOverlay.Stream.Reader
import ContentOverlay.Stream.Writer
import ContentOverlay.Text.Base64
import ContentOverlay.Value.Text

/-!
# Property records

The persistent part of a property is its name, the kind of its values, and the values themselves,
which may also be absent.

## The byte form

```
record      := name, kind, values
name        := text
kind        := code, 4 bytes
values      := 00                           absent
             | 01, count: 4 bytes, text * count
text        := length: 4 bytes, UTF-8 bytes
```

Numbers stand with the highest byte first.  The text of a binary value is the Base64 form of its
payload, that of any other value its canonical text.

This file has the record itself and what can go wrong with its byte form: the part of the record at
which it happens, and the cause.
-/

set_option autoImplicit false

namespace ContentOverlay

/-- The persistent part of a property. -/
structure Record where
  name : Name
  kind : Kind
  /-- The values; `none` when they are absent, which is not the same as there being none. -/
  values : Option (List Value)

namespace Record

/-- Equality of records. -/
def equal (a b : Record) : Bool :=
  a.name == b.name && a.kind == b.kind && Value.equalSequences a.values b.values

/-! ## The byte form's constants -/

/-- The byte that says that the values are absent. -/
def absentTag : UInt8 := 0

/-- The byte that says that values follow. -/
def presentTag : UInt8 := 1

/-- `2 ^ 32`: the first count and the first text length that the byte form has no room for. -/
def countBound : Nat := 4294967296

/-- A number in four bytes, highest first. -/
def fourBytes (n : Nat) : List UInt8 :=
  [UInt8.ofNat (n / 16777216 % 256), UInt8.ofNat (n / 65536 % 256), UInt8.ofNat (n / 256 % 256),
    UInt8.ofNat (n % 256)]

/-- The number that bytes write, highest first. -/
def numberOf (bytes : List UInt8) : Nat := bytes.foldl (fun acc b => acc * 256 + b.toNat) 0

/-- A code in four bytes, negative ones counted down from `2 ^ 32`. -/
def codeBytes (code : Int) : List UInt8 := fourBytes (code % 4294967296).toNat

/-- The code in four bytes. -/
def codeOf (bytes : List UInt8) : Int :=
  let n := numberOf bytes
  if n < 2147483648 then n else (n : Int) - 4294967296

/-! ## What can go wrong -/

/-- The parts of a record at which something can go wrong. -/
inductive Part where
  | textLength
  | text
  | name
  | kind
  | valueBlock
  | valueCount
  /-- The values of the property of this name. -/
  | values (owner : Name)
  /-- The value at this index. -/
  | value (index : Nat) (owner : Name)
deriving DecidableEq

/-- What a part is called. -/
def Part.label : Part → String
  | textLength => "text length"
  | text => "text"
  | name => "property name"
  | kind => "property type"
  | valueBlock => "value block"
  | valueCount => "value count"
  | values owner => "values of " ++ owner.text
  | value index owner => s!"value {index} of " ++ owner.text

/-- What went wrong. -/
inductive Cause where
  /-- The source refused a read. -/
  | readRefused
  /-- The source ended inside a field of fixed size. -/
  | sourceEnded
  /-- The sink refused a write. -/
  | writeRefused
  /-- The sink took nothing. -/
  | nothingTaken
  /-- A length or a count that four bytes cannot hold. -/
  | tooLarge
  /-- The source ended inside a text. -/
  | truncated
  /-- A text is not UTF-8. -/
  | encoding (fault : Utf8.Fault)
  /-- The name's text is no name. -/
  | name (fault : Name.Fault)
  /-- No kind has this code. -/
  | unknownKind (code : Int)
  /-- Neither absent nor present. -/
  | unknownTag (tag : UInt8)
  /-- There are values of the undefined kind. -/
  | undefinedHoldsNothing
  /-- A value of another kind. -/
  | wrongKind (expected found : Kind)
  /-- A text is no value of the kind. -/
  | value (fault : Value.Fault)
  /-- A text is not Base64. -/
  | base64 (fault : Base64.Fault)
deriving DecidableEq

/-- The words of a two-digit hexadecimal byte. -/
def hexByte (b : UInt8) : String := "0x" ++ String.ofList (Hex.digits 2 b.toNat)

/-- The words for an error in a part of a record. -/
def describe (label : String) : String := "encoding error: " ++ label

/-- The words for a cause and for the causes below it, outermost first. -/
def Cause.messages : Cause → List String
  | readRefused => ["read refused"]
  | sourceEnded => ["failed to fill whole buffer"]
  | writeRefused => ["write refused"]
  | nothingTaken => ["failed to write whole buffer"]
  | tooLarge => ["out of range integral type conversion attempted"]
  | truncated => ["truncated text"]
  | encoding fault => [fault.message]
  | name fault => [fault.message]
  | unknownKind code => [s!"unknown property type code: {code}"]
  | unknownTag tag => ["unknown value-block tag " ++ hexByte tag]
  | undefinedHoldsNothing => ["property type UNDEFINED cannot hold values"]
  | wrongKind expected found => ["expected " ++ expected.label ++ " value, found " ++ found.label]
  | value fault => [fault.message]
  | base64 fault => [describe "base64", fault.message]

/-- An error in the byte form of a record. -/
structure Error where
  part : Part
  cause : Cause
deriving DecidableEq

/-- The words for an error. -/
def Error.message (e : Error) : String := describe e.part.label

end Record
end ContentOverlay
