import ContentOverlay.Calendar.Rfc3339
import ContentOverlay.Decimal.Notation
import ContentOverlay.Text.Utf8
import ContentOverlay.Value.Basic

/-!
# Values as text

A value has a canonical text, and a text is read back as a value of a given kind.  Only a date that
has no local time has no text.  The readers accept more spellings than the writers use: a sign and
leading zeros, an exponent, other spellings of an identifier, a name without braces.

The text of a binary value is a rendering of its bytes as characters and need not read back.
-/

set_option autoImplicit false

namespace ContentOverlay
namespace Value

/-- The canonical text of a value, if it has one. -/
def text? : Value → Option String
  | string t => some t
  | binary payload => some (String.ofList (Utf8.decodeLossy payload))
  | long n => some (Decimal.writeInteger n)
  | double x => some x.write
  | date d => Rfc3339.write? d
  | boolean true => some "true"
  | boolean false => some "false"
  | name n => some n.text
  | path t => some t
  | reference id => some id.text

/-- A value together with its canonical text. -/
structure Shown where
  value : Value
  text : String

/-- A value with its text, if it has one. -/
def shown? (v : Value) : Option Shown := v.text?.map fun t => ⟨v, t⟩

/-- Some values with their texts, if each has one. -/
def allShown? : List Value → Option (List Shown)
  | [] => some []
  | v :: vs => do return (← v.shown?) :: (← allShown? vs)

/-- What is wrong with a text. -/
inductive Reason where
  | integer (fault : Decimal.IntegerFault)
  | double (fault : Binary64.Fault)
  | date (fault : Rfc3339.Fault)
  | boolean
  | name (fault : Name.Fault)
  | reference
  | undefined
deriving DecidableEq

/-- The words for a reason. -/
def Reason.message : Reason → String
  | integer fault => fault.message
  | double fault => fault.message
  | date fault => fault.message
  | boolean => "expected 'true' or 'false'"
  | name fault => fault.message
  | reference => "not a UUID"
  | undefined => "undefined type has no values"

/-- A text that is no value of a kind. -/
structure Fault where
  kind : Kind
  text : String
  reason : Reason
deriving DecidableEq

/-- The words for a refused text. -/
def Fault.message (f : Fault) : String :=
  "invalid " ++ f.kind.label ++ " value '" ++ f.text ++ "': " ++ f.reason.message

/-- Reads a truth value. -/
def readBoolean (text : String) : Except Reason Bool :=
  if text = "true" then .ok true else if text = "false" then .ok false else .error .boolean

/-- Reads a reference to a node. -/
def readReference (text : String) : Except Reason NodeId :=
  match NodeId.read? text with
  | some id => .ok id
  | none => .error .reference

/-- Reads a value of a kind, or says what is wrong. -/
def readBody (kind : Kind) (text : String) : Except Reason Value :=
  match kind with
  | .string => .ok (string text)
  | .binary => .ok (binary (Utf8.ofString text))
  | .long => ((Decimal.readInteger text).mapError .integer).map long
  | .double => ((Binary64.read text).mapError .double).map double
  | .date => ((Rfc3339.read text).mapError .date).map date
  | .boolean => (readBoolean text).map boolean
  | .name => ((Name.read text).mapError .name).map name
  | .path => .ok (path text)
  | .reference => (readReference text).map reference
  | .undefined => .error .undefined

/-- Reads a value of a kind. -/
def read (kind : Kind) (text : String) : Except Fault Value :=
  (readBody kind text).mapError fun reason => ⟨kind, text, reason⟩

end Value
end ContentOverlay
