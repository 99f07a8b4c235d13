import ContentOverlay.Calendar.DateTime
import ContentOverlay.Decimal.Binary64
import ContentOverlay.Identity
import ContentOverlay.Value.Kind

/-!
# Values

A value is a text, a payload of bytes, a number, a date, a truth value, a name, a path or a
reference to a node.

Values are compared as the domain compares them: a NaN differs from itself, the two zeros are equal,
and two dates are equal when they denote the same instant, whatever their offsets.
-/

set_option autoImplicit false

namespace ContentOverlay

/-- A value of a property. -/
inductive Value where
  | string (text : String)
  | binary (payload : List UInt8)
  | long (number : Int64)
  | double (number : Binary64)
  | date (moment : DateTime)
  | boolean (truth : Bool)
  | name (name : Name)
  | path (text : String)
  | reference (target : NodeId)

namespace Value

/-- The kind of a value. -/
def kind : Value → Kind
  | string _ => .string
  | binary _ => .binary
  | long _ => .long
  | double _ => .double
  | date _ => .date
  | boolean _ => .boolean
  | name _ => .name
  | path _ => .path
  | reference _ => .reference

/-- Equality of values. -/
def equal : Value → Value → Bool
  | string a, string b => a == b
  | binary a, binary b => a == b
  | long a, long b => a == b
  | double a, double b => a.equal b
  | date a, date b => a.sameInstant b
  | boolean a, boolean b => a == b
  | name a, name b => a == b
  | path a, path b => a == b
  | reference a, reference b => a == b
  | _, _ => false

/-- Equality of sequences of values: equal lengths and equal members. -/
def equalAll : List Value → List Value → Bool
  | [], [] => true
  | a :: as, b :: bs => a.equal b && equalAll as bs
  | _, _ => false

/-- Equality of optional sequences.  An absent sequence differs from an empty one. -/
def equalSequences : Option (List Value) → Option (List Value) → Bool
  | none, none => true
  | some a, some b => equalAll a b
  | _, _ => false

end Value

/-! ## Payloads as streams -/

/-- A stream over a payload: what is still to be read. -/
structure PayloadStream where
  rest : List UInt8

namespace PayloadStream

/-- Reads up to `count` bytes. -/
def read (s : PayloadStream) (count : Nat) : List UInt8 × PayloadStream :=
  (s.rest.take count, ⟨s.rest.drop count⟩)

/-- What successive reads of these sizes give. -/
def readEach (s : PayloadStream) : List Nat → List (List UInt8)
  | [] => []
  | n :: ns => (s.read n).1 :: (s.read n).2.readEach ns

/-- Reads everything that is left, in chunks of `size` bytes and of at least one. -/
def chunks (size : Nat) (s : PayloadStream) : List (List UInt8) := go [] s.rest
where
  /-- The chunks so far, last one first. -/
  go (acc : List (List UInt8)) : List UInt8 → List (List UInt8)
    | [] => acc.reverse
    | b :: bytes => go ((b :: bytes.take (size - 1)) :: acc) (bytes.drop (size - 1))
  termination_by bytes => bytes.length

end PayloadStream

/-- A short description of a payload, for places where its bytes would be too many. -/
def payloadSummary (payload : List UInt8) : String := s!"BinaryValue({payload.length} bytes)"

end ContentOverlay
