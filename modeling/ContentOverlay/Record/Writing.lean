import ContentOverlay.Record.Basic

/-!
# Writing records

A record is written as a list of fields, one after the other, each completely before the next.  The
kinds of all values are checked before anything is written; what else can fail shows up at its place
among the fields.

## What is here

* `textOf?` — the bytes that stand for a value.
* `fields` — the fields of a record in order, up to the first that cannot be produced.
* `encode` — the fields written to a writer.
* `bytes` — the byte form itself, where there is one.

Two things break the operation off without being an error of the record.  The text of a binary value
is built in a buffer whose first size is chosen by the caller, and no buffer can have some sizes:
that is `Failure.bufferTooLarge`.  A date without a local time has no text: `Failure.noText`.
-/

set_option autoImplicit false

namespace ContentOverlay
namespace Record

/-- How writing a record can fail. -/
inductive Failure where
  /-- An error that is reported to the caller. -/
  | error (e : Error)
  /-- The caller asked for a buffer larger than any can be. -/
  | bufferTooLarge
  /-- A value has no text. -/
  | noText
deriving DecidableEq

/-- The first buffer size for the text of binary values, unless the caller chooses another. -/
def defaultCapacity : Nat := 32 * 1024

/-- `2 ^ 63`: the first buffer size that is impossible. -/
def capacityBound : Nat := 9223372036854775808

/-- How many bytes of a payload are encoded at a time. -/
def copySize : Nat := 8192

/-- The text of a payload, which is encoded while it is read from its stream. -/
def payloadText (payload : List UInt8) : List UInt8 :=
  Base64.encodeChunks (PayloadStream.chunks copySize ⟨payload⟩)

/-- The bytes of a value's text, if it has one. -/
def textOf? : Value → Option (List UInt8)
  | .binary payload => some (payloadText payload)
  | v => v.text?.map Utf8.ofString

/-! ## The check before -/

/-- The first value that is not of the given kind, as an error. -/
def firstStranger (name : Name) (kind : Kind) (index : Nat) : List Value → Option Error
  | [] => none
  | v :: vs =>
    if v.kind = kind then firstStranger name kind (index + 1) vs
    else some ⟨.value index name, .wrongKind kind v.kind⟩

/-- What is wrong with the kinds of the values. -/
def kindError? (r : Record) : Option Error :=
  match r.values with
  | none => none
  | some values =>
    if r.kind = .undefined ∧ !values.isEmpty then some ⟨.values r.name, .undefinedHoldsNothing⟩
    else firstStranger r.name r.kind 0 values

/-! ## The fields -/

/-- A field of the byte form: its bytes, or the reason why there are none. -/
inductive Field where
  | bytes (part : Part) (data : List UInt8)
  | failure (why : Failure)
deriving DecidableEq

/-- A number of at most four bytes. -/
def numberField (part : Part) (n : Nat) : Field :=
  if n < countBound then .bytes part (fourBytes n) else .failure (.error ⟨part, .tooLarge⟩)

/-- A text with its length in front. -/
def textFields (text : List UInt8) : List Field :=
  [numberField .textLength text.length, .bytes .text text]

/-- A value, given the first buffer size for binary ones. -/
def valueFields (capacity : Nat) (v : Value) : List Field :=
  if v.kind = .binary ∧ capacityBound ≤ capacity then [.failure .bufferTooLarge]
  else
    match textOf? v with
    | some text => textFields text
    | none => [.failure .noText]

/-- The fields of a record whose values are of its kind. -/
def bodyFields (capacity : Nat) (r : Record) : List Field :=
  textFields (Utf8.ofString r.name.text) ++ .bytes .kind (codeBytes r.kind.code) ::
    match r.values with
    | none => [.bytes .valueBlock [absentTag]]
    | some values =>
      .bytes .valueBlock [presentTag] :: numberField .valueCount values.length ::
        values.flatMap (valueFields capacity)

/-- The fields of a record in order. -/
def fields (capacity : Nat) (r : Record) : List Field :=
  match r.kindError? with
  | some e => [.failure (.error e)]
  | none => bodyFields capacity r

/-! ## Writing the fields -/

/-- What a writer's fault means for a record. -/
def writeCause : Writer.Fault → Cause
  | .refused => .writeRefused
  | .tookNothing => .nothingTaken

/-- Writes fields in order, up to the first that fails. -/
def writeFields : List Field → Writer → Except Failure Unit × Writer
  | [], w => (.ok (), w)
  | .failure why :: _, w => (.error why, w)
  | .bytes part data :: rest, w =>
    match w.writeAll data with
    | (.ok (), w) => writeFields rest w
    | (.error fault, w) => (.error (.error ⟨part, writeCause fault⟩), w)

/-- Writes a record, with a first size of the buffer for binary values. -/
def encode (capacity : Nat) (r : Record) (w : Writer) : Except Failure Unit × Writer :=
  writeFields (fields capacity r) w

/-- The byte form of a record, or why it has none. -/
def bytes (capacity : Nat) (r : Record) : Except Failure (List UInt8) :=
  match encode capacity r Writer.unlimited with
  | (.ok (), w) => .ok w.bytes
  | (.error why, _) => .error why

end Record
end ContentOverlay
