/-!
# Base64 with padding

Binary payloads are stored as text: every three bytes become four symbols of a 64 letter alphabet,
and a last group of one or two bytes is filled up with `=`.

## What is here

* `Encoder` — writes a payload that arrives in chunks of any sizes.  At most two bytes wait for the
  rest of their group.  `encodeChunks` is the whole text.
* `decode` — the strict inverse.  It takes the padded form only: no missing or surplus padding, no
  unused bits, no other alphabet.

A refused text is told by its first fault (`Fault`): the offset of a byte that may not stand there,
the last symbol when it holds bits of no byte, or one of the two ways in which the length is wrong.
Offsets count bytes of the text.
-/

set_option autoImplicit false

namespace ContentOverlay
namespace Base64

/-! ## The alphabet -/

/-- The symbol of six bits. -/
def symbol (n : Nat) : UInt8 :=
  if n < 26 then UInt8.ofNat (65 + n)
  else if n < 52 then UInt8.ofNat (97 + (n - 26))
  else if n < 62 then UInt8.ofNat (48 + (n - 52))
  else if n = 62 then 43
  else 47

/-- The six bits of a symbol. -/
def value? (b : UInt8) : Option Nat :=
  let n := b.toNat
  if 65 ≤ n ∧ n ≤ 90 then some (n - 65)
  else if 97 ≤ n ∧ n ≤ 122 then some (n - 97 + 26)
  else if 48 ≤ n ∧ n ≤ 57 then some (n - 48 + 52)
  else if n = 43 then some 62
  else if n = 47 then some 63
  else none

/-- The padding byte `=`. -/
def pad : UInt8 := 61

/-! ## Writing -/

/-- The four symbols of three bytes. -/
def quad (a b c : UInt8) : List UInt8 :=
  let n := a.toNat * 65536 + b.toNat * 256 + c.toNat
  [symbol (n / 262144), symbol (n / 4096 % 64), symbol (n / 64 % 64), symbol (n % 64)]

/-- The symbols and padding of a last group of fewer than three bytes. -/
def lastQuad : List UInt8 → List UInt8
  | [a] =>
    let n := a.toNat * 65536
    [symbol (n / 262144), symbol (n / 4096 % 64), pad, pad]
  | [a, b] =>
    let n := a.toNat * 65536 + b.toNat * 256
    [symbol (n / 262144), symbol (n / 4096 % 64), symbol (n / 64 % 64), pad]
  | _ => []

/-- A text under construction. -/
structure Encoder where
  /-- The symbols written so far, last one first. -/
  written : List UInt8
  /-- The bytes that wait for the rest of their group, fewer than three of them. -/
  waiting : List UInt8

namespace Encoder

/-- Nothing written yet. -/
def start : Encoder := ⟨[], []⟩

/-- Writes the whole groups of three at the front; what is left over waits. -/
def groups (written : List UInt8) : List UInt8 → Encoder
  | a :: b :: c :: rest => groups ((quad a b c).reverse ++ written) rest
  | rest => ⟨written, rest⟩

/-- Takes the next chunk of the payload. -/
def feed (e : Encoder) (chunk : List UInt8) : Encoder := groups e.written (e.waiting ++ chunk)

/-- The finished text. -/
def finish (e : Encoder) : List UInt8 := (lastQuad e.waiting).reverse ++ e.written |>.reverse

end Encoder

/-- The text of a payload that arrives in these chunks. -/
def encodeChunks (chunks : List (List UInt8)) : List UInt8 :=
  (chunks.foldl Encoder.feed Encoder.start).finish

/-! ## Reading -/

/-- Why a text is refused. -/
inductive Fault where
  /-- A byte that may not stand at this offset. -/
  | byte (offset : Nat) (value : UInt8)
  /-- The last symbol holds bits that belong to no byte. -/
  | lastSymbol (offset : Nat) (value : UInt8)
  /-- One symbol is left over, which is less than a byte. -/
  | remainder
  /-- Too little padding. -/
  | padding
deriving DecidableEq

/-- The words for a fault. -/
def Fault.message : Fault → String
  | .byte offset value => s!"Invalid byte {value}, offset {offset}."
  | .lastSymbol offset value => s!"Invalid last symbol {value}, offset {offset}."
  | .remainder => "Encoded text cannot have a 6-bit remainder."
  | .padding => "Invalid padding"

/-- The symbols up to the first padding byte, as six-bit values with the last one first, and what
stands from that byte on.  The fault is the first byte outside the alphabet. -/
def symbols (text : List UInt8) : Except Fault (List Nat × List UInt8) := go 0 [] text
where
  /-- The offset of the next byte and the values so far, last one first. -/
  go (offset : Nat) (acc : List Nat) : List UInt8 → Except Fault (List Nat × List UInt8)
    | [] => .ok (acc, [])
    | b :: rest =>
      if b = pad then .ok (acc, b :: rest)
      else match value? b with
        | none => .error (.byte offset b)
        | some v => go (offset + 1) (v :: acc) rest

/-- The bytes of a list of six-bit values; bits beyond the last whole byte are dropped. -/
def bytesOf (values : List Nat) : List UInt8 := go [] values
where
  /-- The bytes so far, last one first. -/
  go (acc : List UInt8) : List Nat → List UInt8
    | a :: b :: c :: d :: rest =>
      let n := a * 262144 + b * 4096 + c * 64 + d
      let (x, y, z) := (UInt8.ofNat (n / 65536), UInt8.ofNat (n / 256 % 256), UInt8.ofNat (n % 256))
      go (z :: y :: x :: acc) rest
    | [a, b, c] =>
      let n := a * 4096 + b * 64 + c
      (UInt8.ofNat (n / 4 % 256) :: UInt8.ofNat (n / 1024) :: acc).reverse
    | [a, b] => (UInt8.ofNat ((a * 64 + b) / 16) :: acc).reverse
    | _ => acc.reverse

/-- How many of the low bits of the last of `count` symbols belong to no byte, as the power of two
that counts their patterns. -/
def unusedPatterns (count : Nat) : Nat :=
  if count % 4 = 2 then 16 else if count % 4 = 3 then 4 else 1

/-- The payload of a text, or the first fault.  A length that leaves one symbol over is told first,
unless the very last byte is no symbol at all. -/
def decode (text : List UInt8) : Except Fault (List UInt8) := do
  let length := text.length
  if length % 4 = 1 then
    match text.getLast? with
    | some b => if b ≠ pad ∧ value? b = none then throw (.byte (length - 1) b) else throw .remainder
    | none => throw .remainder
  let (reversed, tail) ← symbols text
  let count := reversed.length
  if tail ≠ [] ∧ (count % 4 < 2 ∨ 4 < count % 4 + tail.length ∨ tail.any (· ≠ pad)) then
    throw (.byte count pad)
  if (count + tail.length) % 4 ≠ 0 then throw .padding
  match reversed with
  | last :: _ =>
    if last % unusedPatterns count ≠ 0 then throw (.lastSymbol (count - 1) (symbol last))
  | [] => pure ()
  return bytesOf reversed.reverse

end Base64
end ContentOverlay
