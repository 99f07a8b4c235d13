/-!
# Text as UTF-8 bytes

Names, values and configuration files reach the library as bytes.  This file reads bytes as
characters and writes characters as bytes.

## What is here

* `piece` — the first piece of a non-empty byte string: a character, or a *bad start*, with what
  follows it.  A bad start is the longest beginning of a character that some character has, so its
  length is 1, 2 or 3; when the input ends inside a character the piece is *incomplete*.
* `pieces` — all of them, in order.
* `decode` — the characters, or the first fault with the index of its first byte.
* `decodeLossy` — the characters, with one replacement character for each bad piece.
* `encode` — the bytes of a list of characters.

Everything is a recursion on lists.  The loops that may run over long payloads carry an
accumulator, so that they run in constant stack.
-/

set_option autoImplicit false

namespace ContentOverlay
namespace Utf8

/-! ## One piece -/

/-- What the front of a byte string holds. -/
inductive Piece where
  /-- A whole character. -/
  | char (c : Char)
  /-- A bad start of this many bytes, which no continuation can mend. -/
  | invalid (length : Nat)
  /-- The input ends inside a character. -/
  | incomplete
deriving DecidableEq

/-- The bytes that continue a character: `80` to `BF`. -/
def isTail (b : UInt8) : Bool := 0x80 ≤ b && b ≤ 0xBF

/-- The second bytes that may follow the lead byte of a three or four byte character.  The narrowed
ranges after `E0` and `F0` exclude overlong forms, the one after `ED` the surrogates, and the one
after `F4` what lies beyond the last character. -/
def isSecond (lead b : UInt8) : Bool :=
  if lead = 0xE0 then 0xA0 ≤ b && b ≤ 0xBF
  else if lead = 0xED then 0x80 ≤ b && b ≤ 0x9F
  else if lead = 0xF0 then 0x90 ≤ b && b ≤ 0xBF
  else if lead = 0xF4 then 0x80 ≤ b && b ≤ 0x8F
  else isTail b

/-- The six payload bits of a continuation byte. -/
def tailBits (b : UInt8) : Nat := b.toNat % 64

/-- The first piece of the byte string `lead :: rest`, and what follows that piece. -/
def piece (lead : UInt8) (rest : List UInt8) : Piece × List UInt8 :=
  if lead < 0x80 then (.char (Char.ofNat lead.toNat), rest)
  else if lead < 0xC2 then (.invalid 1, rest)
  else if lead < 0xE0 then
    match rest with
    | [] => (.incomplete, [])
    | b :: rest₁ =>
      if isTail b then (.char (Char.ofNat ((lead.toNat - 0xC0) * 64 + tailBits b)), rest₁)
      else (.invalid 1, rest)
  else if lead < 0xF0 then
    match rest with
    | [] => (.incomplete, [])
    | b :: rest₁ =>
      if !isSecond lead b then (.invalid 1, rest)
      else match rest₁ with
        | [] => (.incomplete, [])
        | c :: rest₂ =>
          if isTail c then
            (.char (Char.ofNat (((lead.toNat - 0xE0) * 64 + tailBits b) * 64 + tailBits c)), rest₂)
          else (.invalid 2, rest₁)
  else if lead < 0xF5 then
    match rest with
    | [] => (.incomplete, [])
    | b :: rest₁ =>
      if !isSecond lead b then (.invalid 1, rest)
      else match rest₁ with
        | [] => (.incomplete, [])
        | c :: rest₂ =>
          if !isTail c then (.invalid 2, rest₁)
          else match rest₂ with
            | [] => (.incomplete, [])
            | d :: rest₃ =>
              if isTail d then
                (.char (Char.ofNat ((((lead.toNat - 0xF0) * 64 + tailBits b) * 64 + tailBits c) * 64
                  + tailBits d)), rest₃)
              else (.invalid 3, rest₂)
  else (.invalid 1, rest)

/-- A piece takes at least the lead byte. -/
theorem piece_snd_length_le (lead : UInt8) (rest : List UInt8) :
    (piece lead rest).2.length ≤ rest.length := by
  unfold piece
  repeat' split
  all_goals simp_all <;> omega

/-! ## Reading -/

/-- The pieces of a byte string, in order. -/
def pieces (bytes : List UInt8) : List Piece := go [] bytes
where
  /-- The pieces found so far, last one first, and the bytes still to read. -/
  go (acc : List Piece) : List UInt8 → List Piece
    | [] => acc.reverse
    | b :: rest => go ((piece b rest).1 :: acc) (piece b rest).2
  termination_by bytes => bytes.length
  decreasing_by exact Nat.lt_succ_of_le (piece_snd_length_le b rest)

/-- The first place where bytes stop being text. -/
structure Fault where
  /-- The index of the first byte of the bad piece. -/
  start : Nat
  /-- The length of the bad piece; `none` when the input ends inside a character. -/
  length : Option Nat
deriving DecidableEq

/-- The words for a fault. -/
def Fault.message (f : Fault) : String :=
  match f.length with
  | some n => s!"invalid utf-8 sequence of {n} bytes from index {f.start}"
  | none => s!"incomplete utf-8 byte sequence from index {f.start}"

/-- The characters of a byte string, or its first fault. -/
def decode (bytes : List UInt8) : Except Fault (List Char) := go 0 [] (pieces bytes)
where
  /-- The index of the next piece, and the characters so far, last one first. -/
  go (index : Nat) (acc : List Char) : List Piece → Except Fault (List Char)
    | [] => .ok acc.reverse
    | .char c :: rest => go (index + c.utf8Size) (c :: acc) rest
    | .invalid n :: _ => .error ⟨index, some n⟩
    | .incomplete :: _ => .error ⟨index, none⟩

/-- The character that stands for bytes that are no text. -/
def replacement : Char := Char.ofNat 0xFFFD

/-- The characters of a byte string, each bad piece replaced by one replacement character. -/
def decodeLossy (bytes : List UInt8) : List Char :=
  (pieces bytes).map fun
    | .char c => c
    | _ => replacement

/-! ## Writing -/

/-- The bytes of a list of characters. -/
def encode (cs : List Char) : List UInt8 := cs.flatMap String.utf8EncodeChar

/-- The bytes of a text. -/
def ofString (s : String) : List UInt8 := encode s.toList

/-- The text of a byte string, or its first fault. -/
def toString? (bytes : List UInt8) : Except Fault String := (decode bytes).map String.ofList

end Utf8
end ContentOverlay
