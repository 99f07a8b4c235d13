import Mathlib
import ContentOverlay.Proofs.Text.Base64
import ContentOverlay.Text.Utf8

/-!
# Base64, bit by bit

What the text of a payload is, without groups of bytes.  The bits of the payload are written one
behind the other, the highest of a byte first.  Six at a time they are the number of a letter, the
last ones filled up with zeros, and the letters are filled up with `=` to a multiple of four.
`standardText` says this.

`ofString_standardText` — the text that is written group by group is this text.  Three bytes are as
many bits as four letters, so a whole group in front changes nothing about the rest
(`standardChars_group`), and only a last group of one or two bytes is left.

Bits are numbered from the lowest, and `bitsOf` lists them from the highest.  Cutting such a list is
division by a power of two (`bitsOf_add`), which is where the arithmetic of the groups comes from.
-/

set_option autoImplicit false

namespace ContentOverlay
namespace Base64

/-! ## Bits -/

/-- The lowest `width` bits of a number, the highest of them first. -/
def bitsOf : Nat → Nat → List Bool
  | 0, _ => []
  | width + 1, n => n.testBit width :: bitsOf width n

/-- The number that has these bits, the highest first. -/
def ofBits : List Bool → Nat
  | [] => 0
  | bit :: bits => bit.toNat * 2 ^ bits.length + ofBits bits

@[simp] theorem length_bitsOf (width n : Nat) : (bitsOf width n).length = width := by
  induction width with
  | zero => rfl
  | succ width ih => rw [bitsOf, List.length_cons, ih]

theorem ofBits_bitsOf (width n : Nat) : ofBits (bitsOf width n) = n % 2 ^ width := by
  induction width with
  | zero => rw [pow_zero, Nat.mod_one]; rfl
  | succ width ih =>
    rw [bitsOf, ofBits, ih, length_bitsOf, Nat.toNat_testBit, Nat.mod_pow_succ, Nat.mul_comm,
      Nat.add_comm]

/-- The higher bits are those of the quotient. -/
theorem bitsOf_add (high low n : Nat) :
    bitsOf (high + low) n = bitsOf high (n / 2 ^ low) ++ bitsOf low n := by
  induction high with
  | zero => rw [Nat.zero_add]; rfl
  | succ high ih =>
    rw [Nat.succ_add, bitsOf, ih, bitsOf, Nat.testBit_div_two_pow, List.cons_append]

/-- Higher bits do not matter. -/
theorem bitsOf_mod {width k n : Nat} (h : width ≤ k) :
    bitsOf width (n % 2 ^ k) = bitsOf width n := by
  induction width with
  | zero => rfl
  | succ width ih =>
    rw [bitsOf, bitsOf, ih (by omega), Nat.testBit_mod_two_pow, decide_eq_true (by omega),
      Bool.true_and]

/-- Two lists of bits, one behind the other. -/
theorem bitsOf_append {high low m n : Nat} (h : n < 2 ^ low) :
    bitsOf high m ++ bitsOf low n = bitsOf (high + low) (m * 2 ^ low + n) := by
  have hpos := Nat.two_pow_pos low
  have hlow : bitsOf low (2 ^ low * m + n) = bitsOf low n := by
    rw [← bitsOf_mod le_rfl, Nat.mul_add_mod, Nat.mod_eq_of_lt h]
  rw [bitsOf_add, Nat.mul_comm, Nat.mul_add_div hpos, Nat.div_eq_of_lt h, Nat.add_zero, hlow]

/-! ## The text of a payload -/

/-- The bits of a payload. -/
def payloadBits (payload : List UInt8) : List Bool := payload.flatMap fun b => bitsOf 8 b.toNat

/-- The numbers of six bits each, the last bits filled up with zeros. -/
def sextets : List Bool → List Nat
  | [] => []
  | b₁ :: b₂ :: b₃ :: b₄ :: b₅ :: b₆ :: rest => ofBits [b₁, b₂, b₃, b₄, b₅, b₆] :: sextets rest
  | rest => [ofBits (rest ++ List.replicate (6 - rest.length) false)]

/-- The letters in the order of their numbers. -/
def alphabet : List Char :=
  "ABCDEFGHIJKLMNOPQRSTUVWXYZabcdefghijklmnopqrstuvwxyz0123456789+/".toList

/-- The letter of a number below 64. -/
def letter (n : Nat) : Char := alphabet.getD n '='

/-- The letters of a payload. -/
def letters (payload : List UInt8) : List Char :=
  (sextets (payloadBits payload)).map letter

/-- The characters of the padded Base64 text of a payload. -/
def standardChars (payload : List UInt8) : List Char :=
  letters payload ++ List.replicate ((4 - (letters payload).length % 4) % 4) '='

/-- **The padded Base64 text of a payload.** -/
def standardText (payload : List UInt8) : String := String.ofList (standardChars payload)

/-! ## Groups -/

/-- Six bits in front are the first number. -/
theorem sextets_bitsOf_append (n : Nat) (rest : List Bool) :
    sextets (bitsOf 6 n ++ rest) = n % 64 :: sextets rest :=
  congrArg (· :: sextets rest) (ofBits_bitsOf 6 n)

theorem replicate_false (count : Nat) : List.replicate count false = bitsOf count 0 := by
  induction count with
  | zero => rfl
  | succ count ih => rw [List.replicate_succ, ih, bitsOf, Nat.zero_testBit]

/-- Fewer than six bits are filled up. -/
theorem sextets_bitsOf {width : Nat} (h : 0 < width) (h' : width < 6) (n : Nat) :
    sextets (bitsOf width n) = [n % 2 ^ width * 2 ^ (6 - width)] := by
  have hlast : sextets (bitsOf width n) =
      [ofBits (bitsOf width n ++ List.replicate (6 - (bitsOf width n).length) false)] := by
    interval_cases width <;> rfl
  rw [hlast, length_bitsOf, replicate_false, bitsOf_append (Nat.two_pow_pos _), ofBits_bitsOf,
    Nat.add_zero, Nat.pow_add, Nat.mul_mod_mul_right]

/-- The bits of a byte end in the middle of a number, which takes its other bits from the next. -/
theorem bitsOf_two (a b : Nat) (hb : b < 256) :
    bitsOf 8 a ++ bitsOf 8 b = bitsOf 6 (a / 4) ++ (bitsOf 6 (a * 16 + b / 16) ++ bitsOf 4 b) := by
  have hab : bitsOf 2 a ++ bitsOf 4 (b / 16) = bitsOf 6 (a * 16 + b / 16) :=
    bitsOf_append (by omega)
  have ha : bitsOf 8 a = bitsOf 6 (a / 4) ++ bitsOf 2 a := bitsOf_add 6 2 a
  have hb : bitsOf 8 b = bitsOf 4 (b / 16) ++ bitsOf 4 b := bitsOf_add 4 4 b
  rw [ha, hb, ← hab]
  simp only [List.append_assoc]

/-- The bits of three bytes are those of four numbers. -/
theorem bitsOf_group (a b c : Nat) (hb : b < 256) (hc : c < 256) (rest : List Bool) :
    bitsOf 8 a ++ (bitsOf 8 b ++ (bitsOf 8 c ++ rest)) =
      bitsOf 6 (a / 4) ++ (bitsOf 6 (a * 16 + b / 16) ++
        (bitsOf 6 (b * 4 + c / 64) ++ (bitsOf 6 c ++ rest))) := by
  have hbc : bitsOf 4 b ++ bitsOf 2 (c / 64) = bitsOf 6 (b * 4 + c / 64) :=
    bitsOf_append (by omega)
  have hc : bitsOf 8 c = bitsOf 2 (c / 64) ++ bitsOf 6 c := bitsOf_add 2 6 c
  rw [← List.append_assoc, bitsOf_two a b hb, hc, ← hbc]
  simp only [List.append_assoc]

/-- Three bytes in front are four letters in front. -/
theorem letters_group (a b c : UInt8) (rest : List UInt8) :
    letters (a :: b :: c :: rest) =
      [a.toNat / 4, a.toNat % 4 * 16 + b.toNat / 16, b.toNat % 16 * 4 + c.toNat / 64,
        c.toNat % 64].map letter ++ letters rest := by
  have ha := a.toNat_lt
  have hb := b.toNat_lt
  have hc := c.toNat_lt
  rw [letters, payloadBits, List.flatMap_cons, List.flatMap_cons, List.flatMap_cons,
    bitsOf_group _ _ _ hb hc, sextets_bitsOf_append, sextets_bitsOf_append, sextets_bitsOf_append,
    sextets_bitsOf_append, show a.toNat / 4 % 64 = a.toNat / 4 by omega,
    show (a.toNat * 16 + b.toNat / 16) % 64 = a.toNat % 4 * 16 + b.toNat / 16 by omega,
    show (b.toNat * 4 + c.toNat / 64) % 64 = b.toNat % 16 * 4 + c.toNat / 64 by omega]
  rfl

theorem letters_two (a b : UInt8) :
    letters [a, b] =
      [a.toNat / 4, a.toNat % 4 * 16 + b.toNat / 16, b.toNat % 16 * 4].map letter := by
  have ha := a.toNat_lt
  have hb := b.toNat_lt
  rw [letters, payloadBits, List.flatMap_cons, List.flatMap_singleton, bitsOf_two _ _ hb,
    sextets_bitsOf_append, sextets_bitsOf_append, sextets_bitsOf (by decide) (by decide),
    show a.toNat / 4 % 64 = a.toNat / 4 by omega,
    show (a.toNat * 16 + b.toNat / 16) % 64 = a.toNat % 4 * 16 + b.toNat / 16 by omega]
  rfl

theorem letters_one (a : UInt8) :
    letters [a] = [a.toNat / 4, a.toNat % 4 * 16].map letter := by
  have ha := a.toNat_lt
  rw [letters, payloadBits, List.flatMap_singleton, bitsOf_add 6 2, sextets_bitsOf_append,
    sextets_bitsOf (by decide) (by decide), show a.toNat / 2 ^ 2 % 64 = a.toNat / 4 by omega]
  rfl

/-- A whole group in front changes nothing about the padding. -/
theorem standardChars_group (a b c : UInt8) (rest : List UInt8) :
    standardChars (a :: b :: c :: rest) =
      [a.toNat / 4, a.toNat % 4 * 16 + b.toNat / 16, b.toNat % 16 * 4 + c.toNat / 64,
        c.toNat % 64].map letter ++ standardChars rest := by
  rw [standardChars, letters_group, List.append_assoc, List.length_append, List.length_map]
  simp only [List.length_cons, List.length_nil, Nat.zero_add, Nat.reduceAdd, Nat.add_mod_left]
  rfl

/-! ## Bytes -/

theorem encodeChar_letter {n : Nat} (h : n < 64) :
    String.utf8EncodeChar (letter n) = [symbol n] := by
  revert n
  decide +kernel

theorem encode_letters_append {ns : List Nat} (h : ∀ n ∈ ns, n < 64) (cs : List Char) :
    Utf8.encode (ns.map letter ++ cs) = ns.map symbol ++ Utf8.encode cs := by
  induction ns with
  | nil => rfl
  | cons n ns ih =>
    rw [List.forall_mem_cons] at h
    rw [List.map_cons, List.cons_append, Utf8.encode, List.flatMap_cons, encodeChar_letter h.1]
    exact congrArg (symbol n :: ·) (ih h.2)

/-- **The text that is written is the text by bits.** -/
theorem ofString_standardText (payload : List UInt8) :
    Utf8.ofString (standardText payload) = groupwise payload := by
  rw [Utf8.ofString, standardText, String.toList_ofList]
  match payload with
  | a :: b :: c :: rest =>
    have ha := a.toNat_lt
    have hb := b.toNat_lt
    have hc := c.toNat_lt
    have ih := ofString_standardText rest
    rw [Utf8.ofString, standardText, String.toList_ofList] at ih
    rw [groupwise, quad_eq, ← ih, standardChars_group]
    exact encode_letters_append (by simp; omega) _
  | [a, b] =>
    have ha := a.toNat_lt
    have hb := b.toNat_lt
    rw [groupwise_of_length_lt (by simp), lastQuad_two, standardChars, letters_two]
    exact encode_letters_append (by simp; omega) ['=']
  | [a] =>
    have ha := a.toNat_lt
    rw [groupwise_of_length_lt (by simp), lastQuad_one, standardChars, letters_one]
    exact encode_letters_append (by simp; omega) ['=', '=']
  | [] => rfl

example : standardText [102, 111, 111, 98] = "Zm9vYg==" := by decide

end Base64
end ContentOverlay
