import Mathlib
import ContentOverlay.Text.Utf8

/-!
# Bytes and texts correspond one to one

`Utf8.decode` goes through the pieces of a byte string; `Utf8.encode` writes one character after the
other.  This file shows that they are inverse to each other, and that nothing else is read.

* `piece_encodeChar` and `eq_encodeChar_of_piece` — the first piece is a character exactly if the
  bytes begin with the byte form of that character.
* `toString?_eq_ok_iff` — the payoff: bytes are read as a text exactly if they are its byte form.

The byte form of a character is a case split on its code (`encodeChar_eq`), the piece one on the
lead byte (`piece_eq_char`).  The two splits match, so each direction has four cases, and each case
is arithmetic on base 64 digits.
-/

set_option autoImplicit false

namespace ContentOverlay
namespace Utf8

/-! ## One character -/

theorem isTail_iff {b : UInt8} : isTail b = true ↔ 128 ≤ b.toNat ∧ b.toNat ≤ 191 := by
  rw [isTail, Bool.and_eq_true, decide_eq_true_eq, decide_eq_true_eq, UInt8.le_iff_toNat_le,
    UInt8.le_iff_toNat_le]
  rfl

theorem isSecond_iff {lead b : UInt8} : isSecond lead b = true ↔
    128 ≤ b.toNat ∧ b.toNat ≤ 191 ∧ (lead.toNat = 224 → 160 ≤ b.toNat) ∧
      (lead.toNat = 237 → b.toNat ≤ 159) ∧ (lead.toNat = 240 → 144 ≤ b.toNat) ∧
      (lead.toNat = 244 → b.toNat ≤ 143) := by
  simp only [isSecond, isTail, ← UInt8.toNat_inj, UInt8.reduceToNat]
  split_ifs <;>
    simp only [Bool.and_eq_true, decide_eq_true_eq, UInt8.le_iff_toNat_le, UInt8.reduceToNat] <;>
    omega

theorem toNat_ofNat {v : Nat} (h : v < 55296 ∨ (57343 < v ∧ v < 1114112)) :
    (Char.ofNat v).toNat = v := by
  rw [Char.ofNat, dif_pos h]
  rfl

/-- The byte form of a character, by the number of its bytes. -/
theorem encodeChar_eq (c : Char) : String.utf8EncodeChar c =
    if c.toNat < 128 then [UInt8.ofNat c.toNat]
    else if c.toNat < 2048 then
      [UInt8.ofNat (c.toNat / 64 + 192), UInt8.ofNat (c.toNat % 64 + 128)]
    else if c.toNat < 65536 then
      [UInt8.ofNat (c.toNat / 4096 + 224), UInt8.ofNat (c.toNat / 64 % 64 + 128),
        UInt8.ofNat (c.toNat % 64 + 128)]
    else
      [UInt8.ofNat (c.toNat / 262144 + 240), UInt8.ofNat (c.toNat / 4096 % 64 + 128),
        UInt8.ofNat (c.toNat / 64 % 64 + 128), UInt8.ofNat (c.toNat % 64 + 128)] := by
  have hmax : c.toNat < 55296 ∨ (57343 < c.toNat ∧ c.toNat < 1114112) := c.valid
  rw [String.utf8EncodeChar]
  simp only [show c.val.toNat = c.toNat from rfl, ← Nat.lt_succ_iff, Nat.succ_eq_add_one]
  split_ifs with h₁ h₂ h₃
  · rfl
  · rw [Nat.mod_eq_of_lt (show c.toNat / 64 < 32 by omega)]
  · rw [Nat.mod_eq_of_lt (show c.toNat / 4096 < 16 by omega)]
  · rw [Nat.mod_eq_of_lt (show c.toNat / 262144 < 8 by omega)]

theorem toNat_ofNat_of_lt {n : Nat} (h : n < 256) : (UInt8.ofNat n).toNat = n :=
  UInt8.toNat_ofNat'.trans (Nat.mod_eq_of_lt h)

/-! ### By the lead byte -/

/-- Where the lead bytes of the characters of one, two, three and four bytes end. -/
theorem lead_lt_iff (a : UInt8) : (a < 0x80 ↔ a.toNat < 128) ∧ (a < 0xC2 ↔ a.toNat < 194) ∧
    (a < 0xE0 ↔ a.toNat < 224) ∧ (a < 0xF0 ↔ a.toNat < 240) ∧ (a < 0xF5 ↔ a.toNat < 245) := by
  simp only [UInt8.lt_iff_toNat_lt, UInt8.reduceToNat, and_self]

section
variable {a : UInt8} (rest : List UInt8)

theorem piece_one (ha : a.toNat < 128) : piece a rest = (.char (Char.ofNat a.toNat), rest) := by
  rw [piece.eq_def, if_pos ((lead_lt_iff a).1.2 ha)]

theorem piece_of_two (ha : 194 ≤ a.toNat) (ha' : a.toNat < 224) : piece a rest =
    match rest with
    | [] => (.incomplete, [])
    | b :: rest₁ =>
      if isTail b then (.char (Char.ofNat ((a.toNat - 0xC0) * 64 + tailBits b)), rest₁)
      else (.invalid 1, rest) := by
  obtain ⟨h₁, h₂, h₃, -, -⟩ := lead_lt_iff a
  rw [piece.eq_def, if_neg (mt h₁.1 (by omega)), if_neg (mt h₂.1 (by omega))]
  exact if_pos (h₃.2 ha')

theorem piece_of_three (ha : 224 ≤ a.toNat) (ha' : a.toNat < 240) : piece a rest =
    match rest with
    | [] => (.incomplete, [])
    | b :: rest₁ =>
      if !isSecond a b then (.invalid 1, rest)
      else match rest₁ with
        | [] => (.incomplete, [])
        | c :: rest₂ =>
          if isTail c then
            (.char (Char.ofNat (((a.toNat - 0xE0) * 64 + tailBits b) * 64 + tailBits c)), rest₂)
          else (.invalid 2, rest₁) := by
  obtain ⟨h₁, h₂, h₃, h₄, -⟩ := lead_lt_iff a
  rw [piece.eq_def, if_neg (mt h₁.1 (by omega)), if_neg (mt h₂.1 (by omega)),
    if_neg (mt h₃.1 (by omega))]
  exact if_pos (h₄.2 ha')

theorem piece_of_four (ha : 240 ≤ a.toNat) (ha' : a.toNat < 245) : piece a rest =
    match rest with
    | [] => (.incomplete, [])
    | b :: rest₁ =>
      if !isSecond a b then (.invalid 1, rest)
      else match rest₁ with
        | [] => (.incomplete, [])
        | c :: rest₂ =>
          if !isTail c then (.invalid 2, rest₁)
          else match rest₂ with
            | [] => (.incomplete, [])
            | d :: rest₃ =>
              if isTail d then
                (.char (Char.ofNat ((((a.toNat - 0xF0) * 64 + tailBits b) * 64 + tailBits c) * 64
                  + tailBits d)), rest₃)
              else (.invalid 3, rest₂) := by
  obtain ⟨h₁, h₂, h₃, h₄, h₅⟩ := lead_lt_iff a
  rw [piece.eq_def, if_neg (mt h₁.1 (by omega)), if_neg (mt h₂.1 (by omega)),
    if_neg (mt h₃.1 (by omega)), if_neg (mt h₄.1 (by omega))]
  exact if_pos (h₅.2 ha')

theorem piece_of_none (ha : 128 ≤ a.toNat) (ha' : a.toNat < 194 ∨ 245 ≤ a.toNat) :
    piece a rest = (.invalid 1, rest) := by
  obtain ⟨h₁, h₂, h₃, h₄, h₅⟩ := lead_lt_iff a
  rw [piece.eq_def, if_neg (mt h₁.1 (by omega))]
  rcases ha' with hlt | hge
  · rw [if_pos (h₂.2 hlt)]
  · rw [if_neg (mt h₂.1 (by omega)), if_neg (mt h₃.1 (by omega)), if_neg (mt h₄.1 (by omega)),
      if_neg (mt h₅.1 (by omega))]

variable {b c d : UInt8}

theorem piece_two (ha : 194 ≤ a.toNat) (ha' : a.toNat < 224) (hb : isTail b = true) :
    piece a (b :: rest) = (.char (Char.ofNat ((a.toNat - 192) * 64 + b.toNat % 64)), rest) := by
  rw [piece_of_two _ ha ha']
  exact if_pos hb

theorem piece_three (ha : 224 ≤ a.toNat) (ha' : a.toNat < 240)
    (hb : isSecond a b = true) (hc : isTail c = true) :
    piece a (b :: c :: rest) = (.char (Char.ofNat
      (((a.toNat - 224) * 64 + b.toNat % 64) * 64 + c.toNat % 64)), rest) := by
  rw [piece_of_three _ ha ha']
  dsimp only
  rw [hb]
  exact if_pos hc

theorem piece_four (ha : 240 ≤ a.toNat) (ha' : a.toNat < 245)
    (hb : isSecond a b = true) (hc : isTail c = true) (hd : isTail d = true) :
    piece a (b :: c :: d :: rest) = (.char (Char.ofNat
      ((((a.toNat - 240) * 64 + b.toNat % 64) * 64 + c.toNat % 64) * 64 + d.toNat % 64)),
      rest) := by
  rw [piece_of_four _ ha ha']
  dsimp only
  rw [hb, hc]
  exact if_pos hd

end

section
variable {a : UInt8} {rest tail : List UInt8} {ch : Char} (h : piece a rest = (.char ch, tail))
include h

theorem eq_of_piece_two (ha : 194 ≤ a.toNat) (ha' : a.toNat < 224) :
    ∃ b, isTail b = true ∧ rest = b :: tail ∧
      ch = Char.ofNat ((a.toNat - 192) * 64 + b.toNat % 64) := by
  rw [piece_of_two _ ha ha'] at h
  cases rest with
  | nil => cases h
  | cons b rest =>
    dsimp only at h
    split at h
    · next hb =>
      cases h
      exact ⟨b, hb, rfl, rfl⟩
    · cases h

theorem eq_of_piece_three (ha : 224 ≤ a.toNat) (ha' : a.toNat < 240) :
    ∃ b c, isSecond a b = true ∧ isTail c = true ∧ rest = b :: c :: tail ∧
      ch = Char.ofNat (((a.toNat - 224) * 64 + b.toNat % 64) * 64 + c.toNat % 64) := by
  rw [piece_of_three _ ha ha'] at h
  cases rest with
  | nil => cases h
  | cons b rest =>
    dsimp only at h
    split at h
    · cases h
    next hb =>
    cases rest with
    | nil => cases h
    | cons c rest =>
      dsimp only at h
      split at h
      · next hc =>
        cases h
        exact ⟨b, c, by simpa using hb, hc, rfl, rfl⟩
      · cases h

theorem eq_of_piece_four (ha : 240 ≤ a.toNat) (ha' : a.toNat < 245) :
    ∃ b c d, isSecond a b = true ∧ isTail c = true ∧ isTail d = true ∧
      rest = b :: c :: d :: tail ∧ ch = Char.ofNat
        ((((a.toNat - 240) * 64 + b.toNat % 64) * 64 + c.toNat % 64) * 64 + d.toNat % 64) := by
  rw [piece_of_four _ ha ha'] at h
  cases rest with
  | nil => cases h
  | cons b rest =>
    dsimp only at h
    split at h
    · cases h
    next hb =>
    cases rest with
    | nil => cases h
    | cons c rest =>
      dsimp only at h
      split at h
      · cases h
      next hc =>
      cases rest with
      | nil => cases h
      | cons d rest =>
        dsimp only at h
        split at h
        · next hd =>
          cases h
          exact ⟨b, c, d, by simpa using hb, by simpa using hc, hd, rfl, rfl⟩
        · cases h

/-- The four ways in which a piece is a character. -/
theorem piece_eq_char :
    (a.toNat < 128 ∧ rest = tail ∧ ch = Char.ofNat a.toNat) ∨
    (∃ b, 194 ≤ a.toNat ∧ a.toNat < 224 ∧ isTail b = true ∧ rest = b :: tail ∧
      ch = Char.ofNat ((a.toNat - 192) * 64 + b.toNat % 64)) ∨
    (∃ b c, 224 ≤ a.toNat ∧ a.toNat < 240 ∧ isSecond a b = true ∧ isTail c = true ∧
      rest = b :: c :: tail ∧
      ch = Char.ofNat (((a.toNat - 224) * 64 + b.toNat % 64) * 64 + c.toNat % 64)) ∨
    (∃ b c d, 240 ≤ a.toNat ∧ a.toNat < 245 ∧ isSecond a b = true ∧ isTail c = true ∧
      isTail d = true ∧ rest = b :: c :: d :: tail ∧ ch = Char.ofNat
        ((((a.toNat - 240) * 64 + b.toNat % 64) * 64 + c.toNat % 64) * 64 + d.toNat % 64)) := by
  by_cases h₁ : a.toNat < 128
  · cases (piece_one rest h₁).symm.trans h
    exact .inl ⟨h₁, rfl, rfl⟩
  by_cases h₂ : a.toNat < 194 ∨ 245 ≤ a.toNat
  · cases (piece_of_none rest (by omega) h₂).symm.trans h
  by_cases h₃ : a.toNat < 224
  · obtain ⟨b, hb⟩ := eq_of_piece_two h (by omega) h₃
    exact .inr (.inl ⟨b, by omega, h₃, hb⟩)
  by_cases h₄ : a.toNat < 240
  · obtain ⟨b, c, hb⟩ := eq_of_piece_three h (by omega) h₄
    exact .inr (.inr (.inl ⟨b, c, by omega, h₄, hb⟩))
  · obtain ⟨b, c, d, hb⟩ := eq_of_piece_four h (by omega) (by omega)
    exact .inr (.inr (.inr ⟨b, c, d, by omega, by omega, hb⟩))

end

/-- The byte form of a character is read as that character. -/
theorem piece_encodeChar (c : Char) (rest : List UInt8) : ∃ a tail,
    String.utf8EncodeChar c = a :: tail ∧ piece a (tail ++ rest) = (.char c, rest) := by
  have hv : c.toNat < 55296 ∨ (57343 < c.toNat ∧ c.toNat < 1114112) := c.valid
  rw [encodeChar_eq]
  split_ifs with h₁ h₂ h₃
  · refine ⟨_, _, rfl, ?_⟩
    have ha := toNat_ofNat_of_lt (show c.toNat < 256 by omega)
    rw [List.nil_append, piece_one _ (by omega), ha, Char.ofNat_toNat]
  · refine ⟨_, _, rfl, ?_⟩
    have ha := toNat_ofNat_of_lt (show c.toNat / 64 + 192 < 256 by omega)
    have hb := toNat_ofNat_of_lt (show c.toNat % 64 + 128 < 256 by omega)
    rw [List.singleton_append, piece_two _ (by omega) (by omega) (isTail_iff.2 (by omega)), ha, hb,
      show (c.toNat / 64 + 192 - 192) * 64 + (c.toNat % 64 + 128) % 64 = c.toNat by omega,
      Char.ofNat_toNat]
  · refine ⟨_, _, rfl, ?_⟩
    have ha := toNat_ofNat_of_lt (show c.toNat / 4096 + 224 < 256 by omega)
    have hb := toNat_ofNat_of_lt (show c.toNat / 64 % 64 + 128 < 256 by omega)
    have hc := toNat_ofNat_of_lt (show c.toNat % 64 + 128 < 256 by omega)
    rw [List.cons_append, List.singleton_append, piece_three _ (by omega) (by omega)
      (isSecond_iff.2 (by omega)) (isTail_iff.2 (by omega)), ha, hb, hc,
      show ((c.toNat / 4096 + 224 - 224) * 64 + (c.toNat / 64 % 64 + 128) % 64) * 64 +
        (c.toNat % 64 + 128) % 64 = c.toNat by omega, Char.ofNat_toNat]
  · refine ⟨_, _, rfl, ?_⟩
    have ha := toNat_ofNat_of_lt (show c.toNat / 262144 + 240 < 256 by omega)
    have hb := toNat_ofNat_of_lt (show c.toNat / 4096 % 64 + 128 < 256 by omega)
    have hc := toNat_ofNat_of_lt (show c.toNat / 64 % 64 + 128 < 256 by omega)
    have hd := toNat_ofNat_of_lt (show c.toNat % 64 + 128 < 256 by omega)
    rw [List.cons_append, List.cons_append, List.singleton_append, piece_four _ (by omega)
      (by omega) (isSecond_iff.2 (by omega)) (isTail_iff.2 (by omega)) (isTail_iff.2 (by omega)),
      ha, hb, hc, hd,
      show (((c.toNat / 262144 + 240 - 240) * 64 + (c.toNat / 4096 % 64 + 128) % 64) * 64 +
        (c.toNat / 64 % 64 + 128) % 64) * 64 + (c.toNat % 64 + 128) % 64 = c.toNat by omega,
      Char.ofNat_toNat]

theorem ofNat_eq_of_toNat {a : UInt8} {n : Nat} (h : n = a.toNat) : UInt8.ofNat n = a := by
  rw [h, UInt8.ofNat_toNat]

/-- Only the byte form of a character is read as that character. -/
theorem eq_encodeChar_of_piece {a : UInt8} {rest tail : List UInt8} {ch : Char}
    (h : piece a rest = (.char ch, tail)) : a :: rest = String.utf8EncodeChar ch ++ tail := by
  rcases piece_eq_char h with ⟨ha, rfl, rfl⟩ | ⟨b, ha, ha', hb, rfl, rfl⟩ |
    ⟨b, c, ha, ha', hb, hc, rfl, rfl⟩ | ⟨b, c, d, ha, ha', hb, hc, hd, rfl, rfl⟩
  · rw [encodeChar_eq, toNat_ofNat (by omega), if_pos ha, UInt8.ofNat_toNat, List.singleton_append]
  · rw [isTail_iff] at hb
    rw [encodeChar_eq, toNat_ofNat (by omega), if_neg (by omega), if_pos (by omega),
      ofNat_eq_of_toNat (a := a) (by omega), ofNat_eq_of_toNat (a := b) (by omega)]
    rfl
  · rw [isSecond_iff] at hb
    rw [isTail_iff] at hc
    rw [encodeChar_eq, toNat_ofNat (by omega), if_neg (by omega), if_neg (by omega),
      if_pos (by omega), ofNat_eq_of_toNat (a := a) (by omega),
      ofNat_eq_of_toNat (a := b) (by omega),
      ofNat_eq_of_toNat (a := c) (by omega)]
    rfl
  · rw [isSecond_iff] at hb
    rw [isTail_iff] at hc hd
    rw [encodeChar_eq, toNat_ofNat (by omega), if_neg (by omega), if_neg (by omega),
      if_neg (by omega), ofNat_eq_of_toNat (a := a) (by omega),
      ofNat_eq_of_toNat (a := b) (by omega),
      ofNat_eq_of_toNat (a := c) (by omega), ofNat_eq_of_toNat (a := d) (by omega)]
    rfl

/-! ## Texts -/

theorem pieces_go (acc : List Piece) (bytes : List UInt8) :
    pieces.go acc bytes = acc.reverse ++ pieces bytes := by
  induction hn : bytes.length using Nat.strongRecOn generalizing acc bytes with
  | ind n ih =>
    cases bytes with
    | nil => rw [pieces, pieces.go, pieces.go, List.reverse_nil, List.append_nil]
    | cons b rest =>
      have hlt : (piece b rest).2.length < n := by
        rw [← hn]
        exact Nat.lt_succ_of_le (piece_snd_length_le b rest)
      rw [pieces, pieces.go, pieces.go, ih _ hlt _ _ rfl, ih _ hlt [_] _ rfl, List.reverse_cons,
        List.append_assoc, List.reverse_singleton]

theorem pieces_nil : pieces [] = [] := by
  rw [pieces, pieces.go, List.reverse_nil]

theorem pieces_cons (b : UInt8) (rest : List UInt8) :
    pieces (b :: rest) = (piece b rest).1 :: pieces (piece b rest).2 := by
  rw [pieces, pieces.go, pieces_go, List.reverse_singleton, List.singleton_append]

/-- The pieces of a byte string are characters exactly if it is the byte form of a text. -/
theorem pieces_eq_map_char_iff {bytes : List UInt8} {cs : List Char} :
    pieces bytes = cs.map .char ↔ bytes = encode cs := by
  induction cs generalizing bytes with
  | nil =>
    cases bytes with
    | nil => simp [pieces_nil, encode]
    | cons b rest => simp [pieces_cons, encode]
  | cons c cs ih =>
    rw [encode, List.flatMap_cons, ← encode, List.map_cons]
    refine ⟨?_, ?_⟩
    · intro h
      cases bytes with
      | nil => exact absurd h (by simp [pieces_nil])
      | cons b rest =>
        rw [pieces_cons, List.cons.injEq] at h
        rw [← ih.1 h.2]
        exact eq_encodeChar_of_piece (Prod.ext h.1 rfl)
    · rintro rfl
      obtain ⟨a, tail, hc, hp⟩ := piece_encodeChar c (encode cs)
      rw [hc, List.cons_append, pieces_cons, hp, ih.2 rfl]

theorem decode_go_eq_ok_iff {index : Nat} {acc : List Char} {ps : List Piece} {cs : List Char} :
    decode.go index acc ps = .ok cs ↔ ∃ ds, cs = acc.reverse ++ ds ∧ ps = ds.map .char := by
  induction ps generalizing index acc with
  | nil =>
    rw [decode.go, Except.ok.injEq]
    exact ⟨fun h => ⟨[], by simp [h]⟩, by rintro ⟨ds, rfl, h⟩; simpa using h.symm⟩
  | cons p ps ih =>
    cases p with
    | char c =>
      rw [decode.go, ih, List.reverse_cons]
      refine ⟨?_, ?_⟩
      · rintro ⟨ds, rfl, rfl⟩
        exact ⟨c :: ds, by simp, rfl⟩
      · rintro ⟨ds, rfl, h⟩
        cases ds with
        | nil => exact absurd h (by simp)
        | cons d ds =>
          rw [List.map_cons, List.cons.injEq, Piece.char.injEq] at h
          obtain ⟨rfl, rfl⟩ := h
          exact ⟨ds, by simp, rfl⟩
    | invalid n =>
      rw [decode.go]
      refine ⟨fun h => absurd h (by simp), ?_⟩
      rintro ⟨ds, -, h⟩
      cases ds <;> simp at h
    | incomplete =>
      rw [decode.go]
      refine ⟨fun h => absurd h (by simp), ?_⟩
      rintro ⟨ds, -, h⟩
      cases ds <;> simp at h

/-- **Bytes are read as a text exactly if they are its byte form.** -/
theorem decode_eq_ok_iff {bytes : List UInt8} {cs : List Char} :
    decode bytes = .ok cs ↔ bytes = encode cs := by
  rw [decode, decode_go_eq_ok_iff, ← pieces_eq_map_char_iff]
  simp

theorem toString?_eq_ok_iff {bytes : List UInt8} {s : String} :
    toString? bytes = .ok s ↔ bytes = ofString s := by
  rw [toString?, ofString, ← decode_eq_ok_iff]
  cases decode bytes with
  | error e => simp [Except.map]
  | ok cs =>
    rw [Except.map, Except.ok.injEq, Except.ok.injEq]
    exact ⟨fun h => by rw [← h, String.toList_ofList], fun h => by rw [h, String.ofList_toList]⟩

theorem toString?_ofString (s : String) : toString? (ofString s) = .ok s :=
  toString?_eq_ok_iff.2 rfl

end Utf8
end ContentOverlay
