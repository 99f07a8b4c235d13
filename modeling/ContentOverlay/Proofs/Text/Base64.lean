import Mathlib
import ContentOverlay.Text.Base64

/-!
# Payloads and Base64 texts

What `Text.Base64` writes and reads, said without its loops.

* `groupwise` — the text of a whole payload, group after group.  `encodeChunks_eq`: the encoder
  gives this text however the payload is cut into chunks.
* `Spells` — the syntax of padded Base64, each text with its payload.  `decode_eq_ok_iff`: the
  reader accepts exactly this syntax.
* `decode_encodeChunks` — what was written reads back.

The reader first collects symbols and then checks their number, the padding and the last symbol.
`Fits` is what it checks, all at once; dropping a whole group changes nothing about it
(`fits_group_iff`), which is how the flat check meets the syntax.
-/

set_option autoImplicit false

namespace ContentOverlay
namespace Base64

/-! ## The alphabet -/

theorem value?_symbol {n : Nat} (h : n < 64) : value? (symbol n) = some n := by
  revert n
  decide

theorem symbol_ne_pad {n : Nat} (h : n < 64) : symbol n ≠ pad := by
  revert n
  decide

theorem value?_eq_some_iff {b : UInt8} {n : Nat} : value? b = some n ↔ n < 64 ∧ b = symbol n := by
  have hb : ∀ k < 256, ∀ v ∈ value? (UInt8.ofNat k), v < 64 ∧ UInt8.ofNat k = symbol v := by
    decide +kernel
  refine ⟨?_, ?_⟩
  · intro h
    have := hb b.toNat b.toNat_lt n (by rw [UInt8.ofNat_toNat]; exact h)
    rwa [UInt8.ofNat_toNat] at this
  · rintro ⟨h, rfl⟩
    exact value?_symbol h

/-! ## Writing -/

/-- The text of a payload, group by group. -/
def groupwise : List UInt8 → List UInt8
  | a :: b :: c :: rest => quad a b c ++ groupwise rest
  | rest => lastQuad rest

theorem groups_append (written bytes more : List UInt8) :
    (Encoder.groups written bytes).written.reverse ++
        groupwise ((Encoder.groups written bytes).waiting ++ more) =
      written.reverse ++ groupwise (bytes ++ more) := by
  fun_induction Encoder.groups written bytes with
  | case1 written a b c rest ih =>
    rw [ih, List.reverse_append, List.reverse_reverse, List.append_assoc, List.cons_append,
      List.cons_append, List.cons_append, groupwise]
  | case2 written bytes => rfl

theorem groups_waiting (written bytes : List UInt8) :
    (Encoder.groups written bytes).waiting.length < 3 := by
  fun_induction Encoder.groups written bytes with
  | case1 written a b c rest ih => exact ih
  | case2 written bytes h =>
    match bytes, h with
    | [], _ => simp
    | [a], _ => simp
    | [a, b], _ => simp
    | a :: b :: c :: rest, h => exact absurd rfl (h a b c rest)

theorem groupwise_of_length_lt {bytes : List UInt8} (h : bytes.length < 3) :
    groupwise bytes = lastQuad bytes := by
  match bytes, h with
  | [], _ | [a], _ | [a, b], _ => rfl
  | _ :: _ :: _ :: _, h => simp at h; omega

/-- What was written and what waits amount to the bytes that were taken. -/
theorem foldl_feed_append (chunks : List (List UInt8)) (e : Encoder) (more : List UInt8) :
    (chunks.foldl Encoder.feed e).written.reverse ++
        groupwise ((chunks.foldl Encoder.feed e).waiting ++ more) =
      e.written.reverse ++ groupwise (e.waiting ++ chunks.flatten ++ more) := by
  induction chunks generalizing e with
  | nil => simp
  | cons chunk chunks ih =>
    rw [List.foldl_cons, ih, List.append_assoc, Encoder.feed, groups_append, List.flatten_cons]
    simp only [List.append_assoc]

theorem foldl_feed_waiting (chunks : List (List UInt8)) {e : Encoder} (h : e.waiting.length < 3) :
    (chunks.foldl Encoder.feed e).waiting.length < 3 := by
  induction chunks generalizing e with
  | nil => exact h
  | cons chunk chunks ih => exact ih (groups_waiting _ _)

/-- **The chunks in which a payload arrives do not matter.** -/
theorem encodeChunks_eq (chunks : List (List UInt8)) :
    encodeChunks chunks = groupwise chunks.flatten := by
  have hw := foldl_feed_waiting chunks (e := .start) (by decide)
  have := foldl_feed_append chunks .start []
  rw [List.append_nil, groupwise_of_length_lt hw] at this
  rw [encodeChunks, Encoder.finish, List.reverse_append, List.reverse_reverse, this]
  simp [Encoder.start]

/-! ## Reading -/

/-- **The syntax of padded Base64**, together with the payload that a text stands for.  A text is a
sequence of groups of four symbols; the last group may have one or two paddings in the place of
symbols, and then the bits that belong to no byte are zero. -/
inductive Spells : List UInt8 → List UInt8 → Prop
  | nil : Spells [] []
  | one {s₁ s₂ : UInt8} {v₁ v₂ : Nat} (h₁ : value? s₁ = some v₁) (h₂ : value? s₂ = some v₂)
      (hz : v₂ % 16 = 0) : Spells [s₁, s₂, pad, pad] [UInt8.ofNat (v₁ * 4 + v₂ / 16)]
  | two {s₁ s₂ s₃ : UInt8} {v₁ v₂ v₃ : Nat} (h₁ : value? s₁ = some v₁) (h₂ : value? s₂ = some v₂)
      (h₃ : value? s₃ = some v₃) (hz : v₃ % 4 = 0) :
      Spells [s₁, s₂, s₃, pad]
        [UInt8.ofNat (v₁ * 4 + v₂ / 16), UInt8.ofNat (v₂ % 16 * 16 + v₃ / 4)]
  | group {s₁ s₂ s₃ s₄ : UInt8} {v₁ v₂ v₃ v₄ : Nat} {text payload : List UInt8}
      (h₁ : value? s₁ = some v₁) (h₂ : value? s₂ = some v₂) (h₃ : value? s₃ = some v₃)
      (h₄ : value? s₄ = some v₄) (h : Spells text payload) :
      Spells (s₁ :: s₂ :: s₃ :: s₄ :: text)
        (UInt8.ofNat (v₁ * 4 + v₂ / 16) :: UInt8.ofNat (v₂ % 16 * 16 + v₃ / 4) ::
          UInt8.ofNat (v₃ % 4 * 64 + v₄) :: payload)

/-- A text that begins with no padding and has symbols up to its end or to a padding begins with a
symbol. -/
theorem exists_symbol_of_ne_pad {b : UInt8} {text tail : List UInt8} {values : List Nat}
    (hb : b ≠ pad) (ht : b :: text = values.map symbol ++ tail)
    (htail : tail = [] ∨ ∃ rest, tail = pad :: rest) :
    ∃ v vs, values = v :: vs ∧ b = symbol v ∧ text = vs.map symbol ++ tail := by
  cases values with
  | nil =>
    rcases htail with rfl | ⟨rest, rfl⟩
    · exact absurd ht (by simp)
    · exact absurd (List.cons.inj ht).1 hb
  | cons v vs => exact ⟨v, vs, rfl, (List.cons.inj ht).1, (List.cons.inj ht).2⟩

theorem symbols_go_eq_ok_iff {offset : Nat} {acc reversed : List Nat} {text tail : List UInt8} :
    symbols.go offset acc text = .ok (reversed, tail) ↔
      ∃ values : List Nat, reversed = values.reverse ++ acc ∧ text = values.map symbol ++ tail ∧
        (∀ v ∈ values, v < 64) ∧ (tail = [] ∨ ∃ rest, tail = pad :: rest) := by
  induction text generalizing offset acc with
  | nil =>
    rw [symbols.go, Except.ok.injEq, Prod.mk.injEq]
    refine ⟨?_, ?_⟩
    · rintro ⟨rfl, rfl⟩
      exact ⟨[], rfl, rfl, by simp, .inl rfl⟩
    · rintro ⟨values, rfl, ht, -, -⟩
      obtain ⟨hv, rfl⟩ := List.append_eq_nil_iff.1 ht.symm
      rw [List.map_eq_nil_iff] at hv
      exact ⟨by rw [hv]; rfl, rfl⟩
  | cons b text ih =>
    rw [symbols.go]
    split
    · next hb =>
      subst hb
      rw [Except.ok.injEq, Prod.mk.injEq]
      refine ⟨?_, ?_⟩
      · rintro ⟨rfl, rfl⟩
        exact ⟨[], rfl, rfl, by simp, .inr ⟨text, rfl⟩⟩
      · rintro ⟨values, rfl, ht, hlt, -⟩
        cases values with
        | nil => exact ⟨rfl, ht⟩
        | cons v values =>
          rw [List.map_cons, List.cons_append, List.cons.injEq] at ht
          exact absurd ht.1.symm (symbol_ne_pad (hlt v (by simp)))
    · next hb =>
      cases hv : value? b with
      | none =>
        refine ⟨fun h => absurd h (by simp), ?_⟩
        rintro ⟨values, -, ht, hlt, htail⟩
        obtain ⟨v, vs, rfl, rfl, -⟩ := exists_symbol_of_ne_pad hb ht htail
        rw [value?_symbol (hlt v (by simp))] at hv
        exact absurd hv (by simp)
      | some v =>
        obtain ⟨hlt, rfl⟩ := value?_eq_some_iff.1 hv
        simp only [ih]
        refine ⟨?_, ?_⟩
        · rintro ⟨values, rfl, rfl, hall, htail⟩
          exact ⟨v :: values, by simp, rfl, by simpa using ⟨hlt, hall⟩, htail⟩
        · rintro ⟨values, rfl, ht, hall, htail⟩
          obtain ⟨w, vs, rfl, hw, rfl⟩ := exists_symbol_of_ne_pad hb ht htail
          have := value?_symbol (hall w (by simp))
          rw [← hw, hv, Option.some.injEq] at this
          subst this
          exact ⟨vs, by simp, rfl, fun u hu => hall u (List.mem_cons_of_mem _ hu), htail⟩

theorem bytesOf_go (acc : List UInt8) (values : List Nat) :
    bytesOf.go acc values = acc.reverse ++ bytesOf values := by
  match values with
  | a :: b :: c :: d :: rest =>
    rw [bytesOf, bytesOf.go, bytesOf.go]
    rw [bytesOf_go _ rest, bytesOf_go [_, _, _] rest]
    simp
  | [a, b, c] | [a, b] => simp [bytesOf, bytesOf.go]
  | [a] | [] => simp [bytesOf, bytesOf.go]

/-- The bytes of a group of four symbols. -/
theorem bytesOf_group {a b c d : Nat} (_ : b < 64) (_ : c < 64) (_ : d < 64)
    (rest : List Nat) :
    bytesOf (a :: b :: c :: d :: rest) = UInt8.ofNat (a * 4 + b / 16) ::
      UInt8.ofNat (b % 16 * 16 + c / 4) :: UInt8.ofNat (c % 4 * 64 + d) :: bytesOf rest := by
  rw [bytesOf, bytesOf.go, bytesOf_go,
    show (a * 262144 + b * 4096 + c * 64 + d) / 65536 = a * 4 + b / 16 by omega,
    show (a * 262144 + b * 4096 + c * 64 + d) / 256 % 256 = b % 16 * 16 + c / 4 by omega,
    show (a * 262144 + b * 4096 + c * 64 + d) % 256 = c % 4 * 64 + d by omega]
  rfl

theorem bytesOf_two {a b c : Nat} (_ : b < 64) (_ : c < 64) :
    bytesOf [a, b, c] = [UInt8.ofNat (a * 4 + b / 16), UInt8.ofNat (b % 16 * 16 + c / 4)] := by
  rw [bytesOf, bytesOf.go, show (a * 4096 + b * 64 + c) / 1024 = a * 4 + b / 16 by omega,
    show (a * 4096 + b * 64 + c) / 4 % 256 = b % 16 * 16 + c / 4 by omega]
  rfl

theorem bytesOf_one (a b : Nat) : bytesOf [a, b] = [UInt8.ofNat (a * 4 + b / 16)] := by
  rw [bytesOf, bytesOf.go, show (a * 64 + b) / 16 = a * 4 + b / 16 by omega]
  rfl

/-- What `decode` asks of the symbols of a text and of the number of paddings after them. -/
structure Fits (values : List Nat) (pads : Nat) : Prop where
  lt : ∀ v ∈ values, v < 64
  pads_le : pads ≤ 2
  whole : (values.length + pads) % 4 = 0
  unused : ∀ last ∈ values.getLast?, last % unusedPatterns values.length = 0

theorem Fits.symbols {values : List Nat} {pads : Nat} (h : Fits values pads) :
    symbols (values.map symbol ++ List.replicate pads pad) =
      .ok (values.reverse, List.replicate pads pad) := by
  refine symbols_go_eq_ok_iff.2 ⟨values, by rw [List.append_nil], rfl, h.lt, ?_⟩
  cases pads with
  | zero => exact .inl rfl
  | succ n => exact .inr ⟨List.replicate n pad, rfl⟩

theorem decode_of_fits {values : List Nat} {pads : Nat} (h : Fits values pads) :
    decode (values.map symbol ++ List.replicate pads pad) = .ok (bytesOf values) := by
  have hle := h.pads_le
  have hwhole := h.whole
  rw [decode]
  simp only [bind, Except.bind, pure, Except.pure, throw, throwThe, MonadExceptOf.throw]
  rw [List.length_append, List.length_map, List.length_replicate, if_neg (by omega), h.symbols]
  dsimp only
  rw [List.length_reverse, List.length_replicate, if_neg, if_neg (by omega)]
  · have hu := h.unused
    rw [List.getLast?_eq_head?_reverse] at hu
    cases hr : values.reverse with
    | nil => rw [← hr, List.reverse_reverse, hr]
    | cons last front =>
      rw [hr] at hu
      dsimp only
      rw [if_neg (by simpa using hu last rfl), ← hr, List.reverse_reverse]
  · rintro ⟨hne, hbad⟩
    have hpos : pads ≠ 0 := by rintro rfl; exact hne rfl
    rcases hbad with hbad | hbad | hbad
    · omega
    · omega
    · rw [List.any_eq_true] at hbad
      obtain ⟨b, hb, hne⟩ := hbad
      rw [List.eq_of_mem_replicate hb] at hne
      simp at hne

theorem fits_of_decode {text payload : List UInt8} (h : decode text = .ok payload) :
    ∃ values pads, text = values.map symbol ++ List.replicate pads pad ∧ Fits values pads ∧
      payload = bytesOf values := by
  unfold decode at h
  simp only [bind, Except.bind, pure, Except.pure, throw, throwThe, MonadExceptOf.throw] at h
  split at h
  · split at h
    · split at h <;> exact absurd h (by simp)
    · exact absurd h (by simp)
  cases hs : symbols text with
  | error e => rw [hs] at h; exact absurd h (by simp)
  | ok v =>
    obtain ⟨reversed, tail⟩ := v
    obtain ⟨values, hr, rfl, hlt, -⟩ := symbols_go_eq_ok_iff.1 hs
    rw [List.append_nil] at hr
    subst hr
    simp only [hs, List.length_reverse, List.reverse_reverse] at h
    split at h
    · exact absurd h (by simp)
    next htail =>
    split at h
    · exact absurd h (by simp)
    next hwhole =>
    have hrep : tail = List.replicate tail.length pad := by
      refine List.eq_replicate_of_mem fun b hb => ?_
      by_contra hne
      exact htail ⟨List.ne_nil_of_mem hb,
        .inr (.inr (List.any_eq_true.2 ⟨b, hb, by simpa using hne⟩))⟩
    have hle : tail.length ≤ 2 := by
      by_contra hgt
      refine htail ⟨fun hnil => by simp [hnil] at hgt, ?_⟩
      omega
    refine ⟨values, tail.length, by rw [← hrep], ⟨hlt, hle, by simpa using hwhole, ?_⟩, ?_⟩
    · intro last hlast
      rw [List.getLast?_eq_head?_reverse] at hlast
      cases hr : values.reverse with
      | nil => rw [hr] at hlast; exact absurd hlast (by simp)
      | cons u front =>
        rw [hr] at hlast h
        obtain rfl : u = last := by simpa using hlast
        by_contra hbad
        exact absurd h (by simp [hbad])
    · split at h
      · split at h
        · exact absurd h (by simp)
        · exact (Except.ok.inj h).symm
      · exact (Except.ok.inj h).symm

/-- Four symbols more or fewer do not matter. -/
theorem fits_group_iff {a b c d : Nat} {values : List Nat} {pads : Nat} :
    Fits (a :: b :: c :: d :: values) pads ↔
      a < 64 ∧ b < 64 ∧ c < 64 ∧ d < 64 ∧ Fits values pads := by
  have hmod : (values.length + 1 + 1 + 1 + 1) % 4 = values.length % 4 := by omega
  have hlast : pads ≤ 2 → (values.length + pads) % 4 = 0 →
      ((∀ last ∈ (a :: b :: c :: d :: values).getLast?,
          last % unusedPatterns (values.length + 1 + 1 + 1 + 1) = 0) ↔
        ∀ last ∈ values.getLast?, last % unusedPatterns values.length = 0) := by
    intro hle hwhole
    rw [unusedPatterns, unusedPatterns, hmod]
    cases values with
    | nil => simp [Nat.mod_one]
    | cons v vs =>
      rw [List.getLast?_cons_cons, List.getLast?_cons_cons, List.getLast?_cons_cons,
        List.getLast?_cons_cons]
  refine ⟨?_, ?_⟩
  · intro h
    have hw : (values.length + pads) % 4 = 0 := by have := h.whole; simp at this; omega
    refine ⟨h.lt a (by simp), h.lt b (by simp), h.lt c (by simp), h.lt d (by simp),
      fun v hv => h.lt v (by simp [hv]), h.pads_le, hw, (hlast h.pads_le hw).1 h.unused⟩
  · rintro ⟨ha, hb, hc, hd, h⟩
    have hw := h.whole
    exact ⟨by simpa [ha, hb, hc, hd] using h.lt, h.pads_le, by simp; omega,
      (hlast h.pads_le hw).2 h.unused⟩

theorem spells_of_fits {values : List Nat} {pads : Nat} (h : Fits values pads) :
    Spells (values.map symbol ++ List.replicate pads pad) (bytesOf values) := by
  match values, h with
  | a :: b :: c :: d :: values, h =>
    obtain ⟨ha, hb, hc, hd, h⟩ := fits_group_iff.1 h
    rw [bytesOf_group hb hc hd]
    exact .group (value?_symbol ha) (value?_symbol hb) (value?_symbol hc) (value?_symbol hd)
      (spells_of_fits h)
  | [a, b, c], h =>
    have ha := h.lt a (by simp)
    have hb := h.lt b (by simp)
    have hc := h.lt c (by simp)
    have hp : pads = 1 := by have := h.whole; have := h.pads_le; simp at *; omega
    subst hp
    rw [bytesOf_two hb hc]
    exact .two (value?_symbol ha) (value?_symbol hb) (value?_symbol hc) (h.unused c rfl)
  | [a, b], h =>
    have hp : pads = 2 := by have := h.whole; have := h.pads_le; simp at *; omega
    subst hp
    rw [bytesOf_one]
    exact .one (value?_symbol (h.lt a (by simp))) (value?_symbol (h.lt b (by simp)))
      (h.unused b rfl)
  | [a], h => have := h.whole; have := h.pads_le; simp at *; omega
  | [], h =>
    have hp : pads = 0 := by have := h.whole; have := h.pads_le; simp at *; omega
    subst hp
    exact .nil

theorem Spells.fits {text payload : List UInt8} (h : Spells text payload) :
    ∃ values pads, text = values.map symbol ++ List.replicate pads pad ∧ Fits values pads ∧
      payload = bytesOf values := by
  induction h with
  | nil => exact ⟨[], 0, rfl, ⟨by simp, by simp, rfl, by simp⟩, rfl⟩
  | @one s₁ s₂ v₁ v₂ h₁ h₂ hz =>
    obtain ⟨l₁, rfl⟩ := value?_eq_some_iff.1 h₁
    obtain ⟨l₂, rfl⟩ := value?_eq_some_iff.1 h₂
    exact ⟨[v₁, v₂], 2, rfl,
      ⟨by simp [l₁, l₂], by simp, by simp, by simpa [unusedPatterns] using hz⟩,
      (bytesOf_one _ _).symm⟩
  | @two s₁ s₂ s₃ v₁ v₂ v₃ h₁ h₂ h₃ hz =>
    obtain ⟨l₁, rfl⟩ := value?_eq_some_iff.1 h₁
    obtain ⟨l₂, rfl⟩ := value?_eq_some_iff.1 h₂
    obtain ⟨l₃, rfl⟩ := value?_eq_some_iff.1 h₃
    exact ⟨[v₁, v₂, v₃], 1, rfl,
      ⟨by simp [l₁, l₂, l₃], by simp, by simp, by simpa [unusedPatterns] using hz⟩,
      (bytesOf_two l₂ l₃).symm⟩
  | @group s₁ s₂ s₃ s₄ v₁ v₂ v₃ v₄ text payload h₁ h₂ h₃ h₄ _ ih =>
    obtain ⟨l₁, rfl⟩ := value?_eq_some_iff.1 h₁
    obtain ⟨l₂, rfl⟩ := value?_eq_some_iff.1 h₂
    obtain ⟨l₃, rfl⟩ := value?_eq_some_iff.1 h₃
    obtain ⟨l₄, rfl⟩ := value?_eq_some_iff.1 h₄
    obtain ⟨values, pads, rfl, hf, rfl⟩ := ih
    exact ⟨v₁ :: v₂ :: v₃ :: v₄ :: values, pads, rfl, fits_group_iff.2 ⟨l₁, l₂, l₃, l₄, hf⟩,
      (bytesOf_group l₂ l₃ l₄ values).symm⟩

/-- **Reading accepts exactly the padded texts.** -/
theorem decode_eq_ok_iff {text payload : List UInt8} :
    decode text = .ok payload ↔ Spells text payload := by
  refine ⟨?_, ?_⟩
  · intro h
    obtain ⟨values, pads, rfl, hf, rfl⟩ := fits_of_decode h
    exact spells_of_fits hf
  · intro h
    obtain ⟨values, pads, rfl, hf, rfl⟩ := h.fits
    exact decode_of_fits hf

/-! ## Reading what was written -/

theorem quad_eq (a b c : UInt8) : quad a b c =
    [symbol (a.toNat / 4), symbol (a.toNat % 4 * 16 + b.toNat / 16),
      symbol (b.toNat % 16 * 4 + c.toNat / 64), symbol (c.toNat % 64)] := by
  have hb := b.toNat_lt
  have hc := c.toNat_lt
  rw [quad, show (a.toNat * 65536 + b.toNat * 256 + c.toNat) / 262144 = a.toNat / 4 by omega,
    show (a.toNat * 65536 + b.toNat * 256 + c.toNat) / 4096 % 64 =
      a.toNat % 4 * 16 + b.toNat / 16 by omega,
    show (a.toNat * 65536 + b.toNat * 256 + c.toNat) / 64 % 64 =
      b.toNat % 16 * 4 + c.toNat / 64 by omega,
    show (a.toNat * 65536 + b.toNat * 256 + c.toNat) % 64 = c.toNat % 64 by omega]

theorem lastQuad_two (a b : UInt8) : lastQuad [a, b] =
    [symbol (a.toNat / 4), symbol (a.toNat % 4 * 16 + b.toNat / 16), symbol (b.toNat % 16 * 4),
      pad] := by
  have hb := b.toNat_lt
  rw [lastQuad, show (a.toNat * 65536 + b.toNat * 256) / 262144 = a.toNat / 4 by omega,
    show (a.toNat * 65536 + b.toNat * 256) / 4096 % 64 = a.toNat % 4 * 16 + b.toNat / 16 by omega,
    show (a.toNat * 65536 + b.toNat * 256) / 64 % 64 = b.toNat % 16 * 4 by omega]

theorem lastQuad_one (a : UInt8) :
    lastQuad [a] = [symbol (a.toNat / 4), symbol (a.toNat % 4 * 16), pad, pad] := by
  rw [lastQuad, show a.toNat * 65536 / 262144 = a.toNat / 4 by omega,
    show a.toNat * 65536 / 4096 % 64 = a.toNat % 4 * 16 by omega]

theorem spells_groupwise (payload : List UInt8) : Spells (groupwise payload) payload := by
  match payload with
  | a :: b :: c :: rest =>
    have ha := a.toNat_lt
    have hb := b.toNat_lt
    have hc := c.toNat_lt
    have h := Spells.group (value?_symbol (show a.toNat / 4 < 64 by omega))
      (value?_symbol (show a.toNat % 4 * 16 + b.toNat / 16 < 64 by omega))
      (value?_symbol (show b.toNat % 16 * 4 + c.toNat / 64 < 64 by omega))
      (value?_symbol (show c.toNat % 64 < 64 by omega)) (spells_groupwise rest)
    rw [show a.toNat / 4 * 4 + (a.toNat % 4 * 16 + b.toNat / 16) / 16 = a.toNat by omega,
      show (a.toNat % 4 * 16 + b.toNat / 16) % 16 * 16 + (b.toNat % 16 * 4 + c.toNat / 64) / 4 =
        b.toNat by omega,
      show (b.toNat % 16 * 4 + c.toNat / 64) % 4 * 64 + c.toNat % 64 = c.toNat by omega,
      UInt8.ofNat_toNat, UInt8.ofNat_toNat, UInt8.ofNat_toNat] at h
    rw [groupwise, quad_eq]
    exact h
  | [a, b] =>
    have ha := a.toNat_lt
    have hb := b.toNat_lt
    have h := Spells.two (value?_symbol (show a.toNat / 4 < 64 by omega))
      (value?_symbol (show a.toNat % 4 * 16 + b.toNat / 16 < 64 by omega))
      (value?_symbol (show b.toNat % 16 * 4 < 64 by omega)) (by omega)
    rw [show a.toNat / 4 * 4 + (a.toNat % 4 * 16 + b.toNat / 16) / 16 = a.toNat by omega,
      show (a.toNat % 4 * 16 + b.toNat / 16) % 16 * 16 + b.toNat % 16 * 4 / 4 = b.toNat by omega,
      UInt8.ofNat_toNat, UInt8.ofNat_toNat] at h
    rw [groupwise_of_length_lt (by simp), lastQuad_two]
    exact h
  | [a] =>
    have ha := a.toNat_lt
    have h := Spells.one (value?_symbol (show a.toNat / 4 < 64 by omega))
      (value?_symbol (show a.toNat % 4 * 16 < 64 by omega)) (by omega)
    rw [show a.toNat / 4 * 4 + a.toNat % 4 * 16 / 16 = a.toNat by omega, UInt8.ofNat_toNat] at h
    rw [groupwise_of_length_lt (by simp), lastQuad_one]
    exact h
  | [] => exact .nil

/-- **A payload has one text.**  The symbols of a group can be told from its bytes, and the bits
that belong to no byte are zero. -/
theorem Spells.eq_groupwise {text payload : List UInt8} (h : Spells text payload) :
    text = groupwise payload := by
  have htoNat : ∀ n < 256, (UInt8.ofNat n).toNat = n := fun n hn => by
    rw [UInt8.toNat_ofNat']
    omega
  induction h with
  | nil => rfl
  | @one _ _ v₁ v₂ h₁ h₂ hz =>
    obtain ⟨l₁, rfl⟩ := value?_eq_some_iff.1 h₁
    obtain ⟨l₂, rfl⟩ := value?_eq_some_iff.1 h₂
    rw [groupwise_of_length_lt (by simp), lastQuad_one, htoNat _ (by omega),
      show (v₁ * 4 + v₂ / 16) / 4 = v₁ by omega, show (v₁ * 4 + v₂ / 16) % 4 * 16 = v₂ by omega]
  | @two _ _ _ v₁ v₂ v₃ h₁ h₂ h₃ hz =>
    obtain ⟨l₁, rfl⟩ := value?_eq_some_iff.1 h₁
    obtain ⟨l₂, rfl⟩ := value?_eq_some_iff.1 h₂
    obtain ⟨l₃, rfl⟩ := value?_eq_some_iff.1 h₃
    rw [groupwise_of_length_lt (by simp), lastQuad_two, htoNat _ (by omega), htoNat _ (by omega),
      show (v₁ * 4 + v₂ / 16) / 4 = v₁ by omega,
      show (v₁ * 4 + v₂ / 16) % 4 * 16 + (v₂ % 16 * 16 + v₃ / 4) / 16 = v₂ by omega,
      show (v₂ % 16 * 16 + v₃ / 4) % 16 * 4 = v₃ by omega]
  | @group _ _ _ _ v₁ v₂ v₃ v₄ _ _ h₁ h₂ h₃ h₄ _ ih =>
    obtain ⟨l₁, rfl⟩ := value?_eq_some_iff.1 h₁
    obtain ⟨l₂, rfl⟩ := value?_eq_some_iff.1 h₂
    obtain ⟨l₃, rfl⟩ := value?_eq_some_iff.1 h₃
    obtain ⟨l₄, rfl⟩ := value?_eq_some_iff.1 h₄
    rw [groupwise, quad_eq, ← ih, htoNat _ (by omega), htoNat _ (by omega), htoNat _ (by omega),
      show (v₁ * 4 + v₂ / 16) / 4 = v₁ by omega,
      show (v₁ * 4 + v₂ / 16) % 4 * 16 + (v₂ % 16 * 16 + v₃ / 4) / 16 = v₂ by omega,
      show (v₂ % 16 * 16 + v₃ / 4) % 16 * 4 + (v₃ % 4 * 64 + v₄) / 64 = v₃ by omega,
      show (v₃ % 4 * 64 + v₄) % 64 = v₄ by omega]
    rfl

/-- **The text of a payload reads back as the payload**, in whatever chunks it was written. -/
theorem decode_encodeChunks (chunks : List (List UInt8)) :
    decode (encodeChunks chunks) = .ok chunks.flatten := by
  rw [encodeChunks_eq, decode_eq_ok_iff]
  exact spells_groupwise _

end Base64
end ContentOverlay
