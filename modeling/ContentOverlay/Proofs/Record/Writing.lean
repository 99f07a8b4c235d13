import Mathlib
import ContentOverlay.Proofs.Record.Grammar
import ContentOverlay.Proofs.Stream.Writer
import ContentOverlay.Record.Writing

/-!
# What is written

The writer of records makes a list of fields and then writes it.  `Yields fs data` says that every
field of the list can be produced and that `data` is what they amount to; an accepting writer takes
a list of fields completely exactly when it yields something (`writeFields_eq_ok_iff`).

`encode_eq_ok_iff` puts this together: writing a record succeeds exactly when `Writes` relates it to
some bytes, and these bytes are what reaches the writer.  `Writes` has the shape of the grammar
`Form`.  The two differ in the texts only: here they are the texts that the values have, there the
texts that stand for a value.
-/

set_option autoImplicit false

namespace ContentOverlay
namespace Record

/-! ## Lists of fields -/

/-- All these fields can be produced, and they amount to `data`. -/
inductive Yields : List Field → List UInt8 → Prop
  | nil : Yields [] []
  | cons {part : Part} {front data : List UInt8} {fs : List Field} (h : Yields fs data) :
      Yields (.bytes part front :: fs) (front ++ data)

theorem yields_nil_iff {data : List UInt8} : Yields [] data ↔ data = [] := by
  refine ⟨?_, ?_⟩
  · rintro ⟨⟩
    rfl
  · rintro rfl
    exact .nil

theorem yields_cons_iff {part : Part} {front data : List UInt8} {fs : List Field} :
    Yields (.bytes part front :: fs) data ↔ ∃ back, data = front ++ back ∧ Yields fs back := by
  refine ⟨?_, ?_⟩
  · intro h
    cases h with
    | cons h => exact ⟨_, rfl, h⟩
  · rintro ⟨back, rfl, h⟩
    exact .cons h

theorem not_yields_failure {why : Failure} {fs : List Field} {data : List UInt8} :
    ¬ Yields (.failure why :: fs) data := by
  rintro ⟨⟩

theorem yields_append_iff {fs gs : List Field} {data : List UInt8} :
    Yields (fs ++ gs) data ↔ ∃ a b, data = a ++ b ∧ Yields fs a ∧ Yields gs b := by
  induction fs generalizing data with
  | nil =>
    refine ⟨?_, ?_⟩
    · exact fun h => ⟨[], data, rfl, .nil, h⟩
    · rintro ⟨a, b, rfl, ⟨⟩, hb⟩
      exact hb
  | cons f fs ih =>
    cases f with
    | failure why =>
      refine ⟨fun h => absurd h not_yields_failure, ?_⟩
      rintro ⟨a, b, -, ha, -⟩
      exact absurd ha not_yields_failure
    | bytes part front =>
      rw [List.cons_append, yields_cons_iff]
      simp only [ih]
      refine ⟨?_, ?_⟩
      · rintro ⟨_, rfl, a, b, rfl, ha, hb⟩
        exact ⟨front ++ a, b, (List.append_assoc _ _ _).symm, .cons ha, hb⟩
      · rintro ⟨_, b, rfl, ha, hb⟩
        cases ha with
        | cons ha => exact ⟨_, List.append_assoc _ _ _, _, b, rfl, ha, hb⟩

/-- **A list of fields is written completely exactly if it yields something.** -/
theorem writeFields_eq_ok_iff {w w' : Writer} (hw : w.Accepting) {fs : List Field} :
    writeFields fs w = (.ok (), w') ↔ ∃ data, Yields fs data ∧ w' = w.append data := by
  induction fs generalizing w with
  | nil =>
    rw [writeFields, Prod.mk.injEq]
    refine ⟨?_, ?_⟩
    · rintro ⟨-, rfl⟩
      exact ⟨[], .nil, (Writer.append_nil w).symm⟩
    · rintro ⟨data, ⟨⟩, rfl⟩
      exact ⟨rfl, (Writer.append_nil w).symm⟩
  | cons f fs ih =>
    cases f with
    | failure why =>
      refine ⟨fun h => absurd (congrArg Prod.fst h) (by simp [writeFields]), ?_⟩
      rintro ⟨data, h, -⟩
      exact absurd h not_yields_failure
    | bytes part front =>
      rw [writeFields, hw.writeAll_eq]
      show writeFields fs (w.append front) = _ ↔ _
      rw [ih (hw.append front)]
      refine ⟨?_, ?_⟩
      · rintro ⟨data, h, rfl⟩
        exact ⟨front ++ data, .cons h, Writer.append_append _ _ _⟩
      · rintro ⟨_, h, rfl⟩
        cases h with
        | cons h => exact ⟨_, h, (Writer.append_append _ _ _).symm⟩

theorem yields_numberField_cons_iff {part : Part} {n : Nat} {fs : List Field}
    {data : List UInt8} : Yields (numberField part n :: fs) data ↔
      n < countBound ∧ ∃ back, data = fourBytes n ++ back ∧ Yields fs back := by
  rw [numberField]
  split
  · next h => rw [yields_cons_iff, and_iff_right h]
  · next h => exact ⟨fun hy => absurd hy not_yields_failure, fun hy => absurd hy.1 h⟩

theorem yields_textFields_iff {text data : List UInt8} :
    Yields (textFields text) data ↔
      text.length < countBound ∧ data = fourBytes text.length ++ text := by
  rw [textFields, yields_numberField_cons_iff]
  simp only [yields_cons_iff, yields_nil_iff, exists_eq_right, List.append_nil]

/-! ## Texts of values -/

/-- Bytes below 128 are the bytes of a text. -/
theorem exists_ofString_of_lt {bytes : List UInt8} (h : ∀ b ∈ bytes, b.toNat < 128) :
    ∃ s, Utf8.ofString s = bytes := by
  refine ⟨String.ofList (bytes.map fun b => Char.ofNat b.toNat), ?_⟩
  rw [Utf8.ofString, String.toList_ofList, Utf8.encode]
  induction bytes with
  | nil => rfl
  | cons b bytes ih =>
    have hb := h b List.mem_cons_self
    rw [List.map_cons, List.flatMap_cons, ih fun c hc => h c (List.mem_cons_of_mem _ hc),
      Utf8.encodeChar_eq, Utf8.toNat_ofNat (.inl (by omega)), if_pos (by omega), UInt8.ofNat_toNat]
    rfl

/-- A Base64 text is a text. -/
theorem exists_ofString_of_spells {text payload : List UInt8} (h : Base64.Spells text payload) :
    ∃ s, Utf8.ofString s = text := by
  refine exists_ofString_of_lt ?_
  have hsymbol : ∀ {b : UInt8} {v : Nat}, Base64.value? b = some v → b.toNat < 128 := by
    intro b v hv
    have hall : ∀ n < 64, (Base64.symbol n).toNat < 128 := by decide
    obtain ⟨hlt, rfl⟩ := Base64.value?_eq_some_iff.1 hv
    exact hall v hlt
  have hpad : Base64.pad.toNat < 128 := by decide
  induction h with
  | nil => exact fun b hb => absurd hb List.not_mem_nil
  | one h₁ h₂ => simpa using ⟨hsymbol h₁, hsymbol h₂, hpad⟩
  | two h₁ h₂ h₃ => simpa using ⟨hsymbol h₁, hsymbol h₂, hsymbol h₃, hpad⟩
  | group h₁ h₂ h₃ h₄ h ih =>
    simpa using ⟨hsymbol h₁, hsymbol h₂, hsymbol h₃, hsymbol h₄, ih⟩

/-- The chunks in which a payload is read make up the payload. -/
theorem flatten_chunks (size : Nat) (payload : List UInt8) :
    (PayloadStream.chunks size ⟨payload⟩).flatten = payload := by
  have hgo : ∀ acc bytes, (PayloadStream.chunks.go size acc bytes).flatten =
      acc.reverse.flatten ++ bytes := by
    intro acc bytes
    fun_induction PayloadStream.chunks.go size acc bytes with
    | case1 acc => rw [List.append_nil]
    | case2 acc b bytes ih =>
      rw [ih, List.reverse_cons, List.flatten_append, List.flatten_singleton, List.append_assoc,
        List.cons_append, List.take_append_drop]
  exact hgo [] payload

theorem payloadText_eq (payload : List UInt8) : payloadText payload = Base64.groupwise payload := by
  rw [payloadText, Base64.encodeChunks_eq, flatten_chunks]

/-- The text of a payload spells it. -/
theorem spells_payloadText (payload : List UInt8) :
    Base64.Spells (payloadText payload) payload := by
  rw [payloadText_eq]
  exact Base64.spells_groupwise payload

/-! ## Values -/

/-- `p` is what is written for the value `v` in a record of this kind: its text, framed.  A binary
value needs a buffer that can be. -/
def ValueOutput (capacity : Nat) (kind : Kind) (p : List UInt8) (v : Value) : Prop :=
  v.kind = kind ∧ (kind = .binary → capacity < capacityBound) ∧
    ∃ s, Framed p s ∧ textOf? v = some (Utf8.ofString s)

/-- **The bytes that are written for a record.** -/
inductive Writes (capacity : Nat) : List UInt8 → Record → Prop
  | mk {p block : List UInt8} {name : Name} {kind : Kind} {values : Option (List Value)}
      (hs : Framed p name.text) (hb : BlockForm (ValueOutput capacity kind) block values) :
      Writes capacity (p ++ (codeBytes kind.code ++ block)) ⟨name, kind, values⟩

/-- The text that is written for a value is a text. -/
theorem exists_ofString_of_textOf? {v : Value} {text : List UInt8} (h : textOf? v = some text) :
    ∃ s, text = Utf8.ofString s := by
  cases hk : v with
  | binary payload =>
    rw [hk, textOf?, Option.some.injEq] at h
    obtain ⟨s, hs⟩ := exists_ofString_of_spells (spells_payloadText payload)
    exact ⟨s, by rw [hs, h]⟩
  | _ =>
    rw [hk, textOf?, Option.map_eq_some_iff] at h
    · obtain ⟨s, -, rfl⟩ := h
      exact ⟨s, rfl⟩
    · simp

theorem yields_valueFields_iff {capacity : Nat} {v : Value} {p : List UInt8} :
    Yields (valueFields capacity v) p ↔ ValueOutput capacity v.kind p v := by
  rw [valueFields, ValueOutput]
  split
  · next h =>
    refine ⟨fun hy => absurd hy not_yields_failure, ?_⟩
    rintro ⟨-, hc, -⟩
    exact absurd (hc h.1) (Nat.not_lt.2 h.2)
  · next h =>
    have hc : v.kind = .binary → capacity < capacityBound := fun hb =>
      Nat.lt_of_not_le fun hle => h ⟨hb, hle⟩
    rw [and_iff_right rfl, and_iff_right hc]
    cases ht : textOf? v with
    | some text =>
      obtain ⟨s, rfl⟩ := exists_ofString_of_textOf? ht
      show Yields (textFields (Utf8.ofString s)) p ↔ _
      rw [yields_textFields_iff]
      refine ⟨?_, ?_⟩
      · exact fun hy => ⟨s, hy, rfl⟩
      · rintro ⟨t, hf, hts⟩
        rw [Option.some.inj hts]
        exact hf
    | none =>
      refine ⟨fun hy => absurd hy not_yields_failure, ?_⟩
      rintro ⟨s, -, hs⟩
      exact absurd hs (by simp)

theorem yields_flatMap_iff {capacity : Nat} {kind : Kind} {values : List Value}
    {p : List UInt8} (hk : ∀ v ∈ values, v.kind = kind) :
    Yields (values.flatMap (valueFields capacity)) p ↔
      ∃ parts, p = parts.flatten ∧ List.Forall₂ (ValueOutput capacity kind) parts values := by
  induction values generalizing p with
  | nil =>
    rw [List.flatMap_nil, yields_nil_iff]
    refine ⟨?_, ?_⟩
    · rintro rfl
      exact ⟨[], rfl, .nil⟩
    · rintro ⟨_, rfl, ⟨⟩⟩
      rfl
  | cons v values ih =>
    have hv := hk v List.mem_cons_self
    rw [List.flatMap_cons, yields_append_iff]
    simp only [ih fun u hu => hk u (List.mem_cons_of_mem _ hu), yields_valueFields_iff, hv]
    refine ⟨?_, ?_⟩
    · rintro ⟨a, _, rfl, ha, parts, rfl, h⟩
      exact ⟨a :: parts, rfl, .cons ha h⟩
    · rintro ⟨_, rfl, h⟩
      cases h with
      | cons hp h => exact ⟨_, _, rfl, hp, _, rfl, h⟩

/-! ## Records -/

theorem firstStranger_eq_none_iff {name : Name} {kind : Kind} {index : Nat}
    {values : List Value} :
    firstStranger name kind index values = none ↔ ∀ v ∈ values, v.kind = kind := by
  induction values generalizing index with
  | nil => simp [firstStranger]
  | cons v values ih =>
    rw [firstStranger, List.forall_mem_cons]
    split
    · next h => rw [ih, and_iff_right h]
    · next h => simp [h]

theorem kind_ne_undefined (v : Value) : v.kind ≠ .undefined := by
  cases v <;> simp [Value.kind]

/-- The check before the writing finds nothing exactly if all values are of the record's kind. -/
theorem kindError?_eq_none_iff {r : Record} :
    r.kindError? = none ↔ ∀ values ∈ r.values, ∀ v ∈ values, v.kind = r.kind := by
  rw [kindError?]
  cases r.values with
  | none => simp
  | some values =>
    simp only [Option.mem_def, Option.some.injEq, forall_eq']
    split
    · next h =>
      refine ⟨fun hn => absurd hn (by simp), fun hall => ?_⟩
      cases values with
      | nil => exact absurd h.2 (by simp)
      | cons v values =>
        exact absurd ((hall v List.mem_cons_self).trans h.1) (kind_ne_undefined v)
    · exact firstStranger_eq_none_iff

/-- What can be written has values of its kind only. -/
theorem Writes.kindError? {capacity : Nat} {p : List UInt8} {r : Record}
    (h : Writes capacity p r) : r.kindError? = none := by
  obtain ⟨-, hb⟩ := h
  rw [kindError?_eq_none_iff]
  cases hb with
  | absent => exact fun _ h => absurd h (by simp)
  | present _ h =>
    simp only [Option.mem_def, Option.some.injEq, forall_eq']
    exact ((List.forall₂_and_left _ _).1 h.flip).1

theorem yields_bodyFields_iff {capacity : Nat} {r : Record} {p : List UInt8}
    (hk : r.kindError? = none) : Yields (bodyFields capacity r) p ↔ Writes capacity p r := by
  rw [kindError?_eq_none_iff] at hk
  obtain ⟨name, kind, values⟩ := r
  rw [bodyFields, yields_append_iff]
  simp only [yields_textFields_iff, yields_cons_iff]
  cases values with
  | none =>
    simp only [yields_cons_iff, yields_nil_iff]
    refine ⟨?_, ?_⟩
    · rintro ⟨a, _, rfl, ha, _, rfl, _, rfl, rfl⟩
      exact .mk ha .absent
    · rintro ⟨hs, ⟨⟩⟩
      exact ⟨_, _, rfl, hs, _, rfl, _, rfl, rfl⟩
  | some values =>
    simp only [yields_cons_iff, yields_numberField_cons_iff, yields_flatMap_iff (hk values rfl)]
    refine ⟨?_, ?_⟩
    · rintro ⟨a, _, rfl, ha, _, rfl, _, rfl, hc, _, rfl, parts, rfl, h⟩
      exact .mk ha (.present hc h)
    · rintro ⟨hs, hb⟩
      cases hb with
      | present hc h => exact ⟨_, _, rfl, hs, _, rfl, _, rfl, hc, _, rfl, _, rfl, h⟩

theorem yields_fields_iff {capacity : Nat} {r : Record} {p : List UInt8} :
    Yields (fields capacity r) p ↔ Writes capacity p r := by
  rw [fields]
  cases hk : r.kindError? with
  | some e =>
    refine ⟨fun h => absurd h not_yields_failure, fun h => ?_⟩
    rw [h.kindError?] at hk
    exact absurd hk (by simp)
  | none => exact yields_bodyFields_iff hk

/-- **Writing a record succeeds exactly if there are bytes for it, and then these are appended.** -/
theorem encode_eq_ok_iff {w w' : Writer} (hw : w.Accepting) {capacity : Nat} {r : Record} :
    encode capacity r w = (.ok (), w') ↔ ∃ p, Writes capacity p r ∧ w' = w.append p := by
  rw [encode, writeFields_eq_ok_iff hw]
  simp only [yields_fields_iff]

/-! ## Records that have bytes -/

theorem exists_valueOutput_iff {capacity : Nat} {kind : Kind} {v : Value} :
    (∃ p, ValueOutput capacity kind p v) ↔
      v.kind = kind ∧ (kind = .binary → capacity < capacityBound) ∧
        ∃ text ∈ textOf? v, text.length < countBound := by
  constructor
  · rintro ⟨p, hk, hc, s, hs, ht⟩
    exact ⟨hk, hc, _, ht, hs.1⟩
  · rintro ⟨hk, hc, text, ht, hlen⟩
    obtain ⟨s, rfl⟩ := exists_ofString_of_textOf? ht
    exact ⟨_, hk, hc, s, ⟨hlen, rfl⟩, ht⟩

theorem exists_forall₂_iff {R : List UInt8 → Value → Prop} {values : List Value} :
    (∃ parts, List.Forall₂ R parts values) ↔ ∀ v ∈ values, ∃ p, R p v := by
  induction values with
  | nil => simp
  | cons v values ih =>
    rw [List.forall_mem_cons, ← ih]
    constructor
    · rintro ⟨_, h⟩
      obtain ⟨p, parts, hp, hparts, -⟩ := List.forall₂_cons_right_iff.1 h
      exact ⟨⟨p, hp⟩, parts, hparts⟩
    · rintro ⟨⟨p, hp⟩, parts, hparts⟩
      exact ⟨p :: parts, .cons hp hparts⟩

/-- All values are of the record's kind, and nothing is too long for its four bytes. -/
structure Fitting (r : Record) : Prop where
  kind_eq : ∀ values ∈ r.values, ∀ v ∈ values, v.kind = r.kind
  name_fits : (Utf8.ofString r.name.text).length < countBound
  count_fits : ∀ values ∈ r.values, values.length < countBound
  texts_fit : ∀ values ∈ r.values, ∀ v ∈ values, ∀ text ∈ textOf? v, text.length < countBound

/-- Every value has a text.  Dates without a local time have none. -/
def HasTexts (r : Record) : Prop := ∀ values ∈ r.values, ∀ v ∈ values, (textOf? v).isSome = true

/-- Some value is binary, so that its text needs a buffer. -/
def NeedsBuffer (r : Record) : Prop := r.kind = .binary ∧ ∃ values ∈ r.values, values ≠ []

theorem exists_writes_some_iff {capacity : Nat} {name : Name} {kind : Kind}
    {values : List Value} : (∃ p, Writes capacity p ⟨name, kind, some values⟩) ↔
      (Utf8.ofString name.text).length < countBound ∧ values.length < countBound ∧
        ∀ v ∈ values, ∃ p, ValueOutput capacity kind p v := by
  constructor
  · rintro ⟨_, hs, hb⟩
    cases hb with
    | present hc h => exact ⟨hs.1, hc, exists_forall₂_iff.1 ⟨_, h⟩⟩
  · rintro ⟨hname, hc, hvalues⟩
    obtain ⟨parts, h⟩ := exists_forall₂_iff.2 hvalues
    exact ⟨_, .mk ⟨hname, rfl⟩ (.present hc h)⟩

/-- **Which records have bytes**: those in which nothing is too long, whose values have texts, and
whose binary values get a buffer that can be. -/
theorem exists_writes_iff {capacity : Nat} {r : Record} :
    (∃ p, Writes capacity p r) ↔
      r.Fitting ∧ r.HasTexts ∧ (r.NeedsBuffer → capacity < capacityBound) := by
  obtain ⟨name, kind, _ | values⟩ := r
  · constructor
    · rintro ⟨_, hs, -⟩
      exact ⟨⟨by simp, hs.1, by simp, by simp⟩, by simp [HasTexts], by simp [NeedsBuffer]⟩
    · rintro ⟨hf, -, -⟩
      exact ⟨_, .mk ⟨hf.name_fits, rfl⟩ .absent⟩
  · simp only [exists_writes_some_iff, exists_valueOutput_iff]
    constructor
    · rintro ⟨hname, hcount, hvalues⟩
      refine ⟨⟨?_, hname, ?_, ?_⟩, ?_, ?_⟩
      · rintro _ ⟨⟩ v hv
        exact (hvalues v hv).1
      · rintro _ ⟨⟩
        exact hcount
      · rintro _ ⟨⟩ v hv text ht
        obtain ⟨-, -, text', ht', hlen⟩ := hvalues v hv
        rwa [Option.mem_unique ht ht']
      · rintro _ ⟨⟩ v hv
        obtain ⟨-, -, text, ht, -⟩ := hvalues v hv
        exact Option.isSome_of_mem ht
      · rintro ⟨hk, _, ⟨⟩, hne⟩
        obtain ⟨v, hv⟩ := List.exists_mem_of_ne_nil _ hne
        exact (hvalues v hv).2.1 hk
    · rintro ⟨hf, ht, hc⟩
      refine ⟨hf.name_fits, hf.count_fits _ rfl, fun v hv => ⟨hf.kind_eq _ rfl v hv, ?_, ?_⟩⟩
      · exact fun hk => hc ⟨hk, _, rfl, List.ne_nil_of_mem hv⟩
      · obtain ⟨text, htext⟩ := Option.isSome_iff_exists.1 (ht _ rfl v hv)
        exact ⟨text, htext, hf.texts_fit _ rfl v hv text htext⟩

/-- The bytes of a record do not depend on the buffer. -/
theorem Writes.of_capacity {capacity capacity' : Nat} {p : List UInt8} {r : Record}
    (h : Writes capacity p r) (hc : r.NeedsBuffer → capacity' < capacityBound) :
    Writes capacity' p r := by
  obtain ⟨hs, hb⟩ := h
  refine .mk hs ?_
  cases hb with
  | absent => exact .absent
  | @present parts values hcount hvalues =>
    refine .present hcount ?_
    rcases eq_or_ne values [] with rfl | hne
    · rw [List.forall₂_nil_right_iff] at hvalues ⊢
      exact hvalues
    · exact hvalues.imp fun _ _ hv => ⟨hv.1, fun hk => hc ⟨hk, _, rfl, hne⟩, hv.2.2⟩

/-- Payloads have texts. -/
theorem NeedsBuffer.hasTexts {r : Record} (h : r.NeedsBuffer) (hf : r.Fitting) : r.HasTexts := by
  intro values hvalues v hv
  have hk : v.kind = .binary := (hf.kind_eq values hvalues v hv).trans h.1
  cases v with
  | binary payload => rfl
  | _ => exact absurd hk (by simp [Value.kind])

end Record
end ContentOverlay
