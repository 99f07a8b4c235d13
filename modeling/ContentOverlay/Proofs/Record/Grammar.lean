import Mathlib
import ContentOverlay.Proofs.Stream.Reader
import ContentOverlay.Proofs.Text.Base64
import ContentOverlay.Proofs.Text.Utf8
import ContentOverlay.Record.Reading

/-!
# The grammar of records

`Record.Basic` draws the byte form of a record as a grammar.  Here the grammar is a relation,
`Form p record`, and the reader is compared with it: `decode` succeeds exactly on the byte strings
that begin with a form, it gives the record of that form, and it stops right behind it
(`decode_eq_ok_iff`).

The comparison is made step by step.  `Reads m G` says that the step `m` accepts exactly the sources
that begin with a `p` for which `G p a` holds, that it then gives `a`, and that it takes `p` and
nothing else.  Each way to combine steps has one lemma, so the grammar of a step is put together the
way the step itself is.

A step is a function, so a relation that it reads is deterministic for free: two beginnings of one
source which both have the form are the same (`Reads.unique`).
-/

set_option autoImplicit false

namespace ContentOverlay
namespace Record

/-! ## The grammar -/

/-- `p` is the text `s` with its length in front. -/
def Framed (p : List UInt8) (s : String) : Prop :=
  (Utf8.ofString s).length < countBound ∧
    p = fourBytes (Utf8.ofString s).length ++ Utf8.ofString s

/-- The text `s` stands for the value `v` in a record of this kind: as padded Base64 for a binary
value, and as `Value.read` has it for any other. -/
def Means (kind : Kind) (s : String) (v : Value) : Prop :=
  if kind = .binary then ∃ payload, Base64.Spells (Utf8.ofString s) payload ∧ v = .binary payload
  else Value.read kind s = .ok v

/-- `p` is a framed text that stands for `v`. -/
def ValueForm (kind : Kind) (p : List UInt8) (v : Value) : Prop :=
  ∃ s, Framed p s ∧ Means kind s v

/-- The last part of a record: absent values, or their number and the values, each in a form that
the relation `V` describes. -/
inductive BlockForm (V : List UInt8 → Value → Prop) : List UInt8 → Option (List Value) → Prop
  | absent : BlockForm V [absentTag] none
  | present {parts : List (List UInt8)} {values : List Value}
      (hc : values.length < countBound) (h : List.Forall₂ V parts values) :
      BlockForm V (presentTag :: (fourBytes values.length ++ parts.flatten)) (some values)

/-- **The byte form of a record**: its name, its kind, its values. -/
inductive Form : List UInt8 → Record → Prop
  | mk {p block : List UInt8} {s : String} {name : Name} {kind : Kind}
      {values : Option (List Value)} (hs : Framed p s) (hn : Name.read s = .ok name)
      (hb : BlockForm (ValueForm kind) block values) :
      Form (p ++ (codeBytes kind.code ++ block)) ⟨name, kind, values⟩

/-- No text stands for a value of the undefined kind. -/
theorem not_means_undefined (s : String) (v : Value) : ¬ Means .undefined s v := by
  rw [Means, if_neg (by decide)]
  intro h
  exact absurd h (by simp [Value.read, Value.readBody, Except.mapError])

/-- A record of the undefined kind has no values. -/
theorem Form.values_of_undefined {p : List UInt8} {record : Record} (h : Form p record)
    (hk : record.kind = .undefined) : record.values = none ∨ record.values = some [] := by
  obtain ⟨-, -, hb⟩ := h
  cases hb with
  | absent => exact .inl rfl
  | present _ h =>
    cases h with
    | nil => exact .inr rfl
    | cons hv _ =>
      obtain ⟨s, -, hs⟩ := hv
      obtain rfl : _ = Kind.undefined := hk
      exact absurd hs (not_means_undefined _ _)

/-! ## Numbers in four bytes -/

theorem numberOf_four (a b c d : UInt8) :
    numberOf [a, b, c, d] =
      ((a.toNat * 256 + b.toNat) * 256 + c.toNat) * 256 + d.toNat := by
  simp [numberOf]

theorem numberOf_fourBytes {n : Nat} (h : n < countBound) : numberOf (fourBytes n) = n := by
  rw [countBound] at h
  rw [fourBytes, numberOf_four]
  simp only [UInt8.toNat_ofNat']
  omega

theorem numberOf_lt {p : List UInt8} (h : p.length = 4) : numberOf p < countBound := by
  obtain ⟨a, b, c, d, rfl⟩ := List.length_eq_four.1 h
  rw [numberOf_four, countBound]
  have := a.toNat_lt
  have := b.toNat_lt
  have := c.toNat_lt
  have := d.toNat_lt
  omega

theorem fourBytes_numberOf {p : List UInt8} (h : p.length = 4) : fourBytes (numberOf p) = p := by
  obtain ⟨a, b, c, d, rfl⟩ := List.length_eq_four.1 h
  have := a.toNat_lt
  have := b.toNat_lt
  have := c.toNat_lt
  have := d.toNat_lt
  rw [numberOf_four, fourBytes, List.cons.injEq, List.cons.injEq, List.cons.injEq, List.cons.injEq]
  refine ⟨?_, ?_, ?_, ?_, rfl⟩ <;> exact Utf8.ofNat_eq_of_toNat (by omega)

theorem codeBytes_codeOf {p : List UInt8} (h : p.length = 4) : codeBytes (codeOf p) = p := by
  have hlt := numberOf_lt h
  rw [countBound] at hlt
  have : (codeOf p % 4294967296).toNat = numberOf p := by
    simp only [codeOf]
    split_ifs <;> omega
  rw [codeBytes, this, fourBytes_numberOf h]

theorem codeOf_codeBytes (kind : Kind) : codeOf (codeBytes kind.code) = kind.code := by
  cases kind <;> decide

/-! ## What a step accepts -/

/-- **The step accepts the grammar.**  From a willing reader it gives exactly the results of those
beginnings of the source that belong to `G`, and it takes just such a beginning. -/
def Reads {α : Type} (m : Reading α) (G : List UInt8 → α → Prop) : Prop :=
  ∀ ⦃r : Reader⦄, r.Willing → ∀ (a : α) (r' : Reader),
    m.run r = (.ok a, r') ↔ ∃ p z, r.rest = p ++ z ∧ G p a ∧ r' = r.skip p.length

section Steps

variable {α β : Type} {m : Reading α} {f : α → Reading β} {G H : List UInt8 → α → Prop}

theorem Reads.congr (h : Reads m G) (hGH : ∀ p a, G p a ↔ H p a) : Reads m H := by
  intro r hr a r'
  rw [h hr]
  simp only [hGH]

theorem run_bind (m : Reading α) (f : α → Reading β) (r : Reader) :
    (m >>= f).run r = match m.run r with
      | (.ok a, r') => (f a).run r'
      | (.error e, r') => (.error e, r') := by
  show (match m.run r with | (a, s) => ExceptT.bindCont f a s) = _
  rcases m.run r with ⟨_ | _, _⟩ <;> rfl

/-- One step after another takes one beginning after another. -/
theorem Reads.bind {K : α → List UInt8 → β → Prop} (hm : Reads m G) (hf : ∀ a, Reads (f a) (K a)) :
    Reads (m >>= f) fun p b => ∃ p₁ p₂ a, p = p₁ ++ p₂ ∧ G p₁ a ∧ K a p₂ b := by
  intro r hr b r'
  have hrest : ∀ {p₁ z₁ : List UInt8}, r.rest = p₁ ++ z₁ → (r.skip p₁.length).rest = z₁ := by
    intro p₁ z₁ h
    rw [Reader.skip_rest, h, List.drop_left]
  rw [run_bind]
  refine ⟨?_, ?_⟩
  · intro h
    split at h
    · next a r₁ h₁ =>
      obtain ⟨p₁, z₁, hz₁, hG, rfl⟩ := (hm hr a r₁).1 h₁
      obtain ⟨p₂, z₂, hz₂, hK, rfl⟩ := (hf a (hr.skip _) b r').1 h
      refine ⟨p₁ ++ p₂, z₂, ?_, ⟨p₁, p₂, a, rfl, hG, hK⟩, ?_⟩
      · rw [hz₁, ← hrest hz₁, hz₂, List.append_assoc]
      · rw [Reader.skip_skip, List.length_append]
    · cases h
  · rintro ⟨p, z, hz, ⟨p₁, p₂, a, rfl, hG, hK⟩, rfl⟩
    rw [List.append_assoc] at hz
    rw [(hm hr a _).2 ⟨p₁, p₂ ++ z, hz, hG, rfl⟩]
    show (f a).run (r.skip p₁.length) = _
    refine (hf a (hr.skip _) b _).2 ⟨p₂, z, hrest hz, hK, ?_⟩
    rw [Reader.skip_skip, List.length_append]

theorem reads_pure (a : α) : Reads (pure a) fun p b => p = [] ∧ b = a := by
  intro r hr b r'
  show (Except.ok a, r) = (Except.ok b, r') ↔ _
  rw [Prod.mk.injEq, Except.ok.injEq]
  refine ⟨?_, ?_⟩
  · rintro ⟨rfl, rfl⟩
    exact ⟨[], r.rest, rfl, ⟨rfl, rfl⟩, by simp⟩
  · rintro ⟨p, z, -, ⟨rfl, rfl⟩, rfl⟩
    exact ⟨rfl, by simp⟩

theorem reads_throw (e : Error) : Reads (throw e : Reading α) fun _ _ => False := by
  intro r hr b r'
  show (Except.error e, r) = (Except.ok b, r') ↔ _
  simp

theorem reads_expect (part : Part) (x : Except Cause α) :
    Reads (expect part x) fun p a => p = [] ∧ x = .ok a := by
  cases x with
  | ok a => exact (reads_pure a).congr fun p b => by rw [Except.ok.injEq, eq_comm (a := a)]
  | error cause => exact (reads_throw _).congr fun p b => by simp

theorem Reads.map {g : α → β} (hm : Reads m G) :
    Reads (m >>= fun a => pure (g a)) fun p b => ∃ a, G p a ∧ b = g a := by
  refine (hm.bind fun a => reads_pure (g a)).congr fun p b => ?_
  refine ⟨?_, ?_⟩
  · rintro ⟨p₁, p₂, a, rfl, hG, rfl, rfl⟩
    exact ⟨a, by rwa [List.append_nil], rfl⟩
  · rintro ⟨a, hG, rfl⟩
    exact ⟨p, [], a, (List.append_nil p).symm, hG, rfl, rfl⟩

/-- A check of a result, or its conversion, takes nothing. -/
theorem Reads.expect {x : α → Except Cause β} {part : Part} (hm : Reads m G) :
    Reads (m >>= fun a => expect part (x a)) fun p b => ∃ a, G p a ∧ x a = .ok b := by
  refine (hm.bind fun a => reads_expect part (x a)).congr fun p b => ?_
  refine ⟨?_, ?_⟩
  · rintro ⟨p₁, p₂, a, rfl, hG, rfl, hx⟩
    exact ⟨a, by rwa [List.append_nil], hx⟩
  · rintro ⟨a, hG, hx⟩
    exact ⟨p, [], a, (List.append_nil p).symm, hG, rfl, hx⟩

/-- **At most one beginning of a source belongs to the grammar of a step**, and with one result. -/
theorem Reads.unique (h : Reads m G) {p z p' z' : List UInt8} {a a' : α}
    (hz : p ++ z = p' ++ z') (hG : G p a) (hG' : G p' a') : p = p' ∧ a = a' := by
  have hr := Reader.ofBytes_willing (p ++ z)
  have h₁ := (h hr a _).2 ⟨p, z, rfl, hG, rfl⟩
  have h₂ := (h hr a' _).2 ⟨p', z', hz, hG', rfl⟩
  rw [h₁, Prod.mk.injEq, Except.ok.injEq] at h₂
  have hrest := congrArg Reader.rest h₂.2
  rw [Reader.skip_rest, Reader.skip_rest] at hrest
  simp only [Reader.ofBytes, List.drop_left] at hrest
  rw [hz, List.drop_left] at hrest
  subst hrest
  exact ⟨List.append_cancel_right hz, h₂.1⟩

end Steps

/-! ## Fields -/

theorem reads_readFixed (part : Part) (size : Nat) :
    Reads (readFixed part size) fun p a => p.length = size ∧ a = p := by
  intro r hr a r'
  have hrun : (readFixed part size).run r =
      if size ≤ r.rest.length then (.ok (r.rest.take size), r.skip size)
      else (.error ⟨part, .sourceEnded⟩, r.skip size) := by
    show reading part (Reader.readExactly · size) r = _
    rw [reading, hr.readExactly_eq]
    split_ifs <;> rfl
  rw [hrun]
  refine ⟨?_, ?_⟩
  · intro h
    split at h
    · next hle =>
      obtain ⟨ha, rfl⟩ := Prod.mk.inj h
      have hlen : (r.rest.take size).length = size := by
        rw [List.length_take, Nat.min_eq_left hle]
      exact ⟨r.rest.take size, r.rest.drop size, (List.take_append_drop _ _).symm,
        ⟨hlen, (Except.ok.inj ha).symm⟩, by rw [hlen]⟩
    · cases h
  · rintro ⟨p, z, hz, ⟨rfl, rfl⟩, rfl⟩
    rw [hz, if_pos (by simp), List.take_left]

theorem reads_readTextBytes :
    Reads readTextBytes fun p a => a.length < countBound ∧ p = fourBytes a.length ++ a := by
  have htext : ∀ length : Nat, Reads (do
      let bytes ← reading .text (Reader.readUpTo · length)
      if bytes.length = length then return bytes else throw ⟨.text, .truncated⟩)
      fun p a => p.length = length ∧ a = p := by
    intro length r hr a r'
    rw [run_bind]
    have hrun : (reading .text (Reader.readUpTo · length)).run r =
        (.ok (r.rest.take length), r.skip length) := by
      show reading .text (Reader.readUpTo · length) r = _
      rw [reading, hr.readUpTo_eq]
    rw [hrun]
    show (if (r.rest.take length).length = length then pure (r.rest.take length)
      else throw ⟨.text, .truncated⟩ : Reading (List UInt8)).run (r.skip length) = _ ↔ _
    refine ⟨?_, ?_⟩
    · intro h
      split at h
      · next hlen =>
        obtain ⟨ha, rfl⟩ := Prod.mk.inj h
        exact ⟨r.rest.take length, r.rest.drop length, (List.take_append_drop _ _).symm,
          ⟨hlen, (Except.ok.inj ha).symm⟩, by rw [hlen]⟩
      · cases h
    · rintro ⟨p, z, hz, ⟨rfl, rfl⟩, rfl⟩
      rw [hz, List.take_left, if_pos rfl]
      rfl
  refine ((reads_readFixed .textLength 4).bind fun bytes => htext (numberOf bytes)).congr
    fun p a => ?_
  refine ⟨?_, ?_⟩
  · rintro ⟨p₁, p₂, bytes, rfl, ⟨h₄, rfl⟩, hlen, rfl⟩
    rw [hlen, fourBytes_numberOf h₄]
    exact ⟨numberOf_lt h₄, rfl⟩
  · rintro ⟨hlt, rfl⟩
    exact ⟨fourBytes a.length, a, _, rfl, ⟨rfl, rfl⟩, (numberOf_fourBytes hlt).symm, rfl⟩

theorem reads_readText : Reads readText Framed := by
  refine reads_readTextBytes.expect.congr fun p s => ?_
  have hok : ∀ bytes, (Utf8.toString? bytes).mapError Cause.encoding = .ok s ↔
      bytes = Utf8.ofString s := by
    intro bytes
    rw [← Utf8.toString?_eq_ok_iff]
    cases Utf8.toString? bytes <;> simp [Except.mapError]
  simp only [hok]
  refine ⟨?_, ?_⟩
  · rintro ⟨_, ⟨hlt, rfl⟩, rfl⟩
    exact ⟨hlt, rfl⟩
  · rintro ⟨hlt, rfl⟩
    exact ⟨_, ⟨hlt, rfl⟩, rfl⟩

theorem reads_readName : Reads readName fun p name => ∃ s, Framed p s ∧ Name.read s = .ok name := by
  refine reads_readText.expect.congr fun p name => ?_
  have hok : ∀ s, (Name.read s).mapError Cause.name = .ok name ↔ Name.read s = .ok name := by
    intro s
    cases Name.read s <;> simp [Except.mapError]
  simp only [hok]

theorem reads_readKind : Reads readKind fun p kind => p = codeBytes kind.code := by
  refine (Reads.bind (reads_readFixed .kind 4) (?_ : ∀ bytes, Reads _ fun p kind =>
    p = [] ∧ Kind.ofCode? (codeOf bytes) = some kind)).congr fun p kind => ?_
  · intro bytes
    dsimp only
    cases Kind.ofCode? (codeOf bytes) with
    | some kind =>
      exact (reads_pure kind).congr fun p b => by rw [Option.some.injEq, eq_comm (a := kind)]
    | none => exact (reads_throw _).congr fun p b => by simp
  refine ⟨?_, ?_⟩
  · rintro ⟨p₁, p₂, bytes, rfl, ⟨h₄, rfl⟩, rfl, hk⟩
    have : kind.code = codeOf bytes := by
      have := List.find?_some hk
      exact beq_iff_eq.1 this
    rw [this, codeBytes_codeOf h₄, List.append_nil]
  · rintro rfl
    exact ⟨codeBytes kind.code, [], _, (List.append_nil _).symm, ⟨rfl, rfl⟩, rfl, by
      rw [codeOf_codeBytes, Kind.ofCode?_code]⟩

/-! ## Values -/

theorem valueOf_eq_ok_iff {kind : Kind} {s : String} {v : Value} :
    valueOf kind s = .ok v ↔ Means kind s v := by
  rw [valueOf, Means]
  split
  · simp only [← Base64.decode_eq_ok_iff]
    cases Base64.decode (Utf8.ofString s) <;> simp [Except.mapError, Except.map, eq_comm]
  · cases Value.read kind s <;> simp [Except.mapError]

/-- The loop over the values takes one form after the other, as many as it counts. -/
theorem reads_readValues (name : Name) (kind : Kind) (index : Nat) (acc : List Value)
    (count : Nat) : Reads (readValues name kind index acc count) fun p values =>
      ∃ parts more, p = parts.flatten ∧ values = acc.reverse ++ more ∧ more.length = count ∧
        List.Forall₂ (ValueForm kind) parts more := by
  induction count generalizing index acc with
  | zero =>
    refine (reads_pure acc.reverse).congr fun p values => ?_
    refine ⟨?_, ?_⟩
    · rintro ⟨rfl, rfl⟩
      exact ⟨[], [], rfl, (List.append_nil _).symm, rfl, .nil⟩
    · rintro ⟨parts, more, rfl, rfl, hlen, h⟩
      obtain rfl := List.eq_nil_of_length_eq_zero hlen
      cases h
      exact ⟨rfl, List.append_nil _⟩
  | succ count ih =>
    have hvalue : Reads (readText >>= fun s => expect (.value index name) (valueOf kind s))
        (ValueForm kind) :=
      reads_readText.expect.congr fun p v => by simp only [valueOf_eq_ok_iff, ValueForm]
    have hstep : readValues name kind index acc (count + 1) =
        ((readText >>= fun s => expect (.value index name) (valueOf kind s)) >>= fun v =>
          readValues name kind (index + 1) (v :: acc) count) := by
      rw [readValues, bind_assoc]
    rw [hstep]
    refine (hvalue.bind fun v => ih (index + 1) (v :: acc)).congr fun p values => ?_
    refine ⟨?_, ?_⟩
    · rintro ⟨p₁, p₂, v, rfl, hv, parts, more, rfl, rfl, rfl, h⟩
      exact ⟨p₁ :: parts, v :: more, rfl, by simp, rfl, .cons hv h⟩
    · rintro ⟨parts, more, rfl, rfl, hlen, h⟩
      cases h with
      | nil => exact absurd hlen (by simp)
      | cons hv h =>
        exact ⟨_, _, _, rfl, hv, _, _, rfl, by simp, Nat.succ.inj hlen, h⟩

/-- The tag of a block says which of the two forms it has. -/
theorem blockForm_cons_iff {V : List UInt8 → Value → Prop} {tag : UInt8} {p : List UInt8}
    {values : Option (List Value)} :
    BlockForm V (tag :: p) values ↔ (tag = absentTag ∧ p = [] ∧ values = none) ∨
      (tag = presentTag ∧ ∃ parts vs, p = fourBytes vs.length ++ parts.flatten ∧
        values = some vs ∧ vs.length < countBound ∧ List.Forall₂ V parts vs) := by
  refine ⟨?_, ?_⟩
  · intro h
    generalize hq : tag :: p = q at h
    cases h with
    | absent => exact .inl ⟨(List.cons.inj hq).1, (List.cons.inj hq).2, rfl⟩
    | @present parts vs hc h =>
      exact .inr ⟨(List.cons.inj hq).1, parts, vs, (List.cons.inj hq).2, rfl, hc, h⟩
  · rintro (⟨rfl, rfl, rfl⟩ | ⟨rfl, parts, vs, rfl, rfl, hc, h⟩)
    · exact .absent
    · exact .present hc h

/-- What follows the tag of present values. -/
theorem reads_countedValues (name : Name) (kind : Kind) :
    Reads (do
      let count := numberOf (← readFixed .valueCount 4)
      return some (← readValues name kind 0 [] count)) fun p values =>
        ∃ parts vs, p = fourBytes vs.length ++ parts.flatten ∧ values = some vs ∧
          vs.length < countBound ∧ List.Forall₂ (ValueForm kind) parts vs := by
  refine ((reads_readFixed .valueCount 4).bind fun bytes =>
    (reads_readValues name kind 0 [] (numberOf bytes)).map (g := some)).congr fun p values => ?_
  refine ⟨?_, ?_⟩
  · rintro ⟨p₁, p₂, bytes, rfl, ⟨h₄, rfl⟩, vs, ⟨parts, _, rfl, rfl, hlen, h⟩, rfl⟩
    refine ⟨parts, vs, ?_, rfl, hlen ▸ numberOf_lt h₄, h⟩
    rw [hlen, fourBytes_numberOf h₄]
  · rintro ⟨parts, vs, rfl, rfl, hc, h⟩
    exact ⟨_, _, _, rfl, ⟨rfl, rfl⟩, _, ⟨parts, vs, rfl, rfl, (numberOf_fourBytes hc).symm, h⟩,
      rfl⟩

theorem reads_afterTag (name : Name) (kind : Kind) (tag : UInt8) :
    Reads (if tag = absentTag then (return none : Reading _)
      else if tag = presentTag then do
        let count := numberOf (← readFixed .valueCount 4)
        return some (← readValues name kind 0 [] count)
      else throw ⟨.valueBlock, .unknownTag tag⟩)
      fun p values => BlockForm (ValueForm kind) (tag :: p) values := by
  by_cases ha : tag = absentTag
  · have hp : tag ≠ presentTag := by
      rw [ha]
      decide
    rw [if_pos ha]
    refine (reads_pure none).congr fun p values => ?_
    rw [blockForm_cons_iff, or_iff_left fun h => hp h.1, and_iff_right ha]
  · rw [if_neg ha]
    by_cases hp : tag = presentTag
    · rw [if_pos hp]
      refine (reads_countedValues name kind).congr fun p values => ?_
      rw [blockForm_cons_iff, or_iff_right fun h => ha h.1, and_iff_right hp]
    · rw [if_neg hp]
      refine (reads_throw _).congr fun p values => ⟨False.elim, fun h => ?_⟩
      rcases blockForm_cons_iff.1 h with h | h
      · exact ha h.1
      · exact hp h.1

theorem reads_readBlock (name : Name) (kind : Kind) :
    Reads (readBlock name kind) (BlockForm (ValueForm kind)) := by
  refine ((reads_readFixed .valueBlock 1).bind fun bytes =>
    reads_afterTag name kind (UInt8.ofNat (numberOf bytes))).congr fun p values => ?_
  have hbyte : ∀ b : UInt8, UInt8.ofNat (numberOf [b]) = b := fun b => by simp [numberOf]
  refine ⟨?_, ?_⟩
  · rintro ⟨p₁, p₂, bytes, rfl, ⟨h₁, rfl⟩, h⟩
    obtain ⟨b, rfl⟩ := List.length_eq_one_iff.1 h₁
    rwa [hbyte] at h
  · intro h
    cases h with
    | absent => exact ⟨[absentTag], [], _, rfl, ⟨rfl, rfl⟩, by rw [hbyte]; exact .absent⟩
    | present hc h =>
      exact ⟨[presentTag], _, _, rfl, ⟨rfl, rfl⟩, by rw [hbyte]; exact .present hc h⟩

/-! ## Records -/

theorem reads_readRecord : Reads readRecord Form := by
  refine (reads_readName.bind fun name => reads_readKind.bind fun kind =>
    (reads_readBlock name kind).map (g := Record.mk name kind)).congr fun p record => ?_
  refine ⟨?_, ?_⟩
  · rintro ⟨p₁, _, name, rfl, ⟨s, hs, hn⟩, _, block, kind, rfl, rfl, values, hb, rfl⟩
    exact .mk hs hn hb
  · rintro ⟨hs, hn, hb⟩
    exact ⟨_, _, _, rfl, ⟨_, hs, hn⟩, _, _, _, rfl, rfl, _, hb, rfl⟩

/-- **What the reader accepts, and how much of it.** -/
theorem decode_eq_ok_iff {r r' : Reader} (hr : r.Willing) {record : Record} :
    decode r = (.ok record, r') ↔
      ∃ p z, r.rest = p ++ z ∧ Form p record ∧ r' = r.skip p.length :=
  reads_readRecord hr record r'

/-- The form of a record with nothing behind it is read as the record. -/
theorem Form.decode_ofBytes {p : List UInt8} {record : Record} (h : Form p record) :
    decode (Reader.ofBytes p) = (.ok record, (Reader.ofBytes p).skip p.length) :=
  (decode_eq_ok_iff (Reader.ofBytes_willing p)).2 ⟨p, [], (List.append_nil p).symm, h, rfl⟩

/-- At most one beginning of a byte string is the form of a record, and of one record. -/
theorem Form.unique {p z p' z' : List UInt8} {record record' : Record}
    (hz : p ++ z = p' ++ z') (h : Form p record) (h' : Form p' record') :
    p = p' ∧ record = record' :=
  reads_readRecord.unique hz h h'

/-- **The reader accepts exactly the grammar.**  It succeeds on the byte strings that begin with the
form of a record, whatever comes behind it, and takes the form and nothing more; there is no other
way to cut off a form, and no form with its end missing is accepted.  On all other byte strings it
gives an error of the byte form. -/
theorem decode_accepts_iff_form {r : Reader} (hr : r.Willing) :
    ((∃ record, (decode r).1 = .ok record) ↔ ∃ p z record, r.rest = p ++ z ∧ Form p record) ∧
    (∀ p z record, r.rest = p ++ z → Form p record →
      decode r = (.ok record, r.skip p.length) ∧ (r.skip p.length).rest = z ∧
      (∀ p' z' record', r.rest = p' ++ z' → Form p' record' → p' = p ∧ record' = record) ∧
      (∀ s : Reader, s.Willing → ∀ z', s.rest = p ++ z' →
        decode s = (.ok record, s.skip p.length)) ∧
      (∀ s : Reader, s.Willing → s.rest <+: p → s.rest ≠ p → ∃ e, (decode s).1 = .error e) ∧
      (record.kind = .undefined → record.values = none ∨ record.values = some [])) ∧
    ((∀ p z record, r.rest = p ++ z → ¬ Form p record) → ∃ e, (decode r).1 = .error e) := by
  have hfail : ∀ s : Reader, s.Willing → (∀ p z record, s.rest = p ++ z → ¬ Form p record) →
      ∃ e, (decode s).1 = .error e := by
    intro s hs hno
    rcases h : decode s with ⟨e | record, s'⟩
    · exact ⟨e, rfl⟩
    · obtain ⟨p, z, hz, hp, -⟩ := (decode_eq_ok_iff hs).1 h
      exact absurd hp (hno p z record hz)
  refine ⟨⟨?_, ?_⟩, fun p z record hz hp => ⟨?_, ?_, ?_, ?_, ?_, hp.values_of_undefined⟩,
    hfail r hr⟩
  · rintro ⟨record, h⟩
    obtain ⟨p, z, hz, hp, -⟩ := (decode_eq_ok_iff hr).1 (Prod.ext h rfl)
    exact ⟨p, z, record, hz, hp⟩
  · rintro ⟨p, z, record, hz, hp⟩
    exact ⟨record, congrArg Prod.fst ((decode_eq_ok_iff hr).2 ⟨p, z, hz, hp, rfl⟩)⟩
  · exact (decode_eq_ok_iff hr).2 ⟨p, z, hz, hp, rfl⟩
  · rw [Reader.skip_rest, hz, List.drop_left]
  · intro p' z' record' hz' hp'
    exact hp'.unique (hz'.symm.trans hz) hp
  · intro s hs z' hz'
    exact (decode_eq_ok_iff hs).2 ⟨p, z', hz', hp, rfl⟩
  · intro s hs hpre hne
    refine hfail s hs fun q y record' hy hq => hne ?_
    obtain ⟨more, hmore⟩ := hpre
    -- a form inside the shortened source would be a second form at the front of `p`
    have hz : q ++ (y ++ more) = p ++ [] := by
      rw [← List.append_assoc, ← hy, hmore, List.append_nil]
    obtain rfl := (hq.unique hz hp).1
    have hlen := congrArg List.length hmore
    rw [hy, List.length_append, List.length_append] at hlen
    rw [hy, List.eq_nil_of_length_eq_zero (by omega : y.length = 0), List.append_nil]

theorem decode_accepts_iff_form_short :
    (Reader.ofBytes [0, 0, 0, 1, 110, 0, 0, 0, 0, 1, 0, 0, 0, 0, 7]).Willing ∧
      (decode (Reader.ofBytes [0, 0, 0, 1, 110, 0, 0, 0, 0, 1, 0, 0, 0, 0, 7])).1 =
        .ok ⟨⟨"", "n"⟩, .undefined, some []⟩ := by
  have hs : Framed [0, 0, 0, 1, 110] "n" := ⟨by decide, by decide⟩
  have hn : Name.read "n" = .ok ⟨"", "n"⟩ := by decide
  have hb : BlockForm (ValueForm .undefined) [1, 0, 0, 0, 0] (some []) :=
    @BlockForm.present _ [] [] (by decide) .nil
  exact ⟨Reader.ofBytes_willing _, congrArg Prod.fst
    ((decode_accepts_iff_form (Reader.ofBytes_willing _)).2.1 _ [7] _ rfl (.mk hs hn hb)).1⟩

end Record
end ContentOverlay
