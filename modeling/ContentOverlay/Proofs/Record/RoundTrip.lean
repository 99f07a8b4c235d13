import Mathlib
import ContentOverlay.Proofs.Record.Writing
import ContentOverlay.Proofs.Value.Text

/-!
# Records read back

What is written for a record is the form of the record that is read back, value by value
(`Writes.form_iff`): the texts are the same, so what a value reads back as is what its own text is
read as.

* `encode_faithful_iff` — a record that was written reads back as an equal record exactly if its
  name, and every value, says all about itself in its text.  It then reads back as itself.
* `decodeMany_encodeMany` — records that were written one behind the other are read one behind the
  other, whatever follows them, and the reader stops right behind the last.

The byte form has no length of its own, so the second statement rests on every record telling where
it ends: no beginning of a form is a form.
-/

set_option autoImplicit false

namespace ContentOverlay
namespace Record

/-! ## Values -/

/-- The value `v'` is what the text that is written for `v` reads as. -/
def ReadsBack (v v' : Value) : Prop :=
  if v.kind = .binary then v' = v
  else ∃ s, v.text? = some s ∧ Value.read v.kind s = .ok v'

theorem ofString_injective {s t : String} (h : Utf8.ofString s = Utf8.ofString t) : s = t := by
  have hs := Utf8.toString?_ofString s
  rw [h, Utf8.toString?_ofString] at hs
  exact (Except.ok.inj hs).symm

theorem eq_binary_of_kind {v : Value} (h : v.kind = .binary) : ∃ payload, v = .binary payload := by
  cases v with
  | binary payload => exact ⟨payload, rfl⟩
  | _ => exact nomatch h

theorem textOf?_of_kind_ne {v : Value} (h : v.kind ≠ .binary) :
    textOf? v = v.text?.map Utf8.ofString := by
  cases v <;> first | rfl | exact absurd rfl h

/-- A text stands for what it reads back as. -/
theorem means_iff_readsBack {v v' : Value} {s : String}
    (h : textOf? v = some (Utf8.ofString s)) : Means v.kind s v' ↔ ReadsBack v v' := by
  rw [Means, ReadsBack]
  by_cases hk : v.kind = .binary
  · rw [if_pos hk, if_pos hk]
    obtain ⟨payload, rfl⟩ := eq_binary_of_kind hk
    rw [textOf?, Option.some.injEq] at h
    have hs := spells_payloadText payload
    rw [h] at hs
    refine ⟨?_, ?_⟩
    · rintro ⟨payload', hs', rfl⟩
      rw [← Base64.decode_eq_ok_iff] at hs hs'
      rw [hs] at hs'
      rw [Except.ok.inj hs']
    · rintro rfl
      exact ⟨payload, hs, rfl⟩
  · rw [if_neg hk, if_neg hk]
    rw [textOf?_of_kind_ne hk, Option.map_eq_some_iff] at h
    obtain ⟨t, ht, hts⟩ := h
    obtain rfl := ofString_injective hts
    rw [ht]
    simp

/-- Reading back gives an equal value exactly if the value is faithful, and then the value. -/
theorem readsBack_equal_iff {v v' : Value} {text : List UInt8} (h : textOf? v = some text) :
    ReadsBack v v' ∧ v'.equal v = true ↔ v' = v ∧ v.Faithful := by
  rw [ReadsBack]
  by_cases hk : v.kind = .binary
  · obtain ⟨payload, rfl⟩ := eq_binary_of_kind hk
    rw [if_pos hk]
    refine ⟨fun h => ⟨h.1, trivial⟩, fun h => ⟨h.1, ?_⟩⟩
    rw [h.1]
    exact h.2.equal_self
  · rw [textOf?_of_kind_ne hk, Option.map_eq_some_iff] at h
    obtain ⟨s, hs, -⟩ := h
    rw [if_neg hk, ← Value.read_text?_iff hk hs, hs]
    simp

/-! ## Records -/

/-- The record `r'` is what the bytes that are written for `r` read as. -/
structure ReadsBackAs (r r' : Record) : Prop where
  wellFormed : r.name.WellFormed
  name_eq : r'.name = r.name
  kind_eq : r'.kind = r.kind
  values_rel : Option.Rel (List.Forall₂ ReadsBack) r.values r'.values

/-- As many forms of values at the front of what was written are all that was written. -/
theorem readsBack_of_forms {capacity : Nat} {kind : Kind} {parts parts' : List (List UInt8)}
    {values values' : List Value} {z : List UInt8}
    (hout : List.Forall₂ (ValueOutput capacity kind) parts values)
    (hform : List.Forall₂ (ValueForm kind) parts' values')
    (hlen : values'.length = values.length) (hz : parts.flatten = parts'.flatten ++ z) :
    z = [] ∧ List.Forall₂ ReadsBack values values' := by
  induction hout generalizing parts' values' with
  | nil =>
    obtain rfl := List.eq_nil_of_length_eq_zero hlen
    exact ⟨(List.append_eq_nil_iff.1 hz.symm).2, .nil⟩
  | cons hv _ ih =>
    cases hform with
    | nil => exact absurd hlen (by simp)
    | cons hv' hform =>
      obtain ⟨rfl, -, s, hs, htext⟩ := hv
      obtain ⟨s', hs', hmeans⟩ := hv'
      rw [List.flatten_cons, List.flatten_cons, List.append_assoc] at hz
      obtain ⟨rfl, rfl⟩ := reads_readText.unique hz hs hs'
      obtain ⟨rfl, hback⟩ := ih hform (Nat.succ.inj hlen) (List.append_cancel_left hz)
      exact ⟨rfl, .cons ((means_iff_readsBack htext).1 hmeans) hback⟩

theorem forms_of_readsBack {capacity : Nat} {kind : Kind} {parts : List (List UInt8)}
    {values values' : List Value} (hout : List.Forall₂ (ValueOutput capacity kind) parts values)
    (hback : List.Forall₂ ReadsBack values values') :
    List.Forall₂ (ValueForm kind) parts values' := by
  induction hout generalizing values' with
  | nil =>
    cases hback
    exact .nil
  | cons hv _ ih =>
    cases hback with
    | cons hb hback =>
      obtain ⟨rfl, -, s, hs, htext⟩ := hv
      exact .cons ⟨s, hs, (means_iff_readsBack htext).2 hb⟩ (ih hback)

theorem readsBack_of_blockForm {capacity : Nat} {kind : Kind} {block block' z : List UInt8}
    {values values' : Option (List Value)}
    (hout : BlockForm (ValueOutput capacity kind) block values)
    (hform : BlockForm (ValueForm kind) block' values') (hz : block = block' ++ z) :
    z = [] ∧ Option.Rel (List.Forall₂ ReadsBack) values values' := by
  cases hout with
  | absent =>
    cases hform with
    | absent => exact ⟨(List.cons.inj hz).2.symm, .none⟩
    | present => exact absurd (List.cons.inj hz).1 (by decide)
  | present hc hout =>
    cases hform with
    | absent => exact absurd (List.cons.inj hz).1 (by decide)
    | present hc' hform =>
      rw [List.cons_append, List.append_assoc] at hz
      obtain ⟨hcount, hflat⟩ := List.append_inj (List.cons.inj hz).2 rfl
      have hlen := congrArg numberOf hcount
      rw [numberOf_fourBytes hc, numberOf_fourBytes hc'] at hlen
      obtain ⟨rfl, hback⟩ := readsBack_of_forms hout hform hlen.symm hflat
      exact ⟨rfl, .some hback⟩

theorem blockForm_of_readsBack {capacity : Nat} {kind : Kind} {block : List UInt8}
    {values values' : Option (List Value)}
    (hout : BlockForm (ValueOutput capacity kind) block values)
    (hback : Option.Rel (List.Forall₂ ReadsBack) values values') :
    BlockForm (ValueForm kind) block values' := by
  cases hout with
  | absent =>
    cases hback
    exact .absent
  | present hc hout =>
    cases hback with
    | some hback =>
      have hlen := hback.length_eq
      rw [hlen] at hc ⊢
      exact .present hc (forms_of_readsBack hout hback)

/-- No form of a record ends before the bytes that were written do. -/
theorem Writes.readsBackAs_of_form {capacity : Nat} {p q z : List UInt8} {r r' : Record}
    (h : Writes capacity p r) (hform : Form q r') (hz : p = q ++ z) :
    z = [] ∧ ReadsBackAs r r' := by
  obtain ⟨hs, hb⟩ := h
  obtain ⟨hs', hn', hb'⟩ := hform
  rw [List.append_assoc, List.append_assoc] at hz
  obtain ⟨rfl, rfl⟩ := reads_readText.unique hz hs hs'
  obtain ⟨hcode, hblock⟩ := List.append_inj (List.append_cancel_left hz) rfl
  have hkind := congrArg codeOf hcode
  rw [codeOf_codeBytes, codeOf_codeBytes] at hkind
  obtain rfl := Kind.code_injective hkind
  obtain ⟨rfl, hw⟩ := Name.read_text_eq_ok_iff.1 hn'
  obtain ⟨rfl, hvalues⟩ := readsBack_of_blockForm hb hb' hblock
  exact ⟨rfl, hw, rfl, rfl, hvalues⟩

/-- **What is written for a record is the form of what it reads back as**, and of nothing else. -/
theorem Writes.form_iff {capacity : Nat} {p : List UInt8} {r r' : Record}
    (h : Writes capacity p r) : Form p r' ↔ ReadsBackAs r r' := by
  refine ⟨fun hform => (h.readsBackAs_of_form hform (List.append_nil p).symm).2, ?_⟩
  obtain ⟨hs, hb⟩ := h
  obtain ⟨name', kind', values'⟩ := r'
  rintro ⟨hw, rfl, rfl, hvalues⟩
  exact .mk hs (Name.read_text_eq_ok_iff.2 ⟨rfl, hw⟩) (blockForm_of_readsBack hb hvalues)

/-! ## Faithful records -/

/-- Whether the byte form of a record says all about it. -/
def Faithful (r : Record) : Prop :=
  r.name.WellFormed ∧ ∀ values ∈ r.values, ∀ v ∈ values, v.Faithful

theorem equal_iff {r r' : Record} : r'.equal r = true ↔ r'.name = r.name ∧ r'.kind = r.kind ∧
    Value.equalSequences r'.values r.values = true := by
  rw [equal, Bool.and_eq_true, Bool.and_eq_true, beq_iff_eq, beq_iff_eq, and_assoc]

theorem equalAll_iff {as bs : List Value} :
    Value.equalAll as bs = true ↔ List.Forall₂ (fun a b => a.equal b = true) as bs := by
  induction as generalizing bs with
  | nil => cases bs <;> simp [Value.equalAll]
  | cons a as ih => cases bs <;> simp [Value.equalAll, ih]

/-- Values that read back as equal values are faithful, and read back as themselves. -/
theorem readsBack_equalAll_iff {capacity : Nat} {kind : Kind} {parts : List (List UInt8)}
    {values values' : List Value}
    (hout : List.Forall₂ (ValueOutput capacity kind) parts values) :
    List.Forall₂ ReadsBack values values' ∧ Value.equalAll values' values = true ↔
      values' = values ∧ ∀ v ∈ values, v.Faithful := by
  rw [equalAll_iff]
  induction hout generalizing values' with
  | nil =>
    refine ⟨?_, ?_⟩
    · rintro ⟨⟨⟩, -⟩
      exact ⟨rfl, by simp⟩
    · rintro ⟨rfl, -⟩
      exact ⟨.nil, .nil⟩
  | cons hv _ ih =>
    obtain ⟨-, -, s, -, htext⟩ := hv
    refine ⟨?_, ?_⟩
    · rintro ⟨hback, hequal⟩
      cases hback with
      | cons hb hback =>
        cases hequal with
        | cons he hequal =>
          obtain ⟨rfl, hf⟩ := (readsBack_equal_iff htext).1 ⟨hb, he⟩
          obtain ⟨rfl, hall⟩ := ih.1 ⟨hback, hequal⟩
          exact ⟨rfl, List.forall_mem_cons.2 ⟨hf, hall⟩⟩
    · rintro ⟨rfl, hall⟩
      obtain ⟨hf, hall⟩ := List.forall_mem_cons.1 hall
      obtain ⟨hb, he⟩ := (readsBack_equal_iff htext).2 ⟨rfl, hf⟩
      obtain ⟨hback, hequal⟩ := ih.2 ⟨rfl, hall⟩
      exact ⟨.cons hb hback, .cons he hequal⟩

/-- **The bytes of a record are the form of an equal record exactly if the record is faithful**, and
then of the record itself. -/
theorem Writes.form_equal_iff {capacity : Nat} {p : List UInt8} {r r' : Record}
    (h : Writes capacity p r) : Form p r' ∧ r'.equal r = true ↔ r' = r ∧ r.Faithful := by
  rw [h.form_iff, equal_iff]
  obtain ⟨-, hb⟩ := h
  obtain ⟨name', kind', values'⟩ := r'
  cases hb with
  | absent =>
    refine ⟨?_, ?_⟩
    · rintro ⟨⟨hw, rfl, rfl, ⟨⟩⟩, -⟩
      exact ⟨rfl, hw, by simp⟩
    · rintro ⟨hr, hw, -⟩
      cases hr
      exact ⟨⟨hw, rfl, rfl, .none⟩, rfl, rfl, rfl⟩
  | present hc hout =>
    refine ⟨?_, ?_⟩
    · rintro ⟨⟨hw, rfl, rfl, hrel⟩, -, -, hequal⟩
      cases hrel with
      | some hback =>
        obtain ⟨rfl, hall⟩ := (readsBack_equalAll_iff hout).1 ⟨hback, hequal⟩
        exact ⟨rfl, hw, by simpa using hall⟩
    · rintro ⟨hr, hw, hall⟩
      cases hr
      obtain ⟨hback, hequal⟩ := (readsBack_equalAll_iff hout).2 ⟨rfl, by simpa using hall⟩
      exact ⟨⟨hw, rfl, rfl, .some hback⟩, rfl, rfl, hequal⟩

/-- **Which records survive being written.**  Whatever was written without an error reads back as an
equal record exactly if the record is faithful: its name is well formed, and each of its values is a
number, a well-formed name, or a date with an offset of whole minutes, a local year of four digits
and no leap second within a minute, where it is of such a kind.  It then reads back as it was, up to
the last byte. -/
theorem encode_faithful_iff {capacity : Nat} {r : Record} {w w' : Writer} (hw : w.Accepting)
    (h : encode capacity r w = (.ok (), w')) :
    ∃ p, w'.bytes = w.bytes ++ p ∧
      ((∃ r', (decode (Reader.ofBytes p)).1 = .ok r' ∧ r'.equal r = true) ↔ r.Faithful) ∧
      (r.Faithful →
        decode (Reader.ofBytes p) = (.ok r, (Reader.ofBytes p).skip p.length)) := by
  obtain ⟨p, hp, rfl⟩ := (encode_eq_ok_iff hw).1 h
  have hr := Reader.ofBytes_willing p
  have hwhole : r.Faithful →
      decode (Reader.ofBytes p) = (.ok r, (Reader.ofBytes p).skip p.length) := by
    intro hf
    have hform := (hp.form_equal_iff.2 ⟨rfl, hf⟩).1
    exact (decode_eq_ok_iff hr).2 ⟨p, [], (List.append_nil p).symm, hform, rfl⟩
  refine ⟨p, Writer.bytes_append _ _, ⟨?_, fun hf => ?_⟩, hwhole⟩
  · rintro ⟨r', hread, hequal⟩
    obtain ⟨q, z, hz, hform, -⟩ := (decode_eq_ok_iff hr).1 (Prod.ext hread rfl)
    obtain ⟨rfl, hback⟩ := hp.readsBackAs_of_form hform hz
    exact (hp.form_equal_iff.1 ⟨hp.form_iff.2 hback, hequal⟩).2
  · have hequal := (hp.form_equal_iff.2 ⟨rfl, hf⟩).2
    exact ⟨r, congrArg Prod.fst (hwhole hf), hequal⟩

/-- A record whose date has an offset of half a minute. -/
def halfMinute : Record :=
  ⟨⟨"", "x"⟩, .date, some [.date ⟨0, 0, 30, by decide, by decide, by decide, by decide, by decide⟩]⟩

/-- That record is written without an error, and what was written is no equal record. -/
theorem not_reads_back_halfMinute :
    (encode defaultCapacity halfMinute Writer.unlimited).1 = .ok () ∧
      ¬ ∃ r', (decode (Reader.ofBytes (encode defaultCapacity halfMinute
        Writer.unlimited).2.bytes)).1 = .ok r' ∧ r'.equal halfMinute = true := by
  have hok : (encode defaultCapacity halfMinute Writer.unlimited).1 = .ok () := by
    decide +kernel
  rcases h : encode defaultCapacity halfMinute Writer.unlimited with ⟨out, w'⟩
  rw [h] at hok
  obtain rfl : out = .ok () := hok
  refine ⟨rfl, fun hread => ?_⟩
  obtain ⟨p, hp, hiff, -⟩ := encode_faithful_iff Writer.unlimited_accepting h
  rw [Writer.bytes_unlimited, List.nil_append] at hp
  rw [hp] at hread
  have hexact : Rfc3339.Exact _ := (hiff.1 hread).2 _ rfl _ List.mem_cons_self
  exact absurd hexact.1 (by decide)

/-! ## Records one behind the other -/

/-- Writes records one behind the other, up to the first that fails. -/
def encodeMany (capacity : Nat) : List Record → Writer → Except Failure Unit × Writer
  | [], w => (.ok (), w)
  | r :: rs, w =>
    match encode capacity r w with
    | (.ok (), w) => encodeMany capacity rs w
    | (.error why, w) => (.error why, w)

/-- A record that can be written and read back: it has a name that can be built and values of its
kind, its values are read back from their texts, and nothing is too long. -/
structure Portable (r : Record) : Prop where
  name_wellFormed : r.name.WellFormed
  kind_eq : ∀ values ∈ r.values, ∀ v ∈ values, v.kind = r.kind
  reads_back : ∀ values ∈ r.values, ∀ v ∈ values, v.kind ≠ .binary →
    ∃ s v', v.text? = some s ∧ Value.read v.kind s = .ok v' ∧ v'.equal v = true
  name_fits : (Utf8.ofString r.name.text).length < countBound
  count_fits : ∀ values ∈ r.values, values.length < countBound
  texts_fit : ∀ values ∈ r.values, ∀ v ∈ values, ∀ text ∈ textOf? v, text.length < countBound

theorem Portable.faithful {r : Record} (h : r.Portable) : r.Faithful := by
  refine ⟨h.name_wellFormed, fun values hvalues v hv => ?_⟩
  by_cases hk : v.kind = .binary
  · obtain ⟨payload, rfl⟩ := eq_binary_of_kind hk
    trivial
  · obtain ⟨s, v', hs, hread, hequal⟩ := h.reads_back values hvalues v hv hk
    exact ((Value.read_text?_iff hk hs).1 ⟨hread, hequal⟩).2

theorem Portable.hasTexts {r : Record} (h : r.Portable) : r.HasTexts := by
  intro values hvalues v hv
  by_cases hk : v.kind = .binary
  · obtain ⟨payload, rfl⟩ := eq_binary_of_kind hk
    rfl
  · obtain ⟨s, -, hs, -⟩ := h.reads_back values hvalues v hv hk
    rw [textOf?_of_kind_ne hk, hs]
    rfl

theorem Portable.exists_writes {capacity : Nat} (hc : capacity < capacityBound) {r : Record}
    (h : r.Portable) : ∃ p, Writes capacity p r :=
  exists_writes_iff.2
    ⟨⟨h.kind_eq, h.name_fits, h.count_fits, h.texts_fit⟩, h.hasTexts, fun _ => hc⟩

/-- Writing portable records gives forms of these records, one behind the other. -/
theorem encodeMany_eq {capacity : Nat} (hc : capacity < capacityBound) {rs : List Record}
    (hrs : ∀ r ∈ rs, r.Portable) {w : Writer} (hw : w.Accepting) :
    ∃ parts, List.Forall₂ Form parts rs ∧
      encodeMany capacity rs w = (.ok (), w.append parts.flatten) := by
  induction rs generalizing w with
  | nil => exact ⟨[], .nil, by rw [encodeMany, List.flatten_nil, Writer.append_nil]⟩
  | cons r rs ih =>
    obtain ⟨hr, hrs⟩ := List.forall_mem_cons.1 hrs
    obtain ⟨p, hp⟩ := hr.exists_writes hc
    obtain ⟨parts, hparts, henc⟩ := ih hrs (hw.append p)
    have hform := (hp.form_equal_iff.2 ⟨rfl, hr.faithful⟩).1
    refine ⟨p :: parts, .cons hform hparts, ?_⟩
    rw [encodeMany, (encode_eq_ok_iff hw).2 ⟨p, hp, rfl⟩]
    show encodeMany capacity rs (w.append p) = _
    rw [henc, Writer.append_append, List.flatten_cons]

/-- Forms one behind the other are read as their records, one behind the other. -/
theorem decodeMany_eq {parts : List (List UInt8)} {rs : List Record}
    (h : List.Forall₂ Form parts rs) {reader : Reader} (hr : reader.Willing) {z : List UInt8}
    (hz : reader.rest = parts.flatten ++ z) :
    ∃ out, decodeMany reader rs.length = (out, none, reader.skip parts.flatten.length) ∧
      out.map Prod.fst = rs := by
  induction h generalizing reader with
  | nil => exact ⟨[], by rw [List.length_nil, decodeMany, List.flatten_nil]; simp, rfl⟩
  | @cons p r parts rs hp _ ih =>
    rw [List.flatten_cons, List.append_assoc] at hz
    have hrest : (reader.skip p.length).rest = parts.flatten ++ z := by
      rw [Reader.skip_rest, hz, List.drop_left]
    obtain ⟨out, hout, hmap⟩ := ih (hr.skip _) hrest
    refine ⟨(r, (reader.skip p.length).position) :: out, ?_, by rw [List.map_cons, hmap]⟩
    rw [List.length_cons, decodeMany, (decode_eq_ok_iff hr).2 ⟨p, _, hz, hp, rfl⟩]
    simp only [hout, Reader.skip_skip, List.flatten_cons, List.length_append]

/-- **Streams of records.**  Portable records that are written one behind the other are read back
one behind the other, each as it was, and the reader stops at the first byte behind them, whatever
follows. -/
theorem decodeMany_encodeMany {capacity : Nat} (hc : capacity < capacityBound) {rs : List Record}
    (hrs : ∀ r ∈ rs, r.Portable) {w : Writer} (hw : w.Accepting) :
    ∃ p w', encodeMany capacity rs w = (.ok (), w') ∧ w'.bytes = w.bytes ++ p ∧
      ∀ (reader : Reader) (z : List UInt8), reader.Willing → reader.rest = p ++ z →
        ∃ out, decodeMany reader rs.length = (out, none, reader.skip p.length) ∧
          out.map Prod.fst = rs ∧ (reader.skip p.length).rest = z := by
  obtain ⟨parts, hparts, henc⟩ := encodeMany_eq hc hrs hw
  refine ⟨parts.flatten, _, henc, Writer.bytes_append _ _, fun reader z hr hz => ?_⟩
  obtain ⟨out, hout, hmap⟩ := decodeMany_eq hparts hr hz
  exact ⟨out, hout, hmap, by rw [Reader.skip_rest, hz, List.drop_left]⟩

/-- A payload, two truth values, and no values at all. -/
def assorted : List Record :=
  [⟨⟨"", "a"⟩, .binary, some [.binary [0, 255]]⟩,
    ⟨⟨"", "b"⟩, .boolean, some [.boolean true, .boolean false]⟩, ⟨⟨"", "c"⟩, .undefined, none⟩]

theorem portable_assorted : ∀ r ∈ assorted, r.Portable := by
  have hshort : ∀ {text : List UInt8}, text.length ≤ 5 → text.length < countBound := fun h => by
    rw [countBound]
    omega
  rw [assorted, List.forall_mem_cons, List.forall_mem_cons, List.forall_mem_singleton]
  refine ⟨⟨⟨by decide, by decide, by decide⟩, ?_, ?_, hshort (by decide), ?_, ?_⟩,
    ⟨⟨by decide, by decide, by decide⟩, ?_, ?_, hshort (by decide), ?_, ?_⟩,
    ⟨⟨by decide, by decide, by decide⟩, ?_, ?_, hshort (by decide), ?_, ?_⟩⟩
  · rintro _ ⟨⟩ v hv
    rw [List.mem_singleton.1 hv]
    rfl
  · rintro _ ⟨⟩ v hv hk
    rw [List.mem_singleton.1 hv] at hk
    exact absurd rfl hk
  · rintro _ ⟨⟩
    rw [countBound]
    decide
  · rintro _ ⟨⟩ v hv text ht
    rw [List.mem_singleton.1 hv, textOf?, payloadText_eq] at ht
    obtain rfl := Option.some.inj ht
    exact hshort (by decide)
  · rintro _ ⟨⟩ v hv
    rcases List.mem_pair.1 hv with rfl | rfl <;> rfl
  · rintro _ ⟨⟩ v hv -
    rcases List.mem_pair.1 hv with rfl | rfl
    · exact ⟨"true", .boolean true, rfl, rfl, rfl⟩
    · exact ⟨"false", .boolean false, rfl, rfl, rfl⟩
  · rintro _ ⟨⟩
    rw [countBound]
    decide
  · rintro _ ⟨⟩ v hv text ht
    rcases List.mem_pair.1 hv with rfl | rfl
    · obtain rfl := Option.some.inj ht
      exact hshort (by decide)
    · obtain rfl := Option.some.inj ht
      exact hshort (by decide)
  all_goals rintro _ ⟨⟩

theorem decodeMany_encodeMany_assorted :
    (∀ r ∈ assorted, r.Portable) ∧
      ∃ p w', encodeMany defaultCapacity assorted Writer.unlimited = (.ok (), w') ∧ w'.bytes = p ∧
        ∃ out, decodeMany (Reader.ofBytes (p ++ [7])) 3 =
          (out, none, (Reader.ofBytes (p ++ [7])).skip p.length) ∧ out.map Prod.fst = assorted := by
  have hrs := portable_assorted
  obtain ⟨p, w', henc, hbytes, hread⟩ :=
    decodeMany_encodeMany (by decide : defaultCapacity < capacityBound) hrs
      Writer.unlimited_accepting
  obtain ⟨out, hout, hmap, -⟩ :=
    hread (Reader.ofBytes (p ++ [7])) [7] (Reader.ofBytes_willing _) rfl
  exact ⟨hrs, p, w', henc, hbytes, out, hout, hmap⟩

end Record
end ContentOverlay
