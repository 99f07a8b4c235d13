import Mathlib
import ContentOverlay.Proofs.Record.RoundTrip

/-!
# What was read, written again

The reader is looser than the writer.  It takes a name without braces, a number with a sign, an
exponent where none is needed, and other spellings of the same value; and a record that was read
with them is written without them.  Here the texts of a record are looked at by themselves, apart
from what they mean: a `Spelling` has the text of the name and the texts of the values, and
`Spelling.layout` frames them.

A record that was read has a spelling that it was read from (`Form.exists_spelling`), and one that
is written for it (`exists_writtenFor`).  Different spellings have different bytes (`layout_inj`).
So the bytes are the same exactly if the texts are (`reencode_eq_iff`).

The text of a binary value is no matter of taste, for Base64 has one text for a payload.
-/

set_option autoImplicit false

namespace ContentOverlay
namespace Record

/-! ## Spellings -/

/-- The texts of a record. -/
structure Spelling where
  name : String
  /-- The texts of the values; `none` when the values are absent. -/
  values : Option (List String)

namespace Spelling

/-- A text with its length in front. -/
def frame (s : String) : List UInt8 := fourBytes (Utf8.ofString s).length ++ Utf8.ofString s

/-- The last part of a record. -/
def block : Option (List String) → List UInt8
  | none => [absentTag]
  | some texts => presentTag :: (fourBytes texts.length ++ (texts.map frame).flatten)

/-- The byte form of a record with these texts. -/
def layout (kind : Kind) (s : Spelling) : List UInt8 :=
  frame s.name ++ (codeBytes kind.code ++ block s.values)

/-- Nothing is too long for its four bytes. -/
structure Fits (s : Spelling) : Prop where
  name : (Utf8.ofString s.name).length < countBound
  count : ∀ texts ∈ s.values, texts.length < countBound
  texts : ∀ texts ∈ s.values, ∀ t ∈ texts, (Utf8.ofString t).length < countBound

/-- The texts are read as the name and the values of this record. -/
structure IsReadAs (s : Spelling) (r : Record) : Prop where
  name : Name.read s.name = .ok r.name
  values : Option.Rel (List.Forall₂ (Means r.kind)) s.values r.values

/-- The texts are those that are written for this record. -/
structure IsWrittenFor (s : Spelling) (r : Record) : Prop where
  name : s.name = r.name.text
  values : Option.Rel (List.Forall₂ fun t v => textOf? v = some (Utf8.ofString t)) s.values r.values

/-- Frames one behind the other tell which texts they hold. -/
theorem frames_inj {ts ts' : List String} (hlen : ts.length = ts'.length)
    (hf : ∀ t ∈ ts, (Utf8.ofString t).length < countBound)
    (hf' : ∀ t ∈ ts', (Utf8.ofString t).length < countBound)
    (h : (ts.map frame).flatten = (ts'.map frame).flatten) : ts = ts' := by
  induction ts generalizing ts' with
  | nil => exact (List.eq_nil_of_length_eq_zero hlen.symm).symm
  | cons t ts ih =>
    cases ts' with
    | nil => cases hlen
    | cons t' ts' =>
      rw [List.forall_mem_cons] at hf hf'
      rw [List.map_cons, List.map_cons, List.flatten_cons, List.flatten_cons] at h
      obtain ⟨hframe, rfl⟩ := reads_readText.unique h ⟨hf.1, rfl⟩ ⟨hf'.1, rfl⟩
      rw [ih (Nat.succ.inj hlen) hf.2 hf'.2 (List.append_cancel_left h)]

theorem block_inj {texts texts' : Option (List String)}
    (hc : ∀ ts ∈ texts, ts.length < countBound) (hc' : ∀ ts ∈ texts', ts.length < countBound)
    (hf : ∀ ts ∈ texts, ∀ t ∈ ts, (Utf8.ofString t).length < countBound)
    (hf' : ∀ ts ∈ texts', ∀ t ∈ ts, (Utf8.ofString t).length < countBound)
    (h : block texts = block texts') : texts = texts' := by
  cases texts with
  | none =>
    cases texts' with
    | none => rfl
    | some => exact absurd (List.cons.inj h).1 (by decide)
  | some ts =>
    cases texts' with
    | none => exact absurd (List.cons.inj h).1 (by decide)
    | some ts' =>
      obtain ⟨hcount, hframes⟩ := List.append_inj (List.cons.inj h).2 rfl
      have hlen := congrArg numberOf hcount
      rw [numberOf_fourBytes (hc ts rfl), numberOf_fourBytes (hc' ts' rfl)] at hlen
      rw [frames_inj hlen (hf ts rfl) (hf' ts' rfl) hframes]

/-- **Different spellings have different bytes.** -/
theorem layout_inj {kind : Kind} {s s' : Spelling} (hs : s.Fits) (hs' : s'.Fits)
    (h : s.layout kind = s'.layout kind) : s = s' := by
  obtain ⟨name, values⟩ := s
  obtain ⟨name', values'⟩ := s'
  obtain ⟨hframe, rfl⟩ := reads_readText.unique h ⟨hs.name, rfl⟩ ⟨hs'.name, rfl⟩
  have hblock : block values = block values' :=
    List.append_cancel_left (List.append_cancel_left h)
  obtain rfl := block_inj hs.count hs'.count hs.texts hs'.texts hblock
  rfl

end Spelling

/-! ## The spelling that was read -/

variable {kind : Kind} {capacity : Nat}

theorem exists_texts {parts : List (List UInt8)} {values : List Value}
    (h : List.Forall₂ (ValueForm kind) parts values) :
    ∃ ts : List String, parts = ts.map Spelling.frame ∧ List.Forall₂ (Means kind) ts values ∧
      ∀ t ∈ ts, (Utf8.ofString t).length < countBound := by
  induction h with
  | nil => exact ⟨[], rfl, .nil, by simp⟩
  | cons hv _ ih =>
    obtain ⟨t, ⟨hlen, rfl⟩, hmeans⟩ := hv
    obtain ⟨ts, rfl, hts, hfit⟩ := ih
    exact ⟨t :: ts, rfl, .cons hmeans hts, List.forall_mem_cons.2 ⟨hlen, hfit⟩⟩

/-- The form of a record is the layout of a spelling of it. -/
theorem Form.exists_spelling {p : List UInt8} {record : Record} (h : Form p record) :
    ∃ s : Spelling, s.Fits ∧ s.IsReadAs record ∧ p = s.layout record.kind := by
  obtain ⟨⟨hlen, rfl⟩, hn, hb⟩ := h
  cases hb with
  | absent => exact ⟨⟨_, none⟩, ⟨hlen, by simp, by simp⟩, ⟨hn, .none⟩, rfl⟩
  | present hc hparts =>
    obtain ⟨ts, rfl, hts, hfit⟩ := exists_texts hparts
    have hcount := hts.length_eq
    refine ⟨⟨_, some ts⟩, ⟨hlen, ?_, ?_⟩, ⟨hn, .some hts⟩, ?_⟩
    · rintro _ ⟨⟩
      rwa [hcount]
    · rintro _ ⟨⟩
      exact hfit
    · rw [Spelling.layout, Spelling.block, hcount]
      rfl

/-- What is read from a text has the kind of the record, and a text. -/
theorem Means.kind_and_text {t : String} {v : Value} (h : Means kind t v) :
    v.kind = kind ∧ ∃ text, textOf? v = some text := by
  rw [Means] at h
  split at h
  · next hk =>
    obtain ⟨payload, -, rfl⟩ := h
    exact ⟨hk.symm, _, rfl⟩
  · next hk =>
    obtain ⟨rfl, s, hs⟩ := Value.kind_and_text_of_read h
    exact ⟨rfl, _, by rw [textOf?_of_kind_ne hk, hs]; rfl⟩

/-- Every value has its text. -/
theorem exists_text_of_rel {R : String → Value → Prop} {texts : Option (List String)}
    {values : Option (List Value)} (h : Option.Rel (List.Forall₂ R) texts values) :
    ∀ vs ∈ values, ∀ v ∈ vs, ∃ t, R t v := by
  cases h with
  | none => rintro _ ⟨⟩
  | some h =>
    rintro _ ⟨⟩
    induction h with
    | nil => simp
    | cons hv _ ih => exact List.forall_mem_cons.2 ⟨⟨_, hv⟩, ih⟩

theorem Spelling.IsReadAs.kind_and_text {s : Spelling} {record : Record} (h : s.IsReadAs record) :
    ∀ values ∈ record.values, ∀ v ∈ values,
      v.kind = record.kind ∧ ∃ text, textOf? v = some text := by
  intro values hvalues v hv
  obtain ⟨t, ht⟩ := exists_text_of_rel h.values values hvalues v hv
  exact ht.kind_and_text

theorem Spelling.IsReadAs.count {s : Spelling} {record : Record} (h : s.IsReadAs record)
    (hf : s.Fits) : ∀ values ∈ record.values, values.length < countBound := by
  obtain ⟨-, hvalues⟩ := h
  have hcount := hf.count
  generalize s.values = texts, record.values = values at *
  cases hvalues with
  | none => rintro _ ⟨⟩
  | some h =>
    rintro _ ⟨⟩
    rw [← h.length_eq]
    exact hcount _ rfl

/-! ## The spelling that is written -/

theorem exists_written_texts {values : List Value}
    (h : ∀ v ∈ values, ∃ text, textOf? v = some text ∧ text.length < countBound) :
    ∃ ts : List String,
      List.Forall₂ (fun t v => textOf? v = some (Utf8.ofString t)) ts values ∧
      ∀ t ∈ ts, (Utf8.ofString t).length < countBound := by
  induction values with
  | nil => exact ⟨[], .nil, by simp⟩
  | cons v values ih =>
    obtain ⟨⟨text, ht, hlen⟩, h⟩ := List.forall_mem_cons.1 h
    obtain ⟨ts, hts, hfit⟩ := ih h
    obtain ⟨t, rfl⟩ := exists_ofString_of_textOf? ht
    exact ⟨t :: ts, .cons ht hts, List.forall_mem_cons.2 ⟨hlen, hfit⟩⟩

/-- A record whose texts are not too long has a spelling that is written for it. -/
theorem exists_writtenFor {record : Record}
    (hname : (Utf8.ofString record.name.text).length < countBound)
    (hcount : ∀ values ∈ record.values, values.length < countBound)
    (htexts : ∀ values ∈ record.values, ∀ v ∈ values,
      ∃ text, textOf? v = some text ∧ text.length < countBound) :
    ∃ s : Spelling, s.Fits ∧ s.IsWrittenFor record := by
  obtain ⟨name, kind, values⟩ := record
  cases values with
  | none => exact ⟨⟨_, none⟩, ⟨hname, by simp, by simp⟩, ⟨rfl, .none⟩⟩
  | some values =>
    obtain ⟨ts, hts, hfit⟩ := exists_written_texts (htexts values rfl)
    refine ⟨⟨_, some ts⟩, ⟨hname, ?_, ?_⟩, ⟨rfl, .some hts⟩⟩
    · rintro _ ⟨⟩
      rw [hts.length_eq]
      exact hcount values rfl
    · rintro _ ⟨⟩
      exact hfit

theorem valueOutputs (hc : capacity < capacityBound) {ts : List String} {values : List Value}
    (hk : ∀ v ∈ values, v.kind = kind)
    (hf : ∀ t ∈ ts, (Utf8.ofString t).length < countBound)
    (h : List.Forall₂ (fun t v => textOf? v = some (Utf8.ofString t)) ts values) :
    List.Forall₂ (ValueOutput capacity kind) (ts.map Spelling.frame) values := by
  induction h with
  | nil => exact .nil
  | cons ht _ ih =>
    rw [List.forall_mem_cons] at hk hf
    exact .cons ⟨hk.1, fun _ => hc, _, ⟨hf.1, rfl⟩, ht⟩ (ih hk.2 hf.2)

/-- What is written for a record of one kind is the layout of that spelling. -/
theorem Spelling.IsWrittenFor.writes (hc : capacity < capacityBound) {s : Spelling}
    {record : Record} (hs : s.IsWrittenFor record) (hf : s.Fits)
    (hk : ∀ values ∈ record.values, ∀ v ∈ values, v.kind = record.kind) :
    Writes capacity (s.layout record.kind) record := by
  obtain ⟨name, texts⟩ := s
  obtain ⟨rname, kind, values⟩ := record
  obtain ⟨rfl, hvalues⟩ := hs
  refine .mk ⟨hf.name, rfl⟩ ?_
  cases hvalues with
  | none => exact .absent
  | some h =>
    have hcount := hf.count _ rfl
    rw [Spelling.block, h.length_eq]
    rw [h.length_eq] at hcount
    exact .present hcount (valueOutputs hc (hk _ rfl) (hf.texts _ rfl) h)

/-! ## The two compared -/

theorem Spelling.IsReadAs.values_imp {s : Spelling} {record : Record} (h : s.IsReadAs record)
    {R : String → Value → Prop} (hR : ∀ t v, Means record.kind t v → R t v) :
    Option.Rel (List.Forall₂ R) s.values record.values := by
  obtain ⟨-, hvalues⟩ := h
  generalize s.values = texts, record.values = values at hvalues
  cases hvalues with
  | none => exact .none
  | some h => exact .some (h.imp hR)

/-- The text that is written for a value is the one that it was read from if that is canonical.
Texts of binary values always are. -/
theorem written_eq_iff {t t' : String} {v : Value} (hread : Means v.kind t v)
    (hwritten : textOf? v = some (Utf8.ofString t')) :
    t' = t ↔ (v.kind ≠ .binary → v.text? = some t) := by
  by_cases hk : v.kind = .binary
  · rw [Means, if_pos hk] at hread
    obtain ⟨payload, hspells, rfl⟩ := hread
    rw [textOf?, payloadText_eq, ← hspells.eq_groupwise, Option.some.injEq] at hwritten
    exact iff_of_true (ofString_injective hwritten).symm fun hne => absurd hk hne
  · rw [textOf?_of_kind_ne hk, Option.map_eq_some_iff] at hwritten
    obtain ⟨s, hs, hst⟩ := hwritten
    obtain rfl := ofString_injective hst
    rw [hs, Option.some.injEq]
    exact ⟨fun h _ => h, fun h => h hk⟩

theorem texts_eq_iff {ts ts' : List String} {values : List Value}
    (hread : List.Forall₂ (Means kind) ts values)
    (hwritten : List.Forall₂ (fun t v => textOf? v = some (Utf8.ofString t)) ts' values) :
    ts' = ts ↔ List.Forall₂ (fun t v => v.kind ≠ .binary → v.text? = some t) ts values := by
  induction hread generalizing ts' with
  | nil =>
    cases hwritten
    exact iff_of_true rfl .nil
  | cons hv _ ih =>
    cases hwritten with
    | cons ht hwritten =>
      obtain ⟨rfl, -⟩ := hv.kind_and_text
      rw [List.cons.injEq, List.forall₂_cons, written_eq_iff hv ht, ih hwritten]

theorem Spelling.IsReadAs.values_eq_iff {given written : Spelling} {record : Record}
    (hread : given.IsReadAs record) (hwritten : written.IsWrittenFor record) :
    written.values = given.values ↔
      Option.Rel (List.Forall₂ fun t v => v.kind ≠ .binary → v.text? = some t) given.values
        record.values := by
  obtain ⟨-, hread⟩ := hread
  obtain ⟨-, hwritten⟩ := hwritten
  generalize given.values = ts, written.values = ts', record.values = values at *
  cases hread with
  | none =>
    cases hwritten
    exact iff_of_true rfl .none
  | some hread =>
    cases hwritten with
    | some hwritten =>
      rw [Option.some.injEq, texts_eq_iff hread hwritten]
      refine ⟨.some, fun h => ?_⟩
      cases h with
      | some h => exact h

/-- **What was read, written again.**  A record is read from the first `n` bytes that a reader
gives, and none of the texts that are written for it is too long.  Then all its values are of its
kind, the check before the writing finds nothing, and the writing succeeds.  The bytes that are
written are the first `n` bytes if and only if the text of the name began with a brace and every
text of a value that is not binary was the one that is written for the value.  The texts of binary
values are written as they were read. -/
theorem reencode_eq_iff (hc : capacity < capacityBound) {r r' : Reader} (hr : r.Willing)
    {record : Record} (hd : decode r = (.ok record, r'))
    (hname : (Utf8.ofString record.name.text).length < countBound)
    (htexts : ∀ values ∈ record.values, ∀ v ∈ values, ∀ text ∈ textOf? v,
      text.length < countBound) :
    (∀ values ∈ record.values, ∀ v ∈ values, v.kind = record.kind) ∧ record.kindError? = none ∧
    ∃ (n : Nat) (given written : Spelling),
      (n ≤ r.rest.length ∧ r' = r.skip n ∧ r.rest.take n = given.layout record.kind ∧
        given.Fits ∧ given.IsReadAs record) ∧
      (written.IsWrittenFor record ∧ ∀ w : Writer, w.Accepting →
        encode capacity record w = (.ok (), w.append (written.layout record.kind))) ∧
      (written.layout record.kind = r.rest.take n ↔
        given.name.toList.head? = some '{' ∧
        Option.Rel (List.Forall₂ fun t v => v.kind ≠ .binary → v.text? = some t) given.values
          record.values) ∧
      (record.kind = .binary → written.values = given.values) := by
  obtain ⟨p, z, hz, hform, rfl⟩ := (decode_eq_ok_iff hr).1 hd
  obtain ⟨given, hgiven, hread, rfl⟩ := hform.exists_spelling
  have hkinds : ∀ values ∈ record.values, ∀ v ∈ values, v.kind = record.kind :=
    fun values hvalues v hv => (hread.kind_and_text values hvalues v hv).1
  have htexts : ∀ values ∈ record.values, ∀ v ∈ values,
      ∃ text, textOf? v = some text ∧ text.length < countBound := by
    intro values hvalues v hv
    obtain ⟨-, text, ht⟩ := hread.kind_and_text values hvalues v hv
    exact ⟨text, ht, htexts values hvalues v hv text ht⟩
  obtain ⟨written, hfits, hwritten⟩ := exists_writtenFor hname (hread.count hgiven) htexts
  have hwrites := hwritten.writes hc hfits hkinds
  have htake : r.rest.take (given.layout record.kind).length = given.layout record.kind := by
    rw [hz, List.take_left]
  have hvalues := hread.values_eq_iff hwritten
  refine ⟨hkinds, hwrites.kindError?, _, given, written, ⟨?_, rfl, htake, hgiven, hread⟩,
    ⟨hwritten, fun w hw => (encode_eq_ok_iff hw).2 ⟨_, hwrites, rfl⟩⟩, ?_, fun hbinary => ?_⟩
  · rw [hz, List.length_append]
    exact Nat.le_add_right _ _
  · rw [htake, ← hvalues, ← Name.text_eq_iff_of_read hread.name, ← hwritten.name]
    constructor
    · intro h
      obtain rfl := Spelling.layout_inj hfits hgiven h
      exact ⟨rfl, rfl⟩
    · rintro ⟨hn, hv⟩
      rw [Spelling.layout, Spelling.layout, hn, hv]
  · rw [hvalues]
    refine hread.values_imp fun t v hmeans hk => ?_
    exact absurd (hmeans.kind_and_text.1.trans hbinary) hk

/-- The name has no braces, and there is a binary value. -/
def unbraced : Spelling := ⟨"n", some ["AP8="]⟩

theorem reencode_eq_iff_unbraced :
    let r := Reader.ofBytes (unbraced.layout .binary)
    let record : Record := ⟨⟨"", "n"⟩, .binary, some [.binary [0, 255]]⟩
    decode r = (.ok record, r.skip 22) ∧ ∃ written : Spelling,
      written.IsWrittenFor record ∧ written.values = unbraced.values ∧
      written.layout .binary ≠ unbraced.layout .binary := by
  intro r record
  have hmeans : Means .binary "AP8=" (.binary [0, 255]) :=
    ⟨_, Base64.decode_eq_ok_iff.1 (by decide), rfl⟩
  have hform : Form (unbraced.layout .binary) record :=
    .mk (s := "n") ⟨by decide, rfl⟩ (by decide)
      (@BlockForm.present _ [Spelling.frame "AP8="] _ (by decide)
        (.cons ⟨_, ⟨by decide, rfl⟩, hmeans⟩ .nil))
  have hd : decode r = (.ok record, r.skip 22) := hform.decode_ofBytes
  have hfits : unbraced.Fits := by
    refine ⟨by decide, ?_, ?_⟩
    · rintro _ ⟨⟩
      decide
    · rintro _ ⟨⟩
      decide
  have htexts : ∀ values ∈ record.values, ∀ v ∈ values, ∀ text ∈ textOf? v,
      text.length < countBound := by
    rintro _ ⟨⟩ v hv text ht
    rw [List.mem_singleton.1 hv, textOf?, payloadText_eq] at ht
    obtain rfl := Option.some.inj ht
    decide
  obtain ⟨-, -, n, given, written, ⟨hn, hskip, htake, hgiven, -⟩, ⟨hwritten, -⟩, hiff, hbinary⟩ :=
    reencode_eq_iff (by decide : defaultCapacity < capacityBound) (Reader.ofBytes_willing _) hd
      (by decide) htexts
  have hlength : (unbraced.layout .binary).length = 22 := by decide
  have hposition : 0 + min 22 (unbraced.layout .binary).length =
      0 + min n (unbraced.layout .binary).length := congrArg Reader.position hskip
  replace hn : n ≤ (unbraced.layout .binary).length := hn
  obtain rfl : n = 22 := by omega
  obtain rfl := Spelling.layout_inj hfits hgiven htake
  refine ⟨hd, written, hwritten, hbinary rfl, fun he => ?_⟩
  exact absurd (hiff.1 (he.trans htake.symm)).1 (by decide)

end Record
end ContentOverlay
