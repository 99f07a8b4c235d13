import ContentOverlay.Json.Forms
import ContentOverlay.Proofs.Record.RoundTrip

/-!
# Where names come from

A name is built from parts, or it is read: from its text, as a value, from a record, or from a JSON
document.  All of these but the last check what they build, and so the names that they yield are
well formed.  The reader of documents takes any two parts, also inside the identity of a property or
an item.  Names that are not well formed get lost when they are written.

* `Entry.Yields` lists the places at which names come in, and `Entry.checks` says which of them
  check.
* `Ensures m P` says that all results of a step of reading satisfy `P`, whatever the reader does.
  It is what is left of `Reads` when the reader may also refuse.
* `names_wellFormed` puts this together with what becomes of the names.
-/

set_option autoImplicit false

namespace ContentOverlay
namespace Record

/-! ## What a step of reading ensures -/

/-- Whatever the reader does, the results of the step satisfy `P`. -/
def Ensures {α : Type} (m : Reading α) (P : α → Prop) : Prop :=
  ∀ ⦃r : Reader⦄ ⦃a : α⦄ ⦃r' : Reader⦄, m.run r = (.ok a, r') → P a

section Steps

variable {α β : Type} {m : Reading α} {f : α → Reading β} {P : α → Prop} {Q : β → Prop}

theorem ensures_true (m : Reading α) : Ensures m fun _ => True := fun _ _ _ _ => trivial

theorem ensures_pure {a : α} (h : P a) : Ensures (pure a) P := by
  intro r b r' hb
  obtain ⟨hab, -⟩ := Prod.mk.inj hb
  rwa [← Except.ok.inj hab]

theorem ensures_throw (e : Error) : Ensures (throw e) P := by
  intro r a r' h
  have h : (Except.error e, r) = (Except.ok a, r') := h
  cases h

theorem ensures_expect {part : Part} {x : Except Cause α} (h : ∀ a, x = .ok a → P a) :
    Ensures (expect part x) P := by
  cases x with
  | ok a => exact ensures_pure (h a rfl)
  | error cause => exact ensures_throw _

theorem Ensures.bind (hm : Ensures m P) (hf : ∀ a, P a → Ensures (f a) Q) :
    Ensures (m >>= f) Q := by
  intro r b r' h
  rw [run_bind] at h
  split at h
  · next a r₁ h₁ => exact hf a (hm h₁) h
  · cases h

theorem ensures_bind (hf : ∀ a, Ensures (f a) Q) : Ensures (m >>= f) Q :=
  (ensures_true m).bind fun a _ => hf a

end Steps

/-! ## Names of records -/

/-- The record has this name, or it has it as a value. -/
inductive Carries (r : Record) : Name → Prop
  | name : Carries r r.name
  | value {values : List Value} {n : Name} (hv : r.values = some values)
      (hn : Value.name n ∈ values) : Carries r n

theorem ensures_readName : Ensures readName Name.WellFormed := by
  refine ensures_bind fun s => ensures_expect fun n hn => ?_
  cases hr : Name.read s with
  | error fault =>
    rw [hr] at hn
    cases hn
  | ok m =>
    rw [hr] at hn
    obtain rfl : m = n := Except.ok.inj hn
    exact Name.wellFormed_of_read hr

theorem wellFormed_of_valueOf {kind : Kind} {s : String} {n : Name}
    (h : valueOf kind s = .ok (.name n)) : n.WellFormed := by
  rw [valueOf_eq_ok_iff, Means] at h
  split at h
  · obtain ⟨payload, -, hp⟩ := h
    cases hp
  · exact Value.wellFormed_of_read h

theorem ensures_readValues {name : Name} {kind : Kind} {index : Nat} {acc : List Value}
    {count : Nat} (hacc : ∀ n, .name n ∈ acc → n.WellFormed) :
    Ensures (readValues name kind index acc count) fun values =>
      ∀ n, .name n ∈ values → n.WellFormed := by
  induction count generalizing index acc with
  | zero => exact ensures_pure fun n hn => hacc n (List.mem_reverse.1 hn)
  | succ count ih =>
    refine ensures_bind fun s => Ensures.bind (ensures_expect fun v hv => hv) fun v hv => ?_
    refine ih fun n hn => ?_
    rcases List.mem_cons.1 hn with rfl | hn
    · exact wellFormed_of_valueOf hv
    · exact hacc n hn

theorem ensures_readBlock {name : Name} {kind : Kind} :
    Ensures (readBlock name kind) fun block =>
      ∀ values ∈ block, ∀ n, .name n ∈ values → n.WellFormed := by
  refine ensures_bind fun bytes => ?_
  dsimp only
  split
  · exact ensures_pure (by simp)
  · split
    · refine ensures_bind fun bytes => (ensures_readValues (by simp)).bind fun values hvalues => ?_
      refine ensures_pure ?_
      rintro _ ⟨⟩
      exact hvalues
    · exact ensures_throw _

/-- **The names of a record that was read are well formed**, whatever the reader does. -/
theorem ensures_readRecord :
    Ensures readRecord fun record => ∀ n, record.Carries n → n.WellFormed := by
  refine ensures_readName.bind fun name hname => ensures_bind fun kind => ?_
  refine ensures_readBlock.bind fun block hblock => ensures_pure ?_
  rintro n (_ | ⟨hv, hn⟩)
  · exact hname
  · exact hblock _ hv n hn

/-! ## Names that are written -/

variable {capacity : Nat} {p : List UInt8} {r : Record}

theorem wellFormed_of_readsBack {n : Name} {v' : Value} (h : ReadsBack (.name n) v') :
    n.WellFormed := by
  rw [ReadsBack, if_neg (by simp [Value.kind])] at h
  obtain ⟨s, hs, hread⟩ := h
  obtain rfl : n.text = s := Option.some.inj hs
  rw [Value.read_eq_ok_iff] at hread
  exact (Value.read_name_iff.1 hread).2

/-- What was written is read again only if the names are well formed. -/
theorem Writes.wellFormed_of_decode (h : Writes capacity p r) {r' : Record}
    (hread : (decode (Reader.ofBytes p)).1 = .ok r') {n : Name} (hn : r.Carries n) :
    n.WellFormed := by
  obtain ⟨q, z, hz, hform, -⟩ :=
    (decode_eq_ok_iff (Reader.ofBytes_willing p)).1 (Prod.ext hread rfl)
  obtain ⟨name', kind', values'⟩ := r'
  obtain ⟨-, hname, -, -, hvalues⟩ := h.readsBackAs_of_form hform hz
  cases hn with
  | name => exact hname
  | value hv hn =>
    rw [hv] at hvalues
    cases hvalues with
    | some hrel =>
      have hback := hrel.imp fun v v' hb => And.intro (Exists.intro v' hb) hb
      obtain ⟨v', hb⟩ := ((List.forall₂_and_left _ _).1 hback).1 _ hn
      exact wellFormed_of_readsBack hb

/-- What was written is read again if the names are well formed and the other values are faithful,
and then it is read as it was. -/
theorem Writes.decode_of_wellFormed (h : Writes capacity p r)
    (hn : ∀ n, r.Carries n → n.WellFormed)
    (hv : ∀ values ∈ r.values, ∀ v ∈ values, v.kind ≠ .name → v.Faithful) :
    (decode (Reader.ofBytes p)).1 = .ok r := by
  have hf : r.Faithful := by
    refine ⟨hn _ .name, fun values hvalues v hmem => ?_⟩
    cases v with
    | name n => exact hn n (.value hvalues hmem)
    | _ => exact hv values hvalues _ hmem (by simp [Value.kind])
  exact congrArg Prod.fst (h.form_equal_iff.2 ⟨rfl, hf⟩).1.decode_ofBytes

end Record

/-! ## Documents -/

theorem Name.ofJson?_toJson (n : Name) : Name.ofJson? n.toJson = some n := rfl

theorem PropertyId.parentOfJson?_toJson (parent : Option NodeId) :
    parentOfJson? ((parent.map NodeId.toJson).getD .null) = some parent := by
  cases parent with
  | none => rfl
  | some id => simp [parentOfJson?, NodeId.toJson, NodeId.ofJson?, Json.text?, NodeId.read?_text]

theorem PropertyId.ofJson?_toJson (id : PropertyId) : PropertyId.ofJson? id.toJson = some id := by
  show (do
    let parent ← parentOfJson? ((id.parent.map NodeId.toJson).getD .null)
    return ⟨parent, ← Name.ofJson? id.name.toJson⟩ : Option PropertyId) = some id
  rw [parentOfJson?_toJson, Name.ofJson?_toJson]
  rfl

theorem ItemId.ofJson?_toJson (id : PropertyId) :
    ItemId.ofJson? (ItemId.property id).toJson = some (.property id) := by
  rw [toJson, ofJson?, PropertyId.ofJson?_toJson, Option.map_some]

/-! ## Names -/

namespace Name

/-- The places at which names come into the system. -/
inductive Entry where
  | parts
  | text
  | value
  /-- A record that is read, with its name and its values. -/
  | record
  | document
  | propertyDocument
  | itemDocument

/-- Which names come in at a place. -/
def Entry.Yields : Entry → Name → Prop
  | parts, n => ∃ uri localPart, ofParts uri localPart = .ok n
  | text, n => ∃ t, read t = .ok n
  | value, n => ∃ t, Value.read .name t = .ok (.name n)
  | record, n => ∃ reader r reader', Record.decode reader = (.ok r, reader') ∧ r.Carries n
  | document, n => ∃ j, ofJson? j = some n
  | propertyDocument, n => ∃ j id, PropertyId.ofJson? j = some id ∧ id.name = n
  | itemDocument, n => ∃ j id, ItemId.ofJson? j = some (.property id) ∧ id.name = n

/-- Whether names are checked where they come in. -/
def Entry.checks : Entry → Bool
  | document | propertyDocument | itemDocument => false
  | parts | text | value | record => true

theorem Entry.wellFormed_of_checks {e : Entry} (h : e.checks = true) {n : Name} (hn : e.Yields n) :
    n.WellFormed := by
  cases e with
  | parts =>
    obtain ⟨uri, localPart, hn⟩ := hn
    exact wellFormed_of_ofParts hn
  | text =>
    obtain ⟨t, hn⟩ := hn
    exact wellFormed_of_read hn
  | value =>
    obtain ⟨t, hn⟩ := hn
    exact Value.wellFormed_of_read hn
  | record =>
    obtain ⟨reader, r, reader', hr, hn⟩ := hn
    exact Record.ensures_readRecord hr n hn
  | document => cases h
  | propertyDocument => cases h
  | itemDocument => cases h

theorem Entry.yields_of_not_checks {e : Entry} (h : e.checks = false) (n : Name) : e.Yields n := by
  cases e with
  | parts => cases h
  | text => cases h
  | value => cases h
  | record => cases h
  | document => exact ⟨_, ofJson?_toJson n⟩
  | propertyDocument => exact ⟨_, ⟨none, n⟩, PropertyId.ofJson?_toJson _, rfl⟩
  | itemDocument => exact ⟨_, ⟨none, n⟩, ItemId.ofJson?_toJson _, rfl⟩

/-- A place lets in well-formed names only exactly if it checks. -/
theorem Entry.wellFormed_iff (e : Entry) :
    (∀ n, e.Yields n → n.WellFormed) ↔ e.checks = true := by
  constructor
  · intro h
    by_contra hc
    exact (h ⟨"", ""⟩ (e.yields_of_not_checks (Bool.eq_false_iff.2 hc) _)).localPart_ne rfl
  · exact fun h n hn => e.wellFormed_of_checks h hn

/-- **Which names come in, and what becomes of them.**  A place lets in well-formed names only
exactly if it checks; otherwise it lets in every name there is.  The names that are well formed are
those that can be built from their parts, and those that are read from their texts; the text of any
other name is no name.  A record that was written can be read again only if all its names are well
formed.  If they are, and its other values are faithful, it is read as it was. -/
theorem names_wellFormed (e : Entry) (n : Name) :
    ((∀ m, e.Yields m → m.WellFormed) ↔ e.checks = true) ∧
    (e.checks = false → e.Yields n) ∧
    (ofParts n.uri n.localPart = .ok n ↔ n.WellFormed) ∧
    (∀ m, read n.text = .ok m ↔ m = n ∧ n.WellFormed) ∧
    ∀ {capacity : Nat} {p : List UInt8} {r : Record}, Record.Writes capacity p r → r.Carries n →
      ((∃ r', (Record.decode (Reader.ofBytes p)).1 = .ok r') → n.WellFormed) ∧
      ((∀ m, r.Carries m → m.WellFormed) →
        (∀ values ∈ r.values, ∀ v ∈ values, v.kind ≠ .name → v.Faithful) →
        (Record.decode (Reader.ofBytes p)).1 = .ok r) := by
  refine ⟨e.wellFormed_iff, fun he => e.yields_of_not_checks he n, ?_,
    fun m => read_text_eq_ok_iff, fun hp hn => ⟨?_, hp.decode_of_wellFormed⟩⟩
  · rw [ofParts_eq_ok_iff, and_iff_right rfl]
  · rintro ⟨r', hread⟩
    exact hp.wellFormed_of_decode hread hn

/-- A document may say that both parts of a name are empty.  Its text is no name, and a record with
this name is written, but not read again. -/
theorem names_wellFormed_empty :
    Entry.document.Yields ⟨"", ""⟩ ∧ Entry.itemDocument.Yields ⟨"", ""⟩ ∧
    (∀ m, read (Name.text ⟨"", ""⟩) ≠ .ok m) ∧
    ∃ p, Record.Writes Record.defaultCapacity p ⟨⟨"", ""⟩, .undefined, none⟩ ∧
      ∀ r', (Record.decode (Reader.ofBytes p)).1 ≠ .ok r' := by
  obtain ⟨-, hdocument, -, htext, hrecord⟩ := names_wellFormed .document ⟨"", ""⟩
  obtain ⟨-, hitem, -⟩ := names_wellFormed .itemDocument ⟨"", ""⟩
  have hnot : ¬ Name.WellFormed ⟨"", ""⟩ := fun h => h.localPart_ne rfl
  have hframed : Record.Framed _ (Name.text ⟨"", ""⟩) := ⟨by decide, rfl⟩
  have hp : Record.Writes Record.defaultCapacity _ ⟨⟨"", ""⟩, .undefined, none⟩ :=
    .mk hframed .absent
  refine ⟨hdocument rfl, hitem rfl, fun m hm => hnot ((htext m).1 hm).2, _, hp, ?_⟩
  exact fun r' hr' => hnot ((hrecord hp .name).1 ⟨r', hr'⟩)

end Name
end ContentOverlay
