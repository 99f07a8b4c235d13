import Mathlib
import ContentOverlay.Name

/-!
# Names and their texts

A name is *well formed* when its local part is not empty and neither part holds a brace.  These are
the names that can be built from parts, and exactly these are read back from their texts
(`read_text_eq_ok_iff`): with a brace inside, the first closing one is no longer where the namespace
ends, and the reader refuses what is left over.

`read_eq_ok_iff` says which texts are read at all: a local part alone (`Bare`) or behind a namespace
in braces (`Braced`).  `name_syntax` adds that a text can be taken apart in one way only and that no
two names have the same text.
-/

set_option autoImplicit false

namespace ContentOverlay
namespace Name

/-- What a name that was built from parts satisfies. -/
structure WellFormed (n : Name) : Prop where
  localPart_ne : n.localPart.toList ≠ []
  uri_plain : hasBrace n.uri = false
  localPart_plain : hasBrace n.localPart = false

theorem ofParts_eq_ok_iff {uri localPart : String} {n : Name} :
    ofParts uri localPart = .ok n ↔ n = ⟨uri, localPart⟩ ∧ n.WellFormed := by
  rw [ofParts]
  split
  · next he =>
    refine ⟨fun h => absurd h (by simp), ?_⟩
    rintro ⟨rfl, hw⟩
    exact absurd he hw.localPart_ne
  · next he =>
    split
    · next hb =>
      refine ⟨fun h => absurd h (by simp), ?_⟩
      rintro ⟨rfl, hw⟩
      rw [hw.uri_plain, hw.localPart_plain] at hb
      exact absurd hb (by simp)
    · next hb =>
      rw [Bool.not_eq_true, Bool.or_eq_false_iff] at hb
      rw [Except.ok.injEq]
      refine ⟨?_, ?_⟩
      · rintro rfl
        exact ⟨rfl, he, hb.1, hb.2⟩
      · rintro ⟨rfl, -⟩
        rfl

theorem hasBrace_eq_false_iff {part : String} :
    hasBrace part = false ↔ '{' ∉ part.toList ∧ '}' ∉ part.toList := by
  simp only [hasBrace, isBrace, List.any_eq_false, decide_eq_true_eq, not_or]
  exact ⟨fun h => ⟨fun hm => (h _ hm).1 rfl, fun hm => (h _ hm).2 rfl⟩,
    fun h c hc => ⟨fun he => h.1 (he ▸ hc), fun he => h.2 (he ▸ hc)⟩⟩

/-- The split is at the first closing brace. -/
theorem splitAtBrace_eq_some_iff {cs a b : List Char} :
    splitAtBrace cs = some (a, b) ↔ cs = a ++ '}' :: b ∧ '}' ∉ a := by
  induction cs generalizing a with
  | nil => simp [splitAtBrace]
  | cons c cs ih =>
    rw [splitAtBrace]
    split
    · next hc =>
      rw [Option.some.injEq, Prod.mk.injEq]
      refine ⟨?_, ?_⟩
      · rintro ⟨rfl, rfl⟩
        exact ⟨by rw [hc]; rfl, List.not_mem_nil⟩
      · rintro ⟨h, hm⟩
        cases a with
        | nil => exact ⟨rfl, (List.cons.inj h).2⟩
        | cons d a =>
          rw [← (List.cons.inj h).1, hc] at hm
          exact absurd List.mem_cons_self hm
    · next hc =>
      rw [Option.map_eq_some_iff]
      refine ⟨?_, ?_⟩
      · rintro ⟨⟨u, v⟩, h, he⟩
        obtain ⟨rfl, rfl⟩ := Prod.mk.inj he
        obtain ⟨rfl, hm⟩ := ih.1 h
        exact ⟨rfl, by simpa using ⟨Ne.symm hc, hm⟩⟩
      · rintro ⟨h, hm⟩
        cases a with
        | nil => exact absurd (List.cons.inj h).1 hc
        | cons d a =>
          obtain ⟨rfl, h'⟩ := List.cons.inj h
          exact ⟨(a, b), ih.2 ⟨h', fun hm' => hm (List.mem_cons_of_mem _ hm')⟩, rfl⟩

theorem toList_text (n : Name) :
    n.text.toList = '{' :: (n.uri.toList ++ '}' :: n.localPart.toList) := by
  simp [text, render]

/-- The text of a name is read as that name if it is well formed, and not at all otherwise. -/
theorem read_text_eq_ok_iff {n m : Name} : read n.text = .ok m ↔ m = n ∧ n.WellFormed := by
  simp only [read, toList_text]
  by_cases hu : '}' ∈ n.uri.toList
  · obtain ⟨a, b, hab, ha⟩ := List.eq_append_cons_of_mem hu
    have hs : splitAtBrace (n.uri.toList ++ '}' :: n.localPart.toList) =
        some (a, b ++ '}' :: n.localPart.toList) :=
      splitAtBrace_eq_some_iff.2 ⟨by rw [hab, List.append_assoc, List.cons_append], ha⟩
    rw [hs]
    refine ⟨?_, ?_⟩
    · intro h
      have hw := (ofParts_eq_ok_iff.1 h).2.localPart_plain
      rw [(ofParts_eq_ok_iff.1 h).1, hasBrace_eq_false_iff] at hw
      exact absurd (by simp) hw.2
    · rintro ⟨-, hw⟩
      exact absurd hu (hasBrace_eq_false_iff.1 hw.uri_plain).2
  · have hs : splitAtBrace (n.uri.toList ++ '}' :: n.localPart.toList) =
        some (n.uri.toList, n.localPart.toList) := splitAtBrace_eq_some_iff.2 ⟨rfl, hu⟩
    rw [hs]
    show ofParts (String.ofList n.uri.toList) (String.ofList n.localPart.toList) = _ ↔ _
    rw [String.ofList_toList, String.ofList_toList, ofParts_eq_ok_iff]
    exact ⟨by rintro ⟨rfl, h⟩; exact ⟨rfl, h⟩, by rintro ⟨rfl, h⟩; exact ⟨rfl, h⟩⟩

/-- **Which texts of names are canonical**: those with braces. -/
theorem text_eq_iff_of_read {text : String} {n : Name} (h : read text = .ok n) :
    n.text = text ↔ text.toList.head? = some '{' := by
  rw [← String.toList_inj, toList_text]
  rw [read] at h
  split at h
  · next cs hcs =>
    split at h
    · next uri localPart hsplit =>
      obtain ⟨rfl, -⟩ := ofParts_eq_ok_iff.1 h
      obtain ⟨rfl, -⟩ := splitAtBrace_eq_some_iff.1 hsplit
      rw [hcs, String.toList_ofList, String.toList_ofList]
      exact iff_of_true rfl rfl
    · cases h
  · next hcs =>
    refine ⟨fun he => by rw [← he]; rfl, fun he => ?_⟩
    obtain ⟨cs, hcs'⟩ := List.head?_eq_some_iff.1 he
    exact absurd hcs' (hcs cs)

theorem wellFormed_of_ofParts {uri localPart : String} {n : Name}
    (h : ofParts uri localPart = .ok n) : n.WellFormed := (ofParts_eq_ok_iff.1 h).2

theorem wellFormed_of_read {text : String} {n : Name} (h : read text = .ok n) : n.WellFormed := by
  rw [read] at h
  split at h
  · split at h
    · exact wellFormed_of_ofParts h
    · cases h
  · exact wellFormed_of_ofParts h

theorem WellFormed.read_text {n : Name} (h : n.WellFormed) : read n.text = .ok n :=
  read_text_eq_ok_iff.2 ⟨rfl, h⟩

/-! ## The syntax -/

/-- A part without braces. -/
def Plain (part : String) : Prop := '{' ∉ part.toList ∧ '}' ∉ part.toList

instance (part : String) : Decidable (Plain part) := inferInstanceAs (Decidable (_ ∧ _))

/-- A local part that stands alone. -/
def Bare (s : String) : Prop := s.toList.head? ≠ some '{' ∧ s ≠ "" ∧ Plain s

instance (s : String) : Decidable (Bare s) := inferInstanceAs (Decidable (_ ∧ _ ∧ _))

/-- A local part behind a namespace in braces. -/
def Braced (s uri localPart : String) : Prop :=
  s = "\x7b" ++ uri ++ "\x7d" ++ localPart ∧ Plain uri ∧ Plain localPart ∧ localPart ≠ ""

instance (s uri localPart : String) : Decidable (Braced s uri localPart) :=
  inferInstanceAs (Decidable (_ ∧ _ ∧ _ ∧ _))

theorem wellFormed_iff {uri localPart : String} :
    WellFormed ⟨uri, localPart⟩ ↔ Plain uri ∧ Plain localPart ∧ localPart ≠ "" := by
  have hne : localPart.toList ≠ [] ↔ localPart ≠ "" := String.toList_eq_nil_iff.not
  rw [Plain, Plain, ← hasBrace_eq_false_iff, ← hasBrace_eq_false_iff, ← hne]
  exact ⟨fun h => ⟨h.uri_plain, h.localPart_plain, h.localPart_ne⟩, fun h => ⟨h.2.2, h.1, h.2.1⟩⟩

/-- Without an opening brace in front the whole text is the local part. -/
theorem read_of_head?_ne {s : String} (h : s.toList.head? ≠ some '{') : read s = ofParts "" s := by
  rw [read]
  split
  · next cs hcs => exact absurd (by rw [hcs]; rfl) h
  · rfl

/-- The namespace ends at the first closing brace, so a text can be taken apart in one way only. -/
theorem eq_of_text_eq {n m : Name} (hn : '}' ∉ n.uri.toList) (hm : '}' ∉ m.uri.toList)
    (h : n.text = m.text) : n = m := by
  have hsplit : ∀ {k : Name}, '}' ∉ k.uri.toList →
      splitAtBrace (k.uri.toList ++ '}' :: k.localPart.toList) =
        some (k.uri.toList, k.localPart.toList) :=
    fun hk => splitAtBrace_eq_some_iff.2 ⟨rfl, hk⟩
  have hlist := congrArg String.toList h
  rw [toList_text, toList_text, List.cons.injEq] at hlist
  have hparts := hsplit hn
  rw [hlist.2, hsplit hm, Option.some.injEq, Prod.mk.injEq, String.toList_inj,
    String.toList_inj] at hparts
  exact congrArg₂ Name.mk hparts.1.symm hparts.2.symm

/-- **Which texts are read as which names.** -/
theorem read_eq_ok_iff {s : String} {n : Name} :
    read s = .ok n ↔ (Bare s ∧ n = ⟨"", s⟩) ∨ Braced s n.uri n.localPart := by
  refine ⟨fun h => ?_, ?_⟩
  · have hw := wellFormed_iff.1 (wellFormed_of_read h)
    by_cases hbrace : s.toList.head? = some '{'
    · exact .inr ⟨((text_eq_iff_of_read h).2 hbrace).symm, hw⟩
    · rw [read_of_head?_ne hbrace] at h
      obtain ⟨rfl, -⟩ := ofParts_eq_ok_iff.1 h
      exact .inl ⟨⟨hbrace, hw.2.2, hw.2.1⟩, rfl⟩
  · rintro (⟨⟨hhead, hne, hplain⟩, rfl⟩ | ⟨hs, hw⟩)
    · rw [read_of_head?_ne hhead, ofParts_eq_ok_iff, wellFormed_iff]
      exact ⟨rfl, by decide, hplain, hne⟩
    · rw [hs]
      exact (wellFormed_iff.2 hw).read_text

theorem text_of_read {s : String} {n : Name} (h : read s = .ok n) :
    n.text = if s.toList.head? = some '{' then s else "\x7b\x7d" ++ s := by
  split
  · next hbrace => exact (text_eq_iff_of_read h).2 hbrace
  · next hbrace =>
    rw [read_of_head?_ne hbrace] at h
    obtain ⟨rfl, -⟩ := ofParts_eq_ok_iff.1 h
    rfl

/-- **The syntax of names.**  A text is read as a name exactly if it is a local part alone or behind
a namespace in braces; it can be taken apart in one way only, and the parts are those of the name.
A name that was built from parts reads back from its text, and no two such names have the same text.
The text of a name that was read is what it was read from, with empty braces in front of a local
part alone. -/
theorem name_syntax :
    (∀ s n, read s = .ok n ↔ (Bare s ∧ n = ⟨"", s⟩) ∨ Braced s n.uri n.localPart) ∧
    (∀ s u l u' l', Braced s u l → Braced s u' l' → u = u' ∧ l = l') ∧
    (∀ u l n, ofParts u l = .ok n → n = ⟨u, l⟩ ∧ read n.text = .ok n) ∧
    (∀ u l n u' l' n', ofParts u l = .ok n → ofParts u' l' = .ok n' → n.text = n'.text → n = n') ∧
    ∀ s n, read s = .ok n →
      n.text = if s.toList.head? = some '{' then s else "\x7b\x7d" ++ s := by
  have hback : ∀ {u l n}, ofParts u l = .ok n → read n.text = .ok n :=
    fun h => (wellFormed_of_ofParts h).read_text
  refine ⟨fun s n => read_eq_ok_iff, fun s u l u' l' h h' => ?_, fun u l n h => ?_,
    fun u l n u' l' n' h h' htext => ?_, fun s n => text_of_read⟩
  · exact Name.mk.inj (eq_of_text_eq h.2.1.2 h'.2.1.2 (h.1.symm.trans h'.1))
  · exact ⟨(ofParts_eq_ok_iff.1 h).1, hback h⟩
  · have hn := hback h
    rw [htext, hback h'] at hn
    exact (Except.ok.inj hn).symm

example : Braced "\x7bhttp://example.com/a\x7db" "http://example.com/a" "b" := by decide

end Name
end ContentOverlay
