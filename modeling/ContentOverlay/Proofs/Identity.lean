import Mathlib
import ContentOverlay.Identity

/-!
# Identifiers and their texts

A number of 128 bits has 32 hexadecimal digits, and the hyphens between the groups can be taken out
again because they stand at fixed places.  So every identifier reads back from its text
(`NodeId.read?_text`).
-/

set_option autoImplicit false

namespace ContentOverlay

namespace Hex

theorem value?_digit (n : Nat) : value? (digit n) = some (n % 16) := by
  have h : ∀ k < 16, value? (Nat.digitChar k) = some k := by decide
  exact h _ (Nat.mod_lt n (by decide))

@[simp] theorem length_digits (count n : Nat) : (digits count n).length = count := by
  induction count generalizing n with
  | zero => rfl
  | succ count ih => rw [digits, List.length_append, ih, List.length_singleton]

/-- The last digits of a number write its remainder. -/
theorem number?_digits (count n : Nat) : number? (digits count n) = some (n % 16 ^ count) := by
  induction count generalizing n with
  | zero => rw [pow_zero, Nat.mod_one]; rfl
  | succ count ih =>
    have hih := ih (n / 16)
    rw [number?] at hih ⊢
    have hmod : n / 16 % 16 ^ count * 16 + n % 16 = n % 16 ^ (count + 1) := by
      rw [pow_succ', Nat.mod_mul]
      ring
    rw [digits, List.foldlM_append, hih, Option.bind_eq_bind, Option.bind_some, List.foldlM_cons,
      value?_digit, Option.map_some, hmod]
    rfl

end Hex

namespace NodeId

theorem length_hyphenate {ns : List Nat} (hne : ns ≠ []) {ds : List Char}
    (hlen : ds.length = ns.sum) : (hyphenate ns ds).length + 1 = ns.sum + ns.length := by
  induction ns generalizing ds with
  | nil => exact absurd rfl hne
  | cons n ns ih =>
    rw [List.sum_cons] at hlen
    cases ns with
    | nil =>
      rw [hyphenate, List.length_take, hlen]
      simp
    | cons m ns =>
      have hdrop : (ds.drop n).length = (m :: ns).sum := by
        rw [List.length_drop]
        omega
      have := ih (by simp) hdrop
      rw [hyphenate, List.length_append, List.length_take, List.length_cons, List.sum_cons,
        List.length_cons]
      · omega
      · simp

/-- Taking out the hyphens gives back the digits. -/
theorem dehyphenate?_hyphenate {ns : List Nat} (hne : ns ≠ []) {ds : List Char}
    (hlen : ds.length = ns.sum) : dehyphenate? ns (hyphenate ns ds) = some ds := by
  induction ns generalizing ds with
  | nil => exact absurd rfl hne
  | cons n ns ih =>
    rw [List.sum_cons] at hlen
    cases ns with
    | nil =>
      have hn : ds.length = n := hlen
      rw [hyphenate, List.take_of_length_le hn.le, dehyphenate?, if_pos hn]
    | cons m ns =>
      have hdrop : (ds.drop n).length = (m :: ns).sum := by
        rw [List.length_drop]
        omega
      have htake : (ds.take n).length = n := by
        rw [List.length_take]
        omega
      rw [hyphenate, dehyphenate?, List.drop_left' htake]
      · show ((dehyphenate? (m :: ns) (hyphenate (m :: ns) (ds.drop n))).map _) = _
        rw [ih (by simp) hdrop, Option.map_some, List.take_left' htake, List.take_append_drop]
      · simp
      · simp

theorem read?_of_length {text : String} (h : text.toList.length = 36) :
    read? text = ofHyphenated? text.toList := by
  rw [read?, if_neg (by omega), if_pos h]

/-- **An identifier reads back from its text.** -/
theorem read?_text (id : NodeId) : read? id.text = some id := by
  have hlen : (Hex.digits 32 id.bits.toNat).length = groups.sum := Hex.length_digits _ _
  have htext : (hyphenate groups (Hex.digits 32 id.bits.toNat)).length = 36 :=
    Nat.succ.inj (length_hyphenate (by decide) hlen)
  have hbits : id.bits.toNat % 16 ^ 32 = id.bits.toNat := Nat.mod_eq_of_lt id.bits.isLt
  rw [read?_of_length (by rw [text, String.toList_ofList]; exact htext), text,
    String.toList_ofList, ofHyphenated?, dehyphenate?_hyphenate (by decide) hlen,
    Option.bind_some, ofDigits?, if_pos (Hex.length_digits _ _), Hex.number?_digits, hbits,
    Option.map_some, BitVec.ofNat_toNat, BitVec.setWidth_eq]

end NodeId
end ContentOverlay
