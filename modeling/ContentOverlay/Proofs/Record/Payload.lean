import Mathlib
import ContentOverlay.Proofs.Record.RoundTrip
import ContentOverlay.Proofs.Text.Sextets

/-!
# Payloads and their texts

In a record a payload is written as its padded Base64 text, and from such a text the payload is
read.  The two correspond one to one: however the payload is cut into chunks on its way through the
encoder, the text is the same, and no other text is read as this payload.

The encoder sees a payload eight bits at a time and the text says it six bits at a time, so a chunk
can end anywhere in a group.  `Base64.standardText` knows nothing of groups, chunks or a reader.
-/

set_option autoImplicit false

namespace ContentOverlay
namespace Record

open Base64 (standardText)

theorem encodeChunks_eq_standardText (chunks : List (List UInt8)) :
    Base64.encodeChunks chunks = Utf8.ofString (standardText chunks.flatten) := by
  rw [Base64.encodeChunks_eq, Base64.ofString_standardText]

/-- The text by bits is the only text that spells a payload. -/
theorem spells_ofString_iff {t : String} {payload : List UInt8} :
    Base64.Spells (Utf8.ofString t) payload ↔ t = standardText payload := by
  refine ⟨fun h => ?_, fun h => ?_⟩
  · have ht := h.eq_groupwise
    rw [← Base64.ofString_standardText] at ht
    exact ofString_injective ht
  · rw [h, Base64.ofString_standardText]
    exact Base64.spells_groupwise payload

theorem valueOf_binary_eq_ok_iff {t : String} {v : Value} :
    valueOf .binary t = .ok v ↔ ∃ payload, v = .binary payload ∧ t = standardText payload := by
  rw [valueOf_eq_ok_iff, Means, if_pos rfl]
  simp only [spells_ofString_iff, and_comm]

/-- **Payloads and their texts correspond one to one.**  The text that is written for a payload,
whatever chunks it arrives in, is its padded Base64 text, and exactly this text is read as the
payload.  Every text that is not the padded Base64 text of any payload is refused by the Base64
reader. -/
theorem binary_text_iff :
    (∀ chunks : List (List UInt8),
      Base64.encodeChunks chunks = Utf8.ofString (standardText chunks.flatten)) ∧
    (∀ payload, textOf? (.binary payload) = some (Utf8.ofString (standardText payload))) ∧
    (∀ (t : String) (v : Value), valueOf .binary t = .ok v ↔
      ∃ payload, v = .binary payload ∧ t = standardText payload) ∧
    ∀ t : String, (∀ payload, t ≠ standardText payload) →
      ∃ fault, valueOf .binary t = .error (.base64 fault) := by
  refine ⟨encodeChunks_eq_standardText, fun payload => ?_, fun t v => valueOf_binary_eq_ok_iff,
    fun t ht => ?_⟩
  · rw [textOf?, payloadText_eq, Base64.ofString_standardText]
  · rw [valueOf, if_pos rfl]
    cases hd : Base64.decode (Utf8.ofString t) with
    | error fault => exact ⟨fault, rfl⟩
    | ok payload => exact absurd (spells_ofString_iff.1 (Base64.decode_eq_ok_iff.1 hd)) (ht payload)

example : Base64.decode (Utf8.ofString "Zm9vYh==") = .error (.lastSymbol 5 104) := by decide

end Record
end ContentOverlay
