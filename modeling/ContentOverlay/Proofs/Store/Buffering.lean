import ContentOverlay.Config.Settings
import ContentOverlay.Proofs.Record.Refusal
import ContentOverlay.Proofs.Store.Restoring

/-!
# Buffers that cannot be

A configuration chooses the first size of the buffer in which the texts of binary values are built.
The check of a configuration refuses the size zero only, but no buffer can be of `2 ^ 63` bytes or
more.  So there are configurations that pass the check and with which the state of a property with a
binary value cannot be written: the writing is broken off, and the caller gets no error.

* `perform_encode_of_writes` and `perform_encode_broken` say what comes of the writing, for either
  buffer.
* `configured_buffer` compares the configured buffer with the usual one, state by state and then for
  all states at once.
-/

set_option autoImplicit false

namespace ContentOverlay
namespace Store

open Record (capacityBound defaultCapacity Writes)

variable {st : Store} {id : StateId} {x : State} {data : PropertyData} {name : String}

/-- What has no bytes though nothing in it is too long breaks the writing off. -/
theorem encode_broken {w : Writer} (hw : w.Accepting) {usual : Bool}
    (hf : (recordOf data).Fitting)
    (hnone : ¬ ∃ p, Writes (st.bufferSize usual) p (recordOf data)) :
    st.encode data ⟨usual, w⟩ = .error .broken := by
  obtain ⟨p, hp, -⟩ | ⟨-, why, w', hencode, hwhy⟩ := hf.encode_accepting (st.bufferSize usual) hw
  · exact absurd ⟨p, hp⟩ hnone
  · rw [bufferSize] at hencode
    simp only [encode, hencode]
    cases why with
    | error e => exact absurd rfl (hwhy e)
    | bufferTooLarge => rfl
    | noText => rfl

theorem perform_encode_of_writes (hx : st.findProperty name = .ok (id, x, data)) {w : Writer}
    (hw : w.Accepting) {usual : Bool} {p : List UInt8}
    (hp : Writes (st.bufferSize usual) p (recordOf data)) (h : Holding) (caller : Option Caller) :
    perform h caller st (.encode name ⟨usual, w⟩) =
      .ok (.answered (.bytes (w.bytes ++ p)) st) :=
  perform_encode hx (encode_of_writes hw usual hp) h caller

theorem perform_encode_broken (hx : st.findProperty name = .ok (id, x, data)) {w : Writer}
    (hw : w.Accepting) {usual : Bool} (hf : (recordOf data).Fitting)
    (hnone : ¬ ∃ p, Writes (st.bufferSize usual) p (recordOf data)) (h : Holding)
    (caller : Option Caller) :
    perform h caller st (.encode name ⟨usual, w⟩) = .error .broken := by
  rw [perform_encode_eq hx, encode_broken hw hf hnone, Except.map]

/-- With this configuration the states of properties are written as with the usual buffer, as long
as their values are of their kinds and nothing is too long. -/
def WritesAsUsual (c : Config) : Prop :=
  ∀ {st : Store} {name : String} {id : StateId} {x : State} {data : PropertyData}, st.config = c →
    st.findProperty name = .ok (id, x, data) → (recordOf data).Fitting →
    ∀ (h : Holding) (caller : Option Caller) (w : Writer), w.Accepting →
      perform h caller st (.encode name ⟨false, w⟩) = perform h caller st (.encode name ⟨true, w⟩)

/-- With the usual buffer a state is written exactly if its values have texts. -/
theorem exists_writes_usual_iff (st : Store) (hf : (recordOf data).Fitting) :
    (∃ p, Writes (st.bufferSize true) p (recordOf data)) ↔ (recordOf data).HasTexts := by
  have husual : defaultCapacity < capacityBound := by decide
  rw [Record.exists_writes_iff]
  exact ⟨fun h => h.2.1, fun h => ⟨hf, h, fun _ => husual⟩⟩

/-- **When the configured buffer is as good as the usual one.** -/
theorem perform_encode_configured_iff (hx : st.findProperty name = .ok (id, x, data)) {w : Writer}
    (hw : w.Accepting) (hf : (recordOf data).Fitting) (h : Holding) (caller : Option Caller) :
    perform h caller st (.encode name ⟨false, w⟩) = perform h caller st (.encode name ⟨true, w⟩) ↔
      ((recordOf data).NeedsBuffer → st.config.capacity < capacityBound) := by
  constructor
  · intro heq hneeds
    obtain ⟨p, hp⟩ := (exists_writes_usual_iff st hf).2 (hneeds.hasTexts hf)
    rw [perform_encode_of_writes hx hw hp] at heq
    by_contra hcap
    have hnone : ¬ ∃ p, Writes (st.bufferSize false) p (recordOf data) := fun hex =>
      hcap ((Record.exists_writes_iff.1 hex).2.2 hneeds)
    rw [perform_encode_broken hx hw hf hnone] at heq
    exact absurd heq (by simp)
  · intro hcap
    by_cases ht : (recordOf data).HasTexts
    · obtain ⟨p, hp⟩ := (exists_writes_usual_iff st hf).2 ht
      have hown : Writes (st.bufferSize false) p (recordOf data) := hp.of_capacity hcap
      rw [perform_encode_of_writes hx hw hp, perform_encode_of_writes hx hw hown]
    · have hnone : ∀ usual, ¬ ∃ p, Writes (st.bufferSize usual) p (recordOf data) :=
        fun usual hex => ht (Record.exists_writes_iff.1 hex).2.1
      rw [perform_encode_broken hx hw hf (hnone _), perform_encode_broken hx hw hf (hnone _)]

/-- With another buffer than the usual one the same comes of the writing, or it is broken off. -/
theorem perform_encode_configured_of_ne (hx : st.findProperty name = .ok (id, x, data))
    {w : Writer} (hw : w.Accepting) (hf : (recordOf data).Fitting) {h : Holding}
    {caller : Option Caller} (hne : perform h caller st (.encode name ⟨false, w⟩) ≠
      perform h caller st (.encode name ⟨true, w⟩)) :
    perform h caller st (.encode name ⟨false, w⟩) = .error .broken := by
  refine perform_encode_broken hx hw hf (fun hex => ?_) h caller
  have hcap := (Record.exists_writes_iff.1 hex).2.2
  exact hne ((perform_encode_configured_iff hx hw hf h caller).2 hcap)

/-- One binary value. -/
def payload : PropertyData := ⟨⟨"", "p"⟩, .binary, none, some [.binary [0]]⟩

/-- The state of a property with one binary value. -/
def laden (c : Config) : Store :=
  (empty c .epoch).insert "x"
    (.fresh (.property ⟨none, payload.name⟩) none .new .epoch c.baseVersion (.property payload))

theorem findProperty_laden (c : Config) :
    ∃ id x, (laden c).findProperty "x" = .ok (id, x, payload) :=
  ⟨0, _, findProperty_of_find (find_insert _ _ _) rfl⟩

theorem needsBuffer_payload : (recordOf payload).NeedsBuffer :=
  ⟨rfl, _, rfl, List.cons_ne_nil _ _⟩

theorem fitting_payload : (recordOf payload).Fitting where
  kind_eq := by
    rintro _ ⟨⟩ v hv
    rw [List.mem_singleton.1 hv]
    rfl
  name_fits := by decide
  count_fits := by
    rintro _ ⟨⟩
    decide
  texts_fit := by
    rintro _ ⟨⟩ v hv text ht
    obtain rfl := List.mem_singleton.1 hv
    obtain rfl : Record.payloadText [0] = text := Option.some.inj ht
    rw [Record.payloadText_eq]
    decide

/-- Exactly the buffer sizes below the bound are as good as the usual one for every state. -/
theorem writesAsUsual_iff {c : Config} : WritesAsUsual c ↔ c.capacity < capacityBound := by
  constructor
  · intro husual
    obtain ⟨id, x, hx⟩ := findProperty_laden c
    have heq := husual rfl hx fitting_payload .nothing none .unlimited Writer.unlimited_accepting
    exact (perform_encode_configured_iff hx Writer.unlimited_accepting fitting_payload _ _).1 heq
      needsBuffer_payload
  · rintro hcap st name id x data rfl hx hf h caller w hw
    exact (perform_encode_configured_iff hx hw hf h caller).2 fun _ => hcap

theorem exists_write_iff {c : Config} :
    (∃ text, c.write = .ok text) ↔ c.capacity < capacityBound := by
  rw [Config.write]
  split
  · next h => exact iff_of_true ⟨_, rfl⟩ h
  · next h => exact iff_of_false (by simp) h

/-- **Which configurations break the writing.**  The state of a property has values of its kind and
nothing that is too long, and it is written to a writer that takes everything.  With the usual
buffer it is written if all its values have texts, and broken off otherwise.  With the buffer that
is configured the same comes of it exactly if none is needed or one of that size can be; else the
writing is broken off.  So a configuration is as good as the usual one for all states exactly if its
buffer size is below the bound.  These are the configurations that have a text; the check accepts
others too. -/
theorem configured_buffer (c : Config) :
    (∀ {st : Store} {name : String} {id : StateId} {x : State} {data : PropertyData},
      st.config = c → st.findProperty name = .ok (id, x, data) → (recordOf data).Fitting →
      ∀ (h : Holding) (caller : Option Caller) (w : Writer), w.Accepting →
        ((recordOf data).HasTexts → ∃ p, Writes defaultCapacity p (recordOf data) ∧
          perform h caller st (.encode name ⟨true, w⟩) =
            .ok (.answered (.bytes (w.bytes ++ p)) st)) ∧
        (¬ (recordOf data).HasTexts →
          perform h caller st (.encode name ⟨true, w⟩) = .error .broken) ∧
        (perform h caller st (.encode name ⟨false, w⟩) =
            perform h caller st (.encode name ⟨true, w⟩) ↔
          ((recordOf data).NeedsBuffer → c.capacity < capacityBound)) ∧
        (perform h caller st (.encode name ⟨false, w⟩) ≠
            perform h caller st (.encode name ⟨true, w⟩) →
          perform h caller st (.encode name ⟨false, w⟩) = .error .broken)) ∧
    (WritesAsUsual c ↔ c.capacity < capacityBound) ∧
    ((∃ text, c.write = .ok text) ↔ c.capacity < capacityBound) := by
  refine ⟨?_, writesAsUsual_iff, exists_write_iff⟩
  rintro st name id x data rfl hx hf h caller w hw
  refine ⟨fun ht => ?_, fun ht => ?_, perform_encode_configured_iff hx hw hf h caller,
    perform_encode_configured_of_ne hx hw hf⟩
  · obtain ⟨p, hp⟩ := (exists_writes_usual_iff st hf).2 ht
    exact ⟨p, hp, perform_encode_of_writes hx hw hp h caller⟩
  · exact perform_encode_broken hx hw hf ((exists_writes_usual_iff st hf).not.2 ht) h caller

/-- A configuration with a buffer of `2 ^ 63` bytes is accepted, but the state of a property with
one binary value, which can be written with the usual buffer, cannot be written with it. -/
theorem configured_buffer_too_large :
    let c : Config := ⟨"v", capacityBound⟩
    c.check = .ok c ∧ ∃ p, perform .nothing none (laden c) (.encode "x" ⟨true, .unlimited⟩) =
        .ok (.answered (.bytes p) (laden c)) ∧
      perform .nothing none (laden c) (.encode "x" ⟨false, .unlimited⟩) = .error .broken := by
  intro c
  obtain ⟨id, x, hx⟩ := findProperty_laden c
  obtain ⟨hwritten, -, hiff, hbroken⟩ := (configured_buffer c).1 rfl hx fitting_payload .nothing
    none .unlimited Writer.unlimited_accepting
  obtain ⟨p, -, hp⟩ := hwritten (needsBuffer_payload.hasTexts fitting_payload)
  refine ⟨Config.check_eq_ok_iff.2 ⟨rfl, by decide, by decide⟩, p, hp, hbroken fun heq => ?_⟩
  exact absurd (hiff.1 heq needsBuffer_payload) (Nat.lt_irrefl _)

end Store
end ContentOverlay
