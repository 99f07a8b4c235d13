import ContentOverlay.Session.Basic

/-!
# Every run ends

What is left to be done in a session has two measures.  The *work* is the size of all requests that
are still to be made, now or by a script.  The *load* counts the frames and the listeners still to
be told.

A request is carried out once and an entry of a script is used once, so work never grows; it is used
up with every request.  A step that uses up no work ends a frame or tells a listener, which reduces
the load.  That is `advance_decreases`.
-/

set_option autoImplicit false

namespace ContentOverlay
namespace Session

/-- The sum of some numbers. -/
def total : List Nat → Nat
  | [] => 0
  | n :: ns => n + total ns

@[simp] theorem total_nil : total [] = 0 := rfl

@[simp] theorem total_cons (n : Nat) (ns : List Nat) : total (n :: ns) = n + total ns := rfl

/-- The size of the requests of a frame. -/
noncomputable def workOf : Frame → Nat
  | .requests _ todo _ => sizeOf todo
  | .pass _ _ => 0

/-- The frame itself and the listeners that it is still to tell. -/
def loadOf : Frame → Nat
  | .requests _ _ _ => 1
  | .pass _ pending => pending.length + 1

/-- The size of some scripts. -/
noncomputable def scriptWork (scripts : List (String × Script)) : Nat :=
  total (scripts.map fun e => sizeOf e.2)

/-- The size of all requests that are still to be made. -/
noncomputable def work (s : Session) : Nat :=
  scriptWork s.scripts + total (s.frames.map workOf)

/-- The frames and the listeners still to be told. -/
def load (s : Session) : Nat := total (s.frames.map loadOf)

theorem sizeOf_take? {event : Event} {script script' : Script} {rs : List Request}
    (h : Script.take? event script = some (rs, script')) :
    sizeOf rs + sizeOf script' < sizeOf script := by
  induction script generalizing script' with
  | nil => simp [Script.take?] at h
  | cons entry script ih =>
    unfold Script.take? at h
    split at h
    · obtain ⟨_, _⟩ := entry
      simp only [Option.some.injEq, Prod.mk.injEq] at h
      obtain ⟨rfl, rfl⟩ := h
      simp
      omega
    · simp only [Option.map_eq_some_iff, Prod.mk.injEq, Prod.exists] at h
      obtain ⟨rs', rest, h, rfl, rfl⟩ := h
      have := ih h
      simp
      omega

theorem scriptWork_takeRequests {listener : String} {event : Event}
    {scripts scripts' : List (String × Script)} {rs : List Request}
    (h : takeRequests listener event scripts = some (rs, scripts')) :
    sizeOf rs + scriptWork scripts' < scriptWork scripts := by
  induction scripts generalizing scripts' with
  | nil => simp [takeRequests] at h
  | cons entry scripts ih =>
    unfold takeRequests at h
    split at h
    · simp only [Option.map_eq_some_iff, Prod.mk.injEq, Prod.exists] at h
      obtain ⟨rs', rest, h, rfl, rfl⟩ := h
      have := sizeOf_take? h
      simp only [scriptWork, List.map_cons, total_cons]
      omega
    · simp only [Option.map_eq_some_iff, Prod.mk.injEq, Prod.exists] at h
      obtain ⟨rs', rest, h, rfl, rfl⟩ := h
      have := ih h
      simp only [scriptWork, List.map_cons, total_cons] at this ⊢
      omega

@[simp] theorem map_workOf_answer (a : Answer) (fs : List Frame) :
    (answer a fs).map workOf = fs.map workOf := by
  unfold answer
  split <;> rfl

@[simp] theorem map_loadOf_answer (a : Answer) (fs : List Frame) :
    (answer a fs).map loadOf = fs.map loadOf := by
  unfold answer
  split <;> rfl

/-- Breaking off leaves no work but the scripts. -/
theorem work_breakOff_le {s : Session} {caller : Option (Caller × Nat)} {todo : List Request}
    {answers : List Answer} {rest : List Frame}
    (h : s.frames = .requests caller todo answers :: rest) :
    s.breakOff.work ≤ s.work := by
  have : 0 < sizeOf todo := by
    cases todo <;> simp only [List.nil.sizeOf_spec, List.cons.sizeOf_spec] <;> omega
  simp [work, breakOff, h, workOf]
  omega

/-- An outcome adds no work. -/
theorem work_conclude_le {s : Session} {caller : Option (Caller × Nat)} {todo : List Request}
    {answers : List Answer} {rest : List Frame}
    (h : s.frames = .requests caller todo answers :: rest)
    (o : Except Failure Outcome) : (s.conclude o).work ≤ s.work := by
  unfold conclude
  split
  · simp [work]
  · simp [work, workOf]
  · exact work_breakOff_le h
  · simp [work]

/-- A request adds no more work than it is itself. -/
theorem work_carryOut_le {s : Session} {caller : Option (Caller × Nat)} {todo : List Request}
    {answers : List Answer} {rest : List Frame}
    (h : s.frames = .requests caller todo answers :: rest)
    (who : Option Caller) (r : Request) : (s.carryOut who r).work ≤ s.work + sizeOf r := by
  unfold carryOut
  split
  · exact Nat.le_trans (work_conclude_le h _) (Nat.le_add_right _ _)
  · split
    · simp [work]
    · simp [work, scriptWork]
      omega

/-- Telling a listener uses up work, or it leaves the work and the frames as they are. -/
theorem work_deliver (s : Session) (p : Pass) (l : ListenerId) :
    (s.deliver p l).work < s.work ∨
      ((s.deliver p l).work = s.work ∧ (s.deliver p l).load = s.load) := by
  unfold deliver
  split
  · unfold tell
    split
    · exact .inr ⟨rfl, rfl⟩
    · split
      · exact .inr ⟨rfl, rfl⟩
      · next h =>
        have := scriptWork_takeRequests h
        left
        simp [work, workOf]
        omega
  · exact .inr ⟨rfl, rfl⟩

/-- A step uses up work, or else it reduces the load. -/
theorem advance_decreases {s t : Session} (h : s.advance = some t) :
    Prod.Lex (· < ·) (· < ·) (t.work, t.load) (s.work, s.load) := by
  unfold advance at h
  split at h
  · simp at h
  · simp at h
  · next hs =>
    obtain rfl := Option.some.inj h
    apply Prod.Lex.left
    simp [work, finishCall, hs, workOf]
  · next caller r todo answers rest hs =>
    obtain rfl := Option.some.inj h
    apply Prod.Lex.left
    refine Nat.lt_of_le_of_lt (work_carryOut_le rfl _ r) ?_
    simp [work, hs, workOf]
    omega
  · next hs =>
    obtain rfl := Option.some.inj h
    have hw : (s.finishPass ‹_› ‹_›).work = s.work := by simp [work, finishPass, hs, workOf]
    rw [hw]
    apply Prod.Lex.right
    simp [load, finishPass, hs, loadOf]
  · next p l pending rest hs =>
    obtain rfl := Option.some.inj h
    have hw : ({ s with frames := .pass p pending :: rest } : Session).work = s.work := by
      simp [work, hs, workOf]
    have hl : ({ s with frames := .pass p pending :: rest } : Session).load < s.load := by
      simp [load, hs, loadOf]
    rcases work_deliver { s with frames := .pass p pending :: rest } p l with h | ⟨h, h'⟩
    · exact Prod.Lex.left _ _ (hw ▸ h)
    · rw [h, hw]
      exact Prod.Lex.right _ (h' ▸ hl)

end Session
end ContentOverlay
