import ContentOverlay.Proofs.Session.Change
import ContentOverlay.Proofs.Session.Links

/-!
# Copies that stay apart

An overlay begins as a copy of its target, and the two are linked from then on: the target knows the
observer of the overlay, and events of the one change the status of the other.  But what they say of
their item is their own.  Only the setters of a state change it, and each of them changes one field
of one state.

* `Contents` is what a state says of its item.  `Contents.after` is what remains of it after some
  calls of setters: each field has the value that it was last given.
* `contents?_of_change` says what a step makes of the contents of all states.
* `Writes` has the setters that are called on the way from one chronicle to another, and
  `contents?_of_writes` follows the contents of a state along them.
* `contents_isolated` puts this together.
-/

set_option autoImplicit false

namespace ContentOverlay

/-! ## Setters of a state -/

namespace Write

namespace Field

/-- The parent that a setter gives. -/
def parent? : Field → Option (Option NodeId)
  | parent p => some p
  | _ => none

/-- The kind that a setter gives. -/
def kind? : Field → Option Kind
  | kind k => some k
  | _ => none

/-- The definition that a setter gives. -/
def definition? : Field → Option (Option DefinitionId)
  | definition id => some id
  | _ => none

/-- The values that a setter gives. -/
def values? : Field → Option (Option (List Value))
  | values vs => some vs
  | _ => none

end Field

variable {α : Type}

/-- The fields of a state that were given a value, in the order in which its setters were
called. -/
def fieldsOf (id : StateId) (ws : List Write) : List Field :=
  (ws.filter (·.id = id)).map (·.field)

/-- The value that a field was given last, or else the one that it has. -/
def last (given : Field → Option α) (fields : List Field) (v : α) : α :=
  (fields.filterMap given).getLastD v

theorem last_append (given : Field → Option α) (fields fields' : List Field) (v : α) :
    last given (fields ++ fields') v = last given fields' (last given fields v) := by
  rw [last, List.filterMap_append, last, last]
  generalize fields'.filterMap given = l'
  cases l' using List.reverseRecOn with
  | nil => rw [List.append_nil]; rfl
  | append_singleton l' x =>
    rw [← List.append_assoc, List.getLastD_concat, List.getLastD_concat]

theorem fieldsOf_append (id : StateId) (ws ws' : List Write) :
    fieldsOf id (ws ++ ws') = fieldsOf id ws ++ fieldsOf id ws' := by
  rw [fieldsOf, List.filter_append, List.map_append]
  rfl

/-- Setters of other states. -/
theorem fieldsOf_eq_nil {id : StateId} {ws : List Write} (h : ∀ w ∈ ws, w.id ≠ id) :
    fieldsOf id ws = [] := by
  rw [fieldsOf, List.map_eq_nil_iff, List.filter_eq_nil_iff]
  intro w hw
  simpa using h w hw

theorem fieldsOf_singleton (w : Write) : fieldsOf w.id [w] = [w.field] := by
  simp [fieldsOf]

end Write

/-! ## Contents -/

/-- What a state says of its item. -/
structure Contents where
  item : ItemId
  parent : Option NodeId
  lastModified : Timestamp
  baseVersion : String
  payload : Payload

/-- What a state says of its item. -/
def State.contents (s : State) : Contents :=
  ⟨s.item, s.parent, s.lastModified, s.baseVersion, s.payload⟩

namespace Contents

/-- What remains when these fields were given values, one after the other.  The item, the name of a
property, the time and the base version have no setter, and a node has no data. -/
def after (k : Contents) (fields : List Write.Field) : Contents where
  item := k.item
  parent := Write.last (·.parent?) fields k.parent
  lastModified := k.lastModified
  baseVersion := k.baseVersion
  payload := k.payload.change fun d =>
    { name := d.name
      kind := Write.last (·.kind?) fields d.kind
      definition := Write.last (·.definition?) fields d.definition
      values := Write.last (·.values?) fields d.values }

/-- The name inside the item of a property is the one that its data have. -/
def IsNamed (k : Contents) : Prop :=
  ∀ data, k.payload = .property data → ∃ parent, k.item = .property ⟨parent, data.name⟩

variable {k : Contents}

@[simp] theorem after_nil (k : Contents) : k.after [] = k := by
  obtain ⟨_, _, _, _, _ | _⟩ := k <;> rfl

@[simp] theorem map_after_nil (k? : Option Contents) : k?.map (·.after []) = k? := by
  cases k? with
  | none => rfl
  | some k => exact congrArg some k.after_nil

theorem after_append (k : Contents) (fields fields' : List Write.Field) :
    k.after (fields ++ fields') = (k.after fields).after fields' := by
  obtain ⟨_, _, _, _, _ | _⟩ := k <;> simp only [after, Payload.change, Write.last_append]

/-- A setter changes its field and no other. -/
theorem after_singleton (field : Write.Field) (x : State) :
    (field.on x).contents = x.contents.after [field] := by
  obtain ⟨_, _, _, _, _ | _, _⟩ := x <;> cases field <;> rfl

theorem IsNamed.after (h : k.IsNamed) (fields : List Write.Field) : (k.after fields).IsNamed := by
  intro data hdata
  cases hp : k.payload with
  | node => simp [Contents.after, hp, Payload.change] at hdata
  | property d =>
    obtain ⟨parent, hitem⟩ := h d hp
    simp only [Contents.after, hp, Payload.change, Payload.property.injEq] at hdata
    exact ⟨parent, by rw [← hdata]; exact hitem⟩

end Contents

/-! ## Contents in a store -/

namespace Store

/-- What the state with this identity says of its item. -/
def contents? (st : Store) (id : StateId) : Option Contents := (st.state? id).map State.contents

variable {st st' : Store} {h : Holding} {d : Option Deed} {w : Option Write} {made : Option State}
  {id : StateId} {k : Contents}

theorem contents?_length (st : Store) : st.contents? st.states.length = none := by
  rw [contents?, state?_length]
  rfl

theorem contents?_of_states_eq (hs : st'.states = st.states) (i : StateId) :
    st'.contents? i = st.contents? i := by
  rw [contents?, contents?, state?, state?, hs]

theorem contents?_withRegistry (f : Registry ListenerId → Registry ListenerId) (i : StateId) :
    (st.update id (State.withRegistry f)).contents? i = st.contents? i :=
  map_state?_update fun _ => rfl

theorem contents?_insert (name : String) (x : State) (i : StateId) :
    (st.insert name x).contents? i =
      if i = st.states.length then some x.contents else st.contents? i := by
  rw [contents?, state?_insert]
  split <;> rfl

theorem contents?_dispose (i : StateId) : (st.dispose id).contents? i = st.contents? i := by
  have hsevered : (st.update id State.severed).contents? i = st.contents? i :=
    map_state?_update fun _ => rfl
  rw [dispose]
  split
  · rfl
  · split
    · exact hsevered
    · exact (contents?_withRegistry _ i).trans hsevered

/-- A setter is called. -/
theorem contents?_write (w : Write) (i : StateId) :
    (st.update w.id w.field.on).contents? i =
      (st.contents? i).map (·.after (Write.fieldsOf i [w])) := by
  rw [contents?, contents?, state?_update, Option.map_map]
  split
  · next hi =>
    rw [hi, Write.fieldsOf_singleton, Option.map_map]
    congr 1
    funext x
    exact Contents.after_singleton w.field x
  · next hi =>
    have hw : ∀ w' ∈ [w], w'.id ≠ i := by simpa using Ne.symm hi
    rw [Write.fieldsOf_eq_nil hw]
    congr 1
    funext x
    exact (Contents.after_nil _).symm

/-- **What a step makes of the contents of states.**  A new state has those that it was constructed
with, and the others have theirs, with the value that a setter has given. -/
theorem contents?_of_change (hc : st.Change h d w made st') (i : StateId) :
    st'.contents? i = if i = st.states.length then made.map State.contents
      else (st.contents? i).map (·.after (Write.fieldsOf i w.toList)) := by
  -- when nothing is constructed, there is no state with the next identity afterwards either
  have hsame : st'.contents? i = st.contents? i →
      st'.contents? i = if i = st.states.length then none
        else (st.contents? i).map (·.after (Write.fieldsOf i [])) := by
    intro he
    rw [he]
    split
    · next hi => rw [hi, contents?_length]
    · exact (Contents.map_after_nil _).symm
  cases hc with
  | rests _ states => exact hsame (contents?_of_states_eq states i)
  | enrols | releases => exact hsame rfl
  | constructs =>
    rw [contents?_insert]
    split
    · rfl
    · exact (Contents.map_after_nil _).symm
  | @overlays name target status x =>
    rw [insertOverlay, contents?_insert, length_update, contents?_withRegistry]
    split
    · rfl
    · exact (Contents.map_after_nil _).symm
  | sets => exact hsame (map_state?_update fun _ => rfl)
  | adds | removes => exact hsame (contents?_withRegistry _ i)
  | @writes w =>
    rw [contents?_write]
    split
    · next hi => rw [hi, contents?_length]; rfl
    · rfl
  | disposes => exact hsame (contents?_dispose i)
  | @begins p =>
    exact hsame ((contents?_withRegistry _ i).trans (map_state?_begun fun _ _ => rfl))
  | marks => exact hsame (map_state?_observed fun _ _ => rfl)
  | ends => exact hsame (map_state?_finishPass fun _ => rfl)
  | breaks => exact hsame (map_state?_foldl_abandon fun _ _ => rfl)

end Store

/-! ## Along a chronicle -/

namespace Session

variable {s : Session}

/-- What a step constructs is constructed by the action that it carries out. -/
theorem exists_action_of_constructs? {x : State} (hx : s.constructs? = some x) :
    ∃ action : Action, action.constructs? s.store = some x := by
  rw [constructs?, ofAnswered] at hx
  split at hx
  · split at hx
    · exact ⟨_, hx⟩
    · cases hx
  · cases hx

end Session

namespace Chronicle

open Session

/-- The setters that are called on the way from a chronicle to another one, in their order.  They
are called by steps, at most one by each, and by no other move. -/
inductive Writes (may : Request → Prop) (c : Chronicle) : List Write → Chronicle → Prop
  | refl : Writes may c [] c
  | advance {ws : List Write} {c' : Chronicle} {u : Session} (writes : Writes may c ws c')
      (step : c'.session.advance = some u) :
      Writes may c (ws ++ c'.session.write?.toList) (c'.extend u)
  | still {ws : List Write} {c' c'' : Chronicle} (writes : Writes may c ws c')
      (move : Move may c' c'') (still : Still c' c'') : Writes may c ws c''

variable {config : Config} {clock : Timestamp} {may : Request → Prop} {c c' : Chronicle}
  {ws : List Write} {id : StateId} {k : Contents} {u : Session}

theorem Writes.ask (h : Writes may c ws c') {r : Request} (allowed : may r)
    (idle : c'.session.advance = none) : Writes may c ws (c'.ask r) :=
  h.still (.submit r allowed idle) (still_ask idle r)

theorem Writes.elapse (h : Writes may c ws c') (time : Timestamp) :
    Writes may c ws (c'.elapse time) :=
  h.still (.elapse time) (still_elapse c' time)

theorem Writes.next (h : Writes may c ws c') (hu : c'.session.advance = some u) :
    Writes may c (ws ++ c'.session.write?.toList) c'.next := by
  rw [Chronicle.next, hu]
  exact h.advance hu

/-- Whichever way a chronicle goes on, some setters are called on it. -/
theorem later_iff_exists_writes : Later may c c' ↔ ∃ ws, Writes may c ws c' := by
  constructor
  · intro h
    induction h with
    | refl => exact ⟨[], .refl⟩
    | tail _ move ih =>
      obtain ⟨ws, hws⟩ := ih
      rcases move.still_or_advance with hstill | ⟨u, hu, rfl⟩
      · exact ⟨ws, hws.still move hstill⟩
      · exact ⟨_, hws.advance hu⟩
  · rintro ⟨ws, h⟩
    induction h with
    | refl => exact .refl
    | advance _ step ih => exact ih.tail (.advance step)
    | still _ move _ ih => exact ih.tail move

theorem ne_length_of_contents? {st : Store} (hk : st.contents? id = some k) :
    id ≠ st.states.length := by
  rintro rfl
  rw [Store.contents?_length] at hk
  cases hk

/-- The contents of a state change by the setter that a step calls, and by nothing else. -/
theorem contents?_of_advance (hu : c.session.advance = some u)
    (hk : c.session.store.contents? id = some k) :
    u.store.contents? id = some (k.after (Write.fieldsOf id c.session.write?.toList)) := by
  have hchange := Store.contents?_of_change (change hu) id
  rwa [if_neg (ne_length_of_contents? hk), hk] at hchange

/-- No contents change when nothing is done, whatever the time is. -/
theorem Still.contents? (h : Still c c') (id : StateId) :
    c'.session.store.contents? id = c.session.store.contents? id := by
  rw [Store.contents?, Store.contents?, h.state?]

/-- **The contents of a state** are those that it had, with the values that its own setters have
given since. -/
theorem contents?_of_writes (h : Writes may c ws c') (hk : c.session.store.contents? id = some k) :
    c'.session.store.contents? id = some (k.after (Write.fieldsOf id ws)) := by
  induction h with
  | refl => exact hk.trans (congrArg some k.after_nil.symm)
  | advance _ step ih =>
    rw [Write.fieldsOf_append, Contents.after_append]
    exact contents?_of_advance step ih
  | still _ _ hstill ih => rw [hstill.contents?, ih]

/-- What a step constructs. -/
theorem contents?_of_new (hu : c.session.advance = some u)
    (hn : c.session.store.contents? id = none) (hk : u.store.contents? id = some k) :
    ∃ x, c.session.constructs? = some x ∧ x.contents = k := by
  have hchange := Store.contents?_of_change (change hu) id
  rw [hk, hn] at hchange
  split at hchange
  · exact Option.map_eq_some_iff.1 hchange.symm
  · cases hchange

/-- A new state that overlays no other has the present time. -/
theorem lastModified_of_constructs? {x : State} (hx : c.session.constructs? = some x)
    (ht : x.target = none) : x.lastModified = c.session.store.clock := by
  obtain ⟨action, hx⟩ := exists_action_of_constructs? hx
  unfold Action.constructs? at hx
  split at hx
  · cases hx
    rfl
  · cases hx
    rfl
  · split at hx
    · cases hx
    · -- an overlay has a target
      cases hx
      cases ht
  · split at hx
    · cases hx
    · cases hx
      rfl
  · cases hx

/-- A new overlay has the contents of its target, which keeps them. -/
theorem contents?_of_overlays (hu : c.session.advance = some u) {o t : StateId} {v : Status}
    (hd : c.next? = some (.overlays o t v)) :
    ∃ k, c.session.store.contents? t = some k ∧ u.store.contents? t = some k ∧
      u.store.contents? o = some k := by
  have hcontents := Store.contents?_of_change (change hu)
  have hchange := change hu
  generalize u.store = st' at *
  rw [hd] at hchange
  generalize hw : c.session.write? = w at *
  generalize hx : c.session.constructs? = made at *
  cases hchange with
  | rests idle => exact absurd (idle _ rfl) id
  | @overlays name _ _ x found top =>
    have hk : c.session.store.contents? t = some x.contents := by
      rw [Store.contents?, found]
      rfl
    refine ⟨x.contents, hk, ?_, ?_⟩
    · rw [hcontents, if_neg (ne_length_of_contents? hk), hk]
      exact congrArg some x.contents.after_nil
    · rw [hcontents, if_pos rfl]
      rfl

/-- What the actions construct is named. -/
theorem isNamed_of_constructs? {st : Store}
    (h : ∀ {id k}, st.contents? id = some k → k.IsNamed) {action : Action} {x : State}
    (hx : action.constructs? st = some x) : x.contents.IsNamed := by
  unfold Action.constructs? at hx
  split at hx
  · cases hx
    rintro _ ⟨⟩
    exact ⟨_, rfl⟩
  · cases hx
    rintro _ ⟨⟩
  · split at hx
    · cases hx
    · next hf =>
      cases hx
      exact h (k := State.contents _) (by rw [Store.contents?, Store.state?_of_find hf]; rfl)
  · split at hx
    · cases hx
    · cases hx
      rintro _ ⟨⟩
      exact ⟨_, rfl⟩
  · cases hx

/-- The name inside the item of a property is that of the property. -/
theorem isNamed_of_later (h : Later may (blank config clock) c)
    (hk : c.session.store.contents? id = some k) : k.IsNamed := by
  induction h generalizing id k with
  | refl => cases hk
  | @tail c c' hl hm ih =>
    rcases hm.still_or_advance with hstill | ⟨u, hu, rfl⟩
    · exact ih (hstill.contents? id ▸ hk)
    · cases hbefore : c.session.store.contents? id with
      | some k' =>
        obtain rfl := Option.some.inj (hk.symm.trans (contents?_of_advance hu hbefore))
        exact (ih hbefore).after _
      | none =>
        obtain ⟨x, hx, rfl⟩ := contents?_of_new hu hbefore hk
        obtain ⟨action, hx⟩ := exists_action_of_constructs? hx
        exact isNamed_of_constructs? ih hx

/-- Two properties' states, the second of them constructed a second after the first, when the client
asks for an overlay of the first. -/
def copying : Chronicle :=
  let first := (blank .default .epoch).ask
    (.act (.newProperty "x" ⟨"", "p"⟩ none .existing .standard))
  let filled := first.next.ask (.act (.setValues "x" (some [.boolean true])))
  let second := (filled.next.elapse ⟨1000⟩).ask
    (.act (.newProperty "y" ⟨"", "p"⟩ none .new .standard))
  second.next.ask (.act (.overlay "o" "x" .existingModified))

theorem later_copying : Later Any (blank .default .epoch) copying := by
  refine .ask (.next (.ask (.elapse (.next (.ask (.next (.ask .refl ?_ ?_)) ?_ ?_)) _) ?_ ?_)) ?_ ?_
  all_goals trivial

/-- The values of the overlay are edited, and later its target is given another kind. -/
def edited : Chronicle :=
  let values := (copying.next.ask (.act (.setValues "o" none))).next
  ((values.elapse ⟨2000⟩).ask (.act (.setKind "x" .boolean))).next

theorem writes_edited :
    Writes Any copying.next [⟨2, .values none⟩, ⟨0, .kind .boolean⟩] edited := by
  have values := (Writes.ask .refl trivial rfl :
    Writes Any copying.next [] (copying.next.ask (.act (.setValues "o" none)))).next rfl
  exact ((values.elapse ⟨2000⟩).ask (r := .act (.setKind "x" .boolean)) trivial rfl).next rfl

end Chronicle
end ContentOverlay
