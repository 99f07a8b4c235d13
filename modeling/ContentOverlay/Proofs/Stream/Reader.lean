import Mathlib
import ContentOverlay.Proofs.Stream.Pace
import ContentOverlay.Stream.Reader

/-!
# What a reader gives

However few bytes a reader gives at a time, as long as it gives at least one per call, the calls
that `readUpTo` makes amount to cutting the source in two: what comes, and what stays.  All that can
come between is a refusal.

* A reader `Reaches n` when no call is refused before it has given `n` bytes.  It has to reach
  `demand count` for `readUpTo` to come to its end, which is `count`, or one more than there are
  bytes where the end of the source has to be seen (`readUpTo_of_reaches`).
* A reader that does not reach so far gives every byte before the place where it refuses
  (`readUpTo_of_refuses`).
* A reader is *willing* when it never refuses at all (`Willing.readUpTo_eq`).
-/

set_option autoImplicit false

namespace ContentOverlay

namespace Reader

open Pace (capped capped_pos capped_le)

/-- A reader that never refuses, and that gives something as long as there is something. -/
structure Willing (r : Reader) : Prop where
  refusesAt_eq : r.refusesAt = none
  isPositive : r.pace.IsPositive

/-- The reader after `count` bytes were taken, or all if there are fewer. -/
def skip (r : Reader) (count : Nat) : Reader :=
  { r with rest := r.rest.drop count, position := r.position + min count r.rest.length }

theorem ofBytes_willing (bytes : List UInt8) : (ofBytes bytes).Willing :=
  ⟨rfl, Pace.isPositive_none⟩

theorem Willing.skip {r : Reader} (h : r.Willing) (count : Nat) : (r.skip count).Willing :=
  ⟨h.refusesAt_eq, h.isPositive⟩

@[simp] theorem skip_rest (r : Reader) (count : Nat) : (r.skip count).rest = r.rest.drop count :=
  rfl

@[simp] theorem skip_zero (r : Reader) : r.skip 0 = r := by
  simp [skip]

theorem skip_skip (r : Reader) (m n : Nat) : (r.skip m).skip n = r.skip (m + n) := by
  simp only [skip, List.drop_drop, List.length_drop, mk.injEq, and_self, and_true, true_and]
  omega

theorem skip_of_length_le {r : Reader} {m n : Nat} (hm : r.rest.length ≤ m)
    (hn : r.rest.length ≤ n) : r.skip m = r.skip n := by
  rw [skip, skip, List.drop_eq_nil_of_le hm, List.drop_eq_nil_of_le hn, Nat.min_eq_right hm,
    Nat.min_eq_right hn]

/-! ## How far a reader goes -/

/-- No call is refused before the reader has given this many bytes. -/
def Reaches (r : Reader) (n : Nat) : Prop := ∀ p ∈ r.refusesAt, r.position + n ≤ p

/-- How many bytes a reader is asked for when up to `count` are wanted; the end of the source counts
as one, for a call has to say that it is there. -/
def demand (r : Reader) (count : Nat) : Nat := min count (r.rest.length + 1)

theorem Willing.reaches {r : Reader} (h : r.Willing) (n : Nat) : r.Reaches n := by
  intro p hp
  rw [h.refusesAt_eq] at hp
  cases hp

theorem Reaches.mono {r : Reader} {m n : Nat} (h : r.Reaches n) (hmn : m ≤ n) : r.Reaches m :=
  fun p hp => Nat.le_trans (Nat.add_le_add_left hmn _) (h p hp)

/-- Taking some of the bytes does not change how far the reader goes. -/
theorem Reaches.skip {r : Reader} {m n : Nat} (h : r.Reaches (m + n)) (hm : m ≤ r.rest.length) :
    (r.skip m).Reaches n := by
  intro p hp
  have hle := h p hp
  show r.position + min m r.rest.length + n ≤ p
  omega

theorem skip_demand (r : Reader) (count : Nat) : r.skip (r.demand count) = r.skip count := by
  rcases Nat.le_total count r.rest.length with h | h
  · rw [demand, Nat.min_eq_left (by omega)]
  · exact skip_of_length_le (Nat.le_min.2 ⟨h, by omega⟩) h

/-- One call gives some of the next bytes, and none only at the end of the source. -/
theorem read_eq {r : Reader} (hc : r.pace.IsPositive) (hr : r.Reaches 1) {count : Nat}
    (hcount : 0 < count) :
    ∃ n, n ≤ count ∧ n ≤ r.rest.length ∧ r.Reaches n ∧ (n = 0 → r.rest = []) ∧
      r.read count = (some (r.rest.take n), r.skip n) := by
  have hpos := capped_pos hcount (hc r.position)
  have hle := capped_le count (r.pace.most r.position)
  have hroom : r.refusesAt.map (· - r.position) ≠ some 0 := by
    intro h
    obtain ⟨p, hp, h0⟩ := Option.map_eq_some_iff.1 h
    have := hr p hp
    omega
  have hpos' := capped_pos hpos hroom
  have hle' := capped_le (capped count (r.pace.most r.position))
    (r.refusesAt.map (· - r.position))
  refine ⟨min (capped (capped count (r.pace.most r.position))
    (r.refusesAt.map (· - r.position))) r.rest.length, by omega, by omega, fun p hp => ?_,
    fun h0 => ?_, ?_⟩
  · have := hr p hp
    rw [Option.mem_def] at hp
    rw [hp, Option.map_some, capped]
    omega
  · rw [← List.length_eq_zero_iff]
    omega
  · have hnot : r.refusesAt.any (· ≤ r.position) = false := by
      rw [Option.any_eq_false]
      intro p hp
      have := hr p hp
      simp only [decide_eq_false_iff_not]
      omega
    rw [read, hnot, if_neg Bool.false_ne_true]
    simp only [List.length_take]
    rw [Reader.skip, Nat.min_assoc, Nat.min_self, List.take_eq_take_min]

/-- Where the reader refuses, a call gives nothing. -/
theorem read_of_refuses {r : Reader} {p : Nat} (hp : r.refusesAt = some p) (h : p ≤ r.position)
    (count : Nat) : r.read count = (none, r) := by
  rw [read, hp, Option.any_some, decide_eq_true h, if_pos rfl]

/-- A call that gives something leaves the next ones less to give. -/
theorem collect_succ {r : Reader} {count calls n : Nat} (acc : List (List UInt8))
    (h0 : count ≠ 0) (hn : 0 < n) (hlen : n ≤ r.rest.length)
    (hread : r.read count = (some (r.rest.take n), r.skip n)) :
    collect acc count r (calls + 1) =
      collect (r.rest.take n :: acc) (count - n) (r.skip n) calls := by
  have htaken : (r.rest.take n).length = n := by rw [List.length_take, Nat.min_eq_left hlen]
  rw [collect, if_neg h0, hread]
  cases ht : r.rest.take n with
  | nil =>
    rw [ht] at htaken
    exact absurd htaken.symm (Nat.pos_iff_ne_zero.1 hn)
  | cons b bytes =>
    rw [ht] at htaken
    dsimp only
    rw [htaken]

theorem collect_of_reaches {r : Reader} {count calls : Nat} (hc : r.pace.IsPositive)
    (hr : r.Reaches (r.demand count)) (hcalls : count ≤ calls) (acc : List (List UInt8)) :
    collect acc count r calls = (.ok (acc.reverse.flatten ++ r.rest.take count), r.skip count) := by
  induction calls generalizing r count acc with
  | zero =>
    obtain rfl := Nat.le_zero.1 hcalls
    simp [collect]
  | succ calls ih =>
    rcases Nat.eq_zero_or_pos count with rfl | hpos
    · simp [collect]
    · obtain ⟨n, hle, hlen, -, hend, hread⟩ :=
        read_eq hc (hr.mono (by rw [demand]; omega)) hpos
      rcases Nat.eq_zero_or_pos n with rfl | hn
      · have hall : r.skip count = r.skip 0 :=
          skip_of_length_le (by simp [hend rfl]) (by simp [hend rfl])
        rw [collect, if_neg (Nat.pos_iff_ne_zero.1 hpos), hread, List.take_zero]
        simp [hall, hend rfl]
      · have hrest : (r.skip n).Reaches ((r.skip n).demand (count - n)) := by
          refine (hr.mono ?_).skip hlen
          rw [demand, demand, skip_rest, List.length_drop]
          omega
        rw [collect_succ acc (Nat.pos_iff_ne_zero.1 hpos) hn hlen hread,
          ih (r := r.skip n) hc hrest (by omega), skip_skip, Nat.add_sub_cancel' hle, skip_rest,
          List.reverse_cons, List.flatten_append, List.flatten_singleton, List.append_assoc,
          ← List.take_add, Nat.add_sub_cancel' hle]

theorem collect_of_refuses {r : Reader} {count calls p : Nat} (hc : r.pace.IsPositive)
    (hp : r.refusesAt = some p) (hpos : r.position ≤ p) (hr : p < r.position + r.demand count)
    (hcalls : count ≤ calls) (acc : List (List UInt8)) :
    collect acc count r calls = (.error (), r.skip (p - r.position)) := by
  rw [demand] at hr
  induction calls generalizing r count acc with
  | zero => omega
  | succ calls ih =>
    rcases Nat.eq_or_lt_of_le hpos with heq | hlt
    · rw [collect, if_neg (by omega), read_of_refuses hp (Nat.le_of_eq heq.symm), heq,
        Nat.sub_self, skip_zero]
    · have hreach : ∀ {n}, n ≤ p - r.position → r.Reaches n := by
        intro n hn q hq
        obtain rfl := Option.some.inj (hp.symm.trans hq)
        omega
      obtain ⟨n, hle, hlen, hn', hend, hread⟩ :=
        read_eq hc (hreach (by omega)) (by omega : 0 < count)
      have hnp : r.position + n ≤ p := hn' p hp
      have hn : 0 < n := by
        refine Nat.pos_of_ne_zero fun h0 => ?_
        have := congrArg List.length (hend h0)
        rw [List.length_nil] at this
        omega
      have hat : (r.skip n).position = r.position + n :=
        congrArg (r.position + ·) (Nat.min_eq_left hlen)
      have hrest : (r.skip n).rest.length = r.rest.length - n := List.length_drop
      rw [collect_succ acc (by omega) hn hlen hread,
        ih (r := r.skip n) hc hp (by omega) (by omega) (by omega), skip_skip, hat]
      congr 2
      omega

theorem readUpTo_of_reaches {r : Reader} {count : Nat} (hc : r.pace.IsPositive)
    (hr : r.Reaches (r.demand count)) :
    r.readUpTo count = (.ok (r.rest.take count), r.skip count) := by
  rw [readUpTo, collect_of_reaches hc hr (Nat.le_refl count)]
  rfl

theorem readUpTo_of_refuses {r : Reader} {count p : Nat} (hc : r.pace.IsPositive)
    (hp : r.refusesAt = some p) (hpos : r.position ≤ p) (hr : p < r.position + r.demand count) :
    r.readUpTo count = (.error .refused, r.skip (p - r.position)) := by
  rw [readUpTo, collect_of_refuses hc hp hpos hr (Nat.le_refl count)]

theorem readExactly_of_reaches {r : Reader} {count : Nat} (hc : r.pace.IsPositive)
    (hr : r.Reaches (r.demand count)) :
    r.readExactly count =
      if count ≤ r.rest.length then (.ok (r.rest.take count), r.skip count)
      else (.error .ended, r.skip count) := by
  rw [readExactly, readUpTo_of_reaches hc hr]
  dsimp only
  rw [List.length_take]
  split_ifs <;> first | rfl | omega

theorem readExactly_of_refuses {r : Reader} {count p : Nat} (hc : r.pace.IsPositive)
    (hp : r.refusesAt = some p) (hpos : r.position ≤ p) (hr : p < r.position + r.demand count) :
    r.readExactly count = (.error .refused, r.skip (p - r.position)) := by
  rw [readExactly, readUpTo_of_refuses hc hp hpos hr]

/-- **However a willing reader gives its bytes, `readUpTo` cuts its source in two.** -/
theorem Willing.readUpTo_eq {r : Reader} (h : r.Willing) (count : Nat) :
    r.readUpTo count = (.ok (r.rest.take count), r.skip count) :=
  readUpTo_of_reaches h.isPositive (h.reaches _)

theorem Willing.readExactly_eq {r : Reader} (h : r.Willing) (count : Nat) :
    r.readExactly count =
      if count ≤ r.rest.length then (.ok (r.rest.take count), r.skip count)
      else (.error .ended, r.skip count) :=
  readExactly_of_reaches h.isPositive (h.reaches _)

/-! ## Everything -/

/-- **Reading everything gives everything**, however few bytes come at a time.  One call more sees
the end of the source, and it must not be refused either. -/
theorem readAll_of_reaches {r : Reader} (hc : r.pace.IsPositive)
    (hr : r.Reaches (r.rest.length + 1)) : r.readAll = (.ok r.rest, r.skip r.rest.length) := by
  rw [readAll, readUpTo_of_reaches hc (by rwa [demand, Nat.min_self]),
    List.take_of_length_le (Nat.le_succ _)]
  exact congrArg (Prod.mk _) (skip_of_length_le (Nat.le_succ _) (Nat.le_refl _))

theorem readAll_of_refuses {r : Reader} {p : Nat} (hc : r.pace.IsPositive)
    (hp : r.refusesAt = some p) (hpos : r.position ≤ p) (hr : p ≤ r.position + r.rest.length) :
    r.readAll = (.error .refused, r.skip (p - r.position)) :=
  readUpTo_of_refuses hc hp hpos (by rw [demand, Nat.min_self]; omega)

end Reader
end ContentOverlay
