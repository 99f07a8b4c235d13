import Mathlib
import ContentOverlay.Proofs.Directory
import ContentOverlay.Proofs.Toml.Document

/-!
# Saved configurations

The text of a configuration reads back as the configuration (`read_of_write`), whatever characters
its base version has.

`Call` has what is done with the file of a configuration, and `runs` does several such things one
after the other.  After a configuration has been saved, loading it, asking for the default text and
failing to save another one change nothing (`saved_loads_back`).
-/

set_option autoImplicit false

namespace ContentOverlay
namespace Config

variable {c : Config} {d d' : Directory} {path : String}

/-! ## The text -/

theorem isBareKey_baseVersionKey : Toml.IsBareKey baseVersionKey :=
  ⟨List.all_eq_true.1 (by decide +kernel), by decide⟩

theorem isBareKey_capacityKey : Toml.IsBareKey capacityKey :=
  ⟨List.all_eq_true.1 (by decide +kernel), by decide⟩

theorem settingLine_append (key : String) (v rest : List Char) :
    settingLine key v ++ rest = key.toList ++ ' ' :: '=' :: ' ' :: (v ++ '\n' :: rest) := by
  simp only [settingLine, List.append_assoc, List.cons_append, List.nil_append]

theorem write_eq_ok_iff {text : String} :
    c.write = .ok text ↔ c.capacity < writtenBound ∧
      text.toList = settingLine baseVersionKey (Toml.writeQuoted c.baseVersion) ++
        settingLine capacityKey (Nat.toDigits 10 c.capacity) := by
  rw [write]
  split
  · next hlt =>
    simp only [hlt, true_and, Except.ok.injEq]
    constructor
    · rintro rfl
      rw [String.toList_ofList]
    · intro h
      rw [← h, String.ofList_toList]
  · next hlt => simp [hlt]

/-- The two settings are all there is in the text. -/
theorem toml_read_of_write {text : String} (h : c.write = .ok text) (hpos : 0 < c.capacity) :
    Toml.read text = some
      [(baseVersionKey, .text c.baseVersion), (capacityKey, .integer c.capacity)] := by
  obtain ⟨hlt, htext⟩ := write_eq_ok_iff.1 h
  have hkey : baseVersionKey.toList = 'i' :: "nitial_base_version".toList := by decide
  have hmark : text.toList.head? ≠ some Toml.byteOrderMark := by
    rw [htext, settingLine_append, hkey]
    simp only [List.cons_append, List.head?_cons]
    decide
  have hnew : (Toml.Entries.push [] baseVersionKey (.text c.baseVersion)).get? capacityKey =
      none := rfl
  have hlines : ∀ fuel, Toml.lines ⟨[], []⟩ (fuel + 3) text.toList = some
      [(baseVersionKey, .text c.baseVersion), (capacityKey, .integer c.capacity)] := by
    intro fuel
    rw [htext, ← List.append_nil (settingLine capacityKey _), settingLine_append,
      Toml.lines_setting isBareKey_baseVersionKey (.text _) rfl, settingLine_append,
      Toml.lines_setting isBareKey_capacityKey (.integer hpos hlt) hnew]
    rfl
  obtain ⟨fuel, hfuel⟩ : ∃ fuel, text.toList.length + 1 = fuel + 3 := by
    refine ⟨text.toList.length - 2, ?_⟩
    rw [htext, settingLine_append, hkey]
    simp only [List.cons_append, List.length_append, List.length_cons]
    omega
  rw [Toml.read]
  simp only [if_neg hmark]
  rw [hfuel, hlines]

/-- **The text of a configuration that may be used reads back.** -/
theorem read_of_write (hc : c.check = .ok c) {text : String} (h : c.write = .ok text) :
    read text = .ok c := by
  obtain ⟨-, -, hpos⟩ := check_eq_ok_iff.1 hc
  rw [read, toml_read_of_write h (Nat.pos_of_ne_zero hpos), Option.bind_some]
  have hentries : ofEntries?
      [(baseVersionKey, .text c.baseVersion), (capacityKey, .integer c.capacity)] = some c := by
    have hversion : Toml.Entries.get? [(baseVersionKey, .text c.baseVersion),
        (capacityKey, .integer c.capacity)] baseVersionKey = some (.text c.baseVersion) := rfl
    have hcapacity : Toml.Entries.get? [(baseVersionKey, .text c.baseVersion),
        (capacityKey, .integer c.capacity)] capacityKey = some (.integer c.capacity) := rfl
    simp only [ofEntries?, hversion, hcapacity, baseVersionOf?, capacityOf?, Option.bind_eq_bind,
      Option.bind_some, if_pos (Int.natCast_nonneg _), Int.toNat_natCast]
    rfl
  rw [hentries]
  exact hc

/-! ## The file -/

/-- The file at a path has the text of a configuration. -/
structure Holds (d : Directory) (path : String) (c : Config) : Prop where
  has_eq : d.has path = true
  load_eq : load d path = .ok c

theorem save_eq_ok_iff :
    c.save d path = .ok d' ↔
      ∃ text, c.write = .ok text ∧ d.write path (Utf8.ofString text) = .ok d' := by
  rw [save]
  cases c.write with
  | error fault => simp
  | ok text => cases hwrite : d.write path (Utf8.ofString text) <;> simp [Except.mapError, hwrite]

theorem save_eq_error_of_le (h : writtenBound ≤ c.capacity) (d : Directory) (path : String) :
    c.save d path = .error .unwritable := by
  rw [save, write, if_neg (Nat.not_lt.2 h)]

/-- A configuration is saved at every path that can be written. -/
theorem exists_save_eq_ok (hlt : c.capacity < writtenBound) {bytes : List UInt8}
    (h : d.write path bytes = .ok d') : ∃ d', c.save d path = .ok d' := by
  obtain ⟨name, hplace, hshort, -⟩ := Directory.write_eq_ok_iff.1 h
  obtain ⟨text, htext⟩ : ∃ text, c.write = .ok text := ⟨_, if_pos hlt⟩
  exact ⟨_, save_eq_ok_iff.2
    ⟨text, htext, Directory.write_eq_ok_iff.2 ⟨name, hplace, hshort, rfl⟩⟩⟩

theorem holds_of_save (hc : c.check = .ok c) (h : c.save d path = .ok d') : Holds d' path c := by
  obtain ⟨text, htext, hwrite⟩ := save_eq_ok_iff.1 h
  refine ⟨Directory.has_of_write hwrite, ?_⟩
  rw [load, Directory.readText_of_write hwrite]
  dsimp only
  rw [read_of_write hc htext]
  rfl

/-! ## Calls -/

/-- What is done with the file of a configuration. -/
inductive Call where
  | load
  | writeDefault
  | save (c : Config)

/-- What a call answers, and the directory after it.  One that fails leaves the directory as it
was. -/
def Call.run (path : String) (d : Directory) :
    Call → Except Fault (Option Config) × Directory
  | load => ((Config.load d path).map some, d)
  | writeDefault => changing (Config.writeDefault d path)
  | save c => changing (c.save d path)
where
  /-- The answer is empty. -/
  changing : Except Fault Directory → Except Fault (Option Config) × Directory
    | .ok d' => (.ok none, d')
    | .error fault => (.error fault, d)

/-- The answers of calls one after the other, and the directory after them. -/
def runs (path : String) :
    Directory → List Call → List (Except Fault (Option Config)) × Directory
  | d, [] => ([], d)
  | d, call :: calls =>
    let first := call.run path d
    let others := runs path first.2 calls
    (first.1 :: others.1, others.2)

/-- A call that is not to change a file that is there: it loads, asks for the default text or saves
what cannot be written. -/
def Call.IsIdle : Call → Prop
  | load => True
  | writeDefault => True
  | save c => writtenBound ≤ c.capacity

/-- What such a call answers where a configuration is held. -/
def Call.answer (c : Config) : Call → Except Fault (Option Config)
  | load => .ok (some c)
  | writeDefault => .ok none
  | save _ => .error .unwritable

theorem Holds.run_eq (h : Holds d path c) {call : Call} (hcall : call.IsIdle) :
    call.run path d = (call.answer c, d) := by
  cases call with
  | load => rw [Call.run, h.load_eq]; rfl
  | writeDefault =>
    rw [Call.run, writeDefault, if_pos h.has_eq]
    rfl
  | save c' =>
    rw [Call.run, save_eq_error_of_le hcall]
    rfl

theorem Holds.runs_eq (h : Holds d path c) {calls : List Call}
    (hcalls : ∀ call ∈ calls, call.IsIdle) :
    runs path d calls = (calls.map (Call.answer c), d) := by
  induction calls with
  | nil => rfl
  | cons call calls ih =>
    have ih := ih fun other hother => hcalls other (List.mem_cons_of_mem _ hother)
    rw [runs, h.run_eq (hcalls call List.mem_cons_self)]
    dsimp only
    rw [ih, List.map_cons]

/-- **Saved configurations load back.**  A configuration that may be used is saved at every path
that can be written, unless its buffer size is too large.  Then it is loaded from there, and neither
that nor asking for the default text nor failing to save another one changes anything.  Saving one
with a buffer size that is too large fails, and changes nothing, at every path. -/
theorem saved_loads_back (hc : c.check = .ok c) (d : Directory) (path : String) :
    (c.capacity ≤ 9223372036854775807 → (∃ bytes d', d.write path bytes = .ok d') →
      ∃ d', (Call.save c).run path d = (.ok none, d') ∧
        ∀ calls : List Call, (∀ call ∈ calls, call.IsIdle) →
          runs path d' calls = (calls.map (Call.answer c), d')) ∧
    (9223372036854775807 < c.capacity →
      (Call.save c).run path d = (.error .unwritable, d)) := by
  refine ⟨?_, fun hlarge => ?_⟩
  · rintro hle ⟨bytes, d₀, hwrite⟩
    have hlt : c.capacity < writtenBound := Nat.lt_succ_of_le hle
    obtain ⟨d', hsave⟩ := exists_save_eq_ok hlt hwrite
    refine ⟨d', ?_, fun calls hcalls => (holds_of_save hc hsave).runs_eq hcalls⟩
    rw [Call.run, hsave]
    rfl
  · rw [Call.run, save_eq_error_of_le hlarge]
    rfl

/-- A base version with both quotes, a backslash, a line feed and control characters. -/
def awkward : Config := ⟨"\"\"\" '''\\\n\t\x00\x7f\x0d", 1⟩

/-- It is saved over a file that was no configuration, and loads back. -/
theorem saved_loads_back_awkward :
    ∃ d', runs "./a.toml" ⟨"<dir>", [("a.toml", [0xff])]⟩
      [.save awkward, .load, .writeDefault, .save ⟨"v", writtenBound⟩, .load] =
        ([.ok none, .ok (some awkward), .ok none, .error .unwritable, .ok (some awkward)], d') := by
  obtain ⟨d', hsave, hidle⟩ := (saved_loads_back (c := awkward) rfl
    ⟨"<dir>", [("a.toml", [0xff])]⟩ "./a.toml").1 (by decide) ⟨[], _, rfl⟩
  refine ⟨d', ?_⟩
  rw [runs, hsave]
  dsimp only
  rw [hidle _ (by simp [Call.IsIdle, writtenBound])]
  rfl

end Config
end ContentOverlay
