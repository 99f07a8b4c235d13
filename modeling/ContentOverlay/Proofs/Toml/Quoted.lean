import Mathlib
import ContentOverlay.Toml.Quoted
import ContentOverlay.Toml.Quoting

/-!
# Quoted texts read back

Every text reads back from its quoted form, whichever of the four ways it is written in
(`readQuoted_writeQuoted`).

A reader of a quoted text goes from one character or piece to the next until there is none.
`Takes item cs as rest` says that it takes `as` this way and stops before `rest`, so that `many`
comes to the same (`Takes.many_eq`).

On one line every character is a piece of its own.  Over several lines one or two quotes in a row
are a piece, and at the end of the text they go with the closing ones.  So in the inductions on the
text there are up to two quotes that have been written but not yet read; `Closes` is what is said
of the characters from them on.
-/

set_option autoImplicit false

namespace ContentOverlay
namespace Toml

/-! ## Several things in a row -/

/-- The reader takes some things one after the other, and there is no other one. -/
inductive Takes {α : Type} (item : Read α) : List Char → List α → List Char → Prop
  | done {cs : List Char} (h : item cs = none) : Takes item cs [] cs
  | step {cs mid rest : List Char} {a : α} {as : List α} (h : item cs = some (a, mid))
      (hlt : mid.length < cs.length) (t : Takes item mid as rest) : Takes item cs (a :: as) rest

theorem Takes.length_le {α : Type} {item : Read α} {cs rest : List Char} {as : List α}
    (t : Takes item cs as rest) : as.length ≤ cs.length := by
  induction t with
  | done => exact Nat.zero_le _
  | step _ hlt _ ih => exact Nat.lt_of_le_of_lt ih hlt

theorem Takes.many_eq {α : Type} {item : Read α} {cs rest : List Char} {as : List α}
    (t : Takes item cs as rest) {fuel : Nat} (hfuel : as.length ≤ fuel) (acc : List α) :
    many item acc fuel cs = (acc.reverse ++ as, rest) := by
  induction t generalizing fuel acc with
  | done h =>
    cases fuel with
    | zero => rw [many, List.append_nil]
    | succ fuel => rw [many, h, List.append_nil]
  | step h _ _ ih =>
    cases fuel with
    | zero => exact absurd hfuel (Nat.not_succ_le_zero _)
    | succ fuel =>
      rw [many, h]
      dsimp only
      rw [ih (Nat.le_of_succ_le_succ hfuel), List.reverse_cons, List.append_assoc,
        List.singleton_append]

/-! ## Characters -/

/-- A character that is not hidden stands in quotes as it is. -/
theorem isText_of_not_isHidden {c : Char} (h : isHidden c = false) (hn : c ≠ '\n') :
    isText c = true := by
  simp only [isHidden, decide_eq_false_iff_not] at h
  rw [isText, decide_eq_true_eq]
  by_cases ht : c = '\t'
  · exact .inl ht
  · exact .inr (by simpa [ht, hn] using h)

/-- The four digits of a control character read back. -/
theorem coded_control {c : Char} (h : isControl c = true) (rest : List Char) :
    coded 4 ((Hex.digits 4 c.toNat).map Char.toUpper ++ rest) = some (c, rest) := by
  have hlt : c.toNat < 128 := by
    rw [isControl, decide_eq_true_eq] at h
    omega
  have hall : ∀ n < 128, Hex.number? ((Hex.digits 4 n).map Char.toUpper) = some n ∧
      ((Hex.digits 4 n).map Char.toUpper).length = 4 := by decide
  obtain ⟨hnumber, hlength⟩ := hall c.toNat hlt
  have hscalar : isScalar c.toNat = true := by
    rw [isScalar, decide_eq_true_eq]
    omega
  rw [coded]
  simp only [List.take_left' hlength, List.drop_left' hlength, hnumber, hlength, hscalar, and_self,
    if_true, Char.ofNat_toNat]

/-- **What follows a backslash reads back**, and no line end does. -/
theorem escape_of_escapeOf {c : Char} {w : List Char} (h : escapeOf c = some w)
    (rest : List Char) :
    ∃ e w', w = '\\' :: e :: w' ∧ isBlank e = false ∧ e ≠ '\n' ∧ e ≠ '\r' ∧
      escape (e :: w' ++ rest) = some (c, rest) := by
  rw [escapeOf] at h
  split_ifs at h with h₁ h₂ h₃ h₄ h₅ h₆ h₇
  all_goals obtain rfl := Option.some.inj h
  · exact ⟨'b', [], rfl, by decide, by decide, by decide, by rw [h₁]; rfl⟩
  · exact ⟨'t', [], rfl, by decide, by decide, by decide, by rw [h₂]; rfl⟩
  · exact ⟨'n', [], rfl, by decide, by decide, by decide, by rw [h₃]; rfl⟩
  · exact ⟨'f', [], rfl, by decide, by decide, by decide, by rw [h₄]; rfl⟩
  · exact ⟨'r', [], rfl, by decide, by decide, by decide, by rw [h₅]; rfl⟩
  · exact ⟨'\\', [], rfl, by decide, by decide, by decide, by rw [h₆]; rfl⟩
  · exact ⟨'u', _, rfl, by decide, by decide, by decide, coded_control h₇ rest⟩

/-- A character that is not escaped may stand as it is, unless it is a double quote. -/
theorem isText_of_escapeOf {c : Char} (h : escapeOf c = none) :
    isText c = true ∧ c ≠ '\\' ∧ c ≠ '\n' ∧ c ≠ '\r' := by
  rw [escapeOf] at h
  split_ifs at h with h₁ h₂ h₃ h₄ h₅ h₆ h₇
  refine ⟨?_, h₆, h₃, h₅⟩
  rw [isText, decide_eq_true_eq]
  exact .inr (by simpa using h₇)

/-! ## One line -/

theorem oneLine_of_takes {char : Read Char} {quote : Char} {cs text rest : List Char}
    (t : Takes char cs text (quote :: rest)) :
    oneLine char quote cs = some (String.ofList text, rest) := by
  rw [oneLine]
  simp only [t.many_eq t.length_le [], List.reverse_nil, List.nil_append, symbol, if_true,
    Option.map_some]

theorem escapeAll_cons (c : Char) (cs : List Char) :
    escapeAll (c :: cs) =
      (if c = '"' then ['\\', '"'] else (escapeOf c).getD [c]) ++ escapeAll cs :=
  rfl

theorem takes_escapeAll (cs rest : List Char) :
    Takes basicChar (escapeAll cs ++ '"' :: rest) cs ('"' :: rest) := by
  induction cs with
  | nil =>
    refine .done ?_
    show basicChar ('"' :: rest) = none
    simp [basicChar]
  | cons c cs ih =>
    rw [escapeAll_cons, List.append_assoc]
    generalize escapeAll cs ++ '"' :: rest = tail at ih
    by_cases hq : c = '"'
    · rw [if_pos hq]
      exact .step (by rw [hq]; rfl) (by simp) ih
    · rw [if_neg hq]
      cases he : escapeOf c with
      | some w =>
        obtain ⟨e, w', rfl, -, -, -, hescape⟩ := escape_of_escapeOf he tail
        exact .step hescape (by simp; omega) ih
      | none =>
        obtain ⟨htext, hslash, -, -⟩ := isText_of_escapeOf he
        have hread : basicChar (c :: tail) = some (c, tail) := by
          rw [basicChar, if_pos ⟨htext, hq⟩]
          exact hslash
        exact .step hread (by simp) ih

theorem takes_literal {cs : List Char} (h : ∀ c ∈ cs, isHidden c = false ∧ c ≠ '\'' ∧ c ≠ '\n')
    (rest : List Char) : Takes literalChar (cs ++ '\'' :: rest) cs ('\'' :: rest) := by
  induction cs with
  | nil => exact .done (by simp [literalChar])
  | cons c cs ih =>
    obtain ⟨hhidden, hq, hn⟩ := h c List.mem_cons_self
    refine .step ?_ (by simp) (ih fun d hd => h d (List.mem_cons_of_mem _ hd))
    simp [literalChar, isText_of_not_isHidden hhidden hn, hq]

/-! ## Several lines -/

/-- Pieces and the closing quotes, taken from the front of `cs`, make up the text. -/
def Closes (piece : Read (List Char)) (quote : Char) (cs text rest : List Char) : Prop :=
  ∃ pieces mid last, Takes piece cs pieces mid ∧ closing quote mid = some (last, rest) ∧
    pieces.flatten ++ last = text

theorem manyLines_of_closes {piece : Read (List Char)} {quote : Char} {cs text rest : List Char}
    (h : Closes piece quote ((lineEnd? cs).getD cs) text rest) :
    manyLines piece quote cs = some (String.ofList text, rest) := by
  obtain ⟨pieces, mid, last, t, hlast, rfl⟩ := h
  rw [manyLines]
  simp only [t.many_eq t.length_le [], List.reverse_nil, List.nil_append, hlast, Option.map_some]

/-- One piece more. -/
theorem Closes.step {piece : Read (List Char)} {quote : Char} {cs mid text rest a : List Char}
    (hpiece : piece cs = some (a, mid)) (hlt : mid.length < cs.length)
    (h : Closes piece quote mid text rest) : Closes piece quote cs (a ++ text) rest := by
  obtain ⟨pieces, mid', last, t, hlast, rfl⟩ := h
  exact ⟨a :: pieces, mid', last, .step hpiece hlt t, hlast, by simp⟩

section Quotes

variable {piece : Read (List Char)} {quote : Char} {n : Nat}

/-- Up to two quotes before another character are a piece. -/
theorem Closes.quotes (hpiece : ∀ rest, piece (quote :: rest) = innerQuotes quote (quote :: rest))
    (hn : n ≤ 2) {d : Char} (hd : d ≠ quote) {tail text rest : List Char}
    (h : Closes piece quote (d :: tail) text rest) :
    Closes piece quote (List.replicate n quote ++ d :: tail) (List.replicate n quote ++ text)
      rest := by
  match n, hn with
  | 0, _ => exact h
  | 1, _ =>
    refine .step (a := [quote]) ?_ (by simp) h
    show piece (quote :: d :: tail) = some ([quote], d :: tail)
    rw [hpiece]
    cases tail <;> simp [innerQuotes, hd]
  | 2, _ =>
    refine .step (a := [quote, quote]) ?_ (by simp) h
    show piece (quote :: quote :: d :: tail) = some ([quote, quote], d :: tail)
    rw [hpiece]
    simp [innerQuotes, hd]

/-- At the end of the text they go with the closing ones. -/
theorem closes_quotes (hpiece : ∀ rest, piece (quote :: rest) = innerQuotes quote (quote :: rest))
    (hn : n ≤ 2) {rest : List Char} (hrest : rest.head? ≠ some quote) :
    Closes piece quote (List.replicate n quote ++ (quote :: quote :: quote :: rest))
      (List.replicate n quote) rest := by
  have hnone : ∀ more, piece (quote :: quote :: quote :: more) = none := by
    intro more
    rw [hpiece]
    simp [innerQuotes]
  have hhead : ∀ d tail, rest = d :: tail → d ≠ quote := by
    rintro d tail rfl hd
    exact hrest (congrArg some hd)
  match n, hn with
  | 0, _ =>
    refine ⟨[], _, [], .done (hnone _), ?_, rfl⟩
    show closing quote (quote :: quote :: quote :: rest) = some ([], rest)
    match rest, hhead with
    | [], _ => simp [closing]
    | [d], hhead => simp [closing, hhead d [] rfl]
    | d :: e :: tail, hhead => simp [closing, hhead d (e :: tail) rfl]
  | 1, _ =>
    refine ⟨[], _, [quote], .done (hnone _), ?_, rfl⟩
    show closing quote (quote :: quote :: quote :: quote :: rest) = some ([quote], rest)
    match rest, hhead with
    | [], _ => simp [closing]
    | d :: tail, hhead => simp [closing, hhead d tail rfl]
  | 2, _ =>
    refine ⟨[], _, [quote, quote], .done (hnone _), ?_, rfl⟩
    show closing quote (quote :: quote :: quote :: quote :: quote :: rest) =
      some ([quote, quote], rest)
    simp [closing]

end Quotes

theorem lineEnd?_cons_of_ne {c : Char} (hn : c ≠ '\n') (hr : c ≠ '\r') (rest : List Char) :
    lineEnd? (c :: rest) = none := by
  rw [lineEnd?]
  · exact fun _ h => hn (List.cons.inj h).1
  · exact fun _ h => hr (List.cons.inj h).1

/-- Whatever a character other than a double quote is written as begins with no double quote, and it
is a piece.  It is no line end, unless the character is one. -/
theorem basicPiece_of_ne {c : Char} (hq : c ≠ '"') (tail : List Char) :
    ∃ d w, (if c = '\n' then ['\n'] else (escapeOf c).getD [c]) = d :: w ∧ d ≠ '"' ∧ d ≠ '\r' ∧
      (d = '\n' → c = '\n') ∧ basicPiece (d :: (w ++ tail)) = some ([c], tail) := by
  by_cases hn : c = '\n'
  · exact ⟨'\n', [], if_pos hn, by decide, by decide, fun _ => hn, by rw [hn]; rfl⟩
  · rw [if_neg hn]
    cases he : escapeOf c with
    | some w =>
      obtain ⟨e, w', rfl, hblank, hen, her, hescape⟩ := escape_of_escapeOf he tail
      refine ⟨'\\', e :: w', rfl, by decide, by decide, fun h => absurd h (by decide), ?_⟩
      have hcont : continuation? (e :: w' ++ tail) = none := by
        rw [continuation?, skipBlanks, List.cons_append,
          List.dropWhile_cons_of_neg (by simp [hblank]), lineEnd?_cons_of_ne hen her,
          Option.map_none]
      rw [basicPiece, hcont]
      dsimp only
      rw [hescape, Option.map_some]
    | none =>
      obtain ⟨htext, hslash, -, hr⟩ := isText_of_escapeOf he
      refine ⟨c, [], rfl, hq, hr, id, ?_⟩
      rw [List.nil_append, basicPiece, lineEnd?_cons_of_ne hn hr]
      · dsimp only
        rw [basicChar, if_pos ⟨htext, hq⟩, Option.map_some]
        exact hslash
      · exact fun _ h => hq (List.cons.inj h).1
      · exact fun _ h => hslash (List.cons.inj h).1

theorem escapeLines_cons_of_ne {c : Char} (hq : c ≠ '"') (n : Nat) (cs : List Char) :
    escapeLines n (c :: cs) =
      (if c = '\n' then ['\n'] else (escapeOf c).getD [c]) ++ escapeLines 0 cs := by
  rw [escapeLines, if_neg hq]
  split <;> rfl

/-- Between three double quotes every text reads back, from up to two quotes in front of it on. -/
theorem closes_escapeLines (cs : List Char) {n : Nat} (hn : n ≤ 2) {rest : List Char}
    (hrest : rest.head? ≠ some '"') :
    Closes basicPiece '"' (List.replicate n '"' ++ (escapeLines n cs ++ '"' :: '"' :: '"' :: rest))
      (List.replicate n '"' ++ cs) rest := by
  have hpiece : ∀ more, basicPiece ('"' :: more) = innerQuotes '"' ('"' :: more) := fun _ => rfl
  induction cs generalizing n with
  | nil =>
    rw [List.append_nil]
    exact closes_quotes hpiece hn hrest
  | cons c cs ih =>
    by_cases hq : c = '"'
    · subst hq
      rw [escapeLines, if_pos rfl]
      split
      · next hlt =>
        have h := ih (n := n + 1) hlt
        rw [List.replicate_succ', List.append_assoc, List.append_assoc] at h
        exact h
      · -- the third quote in a row is escaped
        generalize hmid : escapeLines 0 cs ++ '"' :: '"' :: '"' :: rest = mid
        have h := ih (n := 0) (Nat.zero_le 2)
        rw [hmid] at h
        have hread : basicPiece ('\\' :: '"' :: mid) = some (['"'], mid) := rfl
        have h := Closes.step hread (by simp) h
        rw [List.cons_append, List.cons_append, hmid]
        exact h.quotes hpiece hn (by decide)
    · obtain ⟨d, w, hw, hd, -, -, hread⟩ :=
        basicPiece_of_ne hq (escapeLines 0 cs ++ '"' :: '"' :: '"' :: rest)
      rw [escapeLines_cons_of_ne hq, hw, List.append_assoc]
      have h := Closes.step hread (by simp) (ih (n := 0) (Nat.zero_le 2))
      exact h.quotes hpiece hn hd

/-- Between three single quotes a text without long runs of them reads back. -/
theorem closes_literal {cs : List Char} (h : ∀ c ∈ cs, isHidden c = false) {n : Nat}
    (hn : longestRun '\'' n cs ≤ 2) {rest : List Char} (hrest : rest.head? ≠ some '\'') :
    Closes literalPiece '\'' (List.replicate n '\'' ++ (cs ++ '\'' :: '\'' :: '\'' :: rest))
      (List.replicate n '\'' ++ cs) rest := by
  have hpiece : ∀ more, literalPiece ('\'' :: more) = innerQuotes '\'' ('\'' :: more) :=
    fun _ => rfl
  induction cs generalizing n with
  | nil =>
    rw [List.append_nil]
    exact closes_quotes hpiece hn hrest
  | cons c cs ih =>
    have ih := fun {n} => ih (fun d hd => h d (List.mem_cons_of_mem _ hd)) (n := n)
    rw [longestRun] at hn
    by_cases hq : c = '\''
    · subst hq
      rw [if_pos rfl] at hn
      have h := ih hn
      rw [List.replicate_succ', List.append_assoc, List.append_assoc] at h
      exact h
    · rw [if_neg hq] at hn
      have hread : ∀ tail, literalPiece (c :: tail) = some ([c], tail) := by
        intro tail
        by_cases hnl : c = '\n'
        · rw [hnl]
          rfl
        · have hhidden := h c List.mem_cons_self
          have hr : c ≠ '\r' := by
            rintro rfl
            exact absurd hhidden (by decide)
          rw [literalPiece, lineEnd?_cons_of_ne hnl hr]
          · dsimp only
            rw [literalChar, if_pos ⟨isText_of_not_isHidden hhidden hnl, hq⟩, Option.map_some]
          · exact fun _ h => hq (List.cons.inj h).1
      have h := Closes.step (hread _) (by simp)
        (ih (n := 0) (Nat.le_trans (Nat.le_max_right _ _) hn))
      exact h.quotes hpiece (Nat.le_trans (Nat.le_max_left _ _) hn) hq

/-- No line end stands at the beginning of a text without line feeds. -/
theorem lineEnd?_escapeLines {cs : List Char} (h : '\n' ∉ cs) (rest : List Char) :
    lineEnd? (escapeLines 0 cs ++ '"' :: rest) = none := by
  cases cs with
  | nil => exact lineEnd?_cons_of_ne (by decide) (by decide) rest
  | cons c cs =>
    by_cases hq : c = '"'
    · rw [hq]
      exact lineEnd?_cons_of_ne (by decide) (by decide) _
    · obtain ⟨d, w, hw, -, hr, hn, -⟩ := basicPiece_of_ne hq []
      rw [escapeLines_cons_of_ne hq, hw]
      exact lineEnd?_cons_of_ne (fun hd => h (hn hd ▸ List.mem_cons_self)) hr _

theorem lineEnd?_literal {cs : List Char} (hhidden : ∀ c ∈ cs, isHidden c = false) (h : '\n' ∉ cs)
    (rest : List Char) : lineEnd? (cs ++ '\'' :: rest) = none := by
  cases cs with
  | nil => exact lineEnd?_cons_of_ne (by decide) (by decide) rest
  | cons c cs =>
    refine lineEnd?_cons_of_ne (fun hn => h (hn ▸ List.mem_cons_self)) ?_ _
    rintro rfl
    exact absurd (hhidden '\r' List.mem_cons_self) (by decide)

/-- The line end in front of a text of several lines is not counted. -/
theorem lineEnd?_getD {cs body : List Char} (h : '\n' ∉ cs → lineEnd? body = none) :
    (lineEnd? ((if cs.contains '\n' then ['\n'] else []) ++ body)).getD
      ((if cs.contains '\n' then ['\n'] else []) ++ body) = body := by
  by_cases hn : '\n' ∈ cs
  · rw [if_pos (List.contains_iff_mem.2 hn)]
    rfl
  · rw [if_neg (fun hc => hn (List.contains_iff_mem.1 hc)), List.nil_append, h hn, Option.getD_none]

/-! ## All four ways -/

/-- The literal ways are taken for texts that they show as they are. -/
theorem suits_of_quotingOf {cs : List Char} (hb : quotingOf cs ≠ .basic)
    (hl : quotingOf cs ≠ .basicLines) : (quotingOf cs).suits cs = true := by
  rw [quotingOf] at hb hl ⊢
  cases hf : [Quoting.basic, .literal, .basicLines, .literalLines].find? (·.suits cs) with
  | some q => exact List.find?_some hf
  | none =>
    rw [hf] at hb hl
    dsimp only at hb hl
    split_ifs at hb hl
    · exact absurd rfl hl
    · exact absurd rfl hb

/-- No double quote stands at the beginning of what is between double quotes on one line. -/
theorem head?_escapeAll (cs : List Char) : (escapeAll cs).head? ≠ some '"' := by
  cases cs with
  | nil => simp [escapeAll]
  | cons c cs =>
    rw [escapeAll_cons]
    split
    · simp
    · next hq =>
      cases he : escapeOf c with
      | some w =>
        obtain ⟨e, w', rfl, -⟩ := escape_of_escapeOf he []
        simp
      | none => simpa using hq

section Ways

variable {rest : List Char}

theorem readQuoted_basic (cs : List Char) (hrest : rest.head? ≠ some '"') :
    readQuoted ('"' :: (escapeAll cs ++ '"' :: rest)) = some (String.ofList cs, rest) := by
  have hone := oneLine_of_takes (takes_escapeAll cs rest)
  have hhead := head?_escapeAll cs
  generalize escapeAll cs = body at hone hhead ⊢
  -- two quotes in a row at the beginning are the whole text
  have hne : ∀ more, body ++ '"' :: rest ≠ '"' :: '"' :: more := by
    intro more hm
    cases body with
    | nil => exact hrest (congrArg List.head? (List.cons.inj hm).2)
    | cons c body => exact hhead (congrArg some (List.cons.inj hm).1)
  rw [readQuoted]
  · exact hone
  · exact fun more hm => hne more (List.cons.inj hm).2
  · exact fun more hm => absurd (List.cons.inj hm).1 (by decide)

theorem readQuoted_literal {cs : List Char}
    (h : ∀ c ∈ cs, isHidden c = false ∧ c ≠ '\'' ∧ c ≠ '\n') (hrest : rest.head? ≠ some '\'') :
    readQuoted ('\'' :: (cs ++ '\'' :: rest)) = some (String.ofList cs, rest) := by
  have hne : ∀ more, cs ++ '\'' :: rest ≠ '\'' :: '\'' :: more := by
    intro more hm
    cases cs with
    | nil => exact hrest (congrArg List.head? (List.cons.inj hm).2)
    | cons c cs => exact (h c List.mem_cons_self).2.1 (List.cons.inj hm).1
  rw [readQuoted]
  · exact oneLine_of_takes (takes_literal h rest)
  · exact fun more hm => absurd (List.cons.inj hm).1 (by decide)
  · exact fun more hm => hne more (List.cons.inj hm).2

theorem readQuoted_basicLines (cs : List Char) (hrest : rest.head? ≠ some '"') :
    readQuoted ('"' :: '"' :: '"' :: ((if cs.contains '\n' then ['\n'] else []) ++
      (escapeLines 0 cs ++ '"' :: '"' :: '"' :: rest))) = some (String.ofList cs, rest) := by
  have hcloses := closes_escapeLines cs (Nat.zero_le 2) hrest
  rw [← lineEnd?_getD fun hn => lineEnd?_escapeLines hn ('"' :: '"' :: rest)] at hcloses
  rw [readQuoted]
  exact manyLines_of_closes hcloses

theorem readQuoted_literalLines {cs : List Char} (h : ∀ c ∈ cs, isHidden c = false)
    (hrun : longestRun '\'' 0 cs ≤ 2) (hrest : rest.head? ≠ some '\'') :
    readQuoted ('\'' :: '\'' :: '\'' :: ((if cs.contains '\n' then ['\n'] else []) ++
      (cs ++ '\'' :: '\'' :: '\'' :: rest))) = some (String.ofList cs, rest) := by
  have hcloses := closes_literal h hrun hrest
  rw [List.replicate_zero, List.nil_append, List.nil_append,
    ← lineEnd?_getD fun hn => lineEnd?_literal h hn ('\'' :: '\'' :: rest)] at hcloses
  rw [readQuoted]
  exact manyLines_of_closes hcloses

end Ways

/-- **Every text reads back from its quoted form**, whatever follows, unless that is another
quote. -/
theorem readQuoted_writeQuoted (t : String) {rest : List Char}
    (hd : rest.head? ≠ some '"') (hs : rest.head? ≠ some '\'') :
    readQuoted (writeQuoted t ++ rest) = some (t, rest) := by
  have hback : String.ofList t.toList = t := String.ofList_toList
  have hsuits := @suits_of_quotingOf t.toList
  rw [writeQuoted]
  generalize t.toList = cs at hback hsuits
  rw [← hback]
  cases hq : quotingOf cs with
  | basic =>
    simpa [Quoting.quotes, Quoting.body] using readQuoted_basic cs hd
  | literal =>
    have hlit := hsuits (by rw [hq]; decide) (by rw [hq]; decide)
    rw [hq] at hlit
    simp only [Quoting.suits, Bool.and_eq_true, Bool.not_eq_true', List.any_eq_false,
      List.contains_eq_mem, decide_eq_false_iff_not, Bool.not_eq_true] at hlit
    obtain ⟨⟨hhidden, hquote⟩, hline⟩ := hlit
    have hall : ∀ c ∈ cs, isHidden c = false ∧ c ≠ '\'' ∧ c ≠ '\n' := fun c hc =>
      ⟨hhidden c hc, fun h => hquote (h ▸ hc), fun h => hline (h ▸ hc)⟩
    simpa [Quoting.quotes, Quoting.body] using readQuoted_literal hall hs
  | basicLines =>
    simpa [Quoting.quotes, Quoting.body] using readQuoted_basicLines cs hd
  | literalLines =>
    have hlit := hsuits (by rw [hq]; decide) (by rw [hq]; decide)
    rw [hq] at hlit
    simp only [Quoting.suits, Bool.and_eq_true, Bool.not_eq_true', List.any_eq_false,
      decide_eq_true_eq, Bool.not_eq_true] at hlit
    simpa [Quoting.quotes, Quoting.body] using readQuoted_literalLines hlit.1 hlit.2 hs

end Toml
end ContentOverlay
