import InfixFormula.Bracket
import InfixFormula.Text.Blank
import InfixFormula.Text.Uppercase

/-!
# Which characters are capitals

A character of a text in capitals is one that has no capital and stood there before, or the ASCII capital
of an ASCII letter, or a capital of the table (`mem_capitals`).  So no small ASCII letter comes out of
writing in capitals, and a digit or a bracket comes out only where it stood before
(`eq_of_mem_capitals`).  Capitals have no further capitals (`capitals_of_mem_capitals`), and neither has
layout (`capitals_layout`).

What this needs of the table is checked run against run: the capitals of a run lie outside every other
run, or between its letters.
-/

namespace InfixFormula.Text

namespace Uppercase

/-- Whether the code is that of a capital of the run. -/
def CapitalRun.reaches (r : CapitalRun) (code : Nat) : Bool :=
  r.capital ≤ code && code ≤ r.capital + (r.last - r.first) && (code - r.capital) % r.step == 0

/-- Whether the code is that of a capital of the table. -/
def isTableCapital (code : Nat) : Bool :=
  capitalSequences.any (fun e => e.2.contains code) || capitalRuns.any (fun r => r.reaches code)

/-- The run of one letter. -/
def CapitalRun.single (letter capital : Nat) : CapitalRun := ⟨letter, letter, 1, capital⟩

/-- Whether the capitals of the run `r` lie outside the run `q`, or between its letters. -/
def CapitalRun.apart (r q : CapitalRun) : Bool :=
  Nat.blt (r.capital + (r.last - r.first)) q.first || Nat.blt q.last r.capital
    || (Nat.beq q.step 2 && (Nat.beq r.step 2 || Nat.beq r.first r.last)
      && Nat.beq ((r.capital + q.first) % 2) 1)

/-- The small letters of ASCII. -/
def CapitalRun.ascii : CapitalRun := ⟨0x61, 0x7A, 1, 0x41⟩

/-- Whether all numbers from `low` to `high` are codes of characters. -/
def areCodes (low high : Nat) : Bool :=
  Nat.blt high 0xD800 || (Nat.blt 0xDFFF low && Nat.blt high 0x110000)

/-- The letters of a run have their capitals in it. -/
theorem CapitalRun.reaches_of_covers {r : CapitalRun} {code : Nat} (h : r.covers code = true) :
    r.reaches (r.capital + (code - r.first)) = true := by
  simp only [covers, Bool.and_eq_true, decide_eq_true_eq, beq_iff_eq] at h
  simp only [reaches, Bool.and_eq_true, decide_eq_true_eq, beq_iff_eq, Nat.add_sub_cancel_left]
  omega

theorem CapitalRun.reaches_single (letter capital : Nat) :
    (single letter capital).reaches capital = true := by
  simp [single, reaches]

/-- A run whose capitals lie apart from another one gives no letter of that one. -/
theorem CapitalRun.covers_of_apart {r q : CapitalRun} {code : Nat} (h : r.apart q = true)
    (hr : r.reaches code = true) : q.covers code = false := by
  obtain ⟨first, last, step, capital⟩ := r
  obtain ⟨first', last', step', capital'⟩ := q
  simp only [apart, Bool.or_eq_true, Bool.and_eq_true, Nat.blt_eq, Nat.beq_eq] at h
  simp only [reaches, Bool.and_eq_true, decide_eq_true_eq, beq_iff_eq] at hr
  rw [Bool.eq_false_iff]
  intro hq
  simp only [covers, Bool.and_eq_true, decide_eq_true_eq, beq_iff_eq] at hq
  rcases h with (h | h) | ⟨⟨rfl, rfl | rfl⟩, h⟩ <;> omega

/-- All codes of such a range are characters. -/
theorem isValidChar_of_areCodes {low high code : Nat} (h : areCodes low high = true)
    (hlow : low ≤ code) (hhigh : code ≤ high) : code.isValidChar := by
  simp only [areCodes, Bool.or_eq_true, Bool.and_eq_true, Nat.blt_eq] at h
  unfold Nat.isValidChar
  omega

/-- No capital of a run is a letter of a run or of ASCII, and all of them are characters. -/
theorem runs_apart_runs : capitalRuns.all (fun r =>
    capitalRuns.all (fun q => r.apart q) && r.apart .ascii
      && areCodes r.capital (r.capital + (r.last - r.first))) = true := by
  decide +kernel

/-- No capital of a run is a letter whose capital form is a sequence. -/
theorem runs_apart_sequences : capitalRuns.all (fun r =>
    capitalSequences.all (fun e => r.apart (.single e.1 e.1))) = true := by
  decide +kernel

/-- No member of a sequence is a letter of a run or of ASCII, and no sequence is empty. -/
theorem sequences_apart_runs : capitalSequences.all (fun e => !e.2.isEmpty && e.2.all (fun code =>
    capitalRuns.all (fun q => CapitalRun.apart (.single code code) q)
      && CapitalRun.apart (.single code code) .ascii && areCodes code code)) = true := by
  decide +kernel

/-- No member of a sequence has a sequence for its capital form. -/
theorem sequences_apart_sequences : capitalSequences.all (fun e => e.2.all (fun code =>
    capitalSequences.all (fun e' => CapitalRun.apart (.single code code) (.single e'.1 e'.1)))) =
      true := by
  decide +kernel

/-- A capital of the table is a character, and is no small letter, of ASCII or of the table. -/
theorem not_small_of_isTableCapital {code : Nat} (h : isTableCapital code = true) :
    code.isValidChar ∧ CapitalRun.ascii.covers code = false ∧
      (∀ q ∈ capitalRuns, q.covers code = false) ∧ ∀ e ∈ capitalSequences, e.1 ≠ code := by
  have hsingle : ∀ letter, (CapitalRun.single letter letter).covers code = false →
      letter ≠ code := by
    rintro letter hcovers rfl
    simp [CapitalRun.single, CapitalRun.covers] at hcovers
  simp only [isTableCapital, Bool.or_eq_true, List.any_eq_true] at h
  rcases h with ⟨e, he, hcode⟩ | ⟨r, hr, hreaches⟩
  · have hcode : code ∈ e.2 := by simpa using hcode
    have hruns := List.all_eq_true.mp sequences_apart_runs e he
    have hsequences := List.all_eq_true.mp sequences_apart_sequences e he
    simp only [Bool.and_eq_true, List.all_eq_true] at hruns hsequences
    obtain ⟨⟨hruns, hascii⟩, hcodes⟩ := hruns.2 code hcode
    have hreaches := CapitalRun.reaches_single code code
    exact ⟨isValidChar_of_areCodes hcodes (Nat.le_refl _) (Nat.le_refl _),
      CapitalRun.covers_of_apart hascii hreaches,
      fun q hq => CapitalRun.covers_of_apart (hruns q hq) hreaches,
      fun e' he' => hsingle _ (CapitalRun.covers_of_apart (hsequences code hcode e' he') hreaches)⟩
  · have hruns := List.all_eq_true.mp runs_apart_runs r hr
    have hsequences := List.all_eq_true.mp runs_apart_sequences r hr
    simp only [Bool.and_eq_true, List.all_eq_true] at hruns hsequences
    obtain ⟨⟨hruns, hascii⟩, hcodes⟩ := hruns
    have hrange := hreaches
    simp only [CapitalRun.reaches, Bool.and_eq_true, decide_eq_true_eq] at hrange
    exact ⟨isValidChar_of_areCodes hcodes hrange.1.1 hrange.1.2,
      CapitalRun.covers_of_apart hascii hreaches,
      fun q hq => CapitalRun.covers_of_apart (hruns q hq) hreaches,
      fun e' he' => hsingle _ (CapitalRun.covers_of_apart (hsequences e' he') hreaches)⟩

/-- Beyond ASCII, a character either stays as it is or comes out as capitals of the table. -/
theorem mem_capitalsBeyondAscii {c d : Char} (hd : d ∈ capitalsBeyondAscii c) :
    capitalsBeyondAscii c = [c] ∧ d = c ∨ isTableCapital d.toNat = true := by
  have hchar : ∀ {code : Nat}, isTableCapital code = true →
      isTableCapital (Char.ofNat code).toNat = true := by
    intro code hcode
    have hvalid := (not_small_of_isTableCapital hcode).1
    have hcode' : (Char.ofNat code).toNat = code := by
      rw [Char.ofNat, dif_pos hvalid]
      rfl
    rwa [hcode']
  cases hsequence : capitalSequences.lookup c.toNat with
  | some codes =>
      simp only [capitalsBeyondAscii, hsequence, List.mem_map] at hd
      obtain ⟨code, hcode, rfl⟩ := hd
      obtain ⟨before, after, hsplit, -⟩ := List.lookup_eq_some_iff.mp hsequence
      have hmem : (c.toNat, codes) ∈ capitalSequences := by simp [hsplit]
      refine .inr (hchar ?_)
      rw [isTableCapital, Bool.or_eq_true, List.any_eq_true]
      exact .inl ⟨_, hmem, by simpa using hcode⟩
  | none =>
      cases hrun : capitalRuns.find? (fun r => r.covers c.toNat) with
      | some r =>
          simp only [capitalsBeyondAscii, hsequence, hrun, List.mem_singleton] at hd
          have hcovers : r.covers c.toNat = true := by simpa using List.find?_some hrun
          rw [hd]
          refine .inr (hchar ?_)
          rw [isTableCapital, Bool.or_eq_true, List.any_eq_true, List.any_eq_true]
          exact .inr ⟨r, List.mem_of_find?_eq_some hrun, CapitalRun.reaches_of_covers hcovers⟩
      | none =>
          simp only [capitalsBeyondAscii, hsequence, hrun, List.mem_singleton] at hd ⊢
          exact .inl ⟨trivial, hd⟩

/-- The capitals of the table have no further capitals. -/
theorem capitalsBeyondAscii_of_isTableCapital {d : Char} (h : isTableCapital d.toNat = true) :
    capitalsBeyondAscii d = [d] := by
  obtain ⟨-, -, hruns, hsequences⟩ := not_small_of_isTableCapital h
  have hlookup : capitalSequences.lookup d.toNat = none := by
    rw [List.lookup_eq_none_iff]
    intro e he
    simpa using (hsequences e he).symm
  have hfind : capitalRuns.find? (fun r => r.covers d.toNat) = none := by
    rw [List.find?_eq_none]
    intro r hr
    simp [hruns r hr]
  simp only [capitalsBeyondAscii, hlookup, hfind]

theorem capitalsBeyondAscii_ne_nil (c : Char) : capitalsBeyondAscii c ≠ [] := by
  unfold capitalsBeyondAscii
  dsimp only
  split
  · next codes hsequence =>
      obtain ⟨before, after, hsplit, -⟩ := List.lookup_eq_some_iff.mp hsequence
      have hmem : (c.toNat, codes) ∈ capitalSequences := by simp [hsplit]
      have hcodes := List.all_eq_true.mp sequences_apart_runs _ hmem
      rw [Bool.and_eq_true] at hcodes
      simpa using hcodes.1
  · split <;> exact List.cons_ne_nil _ _

/-- What the capitals of ASCII are like, character by character. -/
theorem toUpper_ascii : ∀ code < 128,
    (Char.ofNat code).toUpper.toNat < 128 ∧
      (Char.ofNat code).toUpper.toUpper = (Char.ofNat code).toUpper ∧
        ((Char.ofNat code).toUpper.isUpper = false →
          (Char.ofNat code).toUpper = Char.ofNat code) := by
  decide

theorem toUpper_of_covers_ascii : ∀ code < 128, CapitalRun.ascii.covers code = false →
    (Char.ofNat code).toUpper = Char.ofNat code := by
  decide

end Uppercase

open Uppercase

/-- Every character has a capital form. -/
theorem capitals_ne_nil (c : Char) : capitals c ≠ [] := by
  unfold capitals
  split
  · exact List.cons_ne_nil _ _
  · exact capitalsBeyondAscii_ne_nil c

/-- What comes out of writing a character in capitals. -/
theorem mem_capitals {c d : Char} (hd : d ∈ capitals c) :
    capitals c = [c] ∧ d = c ∨ d = c.toUpper ∧ c.toNat < 128 ∨ isTableCapital d.toNat = true := by
  by_cases hc : c.toNat < 128
  · rw [capitals_of_lt hc, List.mem_singleton] at hd
    exact .inr (.inl ⟨hd, hc⟩)
  · rw [capitals, if_neg hc] at hd ⊢
    rcases mem_capitalsBeyondAscii hd with h | h
    · exact .inl h
    · exact .inr (.inr h)

/-- A character that is a capital neither of ASCII nor of the table comes out only where it stood
before. -/
theorem eq_of_mem_capitals {c d : Char} (hd : d ∈ capitals c) (hupper : d.isUpper = false)
    (htable : isTableCapital d.toNat = false) : capitals c = [c] ∧ d = c := by
  rcases mem_capitals hd with h | ⟨rfl, hc⟩ | h
  · exact h
  · have hsame := (toUpper_ascii c.toNat hc).2.2
    rw [Char.ofNat_toNat] at hsame
    rw [capitals_of_lt hc, hsame hupper]
    exact ⟨rfl, rfl⟩
  · rw [htable] at h
    cases h

/-- Capitals have no further capitals. -/
theorem capitals_of_mem_capitals {c d : Char} (hd : d ∈ capitals c) : capitals d = [d] := by
  rcases mem_capitals hd with ⟨h, rfl⟩ | ⟨rfl, hc⟩ | h
  · exact h
  · have hascii := toUpper_ascii c.toNat hc
    rw [Char.ofNat_toNat] at hascii
    rw [capitals_of_lt hascii.1, hascii.2.1]
  · by_cases hd : d.toNat < 128
    · have hsame := toUpper_of_covers_ascii d.toNat hd (not_small_of_isTableCapital h).2.1
      rw [Char.ofNat_toNat] at hsame
      rw [capitals_of_lt hd, hsame]
    · rw [capitals, if_neg hd, capitalsBeyondAscii_of_isTableCapital h]

/-- The small v never comes out. -/
theorem v_not_mem_capitals (c : Char) : 'v' ∉ capitals c := by
  intro hv
  obtain ⟨hsame, rfl⟩ := eq_of_mem_capitals hv rfl (by decide +kernel)
  exact absurd hsame (by decide)

/-- A digit comes out only where it stood before. -/
theorem eq_of_isDigit_of_mem_capitals {c d : Char} (hd : d ∈ capitals c) (hdigit : d.isDigit = true) :
    capitals c = [c] ∧ d = c := by
  have hcodes : ∀ code < 58, 48 ≤ code →
      (Char.ofNat code).isUpper = false ∧ isTableCapital code = false := by
    decide +kernel
  simp only [Char.isDigit, Bool.and_eq_true, decide_eq_true_eq, ge_iff_le,
    UInt32.le_iff_toNat_le] at hdigit
  have hlow : 48 ≤ d.toNat := hdigit.1
  have hhigh : d.toNat ≤ 57 := hdigit.2
  obtain ⟨hupper, htable⟩ := hcodes d.toNat (by omega) hlow
  rw [Char.ofNat_toNat] at hupper
  exact eq_of_mem_capitals hd hupper htable

/-- Layout has no capitals. -/
theorem capitals_layout {c : Char} (hc : isLayout c = true) : capitals c = [c] := by
  have hcodes : ∀ code ∈ [0x9, 0xA, 0xB, 0xC, 0xD, 0x20, 0x85, 0xA0, 0x1680, 0x2000, 0x2001, 0x2002,
      0x2003, 0x2004, 0x2005, 0x2006, 0x2007, 0x2008, 0x2009, 0x200A, 0x2028, 0x2029, 0x202F, 0x205F,
      0x3000], capitals (Char.ofNat code) = [Char.ofNat code] := by
    decide +kernel
  have hcode := hcodes c.toNat
  rw [Char.ofNat_toNat] at hcode
  apply hcode
  simp only [isLayout, Bool.or_eq_true, Bool.and_eq_true, decide_eq_true_eq, beq_iff_eq] at hc
  simp only [List.mem_cons, List.not_mem_nil, or_false]
  omega

/-- Digits have no capitals. -/
theorem capitals_of_isDigit {c : Char} (h : c.isDigit = true) : capitals c = [c] := by
  have hcodes : ∀ code < 58, 48 ≤ code → capitals (Char.ofNat code) = [Char.ofNat code] := by
    decide
  simp only [Char.isDigit, Bool.and_eq_true, decide_eq_true_eq, ge_iff_le,
    UInt32.le_iff_toNat_le] at h
  have hlow : 48 ≤ c.toNat := h.1
  have hhigh : c.toNat ≤ 57 := h.2
  have hcode := hcodes c.toNat (by omega) hlow
  rwa [Char.ofNat_toNat] at hcode

/-- A text stays as it is if each of its characters does. -/
theorem uppercase_eq_self {t : Text} (h : ∀ c ∈ t, capitals c = [c]) : t.uppercase = t := by
  induction t with
  | nil => rfl
  | cons c t ih =>
      rw [List.forall_mem_cons] at h
      rw [uppercase_cons, h.1, ih h.2, List.singleton_append]

/-- Placeholders start with a character that no text in capitals has. -/
theorem v_not_mem_uppercase (t : Text) : 'v' ∉ t.uppercase := by
  intro hv
  obtain ⟨c, -, hc⟩ := List.mem_flatMap.mp hv
  exact v_not_mem_capitals c hc

/-- Capitals do not vanish. -/
theorem uppercase_ne_nil {t : Text} (h : t ≠ []) : t.uppercase ≠ [] := by
  cases t with
  | nil => exact absurd rfl h
  | cons c t => simp [capitals_ne_nil]

/-- A text that is part of a text in capitals is in capitals. -/
theorem uppercase_of_occurs {t u : Text} (h : t <:+: u.uppercase) : t.uppercase = t := by
  have hchars : ∀ c ∈ t, capitals c = [c] := by
    intro c hc
    obtain ⟨d, -, hd⟩ := List.mem_flatMap.mp (h.subset hc)
    exact capitals_of_mem_capitals hd
  exact uppercase_eq_self hchars

end InfixFormula.Text

namespace InfixFormula.Bracket

open Text

theorem ascii_append (t u : Text) : ascii (t ++ u) = ascii t ++ ascii u := List.map_append

/-- What has no full-width bracket is not changed. -/
theorem ascii_eq_self_iff {t : Text} : ascii t = t ↔ ∀ c ∈ t, c ≠ '（' ∧ c ≠ '）' := by
  induction t with
  | nil => simp [ascii]
  | cons c t ih =>
      have hcons : ascii (c :: t) = ascii [c] ++ ascii t := ascii_append [c] t
      have hone : ascii [c] = [c] ↔ c ≠ '（' ∧ c ≠ '）' := by
        simp only [ascii, List.map_cons, List.map_nil]
        grind
      rw [List.forall_mem_cons, ← ih, ← hone, hcons]
      constructor
      · intro h
        exact List.append_inj h (by simp)
      · rintro ⟨hc, ht⟩
        rw [hc, ht]
        rfl

/-- No bracket is layout. -/
theorem ascii_of_isBlank {w : Text} (hw : w.isBlank = true) : ascii w = w := by
  rw [ascii_eq_self_iff]
  intro c hc
  have hlayout : isLayout c = true := List.all_eq_true.mp hw c hc
  constructor <;>
    · rintro rfl
      cases hlayout

/-- The brackets of both styles. -/
def eitherStyle : Text := ['(', ')', '（', '）']

/-- A bracket of either style comes out only where it stood before. -/
theorem eq_of_bracket_mem_capitals {c d : Char} (hd : d ∈ capitals c) (hbracket : d ∈ eitherStyle) :
    d = c := by
  simp only [eitherStyle, List.mem_cons, List.not_mem_nil, or_false] at hbracket
  rcases hbracket with rfl | rfl | rfl | rfl <;>
    exact (eq_of_mem_capitals hd rfl (by decide +kernel)).2

/-- Writing in capitals puts no bracket of either style into the text. -/
theorem mem_of_mem_uppercase {c : Char} (hbracket : c ∈ eitherStyle) {t : Text}
    (hc : c ∈ t.uppercase) : c ∈ t := by
  obtain ⟨d, hd, hcd⟩ := List.mem_flatMap.mp hc
  rwa [eq_of_bracket_mem_capitals hcd hbracket]

/-- Full-width brackets are turned into ASCII ones before writing in capitals or after it. -/
theorem ascii_uppercase (t : Text) : ascii t.uppercase = (ascii t).uppercase := by
  induction t with
  | nil => rfl
  | cons c t ih =>
      have hrest : ascii (capitals c) = uppercase (ascii [c]) := by
        by_cases hopen : c = '（'
        · subst hopen
          decide +kernel
        · by_cases hclose : c = '）'
          · subst hclose
            decide +kernel
          · have hsame : ∀ d ∈ capitals c, d ≠ '（' ∧ d ≠ '）' := by
              intro d hd
              constructor
              · rintro rfl
                exact hopen (eq_of_bracket_mem_capitals hd (by decide)).symm
              · rintro rfl
                exact hclose (eq_of_bracket_mem_capitals hd (by decide)).symm
            have hmap : ascii (capitals c) = (capitals c).map id :=
              List.map_congr_left (fun d hd => by simp [hsame d hd])
            rw [hmap, List.map_id]
            simp [ascii, hopen, hclose]
      calc ascii (uppercase (c :: t)) = ascii (capitals c) ++ ascii (uppercase t) :=
            ascii_append _ _
        _ = uppercase (ascii [c]) ++ uppercase (ascii t) := by rw [hrest, ih]
        _ = uppercase (ascii (c :: t)) := by rw [← uppercase_append, ← ascii_append]; rfl

end InfixFormula.Bracket
