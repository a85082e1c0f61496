import InfixFormula.Proofs.Lookup
import InfixFormula.Proofs.Names
import InfixFormula.Proofs.Replacing

/-!
# Names that a formula mentions

A name whose capitals do not occur in a formula should have no part in its value.  But a placeholder is
put into the text without a boundary, and the digits that stand behind it may make it another one.

What stands in a rewritten text outside of placeholders stood in the text in capitals, and a placeholder
with what follows it up to the next boundary comes from a name and what followed the name there
(`Traced`).  Each replacement keeps this (`Traced.replaceAll`), and so do all of them
(`traced_substitute`).  Hence the placeholder of a name that is not mentioned is a variable only where
another name with a shorter placeholder stands in front of the missing digits
(`Formula.not_mem_names_of_not_mentioned`).
-/

namespace InfixFormula

open Text

variable {α : Type}

namespace Substitution

/-- Whether the character may stand in a placeholder. -/
def isMark (c : Char) : Bool := c == 'v' || c.isDigit

theorem isMark_of_mem_placeholder {index : Nat} {c : Char} (hc : c ∈ placeholder index) :
    isMark c = true := by
  rcases mem_placeholder hc with rfl | hdigit
  · rfl
  · simp [isMark, hdigit]

/-- The text does not end in a placeholder. -/
def EndsOutside (t : Text) : Prop := ∀ c ∈ t.getLast?, isMark c = false

/-- The text does not start in a placeholder. -/
def StartsOutside (t : Text) : Prop := ∀ c ∈ t.head?, isMark c = false

end Substitution

/-- A text whose ASCII brackets make it a name had no brackets. -/
theorem Bracket.ascii_eq_self_of_isName {m : Text} (h : IsName (ascii m)) : ascii m = m := by
  rw [ascii_eq_self_iff]
  intro c hc
  have hmem := List.mem_map_of_mem (f := fun c => if c = '（' then '(' else if c = '）' then ')' else c) hc
  constructor
  · rintro rfl
    cases h.delimiter _ hmem
  · rintro rfl
    cases h.delimiter _ hmem

namespace Text.Replaced

open Substitution

variable {pattern replacement t u v : Text}

/-- A cut behind a character that the front lacks lies behind the front. -/
theorem exists_eq_append_of_last {r w u v : Text} {d : Char} (h : u ++ v = r ++ w)
    (hlast : u.getLast? = some d) (hd : d ∉ r) : ∃ y, u = r ++ y ∧ w = y ++ v ∧ y.getLast? = some d := by
  rcases List.append_eq_append_iff.mp h with ⟨y, rfl, -⟩ | ⟨y, rfl, hy⟩
  · exact absurd (List.mem_append_left _ (List.mem_of_getLast? hlast)) hd
  · refine ⟨y, rfl, hy, ?_⟩
    rw [List.getLast?_append] at hlast
    cases hy' : y.getLast? with
    | none =>
        rw [hy', Option.none_or] at hlast
        exact absurd (List.mem_of_getLast? hlast) hd
    | some e => rwa [hy', Option.some_or] at hlast

/-- Where the new text can be cut outside of replacements, the old one can. -/
theorem split (hreplacement : ∀ c ∈ replacement, isMark c = true)
    (h : Replaced pattern replacement t (u ++ v)) (hu : EndsOutside u) :
    ∃ a x, t = a ++ x ∧ a.getLast? = u.getLast? ∧ Replaced pattern replacement x v := by
  generalize hw : u ++ v = w at h
  induction h generalizing u with
  | nil =>
      obtain ⟨rfl, rfl⟩ := List.append_eq_nil_iff.mp hw
      exact ⟨[], [], rfl, rfl, .nil⟩
  | @keep c t w h ih =>
      cases u with
      | nil =>
          obtain rfl : v = c :: w := hw
          exact ⟨[], c :: t, rfl, rfl, .keep c h⟩
      | cons d u =>
          obtain ⟨rfl, htail⟩ := List.cons.inj hw
          have hu' : EndsOutside u := by
            intro e he
            exact hu e (by rw [List.getLast?_cons, he]; rfl)
          obtain ⟨a, x, rfl, hlast, hx⟩ := ih hu' htail
          exact ⟨d :: a, x, rfl, by rw [List.getLast?_cons, List.getLast?_cons, hlast], hx⟩
  | @put t w h ih =>
      cases hlast : u.getLast? with
      | none =>
          obtain rfl : u = [] := List.getLast?_eq_none_iff.mp hlast
          obtain rfl : v = replacement ++ w := hw
          exact ⟨[], pattern ++ t, rfl, rfl, .put h⟩
      | some d =>
          have hd : d ∉ replacement := by
            intro hmem
            have hmark := hreplacement d hmem
            rw [hu d hlast] at hmark
            cases hmark
          obtain ⟨y, rfl, hy, hlast'⟩ := exists_eq_append_of_last hw hlast hd
          have hy' : EndsOutside y := by
            intro e he
            rw [hlast'] at he
            exact hu e (hlast.trans he)
          obtain ⟨a, x, rfl, ha, hx⟩ := ih hy' hy.symm
          refine ⟨pattern ++ a, x, by rw [List.append_assoc], ?_, hx⟩
          rw [List.getLast?_append, ha, hlast', Option.some_or]

/-- In front of the first replacement the texts are the same. -/
theorem of_append (hreplacement : replacement.head? = some 'v')
    (h : Replaced pattern replacement t (u ++ v)) (hu : 'v' ∉ u) :
    ∃ x, t = u ++ x ∧ Replaced pattern replacement x v := by
  induction u generalizing t with
  | nil => exact ⟨t, rfl, h⟩
  | cons c u ih =>
      rw [List.mem_cons, not_or] at hu
      generalize hw : c :: u ++ v = w at h
      cases h with
      | nil => cases hw
      | @keep d t w h =>
          obtain ⟨rfl, rfl⟩ := List.cons.inj hw
          obtain ⟨x, rfl, hx⟩ := ih h hu.2
          exact ⟨x, rfl, hx⟩
      | @put t w h =>
          cases replacement with
          | nil => cases hreplacement
          | cons d r =>
              obtain rfl : d = 'v' := Option.some.inj hreplacement
              exact absurd (List.cons.inj hw).1.symm hu.1

/-- A text that starts outside of placeholders after the replacing did so before. -/
theorem startsOutside (hreplacement : replacement.head? = some 'v')
    (h : Replaced pattern replacement t u) (hu : StartsOutside u) : StartsOutside t := by
  cases h with
  | nil => exact hu
  | keep c h => exact hu
  | put h =>
      have hmark := hu 'v' (by rw [List.head?_append, hreplacement]; rfl)
      cases hmark

end Text.Replaced

namespace Substitution

/-- What the text holds outside of placeholders, `full` holds; and where a placeholder is followed by
other characters up to a boundary, `full` holds them behind the name. -/
structure Traced (full : Text) (bs : List (Binding α)) (t : Text) : Prop where
  outside : ∀ {a u b : Text}, t = a ++ (u ++ b) → EndsOutside a → 'v' ∉ u → u <:+: full
  behind : ∀ {a u b : Text}, t = a ++ ('v' :: u ++ b) → EndsOutside a → 'v' ∉ u → StartsOutside b →
    ∃ j ∈ bs, ∃ ds, 'v' :: u = j.placeholder ++ ds ∧ j.name.uppercase ++ ds <:+: full

namespace Traced

variable {full t : Text} {bs : List (Binding α)}

/-- Before any replacing, the text is traced to itself. -/
theorem start (hfull : 'v' ∉ full) : Traced full bs full where
  outside := by
    rintro a u b rfl - -
    exact ⟨a, b, by simp⟩
  behind := by
    rintro a u b rfl
    exact absurd (by simp) hfull

/-- Replacing a name keeps every placeholder traced to the text that was given. -/
theorem replaceAll (h : Traced full bs t) {j : Binding α} (hj : j ∈ bs) {index : Nat}
    (hindex : j.placeholder = placeholder index) :
    Traced full bs (Text.replaceAll j.name.uppercase j.placeholder t) := by
  have hreplaced : Replaced j.name.uppercase j.placeholder t
      (Text.replaceAll j.name.uppercase j.placeholder t) := replaced_replaceAll t
  have hmarks : ∀ c ∈ j.placeholder, isMark c = true := by
    rw [hindex]
    exact fun c hc => isMark_of_mem_placeholder hc
  have hhead : j.placeholder.head? = some 'v' := by
    rw [hindex]
    rfl
  constructor
  · intro a u b hsplit ha hu
    rw [hsplit] at hreplaced
    obtain ⟨a', x, rfl, hlast, hx⟩ := hreplaced.split hmarks ha
    obtain ⟨b', rfl, -⟩ := hx.of_append hhead hu
    refine h.outside rfl ?_ hu
    intro c hc
    exact ha c (by rwa [← hlast])
  · intro a u b hsplit ha hu hb
    rw [hsplit] at hreplaced
    obtain ⟨a', x, rfl, hlast, hx⟩ := hreplaced.split hmarks ha
    have ha' : EndsOutside a' := fun c hc => ha c (by rwa [← hlast])
    generalize hw : 'v' :: u ++ b = w at hx
    cases hx with
    | nil => cases hw
    | @keep c t w hx =>
        obtain ⟨rfl, rfl⟩ := List.cons.inj hw
        obtain ⟨b', rfl, hb'⟩ := hx.of_append hhead hu
        exact h.behind rfl ha' hu (hb'.startsOutside hhead hb)
    | @put t w hx =>
        have hends : ∃ ds, 'v' :: u = j.placeholder ++ ds ∧ w = ds ++ b := by
          rcases List.append_eq_append_iff.mp hw with ⟨ds, hds, hw⟩ | ⟨ds, hds, hw⟩
          · cases ds with
            | nil => exact ⟨[], by rw [hds, List.append_nil, List.append_nil], hw.symm⟩
            | cons c ds =>
                have hmark := hmarks c (by rw [hds]; simp)
                rw [hb c (by rw [hw]; rfl)] at hmark
                cases hmark
          · exact ⟨ds, hds, hw⟩
        obtain ⟨ds, hds, rfl⟩ := hends
        have hdigits : u = (placeholder index).tail ++ ds := by
          rw [hindex] at hds
          exact (List.cons.inj hds).2
        have hfree : 'v' ∉ j.name.uppercase ++ ds := by
          rw [List.mem_append, not_or]
          refine ⟨v_not_mem_uppercase _, fun hmem => hu ?_⟩
          rw [hdigits]
          exact List.mem_append_right _ hmem
        obtain ⟨b', rfl, -⟩ := hx.of_append hhead (fun hmem => hfree (List.mem_append_right _ hmem))
        have hsplit : a' ++ (j.name.uppercase ++ (ds ++ b')) =
            a' ++ (j.name.uppercase ++ ds ++ b') := by
          rw [List.append_assoc]
        exact ⟨j, hj, ds, hds, h.outside hsplit ha' hfree⟩

end Traced

/-- **Substituting leaves a traced text.** -/
theorem traced_substitute (vars : Dict α) (text : Text) :
    Traced text.uppercase (bindings vars) (substitute (bindings vars) text) := by
  have hfold : ∀ bs : List (Binding α), (∀ b ∈ bs, b ∈ bindings vars) → ∀ t,
      Traced text.uppercase (bindings vars) t →
        Traced text.uppercase (bindings vars)
          (bs.foldl (fun t b => Text.replaceAll b.name.uppercase b.placeholder t) t) := by
    intro bs hbs
    induction bs with
    | nil => exact fun t ht => ht
    | cons b bs ih =>
        rw [List.forall_mem_cons] at hbs
        intro t ht
        obtain ⟨-, -, index, hindex⟩ := of_mem_bindings hbs.1
        exact ih hbs.2 _ (ht.replaceAll hbs.1 hindex)
  exact hfold _ (fun _ hb => hb) _ (.start (v_not_mem_uppercase text))

theorem isMark_of_isBoundary {c : Char} (h : isBoundary c = true) : isMark c = false := by
  rw [isMark, Bool.or_eq_false_iff, beq_eq_false_iff_ne]
  constructor
  · rintro rfl
    cases h
  · by_contra hdigit
    rw [Bool.not_eq_false] at hdigit
    obtain ⟨hlayout, hdelimiter, -⟩ := of_isDigit hdigit
    rw [isBoundary, hlayout, hdelimiter] at h
    cases h

/-- Turning brackets makes no mark of what ends a token. -/
theorem isMark_of_isBoundary_ascii {c : Char}
    (h : isBoundary (if c = '（' then '(' else if c = '）' then ')' else c) = true) : isMark c = false := by
  by_cases hopen : c = '（'
  · rw [hopen]
    rfl
  · by_cases hclose : c = '）'
    · rw [hclose]
      rfl
    · rw [if_neg hopen, if_neg hclose] at h
      exact isMark_of_isBoundary h

/-- A token of the text with ASCII brackets stands outside of placeholders in the text itself. -/
theorem exists_cut_of_hasToken {t n : Text} (h : (Bracket.ascii t).HasToken n) (hn : IsName n) :
    ∃ a b, t = a ++ (n ++ b) ∧ EndsOutside a ∧ StartsOutside b := by
  obtain ⟨before, after, hsplit, hbefore, hafter⟩ := h
  rw [List.append_assoc, Bracket.ascii, List.map_eq_append_iff] at hsplit
  obtain ⟨a, x, rfl, rfl, hx⟩ := hsplit
  obtain ⟨m, b, rfl, rfl, rfl⟩ := List.map_eq_append_iff.mp hx
  refine ⟨a, b, by rw [← Bracket.ascii, Bracket.ascii_eq_self_of_isName hn], ?_, ?_⟩
  · exact fun c hc => isMark_of_isBoundary_ascii (hbefore _ (by rw [List.getLast?_map, hc]; rfl))
  · exact fun c hc => isMark_of_isBoundary_ascii (hafter _ (by rw [List.head?_map, hc]; rfl))

end Substitution

namespace Formula

open Substitution

variable {limit : Nat} {vars extended : Dict α} {text : Text} {f : Formula}

/-- A variable of the tree stands in the rewritten text outside of placeholders. -/
theorem exists_cut_of_mem_names (h : Formula.parseWith limit vars text = .ok (f, extended))
    {b : Binding α} (hb : b ∈ bindings vars) {n : Text} (hn : n ∈ f.tree.names) :
    ∃ before after, substitute (bindings vars) text = before ++ (n ++ after) ∧ EndsOutside before ∧
      StartsOutside after := by
  have hparse := (Formula.parseWith_eq_ok_iff.mp h).1
  rw [rewritten_of_mem hb] at hparse
  obtain ⟨hname, htoken⟩ := Tree.isName_of_parse hparse hn
  exact exists_cut_of_hasToken htoken hname

/-- A placeholder in the tree comes from its own name, or from a name with a shorter placeholder and the
digits that are missing behind it. -/
theorem exists_mention (h : Formula.parseWith limit vars text = .ok (f, extended)) {k p : Text}
    (hk : f.placeholder? k = some p) (hp : p ∈ f.tree.names) :
    ∃ j q ds, f.placeholder? j = some q ∧ q ++ ds = p ∧
      occursIn (j.uppercase ++ ds) text.uppercase = true := by
  obtain ⟨b, hb, rfl, rfl⟩ := (placeholder?_eq_some_iff h).mp hk
  obtain ⟨before, after, hsplit, hbefore, hafter⟩ := exists_cut_of_mem_names h hb hp
  obtain ⟨-, -, index, hindex⟩ := of_mem_bindings hb
  have hdigits : 'v' ∉ (placeholder index).tail := by
    intro hv
    cases isDigit_of_mem_tail_placeholder hv
  rw [hindex] at hsplit ⊢
  obtain ⟨j, hj, ds, hds, hmention⟩ := (traced_substitute vars text).behind hsplit hbefore hdigits hafter
  exact ⟨j.name, j.placeholder, ds, (placeholder?_eq_some_iff h).mpr ⟨j, hj, rfl, rfl⟩, hds.symm,
    occursIn_iff.mpr hmention⟩

/-- A known name without a small v that is a variable of the tree stands in the text in capitals. -/
theorem occursIn_of_mem_names (h : Formula.parseWith limit vars text = .ok (f, extended)) {k p : Text}
    (hk : f.placeholder? k = some p) (hv : 'v' ∉ k) (hmem : k ∈ f.tree.names) :
    occursIn k.uppercase text.uppercase = true := by
  obtain ⟨b, hb, rfl, rfl⟩ := (placeholder?_eq_some_iff h).mp hk
  obtain ⟨before, after, hsplit, hbefore, -⟩ := exists_cut_of_mem_names h hb hmem
  have hoccurs := (traced_substitute vars text).outside hsplit hbefore hv
  rw [occursIn_iff, uppercase_of_occurs hoccurs]
  exact hoccurs

/-- No two names share a placeholder. -/
theorem eq_of_placeholder? (h : Formula.parseWith limit vars text = .ok (f, extended)) {j k p : Text}
    (hj : f.placeholder? j = some p) (hk : f.placeholder? k = some p) : j = k := by
  obtain ⟨b, hb, rfl, hbp⟩ := (placeholder?_eq_some_iff h).mp hj
  obtain ⟨c, hc, rfl, hcp⟩ := (placeholder?_eq_some_iff h).mp hk
  rw [List.inj_on_of_nodup_map (nodup_placeholders vars) hb hc (hbp.trans hcp.symm)]

/-- The reading is the same over variables with the same names, and what is found under a name afterwards
is the same as far as the variables agree. -/
theorem parseWith_congr (h : Formula.parseWith limit vars text = .ok (f, extended)) {other : Dict α}
    (hkeys : other.keys = vars.keys) :
    ∃ extended', Formula.parseWith limit other text = .ok (f, extended') ∧
      (∀ j q, f.placeholder? j = some q → other.find? j = vars.find? j →
        extended'.find? q = extended.find? q) ∧
      ∀ name, (∀ j, f.placeholder? j ≠ some name) → other.find? name = vars.find? name →
        extended'.find? name = extended.find? name := by
  obtain ⟨hparse, htext, hmapping, rfl⟩ := Formula.parseWith_eq_ok_iff.mp h
  obtain ⟨hsubstitute, hsame⟩ := substitute_bindings_congr hkeys text
  have hrewritten : rewritten other text = rewritten vars text := by
    have hempty : other.entries.isEmpty = vars.entries.isEmpty := by
      have hlength := congrArg List.isEmpty hkeys
      rwa [Dict.keys, Dict.keys, List.isEmpty_map, List.isEmpty_map] at hlength
    rw [rewritten, rewritten, hempty, hsubstitute]
  have hother : Formula.parseWith limit other text = .ok (f, extend (bindings other) other) := by
    rw [Formula.parseWith_eq_ok_iff, hrewritten, hsame]
    exact ⟨hparse, htext, hmapping, rfl⟩
  refine ⟨extend (bindings other) other, hother, ?_, ?_⟩
  · intro j q hj hagree
    obtain ⟨b, hb, rfl, rfl⟩ := (placeholder?_eq_some_iff h).mp hj
    obtain ⟨c, hc, hname, hplaceholder⟩ := (placeholder?_eq_some_iff hother).mp hj
    have hvalue : some c.value = some b.value := by
      rw [← (of_mem_bindings hb).1, ← (of_mem_bindings hc).1, hname, hagree]
    rw [find?_extend_placeholder hb, ← hplaceholder, find?_extend_placeholder hc, hvalue]
  · intro name hname hagree
    have hnone : ∀ b ∈ bindings vars, b.placeholder ≠ name :=
      fun b hb hp => hname b.name ((placeholder?_eq_some_iff h).mpr ⟨b, hb, rfl, hp⟩)
    have hnone' : ∀ b ∈ bindings other, b.placeholder ≠ name :=
      fun b hb hp => hname b.name ((placeholder?_eq_some_iff hother).mpr ⟨b, hb, rfl, hp⟩)
    rw [find?_extend_of_ne hnone, find?_extend_of_ne hnone', hagree]

/-- Ten names, of which the first is the longest and the last has the placeholder `v10`. -/
def tenNames (x y : Float) : Dict Float :=
  Dict.ofList [("aa".toList, x), ("b".toList, x), ("c".toList, x), ("d".toList, x), ("e".toList, x),
    ("f".toList, x), ("g".toList, x), ("h".toList, x), ("i".toList, x), ("j".toList, y)]

/-- The longest name has the placeholder `v1`, and `j` as the last one `v10`. -/
theorem bindings_tenNames (x y : Float) :
    bindings (tenNames x y) =
      [⟨"aa".toList, placeholder 0, x⟩, ⟨"b".toList, placeholder 1, x⟩, ⟨"c".toList, placeholder 2, x⟩,
        ⟨"d".toList, placeholder 3, x⟩, ⟨"e".toList, placeholder 4, x⟩, ⟨"f".toList, placeholder 5, x⟩,
        ⟨"g".toList, placeholder 6, x⟩, ⟨"h".toList, placeholder 7, x⟩, ⟨"i".toList, placeholder 8, x⟩,
        ⟨"j".toList, placeholder 9, y⟩] := by
  apply bindings_eq_of_perm (.refl _)
  show List.Pairwise _ ["aa".toList, "b".toList, "c".toList, "d".toList, "e".toList, "f".toList,
    "g".toList, "h".toList, "i".toList, "j".toList]
  decide

theorem mem_bindings_tenNames (x y : Float) :
    ⟨"j".toList, placeholder 9, y⟩ ∈ bindings (tenNames x y) := by
  rw [bindings_tenNames]
  simp

theorem keys_tenNames (x y y' : Float) : (tenNames x y').keys = (tenNames x y).keys := rfl

/-- The dictionaries differ in the value of `j` only. -/
theorem find?_tenNames {name : Text} (hname : name ≠ "j".toList) (x y y' : Float) :
    (tenNames x y').find? name = (tenNames x y).find? name := by
  have hentries : ∀ z, (tenNames x z).entries =
      [("aa".toList, x), ("b".toList, x), ("c".toList, x), ("d".toList, x), ("e".toList, x),
        ("f".toList, x), ("g".toList, x), ("h".toList, x), ("i".toList, x)] ++ [("j".toList, z)] :=
    fun z => rfl
  have hlast : ∀ z : Float, [("j".toList, z)].lookup name = none := by
    intro z
    rw [List.lookup_eq_none_iff, List.forall_mem_singleton, bne_iff_ne]
    exact hname
  rw [Dict.find?, Dict.find?, hentries, hentries, List.lookup_append, List.lookup_append, hlast, hlast]

/-- **Names that are not mentioned have no part in a formula**, provided that no other name with a shorter
placeholder is mentioned with the missing digits behind it.  The placeholder of such a name is no variable
of the tree; and the value of the formula does not depend on the value of the name, unless the name has a
small v without being a placeholder. -/
theorem not_mem_names_of_not_mentioned (h : Formula.parseWith limit vars text = .ok (f, extended))
    {k p : Text} (hk : f.placeholder? k = some p)
    (hmention : occursIn k.uppercase text.uppercase = false)
    (hdigits : ∀ j q ds, f.placeholder? j = some q → q ++ ds = p → ds ≠ [] →
      occursIn (j.uppercase ++ ds) text.uppercase = false) :
    p ∉ f.tree.names ∧
      (('v' ∉ k ∨ ∃ j, f.placeholder? j = some k) → ∀ other : Dict α, other.keys = vars.keys →
        (∀ name, name ≠ k → other.find? name = vars.find? name) →
        ∃ extended', Formula.parseWith limit other text = .ok (f, extended') ∧
          ∀ (value : α → Option Float) {σ : Type} (env : Setting σ) (host : σ),
            (env.withLookup (extended'.lookup value)).evaluate f.tree host =
              (env.withLookup (extended.lookup value)).evaluate f.tree host) := by
  have hp : p ∉ f.tree.names := by
    intro hmem
    obtain ⟨j, q, ds, hj, hjoin, hoccurs⟩ := exists_mention h hk hmem
    by_cases hds : ds = []
    · rw [hds, List.append_nil] at hjoin hoccurs
      rw [hjoin] at hj
      rw [eq_of_placeholder? h hj hk, hmention] at hoccurs
      cases hoccurs
    · rw [hdigits j q ds hj hjoin hds] at hoccurs
      cases hoccurs
  refine ⟨hp, ?_⟩
  intro hshape other hkeys hagree
  obtain ⟨extended', hparse', hplaceholder, hother⟩ := parseWith_congr h hkeys
  refine ⟨extended', hparse', ?_⟩
  intro value σ env host
  apply Setting.evaluate_congr
  intro name hname
  have hfind : extended'.find? name = extended.find? name := by
    by_cases hj : ∃ j, f.placeholder? j = some name
    · obtain ⟨j, hj⟩ := hj
      refine hplaceholder j name hj (hagree j ?_)
      rintro rfl
      obtain rfl : name = p := Option.some.inj (hj.symm.trans hk)
      exact hp hname
    · refine hother name (fun j hj' => hj ⟨j, hj'⟩) (hagree name ?_)
      rintro rfl
      have hv := hshape.resolve_right hj
      rw [occursIn_of_mem_names h hk hv hname] at hmention
      cases hmention
  rw [Dict.lookup, Dict.lookup, hfind]

/-- `j` is not mentioned in `aa`, so its value does not matter. -/
theorem not_mem_names_of_tenNames :
    ∃ f extended, Formula.parseWith defaultLimit (tenNames 1.0 3.0) "aa".toList = .ok (f, extended) ∧
      f.placeholder? "j".toList = some "v10".toList ∧ "v10".toList ∉ f.tree.names ∧
      ∃ extended', Formula.parseWith defaultLimit (tenNames 1.0 7.0) "aa".toList = .ok (f, extended') ∧
        ∀ (value : Float → Option Float) {σ : Type} (env : Setting σ) (host : σ),
          (env.withLookup (extended'.lookup value)).evaluate f.tree host =
            (env.withLookup (extended.lookup value)).evaluate f.tree host := by
  have hrewritten : rewritten (tenNames 1.0 3.0) "aa".toList = "v1".toList := by
    rw [rewritten_of_mem (mem_bindings_tenNames 1.0 3.0), bindings_tenNames]
    decide
  have hread := Formula.parseWith_of_rewritten hrewritten (isName_placeholder 0) (by decide) defaultLimit
  have hk := (placeholder?_eq_some_iff hread).mpr ⟨_, mem_bindings_tenNames 1.0 3.0, rfl, rfl⟩
  have hshorter : ∀ b ∈ bindings (tenNames 1.0 3.0), b.placeholder <+: "v10".toList →
      b.placeholder ≠ "v10".toList → b.name = "aa".toList ∧ b.placeholder = "v1".toList := by
    rw [bindings_tenNames]
    decide
  have hjoined : ∀ j q ds, (Substitution.mapping (bindings (tenNames 1.0 3.0))).find? j = some q →
      q ++ ds = "v10".toList → ds ≠ [] →
        occursIn (j.uppercase ++ ds) (uppercase "aa".toList) = false := by
    intro j q ds hj hjoin hds
    obtain ⟨b, hb, rfl, rfl⟩ := find?_mapping.mp hj
    have hne : b.placeholder ≠ "v10".toList := by
      intro heq
      rw [heq] at hjoin
      exact hds (List.append_right_eq_self.mp hjoin)
    obtain ⟨hname, hplaceholder⟩ := hshorter b hb ⟨ds, hjoin⟩ hne
    rw [hplaceholder] at hjoin
    obtain rfl : ds = ['0'] := List.append_cancel_left hjoin
    rw [hname]
    decide
  obtain ⟨hnames, hvalue⟩ := not_mem_names_of_not_mentioned hread hk (by decide) hjoined
  obtain ⟨extended', hread', heval⟩ := hvalue (.inl (by decide)) (tenNames 1.0 7.0)
    (keys_tenNames 1.0 3.0 7.0) (fun name hname => find?_tenNames hname 1.0 3.0 7.0)
  exact ⟨_, _, hread, hk, hnames, extended', hread', heval⟩

/-- **A digit behind a name can make up a placeholder.**  `AA0` becomes `v10`, the placeholder of `j`,
which the text does not mention. -/
theorem exists_unmentioned_variable :
    ∃ f extended, Formula.parseWith defaultLimit (tenNames 1.0 3.0) "aa0".toList = .ok (f, extended) ∧
      f.placeholder? "j".toList = some "v10".toList ∧
      occursIn (uppercase "j".toList) (uppercase "aa0".toList) = false ∧
      "v10".toList ∈ f.tree.names ∧
      (f.tree.evaluateStrictly defaultLimit (extended.lookup some)).result = .ok 3.0 := by
  have hrewritten : rewritten (tenNames 1.0 3.0) "aa0".toList = "v10".toList := by
    rw [rewritten_of_mem (mem_bindings_tenNames 1.0 3.0), bindings_tenNames]
    decide
  have hread := Formula.parseWith_of_rewritten hrewritten (isName_placeholder 9) (by decide) defaultLimit
  have hj := mem_bindings_tenNames 1.0 3.0
  refine ⟨_, _, hread, find?_mapping.mpr ⟨_, hj, rfl, rfl⟩, by decide, List.mem_singleton_self _, ?_⟩
  have hvalue : (extend (bindings (tenNames 1.0 3.0)) (tenNames 1.0 3.0)).find? "v10".toList = some 3.0 :=
    find?_extend_placeholder hj
  exact Tree.result_evaluateStrictly_var (x := some 3.0) (by rw [Dict.lookup, hvalue]; rfl)

end Formula

end InfixFormula
