import InfixFormula.Proofs.Names

/-!
# What a reading does to the variables

`Formula.readOver` is the reading with known names as a program over the variables, which a session runs
over its own.  Of the program this module says what becomes of the variables: either nothing, or every
name that is replaced has its value under its placeholder, and everything else is as it was.

A name may look like a placeholder, so that the program both takes its value for some placeholder and
writes another one over it.  All values are taken before any is written: what stands under a placeholder
in the end is what its name had in the beginning.

`Substitution.Numbering vars names` describes the names that get placeholders without a word about how
they are sorted, and `Substitution.Effect` what a reading makes of them.  That every reading has this
effect or none is `Formula.readOver_effect`.
-/

namespace InfixFormula

variable {α : Type}

namespace Substitution

/-- The names that are neither blank nor numbers are listed, longer ones first, and those of one length
in the order of their characters. -/
structure Numbering (vars : Dict α) (names : List Text) : Prop where
  mem_iff : ∀ name, name ∈ names ↔
    name ∈ vars.keys ∧ name.isBlank = false ∧ Literal.isNumber name = false
  sorted : names.Pairwise (fun m n => n.length < m.length ∨ m.length = n.length ∧ m.lex n = true)

/-- The formula knows the names by the placeholders `v1`, `v2`, …, in this order, and the variables
`after` differ from `vars` in that each placeholder has the value that its name had. -/
structure Effect (vars : Dict α) (names : List Text) (f : Formula) (after : Dict α) : Prop where
  placeholder_iff : ∀ name p,
    f.placeholder? name = some p ↔ ∃ i, names[i]? = some name ∧ p = placeholder i
  nodup : ((List.range names.length).map placeholder).Nodup
  held : ∀ i name, names[i]? = some name →
    ∃ x, vars.find? name = some x ∧ after.find? (placeholder i) = some x
  kept : ∀ key, (∀ i < names.length, key ≠ placeholder i) → after.find? key = vars.find? key
  mem_keys_iff : ∀ key, key ∈ after.keys ↔ key ∈ vars.keys ∨ ∃ i < names.length, key = placeholder i

/-- The names of the bindings, in their order. -/
def names (vars : Dict α) : List Text := (bindings vars).map Binding.name

/-- Names that are in order and differ are strictly in order. -/
theorem lt_of_precedes {m n : Text} (h : precedes m n = true) (hne : m ≠ n) :
    n.length < m.length ∨ m.length = n.length ∧ m.lex n = true := by
  rcases precedes_iff.mp h with hlength | ⟨hlength, -⟩
  · exact .inl hlength
  · refine .inr ⟨hlength, ?_⟩
    by_contra hlex
    have hback : precedes n m = true := precedes_iff.mpr (.inr ⟨hlength.symm, by simpa using hlex⟩)
    exact hne (precedes_antisymm h hback)

/-- The names of the bindings are numbered in the order of their replacement. -/
theorem numbering_names (vars : Dict α) : Numbering vars (names vars) where
  mem_iff name := by
    have hreplaced : isReplaced name = true ↔ name.isBlank = false ∧ Literal.isNumber name = false := by
      simp [isReplaced]
    rw [names, List.mem_map, ← hreplaced]
    constructor
    · rintro ⟨b, hb, rfl⟩
      obtain ⟨hfind, hname, -⟩ := of_mem_bindings hb
      exact ⟨Dict.mem_keys_of_find? hfind, hname⟩
    · rintro ⟨hkey, hname⟩
      exact exists_binding hkey hname
  sorted := by
    have hordered := pairwise_ordered vars
    rw [← map_name_bindings] at hordered
    exact hordered.imp₂ (fun m n => lt_of_precedes) (nodup_names vars)

/-- The place of a binding gives its placeholder. -/
theorem placeholder_of_getElem? {vars : Dict α} {i : Nat} {b : Binding α}
    (h : (bindings vars)[i]? = some b) : b.placeholder = placeholder i := by
  simp only [bindings, List.getElem?_map, List.getElem?_zipIdx, Option.map_eq_some_iff] at h
  obtain ⟨-, ⟨e, -, rfl⟩, rfl⟩ := h
  rw [Nat.zero_add]

/-- A name in its place is a binding. -/
theorem getElem?_names {vars : Dict α} {i : Nat} {name : Text} :
    (names vars)[i]? = some name ↔
      ∃ b ∈ bindings vars, b.name = name ∧ b.placeholder = placeholder i := by
  rw [names, List.getElem?_map, Option.map_eq_some_iff]
  constructor
  · rintro ⟨b, hb, rfl⟩
    exact ⟨b, List.mem_of_getElem? hb, rfl, placeholder_of_getElem? hb⟩
  · rintro ⟨b, hb, rfl, hi⟩
    obtain ⟨j, hj⟩ := List.mem_iff_getElem?.mp hb
    obtain rfl : j = i := placeholder_injective ((placeholder_of_getElem? hj).symm.trans hi)
    exact ⟨b, hj, rfl⟩

/-- The placeholders in use are those of the places. -/
theorem exists_placeholder_iff {vars : Dict α} {key : Text} :
    (∃ b ∈ bindings vars, b.placeholder = key) ↔ ∃ i < (names vars).length, key = placeholder i := by
  have hlength : (names vars).length = (bindings vars).length := List.length_map _
  rw [hlength]
  constructor
  · rintro ⟨b, hb, rfl⟩
    obtain ⟨i, hi⟩ := List.mem_iff_getElem?.mp hb
    obtain ⟨hlt, -⟩ := List.getElem?_eq_some_iff.mp hi
    exact ⟨i, hlt, placeholder_of_getElem? hi⟩
  · rintro ⟨i, hlt, rfl⟩
    exact ⟨_, List.getElem_mem hlt, placeholder_of_getElem? (List.getElem?_eq_getElem hlt)⟩

end Substitution

open Substitution in
/-- The values are taken from the variables as they were, also under names that are written over. -/
theorem Formula.effect_of_parseWith {limit : Nat} {vars after : Dict α} {text : Text} {f : Formula}
    (h : Formula.parseWith limit vars text = .ok (f, after)) : Effect vars (names vars) f after := by
  have hafter := (Formula.parseWith_eq_ok_iff.mp h).2.2.2
  have hkept : ∀ key, (∀ i < (names vars).length, key ≠ placeholder i) →
      after.find? key = vars.find? key := by
    intro key hkey
    rw [hafter]
    apply find?_extend_of_ne
    intro b hb hp
    obtain ⟨i, hi, heq⟩ := exists_placeholder_iff.mp ⟨b, hb, hp⟩
    exact hkey i hi heq
  have hheld : ∀ i name, (names vars)[i]? = some name →
      ∃ x, vars.find? name = some x ∧ after.find? (placeholder i) = some x := by
    intro i name hname
    obtain ⟨b, hb, rfl, hi⟩ := getElem?_names.mp hname
    rw [hafter, ← hi]
    exact ⟨b.value, (of_mem_bindings hb).1, find?_extend_placeholder hb⟩
  refine ⟨?_, List.nodup_range.map (fun i j h => placeholder_injective h), hheld, hkept, ?_⟩
  · intro name p
    rw [Formula.placeholder?_eq_some_iff h]
    constructor
    · rintro ⟨b, hb, rfl, rfl⟩
      obtain ⟨-, -, i, hi⟩ := of_mem_bindings hb
      exact ⟨i, getElem?_names.mpr ⟨b, hb, rfl, hi⟩, hi⟩
    · rintro ⟨i, hname, rfl⟩
      exact getElem?_names.mp hname
  · intro key
    by_cases hkey : ∃ i < (names vars).length, key = placeholder i
    · obtain ⟨i, hi, rfl⟩ := hkey
      obtain ⟨x, -, hx⟩ := hheld i _ (List.getElem?_eq_getElem hi)
      exact ⟨fun _ => .inr ⟨i, hi, rfl⟩, fun _ => Dict.mem_keys_of_find? hx⟩
    · have hfind := hkept key (fun i hi heq => hkey ⟨i, hi, heq⟩)
      have hsame : key ∈ after.keys ↔ key ∈ vars.keys := by
        rw [← not_iff_not, ← Dict.find?_eq_none_iff, ← Dict.find?_eq_none_iff, hfind]
      rw [hsame, or_iff_left hkey]

open Substitution in
/-- **All or nothing.**  A reading that fails leaves the variables as they were.  One without variables
is a reading of the text as it is, and leaves none.  One that succeeds over some variables numbers the
names, and adds the values that they had under their placeholders. -/
theorem Formula.readOver_effect (limit : Nat) (text : Text) (vars : Dict α) :
    (∀ e after, (Formula.readOver limit text).run.run vars = (.error e, after) → after = vars) ∧
      (vars.keys = [] →
        (Formula.readOver limit text).run.run vars = (Formula.parse limit text, vars)) ∧
      ∀ f after, (Formula.readOver limit text).run.run vars = (.ok f, after) → vars.keys ≠ [] →
        ∃ names, Numbering vars names ∧ Effect vars names f after := by
  refine ⟨?_, ?_, ?_⟩
  · intro e after h
    rw [run_readOver] at h
    split at h
    · cases h
    · exact (Prod.ext_iff.mp h).2.symm
  · intro hkeys
    have hvars : vars.entries.isEmpty = true := by
      rw [List.isEmpty_iff]
      exact List.map_eq_nil_iff.mp hkeys
    exact run_readOver_of_isEmpty hvars limit text
  · intro f after h _
    rw [run_readOver] at h
    split at h
    · next g next hread =>
        obtain ⟨hf, rfl⟩ := Prod.ext_iff.mp h
        obtain rfl : g = f := Except.ok.inj hf
        exact ⟨names vars, numbering_names vars, effect_of_parseWith hread⟩
    · cases h

/-- A name that looks like the placeholder of the other one. -/
def takenName : Dict Float := Dict.ofList [("v1".toList, 3.0), ("total".toList, 10.0)]

/-- The longer name comes first, and so gets the placeholder that the shorter one looks like. -/
theorem bindings_takenName :
    Substitution.bindings takenName =
      [⟨"total".toList, "v1".toList, 10.0⟩, ⟨"v1".toList, "v2".toList, 3.0⟩] := by
  have hperm : [("total".toList, 10.0), ("v1".toList, 3.0)].Perm
      (takenName.entries.filter (fun e => Substitution.isReplaced e.1)) :=
    .swap ("v1".toList, 3.0) ("total".toList, 10.0) []
  apply Substitution.bindings_eq_of_perm hperm
  show List.Pairwise _ ["total".toList, "v1".toList]
  decide

/-- The value of `v1` is taken for `v2` before that of `total` is written over it. -/
theorem entries_extend_takenName :
    (Substitution.extend (Substitution.bindings takenName) takenName).entries =
      [("v1".toList, 10.0), ("total".toList, 10.0), ("v2".toList, 3.0)] := by
  rw [bindings_takenName]
  rfl

/-- `total - v1` is read as `v1 - v2`, and the two placeholders add a single entry. -/
theorem Formula.readOver_effect_takenName :
    ∃ f after,
      (Formula.readOver defaultLimit "total - v1".toList).run.run takenName = (.ok f, after) ∧
        takenName.keys ≠ [] ∧
        (∃ names, Substitution.Numbering takenName names ∧
          Substitution.Effect takenName names f after) ∧
        f.tree.names = ["v1".toList, "v2".toList] ∧ after.find? "total".toList = some 10.0 ∧
        after.find? "v1".toList = some 10.0 ∧ after.find? "v2".toList = some 3.0 := by
  have hrewritten : Substitution.rewritten takenName "total - v1".toList = "v1 - v2".toList := by
    rw [Substitution.rewritten, bindings_takenName]
    decide
  let space : Layout := ⟨[' '], rfl⟩
  let difference : Phrase (.operation .subtract) :=
    .operation .subtract (.leaf (.name _ (Substitution.isName_placeholder 0)) rfl) space space
      (.leaf (.name _ (Substitution.isName_placeholder 1)) rfl) (by decide) (by decide)
  let content : Phrase .content := .compound .none difference .none (by decide) (by decide)
  have hparse : Tree.parse defaultLimit (Substitution.rewritten takenName "total - v1".toList) =
      .ok (content.tree "v1 - v2".toList 0) := by
    rw [hrewritten, Tree.parse_eq_ok_iff]
    exact ⟨content, rfl, by decide, rfl⟩
  have hrun : (Formula.readOver defaultLimit "total - v1".toList).run.run takenName =
      (.ok ⟨content.tree "v1 - v2".toList 0, "total - v1".toList,
        Substitution.mapping (Substitution.bindings takenName)⟩,
        Substitution.extend (Substitution.bindings takenName) takenName) := by
    rw [Formula.run_readOver, Formula.parseWith_of_tree hparse]
  have hkeys : takenName.keys ≠ [] := List.cons_ne_nil _ _
  have heffect := (Formula.readOver_effect defaultLimit "total - v1".toList takenName).2.2
  refine ⟨_, _, hrun, hkeys, heffect _ _ hrun hkeys, by decide, ?_⟩
  rw [Dict.find?, Dict.find?, Dict.find?, entries_extend_takenName]
  exact ⟨rfl, rfl, rfl⟩

end InfixFormula
