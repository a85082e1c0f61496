import InfixFormula.Proofs.Bindings

/-!
# The order of the variables

Variables are held in some order, which is nobody's choice.  Two orders of the same variables are two
lists of entries of which one is a permutation of the other, that is, two dictionaries that hold the same
(`Dict.perm_iff`).

Reading with known names does not see the order.  There is one way to put the names in the order of their
replacement, since no two names are alike in length and characters, so the bindings are the same
(`Substitution.bindings_eq_of_entries_perm`).  What the values are written over differs in its order alone,
and each placeholder is written once, so the variables afterwards are again the same in some order
(`Formula.parseWith_of_perm`).
-/

namespace InfixFormula

variable {α : Type}

namespace Dict

/-- Two orders of the same entries hold the same. -/
theorem find?_eq_of_perm {d e : Dict α} (h : d.entries.Perm e.entries) (name : Text) :
    e.find? name = d.find? name := by
  ext x
  rw [Dict.find?_eq_some_iff, Dict.find?_eq_some_iff, h.mem_iff]

theorem nodup_entries (d : Dict α) : d.entries.Nodup := d.nodup.of_map Prod.fst

/-- Dictionaries that hold the same have the same entries in some order. -/
theorem perm_iff {d e : Dict α} :
    d.entries.Perm e.entries ↔ ∀ name, e.find? name = d.find? name := by
  constructor
  · exact find?_eq_of_perm
  · intro h
    rw [List.perm_ext_iff_of_nodup d.nodup_entries e.nodup_entries]
    rintro ⟨name, x⟩
    rw [← find?_eq_some_iff, ← find?_eq_some_iff, h]

end Dict

namespace Substitution

variable {vars other : Dict α}

/-- The names come in the same order, however the variables are held. -/
theorem bindings_eq_of_entries_perm (h : vars.entries.Perm other.entries) :
    bindings other = bindings vars := by
  have hsorted : (ordered vars).Perm (other.entries.filter (fun e => isReplaced e.1)) :=
    (List.mergeSort_perm _ _).trans (h.filter _)
  rw [bindings, bindings, ordered_eq_of_perm hsorted (pairwise_ordered vars)]

/-- The same values are written under the same placeholders. -/
theorem extend_perm (h : vars.entries.Perm other.entries) :
    (extend (bindings vars) vars).entries.Perm (extend (bindings other) other).entries := by
  rw [Dict.perm_iff]
  intro name
  rw [find?_extend, find?_extend, bindings_eq_of_entries_perm h, Dict.find?_eq_of_perm h]

end Substitution

/-- Two outcomes are the same error, or the same formula with the same variables in some order. -/
def Formula.SameButOrder : Except Error (Formula × Dict α) → Except Error (Formula × Dict α) → Prop
  | .ok (f, next), .ok (f', next') => f' = f ∧ next.entries.Perm next'.entries
  | .error e, .error e' => e' = e
  | _, _ => False

open Substitution in
/-- **The order of the variables does not show.**  Over two orders of the same variables, a text is read
with the same outcome: the same formula, with the same tree and the same placeholders, or the same error.
The variables afterwards are the same in some order, and the same records are left. -/
theorem Formula.parseWith_of_perm {vars other : Dict α} (h : vars.entries.Perm other.entries)
    (limit : Nat) (text : Text) :
    SameButOrder (parseWith limit vars text) (parseWith limit other text) ∧
      parseWithRecords limit other text = parseWithRecords limit vars text := by
  have hempty : other.entries.isEmpty = vars.entries.isEmpty := h.symm.isEmpty_eq
  have hbindings := bindings_eq_of_entries_perm h
  have hextend := extend_perm h
  rw [hbindings] at hextend
  rw [parseWithRecords, parseWithRecords, parseWith, parseWith, hempty, hbindings]
  refine ⟨?_, rfl⟩
  by_cases hvars : vars.entries.isEmpty = true
  · rw [if_pos hvars, if_pos hvars]
    cases Formula.parse limit text with
    | error e => exact rfl
    | ok f => exact ⟨rfl, h⟩
  · rw [if_neg hvars, if_neg hvars]
    dsimp only
    cases Tree.parse limit (substitute (bindings vars) text) with
    | error e => exact rfl
    | ok tree => exact ⟨rfl, hextend⟩

/-- Four variables, two with names of one length and one that holds a placeholder. -/
def costs : Dict Float :=
  Dict.ofList [("cpc".toList, 0.25), ("clicks".toList, 400.0), ("ctr".toList, 0.5), ("v1".toList, 3.0)]

/-- The same variables, the other way round. -/
def costsReversed : Dict Float :=
  Dict.ofList [("v1".toList, 3.0), ("ctr".toList, 0.5), ("clicks".toList, 400.0), ("cpc".toList, 0.25)]

/-- Three names, one of which looks like a placeholder of the others. -/
theorem Formula.parseWith_of_perm_costs :
    costs.entries.Perm costsReversed.entries ∧ costs.entries ≠ costsReversed.entries ∧
      SameButOrder (parseWith 9 costs "CPC*clicks+v1".toList)
        (parseWith 9 costsReversed "CPC*clicks+v1".toList) ∧
      parseWithRecords 9 costsReversed "CPC*clicks+v1".toList =
        parseWithRecords 9 costs "CPC*clicks+v1".toList := by
  have hreversed : costsReversed.entries = costs.entries.reverse := rfl
  have hperm : costs.entries.Perm costsReversed.entries := by
    rw [hreversed]
    exact (List.reverse_perm _).symm
  have hne : costs.entries ≠ costsReversed.entries := by
    intro h
    have hkeys : costs.keys = costsReversed.keys := congrArg (List.map Prod.fst) h
    exact absurd hkeys (by decide)
  exact ⟨hperm, hne, Formula.parseWith_of_perm hperm 9 "CPC*clicks+v1".toList⟩

end InfixFormula
