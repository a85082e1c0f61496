import InfixFormula.Proofs.Renaming

/-!
# A known name as the whole formula

A formula that is just a known name should be read as the variable of that name.  Longer names are replaced
first, so that no shorter one takes a piece out of them.  But names are measured as they are written and
found in capitals, and some small letters have two or three capitals: `ß` is as long as `s`, comes after it,
and is found as `SS`.

What stands in a name and is not the name has fewer capitals.  So a name is safe from all others unless
one that is replaced earlier, and is then no shorter as written, has fewer capitals and stands in it
(`Substitution.not_occurs_before_name`).  All that the reading makes of a safe name is its placeholder,
which has the value of the name (`Formula.parseWith_name`).
-/

namespace InfixFormula

open Text

variable {α : Type} {vars : Dict α}

namespace Substitution

/-- No name that is replaced before `k` stands in `k`, if none with fewer capitals does. -/
theorem not_occurs_before_name {before after : List (Binding α)} {b b' : Binding α}
    (hsplit : bindings vars = before ++ b :: after) (hmem : b' ∈ before)
    (hdistinct : ∀ m ∈ vars.keys, m ≠ b.name → m.uppercase ≠ b.name.uppercase)
    (hfewer : ∀ m ∈ vars.keys, isReplaced m = true → precedes m b.name = true →
      m.uppercase.length < b.name.uppercase.length → occursIn m.uppercase b.name.uppercase = false) :
    ¬ b'.name.uppercase <:+: b.name.uppercase := by
  intro hoccurs
  have hb' : b' ∈ bindings vars := hsplit ▸ List.mem_append_left _ hmem
  obtain ⟨hfind, hreplaced, -⟩ := of_mem_bindings hb'
  have hkey : b'.name ∈ vars.keys := Dict.mem_keys_of_find? hfind
  obtain ⟨hprecedes, hne⟩ := precedes_of_before hsplit hmem
  by_cases hlength : b'.name.uppercase.length < b.name.uppercase.length
  · have hnone := hfewer b'.name hkey hreplaced hprecedes hlength
    rw [occursIn_iff.mpr hoccurs] at hnone
    cases hnone
  · -- What stands in a text and is no shorter is the text.
    exact hdistinct b'.name hkey hne (hoccurs.eq_of_length_le (Nat.le_of_not_lt hlength))

end Substitution

namespace Formula

open Substitution

/-- **A known name is read as its variable.**  Suppose that `k` is neither blank nor a number, that no other
name has the same capitals, and that no name which is replaced before `k` and has fewer capitals stands in
it.  Then the formula `k` is read as the placeholder of `k`, and is worth what `k` was worth. -/
theorem parseWith_name {k : Text} {x : α} (hfind : vars.find? k = some x) (hblank : k.isBlank = false)
    (hnumber : Literal.isNumber k = false)
    (hdistinct : ∀ m ∈ vars.keys, m ≠ k → m.uppercase ≠ k.uppercase)
    (hfewer : ∀ m ∈ vars.keys, isReplaced m = true → precedes m k = true →
      m.uppercase.length < k.uppercase.length → occursIn m.uppercase k.uppercase = false)
    (limit : Nat) :
    ∃ (f : Formula) (extended : Dict α) (p : Text), parseWith limit vars k = .ok (f, extended) ∧
      f.placeholder? k = some p ∧ f.tree = .var p ∧
      ∀ (value : α → Option Float) {σ : Type} (env : Setting σ) (host : σ),
        (env.withLookup (extended.lookup value)).evaluate f.tree host =
          ⟨.ok ((value x).getD 0.0), host, []⟩ := by
  have hreplaced : isReplaced k = true := by rw [isReplaced, hblank, hnumber]; rfl
  obtain ⟨b, hb, rfl⟩ := exists_binding (Dict.mem_keys_of_find? hfind) hreplaced
  obtain rfl : b.value = x := Option.some.inj ((of_mem_bindings hb).1.symm.trans hfind)
  obtain ⟨-, -, index, hindex⟩ := of_mem_bindings hb
  obtain ⟨before, after, hsplit⟩ := List.append_of_mem hb
  have hrewritten : rewritten vars b.name = b.placeholder := by
    rw [rewritten_of_mem hb]
    exact substitute_name_of_before hsplit
      (fun b' hmem => not_occurs_before_name hsplit hmem hdistinct hfewer)
  have hread := parseWith_of_rewritten hrewritten (hindex ▸ isName_placeholder index)
    (hindex ▸ ascii_placeholder index) limit
  refine ⟨_, _, b.placeholder, hread, find?_mapping.mpr ⟨b, hb, rfl, rfl⟩, rfl, ?_⟩
  intro value σ env host
  have hvalue : (extend (bindings vars) vars).lookup value b.placeholder = some (value b.value) := by
    rw [Dict.lookup, find?_extend_placeholder hb]
    rfl
  exact Setting.evaluate_var hvalue host

/-- A name of four letters and five capitals, with one of four capitals that is replaced before it, and one
that stands in it and is shorter. -/
def shades : Dict Float := Dict.ofList [("weiß".toList, 1.0), ("grau".toList, 2.0), ("wei".toList, 3.0)]

/-- `grau` goes first and has fewer capitals, but does not occur in `WEISS`. -/
theorem parseWith_name_shades :
    shades.find? "weiß".toList = some 1.0 ∧
      (∀ m ∈ shades.keys, m ≠ "weiß".toList → m.uppercase ≠ uppercase "weiß".toList) ∧
      precedes "grau".toList "weiß".toList = true ∧
      (uppercase "grau".toList).length < (uppercase "weiß".toList).length ∧
      (∀ m ∈ shades.keys, isReplaced m = true → precedes m "weiß".toList = true →
        m.uppercase.length < (uppercase "weiß".toList).length →
          occursIn m.uppercase (uppercase "weiß".toList) = false) ∧
      ∃ (f : Formula) (extended : Dict Float) (p : Text),
        parseWith defaultLimit shades "weiß".toList = .ok (f, extended) ∧
          f.placeholder? "weiß".toList = some p ∧ f.tree = .var p ∧
          ∀ (value : Float → Option Float) {σ : Type} (env : Setting σ) (host : σ),
            (env.withLookup (extended.lookup value)).evaluate f.tree host =
              ⟨.ok ((value 1.0).getD 0.0), host, []⟩ := by
  have hkeys : shades.keys = ["weiß".toList, "grau".toList, "wei".toList] := rfl
  have hfind : shades.find? "weiß".toList = some 1.0 := rfl
  have hdistinct : ∀ m ∈ shades.keys, m ≠ "weiß".toList → m.uppercase ≠ uppercase "weiß".toList := by
    rw [hkeys]
    decide +kernel
  have hfewer : ∀ m ∈ shades.keys, isReplaced m = true → precedes m "weiß".toList = true →
      m.uppercase.length < (uppercase "weiß".toList).length →
        occursIn m.uppercase (uppercase "weiß".toList) = false := by
    rw [hkeys]
    decide +kernel
  exact ⟨hfind, hdistinct, by decide, by decide +kernel, hfewer,
    parseWith_name hfind (by decide) (by decide) hdistinct hfewer defaultLimit⟩

/-- Two names of one letter, of which one has two capitals. -/
def sharpNames : Dict Float := Dict.ofList [("s".toList, 2.0), ("ß".toList, 1.0)]

/-- Both names have one character, so they are replaced in the order of their codes. -/
theorem bindings_sharpNames :
    bindings sharpNames = [⟨"s".toList, placeholder 0, 2.0⟩, ⟨"ß".toList, placeholder 1, 1.0⟩] := by
  apply bindings_eq_of_perm (.refl _)
  show List.Pairwise _ ["s".toList, "ß".toList]
  decide

/-- **Capitals can tear a name.**  The sharp s has `SS` for its capitals, in which the name `s` is found
twice.  The text is read as the variable `v1v1`, which no one knows. -/
theorem exists_name_torn :
    sharpNames.find? "ß".toList = some 1.0 ∧ isBlank "ß".toList = false ∧
      Literal.isNumber "ß".toList = false ∧
      (∀ m ∈ sharpNames.keys, m ≠ "ß".toList → m.uppercase ≠ uppercase "ß".toList) ∧
      ∃ (f : Formula) (extended : Dict Float),
        parseWith defaultLimit sharpNames "ß".toList = .ok (f, extended) ∧
          f.placeholder? "ß".toList = some "v2".toList ∧ f.tree = .var "v1v1".toList ∧
          (f.tree.evaluateStrictly defaultLimit (extended.lookup some)).result =
            .error (.missingVariable "v1v1".toList) := by
  have hkeys : sharpNames.keys = ["s".toList, "ß".toList] := rfl
  have hdistinct : ∀ m ∈ sharpNames.keys, m ≠ "ß".toList → m.uppercase ≠ uppercase "ß".toList := by
    rw [hkeys]
    decide +kernel
  have hrewritten : rewritten sharpNames "ß".toList = "v1v1".toList := by
    rw [rewritten, bindings_sharpNames]
    decide +kernel
  have hname : IsName "v1v1".toList :=
    (Literal.rejection_eq_none_iff (by decide) (by decide)).mp (by decide)
  have hread := parseWith_of_rewritten hrewritten hname (by decide) defaultLimit
  rw [bindings_sharpNames] at hread
  exact ⟨rfl, by decide, by decide, hdistinct, _, _, hread, rfl, rfl,
    Tree.result_evaluateStrictly_missing rfl⟩

end Formula

end InfixFormula
