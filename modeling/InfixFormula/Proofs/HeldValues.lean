import InfixFormula.Proofs.Bindings
import InfixFormula.Proofs.Lookup
import InfixFormula.Proofs.Names

/-!
# Values that are held while formulas are read

Reading with known names puts values under placeholders, and the variables that come out are those that
the next reading starts from.  There the placeholders are names like any other and get placeholders of
their own, so the numbers are given out anew.

A reading keeps the values that were held unless one of its placeholders is a name that holds something
else (`keeps_extend_iff`).  Over a run of readings: what does not look like a placeholder is always kept;
values are kept all along just where each reading starts from settled variables; and there the formulas
read so far keep their values (`Run.keeps_iff_settled`).
-/

namespace InfixFormula

variable {α : Type}

/-- Every name that `d` holds has the same value in `e`. -/
def Dict.Keeps (d e : Dict α) : Prop := ∀ name ∈ d.keys, e.find? name = d.find? name

theorem Dict.Keeps.refl (d : Dict α) : d.Keeps d := fun _ _ => rfl

/-- What is kept twice in a row is kept. -/
theorem Dict.Keeps.trans {d e g : Dict α} (hde : d.Keeps e) (heg : e.Keeps g) : d.Keeps g := by
  intro name hname
  obtain ⟨x, hx⟩ := Dict.exists_find?_of_mem_keys hname
  have hmem : name ∈ e.keys := Dict.mem_keys_of_find? ((hde name hname).trans hx)
  exact (heg name hmem).trans (hde name hname)

namespace Substitution

/-- Where a name is one of the placeholders, it holds the value that the placeholder is to get. -/
def IsSettled (vars : Dict α) : Prop :=
  ∀ b ∈ bindings vars, ∀ x, vars.find? b.placeholder = some x → x = b.value

/-- **Held values are kept where the variables are settled**, and nowhere else. -/
theorem keeps_extend_iff {vars : Dict α} :
    vars.Keeps (extend (bindings vars) vars) ↔ IsSettled vars := by
  constructor
  · intro h b hb x hx
    have hkept := h b.placeholder (Dict.mem_keys_of_find? hx)
    rw [find?_extend_placeholder hb, hx] at hkept
    exact (Option.some.inj hkept).symm
  · intro h name hname
    rcases find?_extend_cases vars name with ⟨b, hb, rfl, hvalue⟩ | hheld
    · obtain ⟨x, hx⟩ := Dict.exists_find?_of_mem_keys hname
      rw [hvalue, hx, h b hb x hx]
    · exact hheld

/-- A name that is nobody's placeholder is kept in any case. -/
theorem find?_extend_of_forall_ne {vars : Dict α} {name : Text}
    (h : ∀ index, name ≠ placeholder index) :
    (extend (bindings vars) vars).find? name = vars.find? name := by
  apply find?_extend_of_ne
  intro b hb hp
  obtain ⟨-, -, index, hindex⟩ := of_mem_bindings hb
  exact h index (hp.symm.trans hindex)

/-- Where all values are one, nothing else can be put. -/
theorem isSettled_of_forall_eq {vars : Dict α} {x : α}
    (h : ∀ name y, vars.find? name = some y → y = x) : IsSettled vars :=
  fun _ hb y hy => (h _ y hy).trans (h _ _ (of_mem_bindings hb).1).symm

/-- Where all values are one and the same, so are those under the placeholders. -/
theorem eq_of_find?_extend {vars : Dict α} {x : α} (h : ∀ name y, vars.find? name = some y → y = x) :
    ∀ name y, (extend (bindings vars) vars).find? name = some y → y = x := by
  intro name y hy
  rcases find?_extend_cases vars name with ⟨b, hb, -, hvalue⟩ | hheld
  · rw [hvalue] at hy
    exact h b.name y ((of_mem_bindings hb).1.trans hy)
  · exact h name y (hheld.symm.trans hy)

end Substitution

/-- A reading that succeeded: the variables it started from, the formula, and the variables it left. -/
structure Reading (α : Type) where
  before : Dict α
  formula : Formula
  after : Dict α

/-- Readings in a row, each over the variables that the one before it left. -/
inductive Run : Dict α → List (Reading α) → Dict α → Prop where
  | nil (vars : Dict α) : Run vars [] vars
  | cons {limit : Nat} {text : Text} {vars next last : Dict α} {f : Formula} {rs : List (Reading α)}
      (first : Formula.parseWith limit vars text = .ok (f, next)) (rest : Run next rs last) :
      Run vars (⟨vars, f, next⟩ :: rs) last

namespace Run

variable {vars last : Dict α} {rs : List (Reading α)}

/-- What a single reading leaves. -/
theorem after_eq (h : Run vars rs last) {r : Reading α} (hr : r ∈ rs) :
    r.after = Substitution.extend (Substitution.bindings r.before) r.before := by
  induction h with
  | nil vars => cases hr
  | cons first rest ih =>
      rcases List.mem_cons.mp hr with rfl | hr
      · exact (Formula.parseWith_eq_ok_iff.mp first).2.2.2
      · exact ih hr

/-- What every reading keeps, the run keeps. -/
theorem keeps (h : Run vars rs last) (hkeeps : ∀ r ∈ rs, r.before.Keeps r.after) : vars.Keeps last := by
  induction h with
  | nil vars => exact .refl vars
  | cons first rest ih =>
      have hfirst := hkeeps _ List.mem_cons_self
      exact hfirst.trans (ih (fun r hr => hkeeps r (List.mem_cons_of_mem _ hr)))

/-- What a reading leaves is kept by the readings behind it. -/
theorem keeps_after (h : Run vars rs last) (hkeeps : ∀ r ∈ rs, r.before.Keeps r.after) :
    ∀ r ∈ rs, r.after.Keeps last := by
  induction h with
  | nil vars =>
      intro r hr
      cases hr
  | cons first rest ih =>
      have hrest := fun r hr => hkeeps r (List.mem_cons_of_mem _ hr)
      intro r hr
      rcases List.mem_cons.mp hr with rfl | hr
      · exact rest.keeps hrest
      · exact ih hrest r hr

/-- No reading writes under a name that is no placeholder. -/
theorem find?_of_forall_ne (h : Run vars rs last) {name : Text}
    (hname : ∀ index, name ≠ Substitution.placeholder index) :
    last.find? name = vars.find? name := by
  induction h with
  | nil vars => rfl
  | cons first rest ih =>
      rw [ih, (Formula.parseWith_eq_ok_iff.mp first).2.2.2,
        Substitution.find?_extend_of_forall_ne hname]

/-- A formula whose names are kept keeps its value. -/
theorem evaluate_of_keeps {r : Reading α} (hkeeps : r.after.Keeps last)
    (hheld : ∀ name ∈ r.formula.tree.names, name ∈ last.keys → name ∈ r.after.keys)
    (value : α → Option Float) {σ : Type} (env : Setting σ) (host : σ) :
    (env.withLookup (last.lookup value)).evaluate r.formula.tree host =
      (env.withLookup (r.after.lookup value)).evaluate r.formula.tree host := by
  apply Setting.evaluate_congr
  intro name hname
  have hfind : last.find? name = r.after.find? name := by
    by_cases hmem : name ∈ r.after.keys
    · exact hkeeps name hmem
    · rw [Dict.find?_eq_none_iff.mpr hmem, Dict.find?_eq_none_iff]
      exact fun hlast => hmem (hheld name hname hlast)
  rw [Dict.lookup, Dict.lookup, hfind]

/-- Values for two names. -/
def twoNames (x y : Float) : Dict Float := Dict.ofList [("abc".toList, x), ("x".toList, y)]

/-- The variables after one reading over two names. -/
def twoNamesExtended (x y : Float) : Dict Float :=
  Substitution.extend (Substitution.bindings (twoNames x y)) (twoNames x y)

theorem bindings_twoNames (x y : Float) :
    Substitution.bindings (twoNames x y) =
      [⟨"abc".toList, Substitution.placeholder 0, x⟩, ⟨"x".toList, Substitution.placeholder 1, y⟩] := by
  apply Substitution.bindings_eq_of_perm (.refl _)
  show List.Pairwise _ ["abc".toList, "x".toList]
  decide

/-- The first reading adds the two placeholders at the end. -/
theorem entries_twoNamesExtended (x y : Float) :
    (twoNamesExtended x y).entries =
      [("abc".toList, x), ("x".toList, y), ("v1".toList, x), ("v2".toList, y)] := by
  rw [twoNamesExtended, bindings_twoNames]
  rfl

/-- The placeholders of the first reading are names for the second one, and `v2` comes third. -/
theorem bindings_twoNamesExtended (x y : Float) :
    Substitution.bindings (twoNamesExtended x y) =
      [⟨"abc".toList, Substitution.placeholder 0, x⟩, ⟨"v1".toList, Substitution.placeholder 1, x⟩,
        ⟨"v2".toList, Substitution.placeholder 2, y⟩, ⟨"x".toList, Substitution.placeholder 3, y⟩] := by
  have hperm : [("abc".toList, x), ("v1".toList, x), ("v2".toList, y), ("x".toList, y)].Perm
      ((twoNamesExtended x y).entries.filter (fun e => Substitution.isReplaced e.1)) := by
    rw [entries_twoNamesExtended]
    exact .cons _ (List.perm_append_singleton _ [("v1".toList, x), ("v2".toList, y)])
  apply Substitution.bindings_eq_of_perm hperm
  show List.Pairwise _ ["abc".toList, "v1".toList, "v2".toList, "x".toList]
  decide

/-- The name `x` is read when it is the second of two, and `abc` when there are four. -/
theorem exists_twoNames (x y : Float) :
    ∃ first second : Reading Float, Run (twoNames x y) [first, second] second.after ∧
      first.before = twoNames x y ∧ first.formula.tree = .var "v2".toList ∧
      first.after = twoNamesExtended x y ∧ second.before = twoNamesExtended x y := by
  have hfirst : Substitution.rewritten (twoNames x y) "x".toList = "v2".toList := by
    rw [Substitution.rewritten, bindings_twoNames]
    rfl
  have hsecond : Substitution.rewritten (twoNamesExtended x y) "abc".toList = "v1".toList := by
    rw [Substitution.rewritten, entries_twoNamesExtended, bindings_twoNamesExtended]
    rfl
  have hreadFirst := Formula.parseWith_of_rewritten hfirst (Substitution.isName_placeholder 1) (by decide)
    defaultLimit
  have hreadSecond := Formula.parseWith_of_rewritten hsecond (Substitution.isName_placeholder 0) (by decide)
    defaultLimit
  exact ⟨_, _, .cons hreadFirst (.cons hreadSecond (.nil _)), rfl, rfl, rfl, rfl⟩

theorem find?_twoNamesExtended (x y : Float) : (twoNamesExtended x y).find? "v2".toList = some y := by
  rw [Dict.find?, entries_twoNamesExtended]
  rfl

/-- **What a run of readings keeps.**  A name that looks like no placeholder keeps its value.  Every
reading keeps all values that were held if and only if each starts from settled variables; and then every
formula evaluates over the variables at the end as it did when it had been read, provided that the readings
behind it put nothing under a name of its tree that was missing. -/
theorem keeps_iff_settled (h : Run vars rs last) :
    (∀ name, (∀ index, name ≠ Substitution.placeholder index) →
        last.find? name = vars.find? name) ∧
      ((∀ r ∈ rs, r.before.Keeps r.after) ↔ ∀ r ∈ rs, Substitution.IsSettled r.before) ∧
      ((∀ r ∈ rs, Substitution.IsSettled r.before) → ∀ r ∈ rs,
        (∀ name ∈ r.formula.tree.names, name ∈ last.keys → name ∈ r.after.keys) →
        ∀ (value : α → Option Float) {σ : Type} (env : Setting σ) (host : σ),
          (env.withLookup (last.lookup value)).evaluate r.formula.tree host =
            (env.withLookup (r.after.lookup value)).evaluate r.formula.tree host) := by
  have hiff : ∀ r ∈ rs, (r.before.Keeps r.after ↔ Substitution.IsSettled r.before) := by
    intro r hr
    rw [h.after_eq hr, Substitution.keeps_extend_iff]
  refine ⟨fun name hname => h.find?_of_forall_ne hname, forall₂_congr hiff, ?_⟩
  intro hsettled r hr hheld value σ env host
  have hkeeps : ∀ r ∈ rs, r.before.Keeps r.after := fun r hr => (hiff r hr).mpr (hsettled r hr)
  exact evaluate_of_keeps (h.keeps_after hkeeps r hr) hheld value env host

/-- Both names have one value, so writing over `v1` and `v2` changes nothing. -/
theorem keeps_iff_settled_twoNames :
    ∃ first second : Reading Float, Run (twoNames 1.0 1.0) [first, second] second.after ∧
      second.before.Keeps second.after ∧
      ∀ {σ : Type} (env : Setting σ) (host : σ),
        (env.withLookup (second.after.lookup some)).evaluate first.formula.tree host =
          (env.withLookup (first.after.lookup some)).evaluate first.formula.tree host := by
  obtain ⟨first, second, hrun, hbefore, htree, hafter, hbefore'⟩ := exists_twoNames 1.0 1.0
  have hone : ∀ name y, (twoNames 1.0 1.0).find? name = some y → y = 1.0 := by
    intro name y hy
    have hmem := Dict.find?_eq_some_iff.mp hy
    have hentries : (twoNames 1.0 1.0).entries = [("abc".toList, 1.0), ("x".toList, 1.0)] := rfl
    rw [hentries] at hmem
    simp only [List.mem_cons, Prod.mk.injEq, List.not_mem_nil, or_false] at hmem
    exact hmem.elim And.right And.right
  have hsettled : ∀ r ∈ [first, second], Substitution.IsSettled r.before := by
    intro r hr
    apply Substitution.isSettled_of_forall_eq (x := 1.0)
    rcases List.mem_pair.mp hr with rfl | rfl
    · rw [hbefore]
      exact hone
    · rw [hbefore']
      exact Substitution.eq_of_find?_extend hone
  obtain ⟨-, hkeeps, hvalue⟩ := keeps_iff_settled hrun
  refine ⟨first, second, hrun, hkeeps.mpr hsettled second (by simp), ?_⟩
  intro σ env host
  refine hvalue hsettled first (by simp) ?_ some env host
  intro name hname _
  obtain rfl : name = "v2".toList := by simpa [htree] using hname
  rw [hafter]
  exact Dict.mem_keys_of_find? (find?_twoNamesExtended 1.0 1.0)

/-- **A second reading can change what the first one means.**  The first formula is the variable `v2`,
which held the value of `x`.  The second reading takes `v1` for a name and puts its value, that of `abc`,
under `v2`. -/
theorem exists_run_losing_value :
    ∃ first second : Reading Float, Run (twoNames 5.0 1.0) [first, second] second.after ∧
      ¬ second.before.Keeps second.after ∧
      (first.formula.tree.evaluateStrictly defaultLimit (first.after.lookup some)).result = .ok 1.0 ∧
      (first.formula.tree.evaluateStrictly defaultLimit (second.after.lookup some)).result = .ok 5.0 := by
  obtain ⟨first, second, hrun, hbefore, htree, hafter, hbefore'⟩ := exists_twoNames 5.0 1.0
  have hsecond := hrun.after_eq (r := second) (by simp)
  have hheld : first.after.find? "v2".toList = some 1.0 := by
    rw [hafter]
    exact find?_twoNamesExtended 5.0 1.0
  have hlost : second.after.find? "v2".toList = some 5.0 := by
    rw [hsecond, hbefore', Substitution.find?_extend, bindings_twoNamesExtended]
    rfl
  refine ⟨first, second, hrun, ?_, ?_, ?_⟩
  · intro hkeeps
    rw [hbefore', ← hafter] at hkeeps
    have h := hkeeps _ (Dict.mem_keys_of_find? hheld)
    rw [hheld, hlost, Option.some.injEq] at h
    revert h
    decide
  · rw [htree]
    exact Tree.result_evaluateStrictly_var (x := some 1.0) (by rw [Dict.lookup, hheld]; rfl)
  · rw [htree]
    exact Tree.result_evaluateStrictly_var (x := some 5.0) (by rw [Dict.lookup, hlost]; rfl)

end Run

end InfixFormula
