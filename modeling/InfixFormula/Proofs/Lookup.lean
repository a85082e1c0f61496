import InfixFormula.Evaluation

/-!
# What an evaluation looks up

An evaluation looks up the names in the tree and no others, so it comes out the same over variables that
agree on those (`evaluate_congr`).

Two evaluations are compared step by step: their results are equal and their progress is related.  That
both meet the limit keeps this (`agree_of_limit`), and so does what goes on in agreement (`agree_match`).
-/

namespace InfixFormula

/-- The variables as an evaluation sees them, where `value` tells which of them are without a value. -/
def Dict.lookup {α : Type} (value : α → Option Float) (d : Dict α) : Lookup :=
  fun name => (d.find? name).map value

namespace Setting

variable {σ : Type}

/-- The same result, with progress that is related. -/
def Agree (Q : Progress σ → Progress σ → Prop) (o o' : Except Error Float × Progress σ) : Prop :=
  o'.1 = o.1 ∧ Q o.2 o'.2

/-- What goes on in agreement behind results that agree ends in agreement. -/
theorem agree_match {Q : Progress σ → Progress σ → Prop} {o o' : Except Error Float × Progress σ}
    {k k' : Float → Progress σ → Except Error Float × Progress σ} :
    Agree Q o o' → (∀ (x : Float) (p p' : Progress σ), Q p p' → Agree Q (k x p) (k' x p')) →
      Agree Q (match o with | (.error e, p) => (.error e, p) | (.ok x, p) => k x p)
        (match o' with | (.error e, p) => (.error e, p) | (.ok x, p) => k' x p) := by
  obtain ⟨result, p⟩ := o
  obtain ⟨result', p'⟩ := o'
  rintro ⟨hresult, hprogress⟩ hk
  dsimp only at hresult hprogress
  subst hresult
  cases result' with
  | error e => exact ⟨rfl, hprogress⟩
  | ok x => exact hk x p p' hprogress

/-- The same setting over other variables. -/
def withLookup (env : Setting σ) (lookup : Lookup) : Setting σ := { env with lookup := lookup }

/-- Where the limit is met, it is met by both. -/
theorem agree_of_limit {env : Setting σ} {lookup lookup' : Lookup} {t u : Tree} {depth : Nat}
    {Q : Progress σ → Progress σ → Prop} {p p' : Progress σ} (hp : Q p p')
    (h : (∀ l, depth ≤ (env.withLookup l).limit) → Agree Q ((env.withLookup lookup).value depth t p)
      ((env.withLookup lookup').value depth u p')) :
    Agree Q ((env.withLookup lookup).value depth t p) ((env.withLookup lookup').value depth u p') := by
  by_cases hdepth : env.limit < depth
  · have htooDeep : ∀ (l : Lookup) (u : Tree) (q : Progress σ),
        (env.withLookup l).value depth u q = (.error (.tooDeep env.limit .evaluation), q) :=
      fun l u q => value_of_lt u q hdepth
    rw [htooDeep, htooDeep]
    exact ⟨rfl, hp⟩
  · exact h (fun l => Nat.le_of_not_lt hdepth)

/-- A tree is evaluated alike over look-ups that agree on its names. -/
theorem value_congr {env : Setting σ} {lookup lookup' : Lookup} {t : Tree}
    (h : ∀ name ∈ t.names, lookup' name = lookup name) (depth : Nat) (p : Progress σ) :
    (env.withLookup lookup').value depth t p = (env.withLookup lookup).value depth t p := by
  induction t generalizing depth p with
  | const x s => rfl
  | var name =>
      have hname : (env.withLookup lookup').lookup name = (env.withLookup lookup).lookup name :=
        h name (by simp)
      rw [value, value, hname]
      rfl
  | binary op l r s ihl ihr =>
      rw [Tree.names_binary] at h
      have hl := ihl (fun name hname => h name (List.mem_append_left _ hname))
      have hr := ihr (fun name hname => h name (List.mem_append_right _ hname))
      simp only [value, hl, hr]
      rfl

/-- **Only the names in the tree are looked up.** -/
theorem evaluate_congr {env : Setting σ} {lookup lookup' : Lookup} {t : Tree}
    (h : ∀ name ∈ t.names, lookup' name = lookup name) (host : σ) :
    (env.withLookup lookup').evaluate t host = (env.withLookup lookup).evaluate t host := by
  rw [evaluate, evaluate, value_congr h]

/-- A variable with an entry has the value of the entry, and nothing is asked. -/
theorem evaluate_var {env : Setting σ} {name : Text} {x : Option Float} (h : env.lookup name = some x)
    (host : σ) : env.evaluate (.var name) host = ⟨.ok (x.getD 0.0), host, []⟩ := by
  rw [evaluate, value_var name _ (Nat.zero_le _), h]
  rfl

end Setting

/-- A variable with an entry has the value of the entry, or zero. -/
theorem Tree.result_evaluateStrictly_var {limit : Nat} {lookup : Lookup} {name : Text} {x : Option Float}
    (h : lookup name = some x) :
    ((Tree.var name).evaluateStrictly limit lookup).result = .ok (x.getD 0.0) := by
  rw [evaluateStrictly, Setting.evaluate_var h]

/-- A constant is its own value. -/
theorem Tree.result_evaluateStrictly_const (limit : Nat) (lookup : Lookup) (x : Float) (s : Source) :
    ((Tree.const x s).evaluateStrictly limit lookup).result = .ok x := by
  rw [evaluateStrictly, Setting.evaluate, Setting.value_const _ _ _ (Nat.zero_le _)]

/-- A variable without an entry is an error. -/
theorem Tree.result_evaluateStrictly_missing {limit : Nat} {lookup : Lookup} {name : Text}
    (h : lookup name = none) :
    ((Tree.var name).evaluateStrictly limit lookup).result = .error (.missingVariable name) := by
  rw [evaluateStrictly, Setting.evaluate, Setting.value_var _ _ (Nat.zero_le _)]
  dsimp only
  rw [h]
  rfl

end InfixFormula
