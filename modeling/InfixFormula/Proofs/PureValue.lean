import InfixFormula.Proofs.Calls
import InfixFormula.Proofs.Outlines

/-!
# Pure values

Where every variable has an entry, and what replaces a quotient by zero hangs on nothing but the dividend
and the divisor, an evaluation is a mere calculation.  If the limit has room for the tree, it comes to the
number that `Outline.pureValue` calculates from the outline, and no policy for missing variables is ever
asked (`Setting.value_of_present`).
-/

namespace InfixFormula

/-- What the operator makes of two numbers, where `quotient` replaces the quotients by zero. -/
def Operator.pureApply (quotient : Float → Float → Float) (op : Operator) (x y : Float) : Float :=
  if Setting.isZeroDivision op y then quotient x y else op.apply x y

/-- The value over variables that all have entries. -/
def Outline.pureValue (quotient : Float → Float → Float) (lookup : Lookup) : Outline → Float
  | const x => x
  | var name => (lookup.worth name).getD 0.0
  | binary op left right =>
      op.pureApply quotient (left.pureValue quotient lookup) (right.pureValue quotient lookup)

/-- The policy answers with the function, from whatever state. -/
def DivisorPolicy.Computes {σ : Type} (divisor : DivisorPolicy σ) (quotient : Float → Float → Float) :
    Prop :=
  ∀ x y s, (divisor x y s).1 = quotient x y

/-- Taking zero for a quotient looks at no host. -/
theorem Policy.computes_zero {σ : Type} : DivisorPolicy.Computes (σ := σ) Policy.zero (fun _ _ => 0.0) :=
  fun _ _ _ => rfl

/-- Taking the dividend for a quotient looks at no host. -/
theorem Policy.computes_dividend {σ : Type} :
    DivisorPolicy.Computes (σ := σ) Policy.dividend (fun x _ => x) :=
  fun _ _ _ => rfl

namespace Setting

variable {σ : Type} {env : Setting σ} {quotient : Float → Float → Float} {Q : σ → Prop}

/-- A policy that computes its answers gives the one that the function says. -/
theorem askDivisor_of_computes (h : env.divisor.Computes quotient) (division : Tree) (x y : Float)
    (p : Progress σ) :
    env.askDivisor division x y p =
      (.ok (quotient x y), ⟨(env.divisor x y p.host).2, .zeroDivisor division :: p.records⟩) := by
  rw [askDivisor, ← h x y p.host]

/-- **A calculation.**  With entries for all variables the value is the pure value, and what the answers
for divisions keep of the host is kept. -/
theorem value_of_present (hdivisor : env.divisor.Computes quotient)
    (hkeeps : ∀ x y s, Q s → Q (env.divisor x y s).2) {t : Tree}
    (hpresent : ∀ name ∈ t.names, (env.lookup name).isSome) {level : Nat}
    (hfits : level + t.depth ≤ env.limit + 1) {p : Progress σ} (hp : Q p.host) :
    ∃ q, env.value level t p = (.ok (t.outline.pureValue quotient env.lookup), q) ∧ Q q.host := by
  induction level, t using Tree.induction_on_level env.limit generalizing p with
  | deep level t hlt =>
      have hpos := t.depth_pos
      omega
  | const level x s hle => exact ⟨p, value_const x s p hle, hp⟩
  | var level name hle =>
      obtain ⟨x, hx⟩ := Option.isSome_iff_exists.mp (hpresent name List.mem_cons_self)
      refine ⟨p, ?_, hp⟩
      rw [value_var name p hle, hx, Tree.outline, Outline.pureValue, Lookup.worth, hx]
      rfl
  | binary level op l r s hle ihl ihr =>
      rw [Tree.names_binary, List.forall_mem_append] at hpresent
      rw [Tree.depth] at hfits
      obtain ⟨q, hl, hq⟩ := ihl hpresent.1 (by omega) hp
      obtain ⟨q', hr, hq'⟩ := ihr hpresent.2 (by omega) hq
      rw [value_binary op l r s p hle, hl]
      dsimp only
      rw [hr, Tree.outline, Outline.pureValue, Operator.pureApply]
      dsimp only
      split
      · exact ⟨_, askDivisor_of_computes hdivisor _ _ _ _, hkeeps _ _ _ hq'⟩
      · exact ⟨q', rfl, hq'⟩

/-- The calculation of a whole tree. -/
theorem evaluate_of_present (hdivisor : env.divisor.Computes quotient)
    (hkeeps : ∀ x y s, Q s → Q (env.divisor x y s).2) {t : Tree}
    (hpresent : ∀ name ∈ t.names, (env.lookup name).isSome) (hfits : t.depth ≤ env.limit + 1) {host : σ}
    (hhost : Q host) :
    (env.evaluate t host).result = .ok (t.outline.pureValue quotient env.lookup) ∧
      Q (env.evaluate t host).host := by
  have hroom : 0 + t.depth ≤ env.limit + 1 := by omega
  obtain ⟨q, hvalue, hq⟩ := value_of_present (p := ⟨host, []⟩) hdivisor hkeeps hpresent hroom hhost
  rw [evaluate, hvalue]
  exact ⟨rfl, hq⟩

end Setting

namespace Tree

variable {t : Tree} {limit : Nat} {lookup : Lookup}

/-- Whoever answers for missing variables is not asked. -/
theorem evaluateByPolicies_of_present {σ : Type} {quotient : Float → Float → Float}
    {divisor : DivisorPolicy σ} (hdivisor : divisor.Computes quotient) {Q : σ → Prop}
    (hkeeps : ∀ x y s, Q s → Q (divisor x y s).2) (hfits : t.depth ≤ limit + 1)
    (hpresent : ∀ name ∈ t.names, (lookup name).isSome) (missing : MissingPolicy σ) {host : σ}
    (hhost : Q host) :
    (t.evaluateByPolicies limit lookup missing divisor host).result =
        .ok (t.outline.pureValue quotient lookup) ∧
      Q (t.evaluateByPolicies limit lookup missing divisor host).host :=
  (Setting.ofPolicies limit lookup missing divisor).evaluate_of_present hdivisor hkeeps hpresent hfits
    hhost

/-- Where no variable is missing, a strict evaluation takes zero for every quotient by zero. -/
theorem evaluateStrictly_of_present (hfits : t.depth ≤ limit + 1)
    (hpresent : ∀ name ∈ t.names, (lookup name).isSome) :
    (t.evaluateStrictly limit lookup).result = .ok (t.outline.pureValue (fun _ _ => 0.0) lookup) :=
  ((strictSetting limit lookup).evaluate_of_present (Q := fun _ => True) Policy.computes_zero
    (fun _ _ _ _ => trivial) hpresent hfits trivial).1

end Tree

end InfixFormula
