import InfixFormula.Proofs.Calls
import InfixFormula.Proofs.Depth

/-!
# The limit of levels

The limit does nothing to an evaluation but stop it.  Two evaluations that differ in nothing but the limit
go together until the smaller limit is met, and from there on the other one goes forward
(`Setting.continues_value`).  What an evaluation does to the host is made of answers alone, so whatever
every answer keeps is kept by the whole of it (`Setting.Forward.value`); for a host that notes the questions
this says that none is ever taken back.

With policies the limit is exact.  A tree has a value just under those limits that leave room for its
levels, and meets all others (`Tree.isGuarded_evaluations`).
-/

namespace InfixFormula

namespace Setting

variable {σ : Type}

/-- The same setting with another limit. -/
def withLimit (env : Setting σ) (limit : Nat) : Setting σ := { env with limit := limit }

/-- The relation holds between the states of the host before and after every answer, and however many
answers lie between two states. -/
structure Forward (env : Setting σ) (R : σ → σ → Prop) : Prop where
  refl : ∀ s, R s s
  trans : ∀ {s s' s''}, R s s' → R s' s'' → R s s''
  missing : ∀ name s, R s (env.missing name s).2
  divisor : ∀ x y s, R s (env.divisor x y s).2

namespace Forward

variable {env : Setting σ} {R : σ → σ → Prop}

/-- What all answers preserve does not depend on the limit. -/
theorem withLimit (h : env.Forward R) (limit : Nat) : (env.withLimit limit).Forward R :=
  ⟨h.refl, h.trans, h.missing, h.divisor⟩

/-- What goes forward behind a result goes forward from before the result. -/
theorem match_result (h : env.Forward R) {s : σ} {o : Except Error Float × Progress σ}
    {k : Float → Progress σ → Except Error Float × Progress σ} :
    R s o.2.host → (∀ x q, R q.host (k x q).2.host) →
      R s (match o with
        | (.error e, q) => (.error e, q)
        | (.ok x, q) => k x q : Except Error Float × Progress σ).2.host := by
  obtain ⟨result, q⟩ := o
  intro ho hk
  cases result with
  | error e => exact ho
  | ok x => exact h.trans ho (hk x q)

/-- An operation on finished operands goes forward. -/
theorem operation (h : env.Forward R) (op : Operator) (division : Tree) (x y : Float)
    (p : Progress σ) :
    R p.host (if isZeroDivision op y then env.askDivisor division x y p
      else (.ok (op.apply x y), p)).2.host := by
  split
  · exact h.divisor x y p.host
  · exact h.refl p.host

/-- **Evaluations go forward.** -/
theorem value (h : env.Forward R) (t : Tree) (depth : Nat) (p : Progress σ) :
    R p.host (env.value depth t p).2.host := by
  induction depth, t using Tree.induction_on_level env.limit generalizing p with
  | deep depth t hlt =>
      rw [value_of_lt t p hlt]
      exact h.refl p.host
  | const depth x s hle =>
      rw [value_const x s p hle]
      exact h.refl p.host
  | var depth name hle =>
      rw [value_var name p hle]
      cases env.lookup name with
      | some x => exact h.refl p.host
      | none => exact h.missing name p.host
  | binary depth op l r s hle ihl ihr =>
      rw [value_binary op l r s p hle]
      refine h.match_result (ihl p) (fun x q => ?_)
      refine h.match_result (ihr q) (fun y q => ?_)
      exact h.operation op (.binary op l r s) x y q

end Forward

variable {env : Setting σ} {R : σ → σ → Prop}

/-- The first outcome is that the limit was met on the way to the second one, or they are the same. -/
def Continues (limit : Nat) (R : σ → σ → Prop) (o o' : Except Error Float × Progress σ) : Prop :=
  (o.1 = .error (.tooDeep limit .evaluation) ∧ R o.2.host o'.2.host) ∨ o' = o

theorem Continues.refl {limit : Nat} (o : Except Error Float × Progress σ) : Continues limit R o o :=
  .inr rfl

/-- Where one of the two stops behind a result, the other goes on. -/
theorem continues_match {limit : Nat} (h : env.Forward R) {o o' : Except Error Float × Progress σ}
    {k k' : Float → Progress σ → Except Error Float × Progress σ} :
    Continues limit R o o' → (∀ x q, R q.host (k' x q).2.host) →
      (∀ x q, Continues limit R (k x q) (k' x q)) →
        Continues limit R (match o with | (.error e, q) => (.error e, q) | (.ok x, q) => k x q)
          (match o' with | (.error e, q) => (.error e, q) | (.ok x, q) => k' x q) := by
  obtain ⟨result, q⟩ := o
  rintro (⟨hmet, hlater⟩ | rfl) hforward hk
  · dsimp only at hmet hlater
    subst hmet
    exact .inl ⟨rfl, h.match_result hlater hforward⟩
  · cases result with
    | error e => exact .refl _
    | ok x => exact hk x q

/-- **One limit and a larger one.**  Under the larger limit the evaluation goes on where the smaller one
stops it, and nothing else is different. -/
theorem continues_value (h : env.Forward R) {more : Nat} (hle : env.limit ≤ more) (t : Tree)
    (depth : Nat) (p : Progress σ) :
    Continues env.limit R (env.value depth t p) ((env.withLimit more).value depth t p) := by
  induction depth, t using Tree.induction_on_level env.limit generalizing p with
  | deep depth t hlt =>
      rw [value_of_lt t p hlt]
      exact .inl ⟨rfl, (h.withLimit more).value t depth p⟩
  | const depth x s hdepth =>
      have hroom : depth ≤ (env.withLimit more).limit := Nat.le_trans hdepth hle
      rw [value_const x s p hdepth, value_const x s p hroom]
      exact .refl _
  | var depth name hdepth =>
      have hroom : depth ≤ (env.withLimit more).limit := Nat.le_trans hdepth hle
      rw [value_var name p hdepth, value_var name p hroom]
      exact .refl _
  | binary depth op l r s hdepth ihl ihr =>
      have hroom : depth ≤ (env.withLimit more).limit := Nat.le_trans hdepth hle
      rw [value_binary op l r s p hdepth, value_binary op l r s p hroom]
      refine continues_match h (ihl p) (fun x q => ?_) (fun x q => ?_)
      · refine h.match_result ((h.withLimit more).value r (depth + 1) q) (fun y q => ?_)
        exact h.operation op (.binary op l r s) x y q
      · refine continues_match h (ihr q) (fun y q => ?_) (fun y q => .refl _)
        exact h.operation op (.binary op l r s) x y q

/-- Under a larger limit the outcome is the same, unless the smaller one was met; then the host is asked
on. -/
theorem evaluate_withLimit (h : env.Forward R) {more : Nat} (hle : env.limit ≤ more) (t : Tree)
    (host : σ) :
    ((env.evaluate t host).result = .error (.tooDeep env.limit .evaluation) ∧
        R (env.evaluate t host).host ((env.withLimit more).evaluate t host).host) ∨
      (env.withLimit more).evaluate t host = env.evaluate t host := by
  rcases continues_value h hle t 0 ⟨host, []⟩ with hmet | hsame
  · exact .inl hmet
  · right
    rw [evaluate, evaluate, hsame]

/-- An outcome that is not the error of the limit is the outcome under every larger limit. -/
theorem evaluate_withLimit_of_ne (env : Setting σ) {more : Nat} (hle : env.limit ≤ more) (t : Tree)
    (host : σ) (hne : (env.evaluate t host).result ≠ .error (.tooDeep env.limit .evaluation)) :
    (env.withLimit more).evaluate t host = env.evaluate t host := by
  have hforward : env.Forward (fun _ _ => True) :=
    ⟨fun _ => trivial, fun _ _ => trivial, fun _ _ => trivial, fun _ _ _ => trivial⟩
  rcases evaluate_withLimit hforward hle t host with ⟨hmet, -⟩ | hsame
  · exact absurd hmet hne
  · exact hsame

end Setting

/-- The questions that the host has noted, in order. -/
def Evaluation.calls {σ : Type} (o : Evaluation (σ × List Call)) : List Call := o.host.2.reverse

/-- What the limit does to the evaluations of a tree, of which there is one for each limit. -/
structure Tree.IsGuarded {σ : Type} (t : Tree) (outcome : Nat → Evaluation (σ × List Call)) : Prop where
  /-- There is a value just under the limits that leave room for all levels, the root being at level 0. -/
  hasValue_iff : ∀ limit, (∃ x, (outcome limit).result = .ok x) ↔ t.depth - 1 ≤ limit
  /-- All other limits are met, and nothing else goes wrong. -/
  meets : ∀ limit, ¬ t.depth - 1 ≤ limit →
    (outcome limit).result = .error (.tooDeep limit .evaluation)
  /-- What is not the error of the limit is the outcome under every larger limit. -/
  stays : ∀ limit more, limit ≤ more →
    (outcome limit).result ≠ .error (.tooDeep limit .evaluation) → outcome more = outcome limit
  /-- What is asked is asked first under every larger limit. -/
  calls_prefix : ∀ limit more, limit ≤ more → (outcome limit).calls <+: (outcome more).calls

namespace Tree

variable {σ : Type} (t : Tree) (lookup : Lookup)

/-- With policies, a tree with more levels than the limit leaves room for meets the limit. -/
theorem result_of_deep {limit : Nat} (missing : MissingPolicy σ) (divisor : DivisorPolicy σ) (host : σ)
    (h : ¬ t.depth - 1 ≤ limit) :
    (t.evaluateByPolicies limit lookup missing divisor host).result =
      .error (.tooDeep limit .evaluation) := by
  have hdeep : ¬ ∀ n ∈ t.walk 0, n.1 ≤ limit := by
    rw [t.forall_mem_walk_iff]
    omega
  exact (Setting.evaluate_ofPolicies limit lookup missing divisor t host).2.2 (by simpa using hdeep)

/-- Policies that take no question back guard the tree. -/
theorem isGuarded_of_suffix {missing : MissingPolicy (σ × List Call)}
    {divisor : DivisorPolicy (σ × List Call)} (hmissing : ∀ name s, s.2 <:+ (missing name s).2.2)
    (hdivisor : ∀ x y s, s.2 <:+ (divisor x y s).2.2) (host : σ × List Call) :
    t.IsGuarded (fun limit => t.evaluateByPolicies limit lookup missing divisor host) where
  hasValue_iff limit := by
    constructor
    · rintro ⟨x, hx⟩
      by_contra hdeep
      cases (t.result_of_deep lookup missing divisor host hdeep).symm.trans hx
    · intro hroom
      exact exists_value_of_depth_le (by omega) lookup missing divisor host
  meets limit := t.result_of_deep lookup missing divisor host
  stays limit more hle hne :=
    (Setting.ofPolicies limit lookup missing divisor).evaluate_withLimit_of_ne hle t host hne
  calls_prefix limit more hle := by
    have hforward : (Setting.ofPolicies limit lookup missing divisor).Forward
        (fun s s' => s.2 <:+ s'.2) :=
      ⟨fun s => List.suffix_refl s.2, List.IsSuffix.trans, hmissing, hdivisor⟩
    apply List.reverse_prefix.mpr
    rcases Setting.evaluate_withLimit hforward hle t host with ⟨-, hlater⟩ | hsame
    · exact hlater
    · have hhost := congrArg (fun o => o.host.2) hsame
      exact hhost ▸ List.suffix_refl _

/-- **The limit is exact, and does nothing else.**  With a policy for missing variables, or with one for
zero divisors too, a tree has a value just if the limit leaves room for its levels, and otherwise the limit
is met.  Under a larger limit nothing that was not stopped is different, and what was stopped goes on from
the same questions.  Without policies too, only what was stopped is different under a larger limit. -/
theorem isGuarded_evaluations (missing : MissingPolicy σ) (divisor : DivisorPolicy σ) (host : σ) :
    t.IsGuarded (fun limit => t.evaluateByPolicies limit lookup (Policy.noteMissing missing)
        (Policy.noteDivisor divisor) (host, [])) ∧
      t.IsGuarded (fun limit => t.evaluateByFallback limit lookup (Policy.noteMissing missing)
        (host, [])) ∧
      ∀ limit more, limit ≤ more →
        (t.evaluateStrictly limit lookup).result ≠ .error (.tooDeep limit .evaluation) →
          t.evaluateStrictly more lookup = t.evaluateStrictly limit lookup := by
  have hmissing : ∀ name (s : σ × List Call), s.2 <:+ (Policy.noteMissing missing name s).2.2 :=
    fun name s => List.suffix_cons (Call.missing name) s.2
  refine ⟨?_, ?_, ?_⟩
  · apply t.isGuarded_of_suffix lookup hmissing
    exact fun x y s => List.suffix_cons (Call.divisor x y) s.2
  · apply t.isGuarded_of_suffix lookup hmissing
    exact fun x y s => List.suffix_refl s.2
  · intro limit more hle hne
    exact Setting.evaluate_withLimit_of_ne _ hle t () hne

end Tree

end InfixFormula
