import InfixFormula.Evaluation.Walk

/-!
# Ways of evaluating

A tree is evaluated strictly, where a variable without an entry is an error; or with a policy for such
variables; or with a policy for zero divisors too.  Unless a policy says otherwise, a quotient by zero
is zero.
-/

namespace InfixFormula

namespace Tree

/-- Evaluates with a host that decides on missing variables and zero divisors. -/
def evaluateByPolicies {σ : Type} (limit : Nat) (lookup : Lookup) (missing : MissingPolicy σ)
    (divisor : DivisorPolicy σ) (host : σ) (tree : Tree) : Evaluation σ :=
  Setting.evaluate
    { limit := limit
      lookup := lookup
      missing := fun name s => let answer := missing name s; (.ok (answer.1.getD 0.0), answer.2)
      divisor := divisor }
    tree host

/-- Evaluates with a host that decides on missing variables; a quotient by zero is zero. -/
def evaluateByFallback {σ : Type} (limit : Nat) (lookup : Lookup) (missing : MissingPolicy σ) (host : σ)
    (tree : Tree) : Evaluation σ :=
  tree.evaluateByPolicies limit lookup missing Policy.zero host

/-- Evaluates without a host: a missing variable is an error, a quotient by zero is zero. -/
def evaluateStrictly (limit : Nat) (lookup : Lookup) (tree : Tree) : Evaluation Unit :=
  Setting.evaluate
    { limit := limit
      lookup := lookup
      missing := fun name s => (.error (.missingVariable name), s)
      divisor := Policy.zero }
    tree ()

end Tree

end InfixFormula
