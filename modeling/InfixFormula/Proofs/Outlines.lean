import InfixFormula.Proofs.Calls
import InfixFormula.Proofs.Lookup
import InfixFormula.Proofs.StrictValue

/-!
# What the outline of a tree fixes

The outline of a tree leaves out the texts that the nodes were read from.  What a tree shows and what it
is worth depends on the outline alone: trees with one outline have the same names, the same number of
levels and the same print (`Tree.names_congr`, `Tree.depth_congr`, `Tree.print_congr`), and every
evaluation comes to the same result for them, leaves the host in the same state and leaves records in the
same words (`Setting.evaluate_outline`).

Nor does an evaluation see more of a variable than whether it has an entry, and the number that the entry
counts as (`Lookup.worth`).  A variable without a value cannot be told from one that is 0.  Variables that
do not occur in the tree are not seen at all.  All of this holds for each of the ways of evaluating, with
whatever policies and limit (`Tree.evaluations_alike`).
-/

namespace InfixFormula

namespace Tree

/-- Induction on two trees with one outline. -/
@[elab_as_elim]
theorem induction_on_outline {motive : Tree → Tree → Prop}
    (const : ∀ x s s', motive (const x s) (const x s')) (var : ∀ name, motive (var name) (var name))
    (binary : ∀ op l r s l' r' s', l'.outline = l.outline → r'.outline = r.outline →
      motive l l' → motive r r' → motive (binary op l r s) (binary op l' r' s'))
    {t u : Tree} (h : u.outline = t.outline) : motive t u := by
  induction t generalizing u with
  | const x s =>
      cases u with
      | const y s' =>
          cases h
          exact const x s s'
      | var name => cases h
      | binary op l r s' => cases h
  | var name =>
      cases u with
      | const y s' => cases h
      | var name' =>
          cases h
          exact var name
      | binary op l r s' => cases h
  | binary op l r s ihl ihr =>
      cases u with
      | const y s' => cases h
      | var name => cases h
      | binary op' l' r' s' =>
          simp only [outline, Outline.binary.injEq] at h
          obtain ⟨rfl, hl, hr⟩ := h
          exact binary op' l r s l' r' s' hl hr (ihl hl) (ihr hr)

variable {t u : Tree}

/-- Sources have no names. -/
theorem names_congr (h : u.outline = t.outline) : u.names = t.names := by
  refine induction_on_outline (motive := fun t u => u.names = t.names) (fun _ _ _ => rfl)
    (fun _ => rfl) ?_ h
  intro op l r s l' r' s' _ _ hl hr
  rw [names_binary, names_binary, hl, hr]

/-- Sources have no levels. -/
theorem depth_congr (h : u.outline = t.outline) : u.depth = t.depth := by
  rw [← depth_outline, h, depth_outline]

/-- Sources are not printed. -/
theorem print_congr (h : u.outline = t.outline) : u.print = t.print := by
  refine induction_on_outline (motive := fun t u => u.print = t.print) (fun _ _ _ => rfl)
    (fun _ => rfl) ?_ h
  intro op l r s l' r' s' _ _ hl hr
  rw [print_binary, print_binary, hl, hr]

end Tree

/-- The number that the variable counts as, if it has an entry. -/
def Lookup.worth (lookup : Lookup) (name : Text) : Option Float := (lookup name).map (·.getD 0.0)

namespace Setting

variable {σ : Type} {env : Setting σ} {lookup lookup' : Lookup}

/-- The host is left in the same state, and the records are in the same words. -/
def SameNotes (p p' : Progress σ) : Prop :=
  p'.host = p.host ∧ p'.records.map Record.message = p.records.map Record.message

/-- A variable without a value counts like one with the value zero. -/
theorem value_var_worth {depth : Nat} (name : Text) (p : Progress σ) (h : depth ≤ env.limit) :
    env.value depth (.var name) p =
      match env.lookup.worth name with
      | some x => (.ok x, p)
      | none => env.askMissing name p := by
  rw [value_var name p h, Lookup.worth]
  cases env.lookup name <;> rfl

/-- A question for a variable is noted by its name alone. -/
theorem sameNotes_askMissing (name : Text) {p p' : Progress σ} (hp : SameNotes p p') :
    Agree SameNotes ((env.withLookup lookup).askMissing name p)
      ((env.withLookup lookup').askMissing name p') := by
  obtain ⟨hhost, hrecords⟩ := hp
  have hcons : (Record.missingVariable name :: p'.records).map Record.message =
      (Record.missingVariable name :: p.records).map Record.message := by
    rw [List.map_cons, List.map_cons, hrecords]
  rw [askMissing, askMissing, hhost]
  exact ⟨rfl, rfl, hcons⟩

/-- A question for a quotient is noted by what the tree prints, which its sources do not touch. -/
theorem sameNotes_askDivisor {t u : Tree} (h : u.outline = t.outline) (x y : Float)
    {p p' : Progress σ} (hp : SameNotes p p') :
    Agree SameNotes ((env.withLookup lookup).askDivisor t x y p)
      ((env.withLookup lookup').askDivisor u x y p') := by
  obtain ⟨hhost, hrecords⟩ := hp
  -- The record holds the tree with its sources, but only the print goes into the words.
  have hmessage : (Record.zeroDivisor u).message = (Record.zeroDivisor t).message :=
    congrArg (fun text => "Division by zero in " ++ String.ofList text ++ ", applying policy")
      (Tree.print_congr h)
  have hcons : (Record.zeroDivisor u :: p'.records).map Record.message =
      (Record.zeroDivisor t :: p.records).map Record.message := by
    rw [List.map_cons, List.map_cons, hmessage, hrecords]
  rw [askDivisor, askDivisor, hhost]
  exact ⟨rfl, rfl, hcons⟩

/-- Trees with one outline have the same value where their variables are worth the same. -/
theorem value_outline {t u : Tree} (h : u.outline = t.outline) :
    (∀ name ∈ t.names, lookup'.worth name = lookup.worth name) →
      ∀ (depth : Nat) (p p' : Progress σ), SameNotes p p' →
        Agree SameNotes ((env.withLookup lookup).value depth t p)
          ((env.withLookup lookup').value depth u p') := by
  refine Tree.induction_on_outline ?const ?var ?binary h
  case const =>
    intro x s s' _ depth p p' hp
    refine agree_of_limit hp (fun hle => ?_)
    rw [value_const x s p (hle _), value_const x s' p' (hle _)]
    exact ⟨rfl, hp⟩
  case var =>
    intro name hlookup depth p p' hp
    have hworth : (env.withLookup lookup').lookup.worth name =
        (env.withLookup lookup).lookup.worth name := hlookup name List.mem_cons_self
    refine agree_of_limit hp (fun hle => ?_)
    rw [value_var_worth name p (hle _), value_var_worth name p' (hle _), hworth]
    cases (env.withLookup lookup).lookup.worth name with
    | none => exact sameNotes_askMissing name hp
    | some x => exact ⟨rfl, hp⟩
  case binary =>
    intro op l r s l' r' s' hl hr ihl ihr hlookup depth p p' hp
    rw [Tree.names_binary, List.forall_mem_append] at hlookup
    refine agree_of_limit hp (fun hle => ?_)
    rw [value_binary op l r s p (hle _), value_binary op l' r' s' p' (hle _)]
    refine agree_match (ihl hlookup.1 (depth + 1) p p' hp) ?_
    intro x q q' hq
    refine agree_match (ihr hlookup.2 (depth + 1) q q' hq) ?_
    intro y q q' hq
    by_cases hzero : isZeroDivision op y = true
    · rw [if_pos hzero, if_pos hzero]
      exact sameNotes_askDivisor (by rw [Tree.outline, Tree.outline, hl, hr]) x y hq
    · rw [if_neg hzero, if_neg hzero]
      exact ⟨rfl, hq⟩

/-- **Only the outline and the worth of the variables count.**  The result is the same, the host is left
in the same state, and the records are in the same words. -/
theorem evaluate_outline {t u : Tree} (h : u.outline = t.outline)
    (hlookup : ∀ name ∈ t.names, lookup'.worth name = lookup.worth name) (host : σ) :
    ((env.withLookup lookup').evaluate u host).result = ((env.withLookup lookup).evaluate t host).result ∧
      ((env.withLookup lookup').evaluate u host).host = ((env.withLookup lookup).evaluate t host).host ∧
      ((env.withLookup lookup').evaluate u host).records.map Record.message =
        ((env.withLookup lookup).evaluate t host).records.map Record.message := by
  obtain ⟨hresult, hhost, hrecords⟩ := value_outline h hlookup 0 ⟨host, []⟩ ⟨host, []⟩ ⟨rfl, rfl⟩
  refine ⟨hresult, hhost, ?_⟩
  rw [evaluate, evaluate, List.map_reverse, List.map_reverse, hrecords]

end Setting

/-- The same result and the same state of the host, and records in the same words. -/
structure Evaluation.Alike {σ : Type} (o o' : Evaluation σ) : Prop where
  result_eq : o'.result = o.result
  host_eq : o'.host = o.host
  messages_eq : o'.records.map Record.message = o.records.map Record.message

/-- Trees of one outline are evaluated alike over look-ups that agree on their names. -/
theorem Setting.alike_evaluate {σ : Type} (env : Setting σ) {lookup lookup' : Lookup} {t u : Tree}
    (h : u.outline = t.outline)
    (hlookup : ∀ name ∈ t.distinctNames, lookup'.worth name = lookup.worth name) (host : σ) :
    ((env.withLookup lookup).evaluate t host).Alike ((env.withLookup lookup').evaluate u host) := by
  have hnames : ∀ name ∈ t.names, lookup'.worth name = lookup.worth name :=
    fun name hname => hlookup name (List.mem_eraseDups.mpr hname)
  obtain ⟨hresult, hhost, hmessages⟩ := @evaluate_outline σ env lookup lookup' t u h hnames host
  exact ⟨hresult, hhost, hmessages⟩

/-- **Only the meaning counts.**  Trees that differ in nothing but their sources, over variables that are
worth the same wherever the trees have a name for them, come to the same result in every way of evaluating,
and the same questions are asked in the same order. -/
theorem Tree.evaluations_alike {t u : Tree} {lookup lookup' : Lookup} (h : u.outline = t.outline)
    (hlookup : ∀ name ∈ t.distinctNames, lookup'.worth name = lookup.worth name) (limit : Nat) :
    (t.evaluateStrictly limit lookup).Alike (u.evaluateStrictly limit lookup') ∧
      ∀ {σ : Type} (missing : MissingPolicy σ) (divisor : DivisorPolicy σ) (host : σ),
        (t.evaluateByFallback limit lookup (Policy.noteMissing missing) (host, [])).Alike
          (u.evaluateByFallback limit lookup' (Policy.noteMissing missing) (host, [])) ∧
        (t.evaluateByPolicies limit lookup (Policy.noteMissing missing) (Policy.noteDivisor divisor)
          (host, [])).Alike
          (u.evaluateByPolicies limit lookup' (Policy.noteMissing missing) (Policy.noteDivisor divisor)
            (host, [])) := by
  refine ⟨?_, fun missing divisor host => ⟨?_, ?_⟩⟩
  · exact (strictSetting limit lookup).alike_evaluate h hlookup ()
  · exact (Setting.ofPolicies limit lookup (Policy.noteMissing missing) Policy.zero).alike_evaluate h
      hlookup (host, [])
  · exact (Setting.ofPolicies limit lookup (Policy.noteMissing missing)
      (Policy.noteDivisor divisor)).alike_evaluate h hlookup (host, [])

/-- The tree of `a/b+c`, where the texts of the operations are as given. -/
def Tree.quotientAndRest (quotient whole : Text) : Tree :=
  .binary .add (.binary .divide (.var ['a']) (.var ['b']) (.ofText quotient)) (.var ['c']) (.ofText whole)

/-- A variable without a value is as good as one that is 0, and others do not matter. -/
theorem Tree.evaluations_alike_quotientAndRest :
    let lookup := (Dict.ofList [(['a'], some 6.0), (['b'], none)]).lookup id
    let lookup' := (Dict.ofList [(['d'], none), (['b'], some 0.0), (['a'], some 6.0)]).lookup id
    let t := quotientAndRest "a/b".toList "a/b+c".toList
    let u := quotientAndRest "( a / b )".toList "( a / b ) + c".toList
    (u.outline = t.outline ∧
      ∀ name ∈ t.distinctNames, lookup'.worth name = lookup.worth name) ∧
    (t.evaluateByPolicies 2 lookup (Policy.noteMissing Policy.countMissing)
      (Policy.noteDivisor Policy.countDivisors) (0, [])).Alike
      (u.evaluateByPolicies 2 lookup' (Policy.noteMissing Policy.countMissing)
        (Policy.noteDivisor Policy.countDivisors) (0, [])) := by
  intro lookup lookup' t u
  have hnames : ∀ name ∈ t.distinctNames, lookup'.worth name = lookup.worth name := by
    have hlist : t.distinctNames = [['a'], ['b'], ['c']] := by decide
    rw [hlist]
    intro name hname
    simp only [List.mem_cons, List.not_mem_nil, or_false] at hname
    rcases hname with rfl | rfl | rfl
    · rfl
    · rfl
    · rfl
  have halike := evaluations_alike (t := t) (u := u) rfl hnames 2
  exact ⟨⟨rfl, hnames⟩, (halike.2 Policy.countMissing Policy.countDivisors 0).2⟩

end InfixFormula
