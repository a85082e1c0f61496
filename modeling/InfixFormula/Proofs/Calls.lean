import Mathlib.Data.List.TakeWhile
import InfixFormula.Evaluation
import InfixFormula.Tree.PostOrder

/-!
# What an evaluation asks its host

The nodes of a tree are walked in post-order, each with its level (`Tree.walk`).  A walk keeps the values
of the operands that are finished.  Every node takes its operands from there and leaves its value, and it
asks the host at most once: a variable if it has no entry, a division if its divisor is a zero of either
sign, no other node (`Walk.step`).

An evaluation with policies asks exactly what the walk asks, in the same order and with the same answers,
as long as no node lies too deep.  It stops before the first node that does
(`Tree.evaluateByPolicies_eq_walk`).
-/

namespace InfixFormula

namespace Double

open Float.Model (UnpackedFloat Format)
open Float.Model.UnpackedFloat (unpackExponent unpackMantissa)

/-- The two zeros. -/
def IsZero (y : Float) : Prop := y = 0.0 ∨ y = -0.0

instance (y : Float) : Decidable (IsZero y) := inferInstanceAs (Decidable (_ ∨ _))

/-- A double is its bits. -/
theorem eq_of_toBits_eq {x y : Float} (h : x.toBits = y.toBits) : x = y := by
  obtain ⟨⟨bits, valid⟩⟩ := x
  obtain ⟨⟨bits', valid'⟩⟩ := y
  obtain rfl : bits = bits' := h
  rfl

/-- What is unpacked to a zero has no bits set but perhaps the sign. -/
theorem eq_of_unpack_eq_zero {b : BitVec 64} {s : UnpackedFloat.Sign}
    (h : UnpackedFloat.unpack Format.binary64 b = .zero s) : b = 0#64 ∨ b = 0x8000000000000000#64 := by
  unfold UnpackedFloat.unpack at h
  dsimp only at h
  by_cases hlargest : @unpackExponent Format.binary64 b = -1#_
  · rw [if_pos hlargest] at h
    by_cases hmantissa : @unpackMantissa Format.binary64 b = 0#_
    · rw [if_pos hmantissa] at h
      cases h
    · rw [if_neg hmantissa] at h
      cases h
  · rw [if_neg hlargest] at h
    by_cases hexponent : @unpackExponent Format.binary64 b = 0#_
    · rw [if_pos hexponent] at h
      by_cases hmantissa : @unpackMantissa Format.binary64 b = 0#_
      · have he := congrArg BitVec.toNat hexponent
        have hm := congrArg BitVec.toNat hmantissa
        simp [unpackExponent, unpackMantissa, Format.binary64] at he hm
        have hlt := b.isLt
        have hbits : b.toNat = 0 ∨ b.toNat = 2 ^ 63 := by omega
        exact hbits.imp (fun h => BitVec.eq_of_toNat_eq h) (fun h => BitVec.eq_of_toNat_eq h)
      · rw [dif_neg hmantissa] at h
        cases h
    · rw [if_neg hexponent] at h
      cases h

/-- The doubles that are equal to 0 are the two zeros.  NaN is equal to nothing. -/
theorem beq_zero_iff (y : Float) : (y == 0.0) = true ↔ IsZero y := by
  constructor
  · intro h
    have hcompare : y.toModel.unpack.beq (.zero .positive) = true := h
    cases hunpack : y.toModel.unpack with
    | infinity s =>
        rw [hunpack] at hcompare
        cases s <;> cases hcompare
    | notANumber =>
        rw [hunpack] at hcompare
        cases hcompare
    | finite s m e hm =>
        rw [hunpack] at hcompare
        cases s <;> cases hcompare
    | zero s =>
        rcases eq_of_unpack_eq_zero hunpack with hb | hb
        · exact .inl (eq_of_toBits_eq (UInt64.eq_of_toBitVec_eq hb))
        · exact .inr (eq_of_toBits_eq (UInt64.eq_of_toBitVec_eq hb))
  · rintro (rfl | rfl) <;> rfl

end Double

/-- The nodes of the tree in post-order: those of the left operand, those of the right one, then the
operation.  Each comes with its level, the root being at `level`. -/
def Tree.walk (level : Nat) : Tree → List (Nat × Node)
  | const x s => [(level, .const x s)]
  | var name => [(level, .var name)]
  | binary op l r s => l.walk (level + 1) ++ r.walk (level + 1) ++ [(level, .binary op s)]

/-- The nodes before the first one that lies deeper than the limit. -/
def Tree.due (limit level : Nat) (t : Tree) : List (Nat × Node) :=
  (t.walk level).takeWhile (fun n => n.1 ≤ limit)

/-- How far a walk has come. -/
structure Walk (σ : Type) where
  /-- The values of the finished operands, the latest first. -/
  values : List Float
  /-- The state of the host. -/
  host : σ
  /-- The questions so far, the latest first. -/
  calls : List Call

namespace Walk

variable {σ : Type}

/-- A walk that has not begun. -/
def start (host : σ) : Walk σ := ⟨[], host, []⟩

section Steps

variable (lookup : Lookup) (missing : MissingPolicy σ) (divisor : DivisorPolicy σ)

/-- A node takes its operands and leaves its value.  It asks the host if it is a variable without an
entry, or a division by zero. -/
def step (w : Walk σ) : Node → Walk σ
  | .const x _ => { w with values := x :: w.values }
  | .var name =>
      match lookup name with
      | some x => { w with values := x.getD 0.0 :: w.values }
      | none =>
          let answer := missing name w.host
          ⟨answer.1.getD 0.0 :: w.values, answer.2, .missing name :: w.calls⟩
  | .binary op _ =>
      match w.values, op with
      | y :: x :: below, .add => { w with values := (x + y) :: below }
      | y :: x :: below, .subtract => { w with values := (x - y) :: below }
      | y :: x :: below, .multiply => { w with values := (x * y) :: below }
      | y :: x :: below, .divide =>
          if Double.IsZero y then
            let answer := divisor x y w.host
            ⟨answer.1 :: below, answer.2, .divisor x y :: w.calls⟩
          else { w with values := (x / y) :: below }
      | _, _ => w

/-- The walk over nodes in a row. -/
def run (w : Walk σ) (nodes : List (Nat × Node)) : Walk σ :=
  nodes.foldl (fun w n => w.step lookup missing divisor n.2) w

variable {lookup missing divisor} {w : Walk σ}

/-- A variable with an entry is no question.  Without a value it counts as zero. -/
theorem step_present {name : Text} {x : Option Float} (h : lookup name = some x) :
    w.step lookup missing divisor (.var name) = { w with values := x.getD 0.0 :: w.values } := by
  simp only [step, h]

/-- A variable without an entry is asked for by its name. -/
theorem step_absent {name : Text} (h : lookup name = none) :
    w.step lookup missing divisor (.var name) =
      ⟨(missing name w.host).1.getD 0.0 :: w.values, (missing name w.host).2,
        .missing name :: w.calls⟩ := by
  simp only [step, h]

/-- A division by zero asks with both operands and leaves the answer. -/
theorem step_zero {op : Operator} {s : Source} {x y : Float} {below : List Float}
    (hvalues : w.values = y :: x :: below) (h : op = .divide ∧ Double.IsZero y) :
    w.step lookup missing divisor (.binary op s) =
      ⟨(divisor x y w.host).1 :: below, (divisor x y w.host).2, .divisor x y :: w.calls⟩ := by
  obtain ⟨rfl, hzero⟩ := h
  simp only [step, hvalues, if_pos hzero]

/-- No other operation asks anything. -/
theorem step_apply {op : Operator} {s : Source} {x y : Float} {below : List Float}
    (hvalues : w.values = y :: x :: below) (h : ¬ (op = .divide ∧ Double.IsZero y)) :
    w.step lookup missing divisor (.binary op s) = { w with values := op.apply x y :: below } := by
  cases op with
  | add => simp only [step, hvalues, Operator.apply]
  | subtract => simp only [step, hvalues, Operator.apply]
  | multiply => simp only [step, hvalues, Operator.apply]
  | divide =>
      have hzero : ¬ Double.IsZero y := fun hy => h ⟨rfl, hy⟩
      simp only [step, hvalues, if_neg hzero, Operator.apply]

/-- A walk over nodes in a row may be interrupted anywhere. -/
theorem run_append (nodes later : List (Nat × Node)) :
    w.run lookup missing divisor (nodes ++ later) =
      (w.run lookup missing divisor nodes).run lookup missing divisor later :=
  List.foldl_append

theorem run_singleton (level : Nat) (n : Node) :
    w.run lookup missing divisor [(level, n)] = w.step lookup missing divisor n := rfl

end Steps

end Walk

namespace Policy

variable {σ : Type}

/-- The host that answers in the same way and notes the questions, the latest first. -/
def noteMissing (missing : MissingPolicy σ) : MissingPolicy (σ × List Call) := fun name s =>
  let answer := missing name s.1
  (answer.1, answer.2, .missing name :: s.2)

/-- The host that answers in the same way and notes the questions, the latest first. -/
def noteDivisor (divisor : DivisorPolicy σ) : DivisorPolicy (σ × List Call) := fun x y s =>
  let answer := divisor x y s.1
  (answer.1, answer.2, .divisor x y :: s.2)

end Policy

/-- The setting of an evaluation with policies. -/
def Setting.ofPolicies {σ : Type} (limit : Nat) (lookup : Lookup) (missing : MissingPolicy σ)
    (divisor : DivisorPolicy σ) : Setting σ where
  limit := limit
  lookup := lookup
  missing := fun name s => let answer := missing name s; (.ok (answer.1.getD 0.0), answer.2)
  divisor := divisor

namespace Tree

/-- Listing nodes in front of others leaves those where they are. -/
theorem postOrderOnto_eq (t : Tree) (rest : List Node) : t.postOrderOnto rest = t.postOrder ++ rest := by
  induction t generalizing rest with
  | const x s => rfl
  | var name => rfl
  | binary op l r s ihl ihr =>
      simp only [postOrder, postOrderOnto]
      rw [ihl, ihr, ihl, ihr [_]]
      simp

/-- The walk visits the nodes of the listing in post-order. -/
theorem map_snd_walk (t : Tree) (level : Nat) : (t.walk level).map Prod.snd = t.postOrder := by
  induction t generalizing level with
  | const x s => rfl
  | var name => rfl
  | binary op l r s ihl ihr =>
      have hlist : (binary op l r s).postOrder = l.postOrder ++ (r.postOrder ++ [.binary op s]) := by
        rw [postOrder, postOrderOnto, postOrderOnto_eq, postOrderOnto_eq]
      rw [walk, List.map_append, List.map_append, ihl, ihr, hlist, List.append_assoc]
      rfl

/-- No node lies above the root. -/
theorem le_of_mem_walk {t : Tree} {level : Nat} {n : Nat × Node} (hn : n ∈ t.walk level) :
    level ≤ n.1 := by
  induction t generalizing level with
  | const x s => exact Nat.le_of_eq (congrArg Prod.fst (List.mem_singleton.mp hn)).symm
  | var name => exact Nat.le_of_eq (congrArg Prod.fst (List.mem_singleton.mp hn)).symm
  | binary op l r s ihl ihr =>
      rw [walk, List.mem_append, List.mem_append, List.mem_singleton] at hn
      rcases hn with (hn | hn) | rfl
      · exact Nat.le_of_succ_le (ihl hn)
      · exact Nat.le_of_succ_le (ihr hn)
      · exact Nat.le_refl level

/-- A tree reaches as many levels as it has. -/
theorem forall_mem_walk_iff (t : Tree) (level limit : Nat) :
    (∀ n ∈ t.walk level, n.1 ≤ limit) ↔ level + t.depth ≤ limit + 1 := by
  induction t generalizing level with
  | const x s => simp [walk, depth]
  | var name => simp [walk, depth]
  | binary op l r s ihl ihr =>
      have hl := l.depth_pos
      simp only [walk, List.forall_mem_append, List.forall_mem_singleton, ihl, ihr, depth]
      omega

theorem level_le_of_walk {t : Tree} {level limit : Nat} (h : ∀ n ∈ t.walk level, n.1 ≤ limit) :
    level ≤ limit := by
  have hdepth := (t.forall_mem_walk_iff level limit).mp h
  have hpos := t.depth_pos
  omega

/-- All nodes are due where none lies too deep. -/
theorem due_eq_walk {t : Tree} {limit level : Nat} (h : ∀ n ∈ t.walk level, n.1 ≤ limit) :
    t.due limit level = t.walk level := by
  rw [due, List.takeWhile_eq_self_iff]
  simpa using h

/-- Nothing is due below a root that lies too deep itself. -/
theorem due_of_lt (t : Tree) {limit level : Nat} (h : limit < level) : t.due limit level = [] := by
  have hfirst : ∀ n ∈ (t.walk level).head?, ¬ n.1 ≤ limit := by
    intro n hn
    have hle := le_of_mem_walk (List.mem_of_mem_head? hn)
    omega
  rw [due]
  cases hwalk : t.walk level with
  | nil => rfl
  | cons n nodes =>
      rw [List.takeWhile_cons_of_neg]
      simpa using hfirst n (by rw [hwalk]; rfl)

/-- Where a node lies too deep, not all nodes are due. -/
theorem length_due_ne {t : Tree} {limit level : Nat} (h : ¬ ∀ n ∈ t.walk level, n.1 ≤ limit) :
    (t.due limit level).length ≠ (t.walk level).length := by
  intro hlength
  apply h
  have hall := (List.takeWhile_prefix _).eq_of_length hlength
  simpa using List.takeWhile_eq_self_iff.mp hall

section Binary

variable {op : Operator} {l r : Tree} {s : Source} {limit level : Nat}

/-- Where the left operand is not too deep but the right one is, the walk stops in the right one. -/
theorem due_binary_of_left (hl : ∀ n ∈ l.walk (level + 1), n.1 ≤ limit)
    (hr : ¬ ∀ n ∈ r.walk (level + 1), n.1 ≤ limit) :
    (binary op l r s).due limit level = l.walk (level + 1) ++ r.due limit (level + 1) := by
  have hright := length_due_ne hr
  rw [due] at hright
  rw [due, walk, List.append_assoc, List.takeWhile_append_of_pos (by simpa using hl),
    List.takeWhile_append, if_neg hright, due]

/-- Where the left operand is too deep, nothing of the right one is due. -/
theorem due_binary_of_not_left (hl : ¬ ∀ n ∈ l.walk (level + 1), n.1 ≤ limit) :
    (binary op l r s).due limit level = l.due limit (level + 1) := by
  have hleft := length_due_ne hl
  rw [due] at hleft
  rw [due, walk, List.append_assoc, List.takeWhile_append, if_neg hleft, due]

end Binary

end Tree

namespace Setting

variable {σ : Type} {limit level : Nat} (lookup : Lookup) (missing : MissingPolicy σ)
  (divisor : DivisorPolicy σ)

/-- The test of the program sees both zeros, and no NaN. -/
theorem isZeroDivision_iff (op : Operator) (y : Float) :
    isZeroDivision op y = true ↔ op = .divide ∧ Double.IsZero y := by
  rw [isZeroDivision, Bool.and_eq_true, Double.beq_zero_iff, beq_iff_eq]

/-- A tree that does not lie too deep has a value, and the walk over it leaves the value and the host as
the evaluation does. -/
theorem value_eq_run {t : Tree} (hfits : ∀ n ∈ t.walk level, n.1 ≤ limit) {p : Progress σ} {w : Walk σ}
    (hhost : w.host = p.host) :
    ∃ x q, (ofPolicies limit lookup missing divisor).value level t p = (.ok x, q) ∧
      (w.run lookup missing divisor (t.walk level)).values = x :: w.values ∧
      (w.run lookup missing divisor (t.walk level)).host = q.host := by
  have hlevel : level ≤ (ofPolicies limit lookup missing divisor).limit := Tree.level_le_of_walk hfits
  induction t generalizing level p w with
  | const x s => exact ⟨x, p, value_const x s p hlevel, rfl, hhost⟩
  | var name =>
      rw [value_var name p hlevel, Tree.walk, Walk.run_singleton]
      cases hname : lookup name with
      | some x =>
          have hfound : (ofPolicies limit lookup missing divisor).lookup name = some x := hname
          rw [hfound, Walk.step_present hname]
          exact ⟨x.getD 0.0, p, rfl, rfl, hhost⟩
      | none =>
          have hfound : (ofPolicies limit lookup missing divisor).lookup name = none := hname
          rw [hfound, Walk.step_absent hname, hhost]
          exact ⟨_, _, rfl, rfl, rfl⟩
  | binary op l r s ihl ihr =>
      rw [Tree.walk, List.forall_mem_append, List.forall_mem_append] at hfits
      obtain ⟨x, q, hl, hlvalues, hlhost⟩ := ihl hfits.1.1 hhost (Tree.level_le_of_walk hfits.1.1)
      obtain ⟨y, q', hr, hrvalues, hrhost⟩ := ihr hfits.1.2 hlhost (Tree.level_le_of_walk hfits.1.2)
      rw [hlvalues] at hrvalues
      rw [value_binary op l r s p hlevel, hl, Tree.walk, Walk.run_append, Walk.run_append,
        Walk.run_singleton]
      dsimp only
      rw [hr]
      by_cases hzero : op = .divide ∧ Double.IsZero y
      · rw [Walk.step_zero hrvalues hzero, hrhost]
        dsimp only
        rw [if_pos ((isZeroDivision_iff op y).mpr hzero)]
        exact ⟨_, _, rfl, rfl, rfl⟩
      · rw [Walk.step_apply hrvalues hzero]
        dsimp only
        rw [if_neg (mt (isZeroDivision_iff op y).mp hzero)]
        exact ⟨_, _, rfl, rfl, hrhost⟩

/-- Where a node lies too deep, the evaluation fails, and leaves the host as the walk up to the first
such node does. -/
theorem value_eq_run_of_deep {t : Tree} (hdeep : ¬ ∀ n ∈ t.walk level, n.1 ≤ limit) {p : Progress σ}
    {w : Walk σ} (hhost : w.host = p.host) :
    ∃ q, (ofPolicies limit lookup missing divisor).value level t p =
        (.error (.tooDeep limit .evaluation), q) ∧
      (w.run lookup missing divisor (t.due limit level)).host = q.host := by
  have hstop : ∀ {t : Tree} {level : Nat} {p : Progress σ} {w : Walk σ}, limit < level →
      w.host = p.host → ∃ q, (ofPolicies limit lookup missing divisor).value level t p =
          (.error (.tooDeep limit .evaluation), q) ∧
        (w.run lookup missing divisor (t.due limit level)).host = q.host := by
    intro t level p w hlevel hhost
    rw [t.due_of_lt hlevel]
    exact ⟨p, value_of_lt t p hlevel, hhost⟩
  induction t generalizing level p w with
  | const x s => exact hstop (by simpa [Tree.walk] using hdeep) hhost
  | var name => exact hstop (by simpa [Tree.walk] using hdeep) hhost
  | binary op l r s ihl ihr =>
      by_cases hlevel : limit < level
      · exact hstop hlevel hhost
      · have hle : level ≤ (ofPolicies limit lookup missing divisor).limit := Nat.le_of_not_lt hlevel
        rw [value_binary op l r s p hle]
        by_cases hl : ∀ n ∈ l.walk (level + 1), n.1 ≤ limit
        · -- The left operand is walked to its end, so the node lies in the right one.
          obtain ⟨x, q, hlvalue, -, hlhost⟩ := value_eq_run lookup missing divisor hl hhost
          have hr : ¬ ∀ n ∈ r.walk (level + 1), n.1 ≤ limit := by
            intro hr
            apply hdeep
            rw [Tree.walk, List.forall_mem_append, List.forall_mem_append]
            exact ⟨⟨hl, hr⟩, List.forall_mem_singleton.mpr hle⟩
          obtain ⟨q', hrvalue, hrhost⟩ := ihr hr hlhost
          rw [hlvalue, Tree.due_binary_of_left hl hr, Walk.run_append]
          dsimp only
          rw [hrvalue]
          exact ⟨q', rfl, hrhost⟩
        · obtain ⟨q, hlvalue, hlhost⟩ := ihl hl hhost
          rw [hlvalue, Tree.due_binary_of_not_left hl]
          exact ⟨q, rfl, hlhost⟩

end Setting

namespace Walk

variable {σ : Type} {lookup : Lookup} {missing : MissingPolicy σ} {divisor : DivisorPolicy σ}

/-- The walk with a host that has noted the questions. -/
def noted (w : Walk σ) : Walk (σ × List Call) := ⟨w.values, (w.host, w.calls), w.calls⟩

/-- The notes of the host grow as the calls of the walk do. -/
theorem step_noted (w : Walk σ) (n : Node) :
    w.noted.step lookup (Policy.noteMissing missing) (Policy.noteDivisor divisor) n =
      (w.step lookup missing divisor n).noted := by
  cases n with
  | const x s => rfl
  | var name =>
      cases hname : lookup name with
      | some x =>
          rw [step_present hname, step_present hname]
          rfl
      | none =>
          rw [step_absent hname, step_absent hname]
          rfl
  | binary op s =>
      obtain ⟨values, host, calls⟩ := w
      match values with
      | [] => rfl
      | [y] => rfl
      | y :: x :: below =>
          by_cases hzero : op = .divide ∧ Double.IsZero y
          · rw [step_zero rfl hzero, step_zero rfl hzero]
            rfl
          · rw [step_apply rfl hzero, step_apply rfl hzero]
            rfl

/-- **A host that notes the questions notes those of the walk.** -/
theorem run_noted (w : Walk σ) (nodes : List (Nat × Node)) :
    w.noted.run lookup (Policy.noteMissing missing) (Policy.noteDivisor divisor) nodes =
      (w.run lookup missing divisor nodes).noted := by
  induction nodes generalizing w with
  | nil => rfl
  | cons n nodes ih =>
      have hstep := ih (w.step lookup missing divisor n.2)
      rwa [← step_noted] at hstep

end Walk

namespace Setting

variable {σ : Type} (limit : Nat) (lookup : Lookup) (missing : MissingPolicy σ)
  (divisor : DivisorPolicy σ)

/-- An evaluation with policies leaves the host as the walk up to the first node that lies too deep does.
It has a value if there is no such node, and fails if there is one. -/
theorem evaluate_ofPolicies (t : Tree) (host : σ) :
    let due := (Walk.start host).run lookup missing divisor (t.due limit 0)
    let outcome := (ofPolicies limit lookup missing divisor).evaluate t host
    outcome.host = due.host ∧
      ((∀ n ∈ t.walk 0, n.1 ≤ limit) → ∃ x, due.values = [x] ∧ outcome.result = .ok x) ∧
      ((∃ n ∈ t.walk 0, limit < n.1) → outcome.result = .error (.tooDeep limit .evaluation)) := by
  intro due outcome
  have hnot : (∃ n ∈ t.walk 0, limit < n.1) ↔ ¬ ∀ n ∈ t.walk 0, n.1 ≤ limit := by simp
  rw [hnot]
  by_cases hfits : ∀ n ∈ t.walk 0, n.1 ≤ limit
  · obtain ⟨x, q, hvalue, hvalues, hhost⟩ := value_eq_run lookup missing divisor hfits
      (p := ⟨host, []⟩) (w := .start host) rfl
    rw [← Tree.due_eq_walk hfits] at hvalues hhost
    refine ⟨?_, fun _ => ⟨x, hvalues, ?_⟩, fun hdeep => absurd hfits hdeep⟩
    · exact (congrArg (fun o => o.2.host) hvalue).trans hhost.symm
    · exact congrArg Prod.fst hvalue
  · obtain ⟨q, hvalue, hhost⟩ := value_eq_run_of_deep lookup missing divisor hfits
      (p := ⟨host, []⟩) (w := .start host) rfl
    refine ⟨?_, fun h => absurd h hfits, fun _ => ?_⟩
    · exact (congrArg (fun o => o.2.host) hvalue).trans hhost.symm
    · exact congrArg Prod.fst hvalue

end Setting

/-- **An evaluation asks what the walk asks.**  Up to the first node that lies too deep, the host is asked
once for every variable without an entry and once for every division by zero, and for nothing else, in
the order of the walk, which is that of the listing in post-order.  The evaluation has a value if no node
lies too deep. -/
theorem Tree.evaluateByPolicies_eq_walk {σ : Type} (limit : Nat) (lookup : Lookup)
    (missing : MissingPolicy σ) (divisor : DivisorPolicy σ) (host : σ) (t : Tree) :
    let due := (Walk.start host).run lookup missing divisor (t.due limit 0)
    let outcome := t.evaluateByPolicies limit lookup (Policy.noteMissing missing)
      (Policy.noteDivisor divisor) (host, [])
    outcome.host = (due.host, due.calls) ∧
      ((∀ n ∈ t.walk 0, n.1 ≤ limit) → ∃ x, due.values = [x] ∧ outcome.result = .ok x) ∧
      ((∃ n ∈ t.walk 0, limit < n.1) → outcome.result = .error (.tooDeep limit .evaluation)) ∧
      (t.walk 0).map Prod.snd = t.postOrder := by
  have hdue : (Walk.start (host, [])).run lookup (Policy.noteMissing missing)
      (Policy.noteDivisor divisor) (t.due limit 0) =
        ((Walk.start host).run lookup missing divisor (t.due limit 0)).noted :=
    (Walk.start host).run_noted _
  have houtcome := Setting.evaluate_ofPolicies limit lookup (Policy.noteMissing missing)
    (Policy.noteDivisor divisor) t (host, [])
  rw [hdue] at houtcome
  obtain ⟨hhost, hvalue, hdeep⟩ := houtcome
  exact ⟨hhost, hvalue, hdeep, t.map_snd_walk 0⟩

end InfixFormula
