import InfixFormula.Proofs.Depth

/-!
# Strict values

Where nothing is asked of a host, the value of a tree depends on the outline and the variables alone.
`Outline.strictValue` is that value, without levels and without progress.  An evaluation finds it if the
limit has room for the tree (`Tree.result_eq_strictValue`), and whenever it finds a value at all
(`Tree.strictValue_of_result`).

Putting an outline in for a variable is giving the variable its value (`Outline.strictValue_bind`).
-/

namespace InfixFormula

namespace Outline

/-- The number of levels.  A leaf has one. -/
def depth : Outline → Nat
  | const _ => 1
  | var _ => 1
  | binary _ left right => 1 + max left.depth right.depth

/-- The value over the variables: a missing variable is an error, a quotient by zero is zero. -/
def strictValue (lookup : Lookup) : Outline → Except Error Float
  | const x => .ok x
  | var name =>
      match lookup name with
      | some x => .ok (x.getD 0.0)
      | none => .error (.missingVariable name)
  | binary op left right =>
      match left.strictValue lookup with
      | .error e => .error e
      | .ok x =>
          match right.strictValue lookup with
          | .error e => .error e
          | .ok y => if Setting.isZeroDivision op y then .ok 0.0 else .ok (op.apply x y)

/-- The outline with `u` in place of each variable `x`. -/
def bind : Outline → Text → Outline → Outline
  | const y, _, _ => const y
  | var name, x, u => if name = x then u else var name
  | binary op left right, x, u => binary op (left.bind x u) (right.bind x u)

/-- Every outline has a level. -/
theorem depth_pos (o : Outline) : 0 < o.depth := by
  cases o <;> simp only [depth] <;> omega

/-- Putting an outline in place of a name adds fewer levels than the outline has. -/
theorem depth_bind_lt (o : Outline) (x : Text) (u : Outline) :
    (o.bind x u).depth < o.depth + u.depth := by
  have hu := u.depth_pos
  induction o with
  | const y =>
      rw [bind, depth]
      omega
  | var name =>
      rw [bind, depth]
      split
      · omega
      · rw [depth]
        omega
  | binary op l r ihl ihr =>
      rw [bind, depth, depth]
      omega

end Outline

/-- The variables with the value `v` for `x`. -/
def Lookup.bind (lookup : Lookup) (x : Text) (v : Float) : Lookup :=
  fun name => if name = x then some (some v) else lookup name

/-- **Putting in is giving a value.**  The value of `u` is all that matters where `u` stands for `x`. -/
theorem Outline.strictValue_bind {lookup : Lookup} {x : Text} {u : Outline} {v : Float}
    (hu : u.strictValue lookup = .ok v) (o : Outline) :
    (o.bind x u).strictValue lookup = o.strictValue (lookup.bind x v) := by
  induction o with
  | const y => rfl
  | var name =>
      rw [Outline.bind, strictValue, Lookup.bind]
      by_cases hname : name = x
      · rw [if_pos hname, if_pos hname, hu]
        rfl
      · rw [if_neg hname, if_neg hname, strictValue]
  | binary op l r ihl ihr => rw [Outline.bind, strictValue, strictValue, ihl, ihr]

namespace Tree

/-- A tree has the levels of its outline. -/
theorem depth_outline (t : Tree) : t.outline.depth = t.depth := by
  induction t with
  | const x s => rfl
  | var name => rfl
  | binary op l r s ihl ihr => rw [outline, Outline.depth, depth, ihl, ihr]

/-- The setting of a strict evaluation. -/
def strictSetting (limit : Nat) (lookup : Lookup) : Setting Unit where
  limit := limit
  lookup := lookup
  missing := fun name s => (.error (.missingVariable name), s)
  divisor := Policy.zero

/-- A strict evaluation runs into the limit or finds the strict value. -/
theorem value_eq_strictValue (limit : Nat) (lookup : Lookup) (t : Tree) (level : Nat)
    (p : Progress Unit) :
    ((strictSetting limit lookup).value level t p).1 = .error (.tooDeep limit .evaluation) ∨
      ((strictSetting limit lookup).value level t p).1 = t.outline.strictValue lookup := by
  induction level, t using Tree.induction_on_level limit generalizing p with
  | deep level t hlt =>
      left
      rw [Setting.value_of_lt t p hlt]
      rfl
  | const level x s hle =>
      right
      rw [Setting.value_const x s p hle]
      rfl
  | var level name hle =>
      right
      have hlookup : (strictSetting limit lookup).lookup = lookup := rfl
      rw [Setting.value_var name p hle, hlookup, outline, Outline.strictValue]
      cases lookup name with
      | some x => rfl
      | none => rfl
  | binary level op l r s hle ihl ihr =>
      rw [Setting.value_binary op l r s p hle, outline, Outline.strictValue]
      have hl := ihl p
      cases hleft : (strictSetting limit lookup).value (level + 1) l p with
      | mk result q =>
          rw [hleft] at hl
          rcases hl with rfl | rfl
          · exact .inl rfl
          · cases l.outline.strictValue lookup with
            | error e => exact .inr rfl
            | ok x =>
                have hr := ihr q
                dsimp only
                cases hright : (strictSetting limit lookup).value (level + 1) r q with
                | mk result q' =>
                    rw [hright] at hr
                    rcases hr with rfl | rfl
                    · exact .inl rfl
                    · right
                      cases r.outline.strictValue lookup with
                      | error e => rfl
                      | ok y =>
                          dsimp only
                          split <;> rfl

/-- Where the limit has room for the tree, a strict evaluation finds the strict value. -/
theorem result_eq_strictValue {t : Tree} {limit : Nat} (h : t.depth ≤ limit + 1) (lookup : Lookup) :
    (t.evaluateStrictly limit lookup).result = t.outline.strictValue lookup := by
  rcases value_eq_strictValue limit lookup t 0 ⟨(), []⟩ with hdeep | hvalue
  · have hmissing := isMissingVariable_of_depth_le h hdeep
    cases hmissing
  · exact hvalue

/-- A value that a strict evaluation finds is the strict value. -/
theorem strictValue_of_result {t : Tree} {limit : Nat} {lookup : Lookup} {x : Float}
    (h : (t.evaluateStrictly limit lookup).result = .ok x) : t.outline.strictValue lookup = .ok x := by
  rcases value_eq_strictValue limit lookup t 0 ⟨(), []⟩ with hdeep | hvalue
  · cases hdeep.symm.trans h
  · exact hvalue.symm.trans h

end Tree

end InfixFormula
