import InfixFormula.Proofs.PureValue

/-!
# What stops a strict evaluation

Without policies, a node that lies too deep stops an evaluation, and so does a variable without an entry.
The error is the first such obstacle on the walk through the tree (`Tree.exists_value_eq_obstacle`).

Where the limit has room for the tree, the only obstacles are missing variables, and the names of the tree
tell whether there is one and which comes first (`Tree.findSome?_obstacle?_walk`).  So a host that has
checked the names knows the outcome before it evaluates (`Tree.evaluateStrictly_names`).
-/

namespace InfixFormula

/-- The first that passes a test is the first still when repetitions are dropped. -/
theorem find?_eraseDups {α : Type} [BEq α] [LawfulBEq α] (p : α → Bool) (l : List α) :
    l.eraseDups.find? p = l.find? p := by
  cases l with
  | nil => rfl
  | cons a l =>
      have hshort : (l.filter (fun b => !b == a)).length < l.length + 1 :=
        Nat.lt_succ_of_le (List.length_filter_le _ _)
      rw [List.eraseDups_cons, List.find?_cons, List.find?_cons, find?_eraseDups p (l.filter _)]
      cases hp : p a with
      | true => rfl
      | false =>
          -- What was dropped is equal to `a`, which does not pass.
          dsimp only
          rw [List.find?_filter]
          congr 1
          funext b
          by_cases hb : b = a
          · simp [hb, hp]
          · simp [hb]
termination_by l.length

namespace Tree

/-- What stops a strict evaluation at a node, if anything does. -/
def obstacle? (limit : Nat) (lookup : Lookup) : Nat × Node → Option Error
  | (level, node) =>
      if limit < level then some (.tooDeep limit .evaluation)
      else
        match node with
        | .const _ _ => none
        | .var name => if (lookup name).isNone then some (.missingVariable name) else none
        | .binary _ _ => none

/-- The first obstacle on the walk from the root. -/
def firstObstacle? (limit : Nat) (lookup : Lookup) (t : Tree) : Option Error :=
  (t.walk 0).findSome? (obstacle? limit lookup)

section Walk

variable {limit level : Nat} {lookup : Lookup}

/-- A node that lies too deep is an obstacle, whatever it is. -/
theorem obstacle?_of_lt (n : Nat × Node) (h : limit < n.1) :
    obstacle? limit lookup n = some (.tooDeep limit .evaluation) := by
  obtain ⟨level, node⟩ := n
  exact if_pos h

/-- A variable is an obstacle if it has no entry. -/
theorem obstacle?_var (name : Text) (h : level ≤ limit) :
    obstacle? limit lookup (level, .var name) =
      if (lookup name).isNone then some (.missingVariable name) else none := by
  rw [obstacle?, if_neg (Nat.not_lt.mpr h)]

/-- No constant is an obstacle. -/
theorem obstacle?_const (x : Float) (s : Source) (h : level ≤ limit) :
    obstacle? limit lookup (level, .const x s) = none := by
  rw [obstacle?, if_neg (Nat.not_lt.mpr h)]

/-- No operation is an obstacle, not even a division by zero. -/
theorem obstacle?_binary (op : Operator) (s : Source) (h : level ≤ limit) :
    obstacle? limit lookup (level, .binary op s) = none := by
  rw [obstacle?, if_neg (Nat.not_lt.mpr h)]

/-- A tree below the limit is met at its first node. -/
theorem findSome?_obstacle?_of_lt (t : Tree) (h : limit < level) :
    (t.walk level).findSome? (obstacle? limit lookup) = some (.tooDeep limit .evaluation) := by
  induction t generalizing level with
  | const x s => rw [walk, List.findSome?_singleton, obstacle?_of_lt _ h]
  | var name => rw [walk, List.findSome?_singleton, obstacle?_of_lt _ h]
  | binary op l r s ihl ihr =>
      rw [walk, List.findSome?_append, List.findSome?_append, ihl (Nat.lt_succ_of_lt h)]
      rfl

/-- An operation that does not lie too deep is no obstacle itself. -/
theorem findSome?_obstacle?_binary (op : Operator) (l r : Tree) (s : Source) (h : level ≤ limit) :
    ((binary op l r s).walk level).findSome? (obstacle? limit lookup) =
      ((l.walk (level + 1)).findSome? (obstacle? limit lookup)).or
        ((r.walk (level + 1)).findSome? (obstacle? limit lookup)) := by
  rw [walk, List.findSome?_append, List.findSome?_append, List.findSome?_singleton,
    obstacle?_binary op s h, Option.or_none]

/-- **The error is the first obstacle.**  Where there is no obstacle, there is a value. -/
theorem exists_value_eq_obstacle (t : Tree) (level : Nat) (p : Progress Unit) :
    ∃ x, ((strictSetting limit lookup).value level t p).1 =
      ((t.walk level).findSome? (obstacle? limit lookup)).elim (.ok x) .error := by
  induction level, t using Tree.induction_on_level limit generalizing p with
  | deep level t hlt =>
      rw [Setting.value_of_lt t p hlt, findSome?_obstacle?_of_lt t hlt]
      exact ⟨0.0, rfl⟩
  | const level x s hle =>
      rw [Setting.value_const x s p hle, walk, List.findSome?_singleton, obstacle?_const x s hle]
      exact ⟨x, rfl⟩
  | var level name hle =>
      have hlookup : (strictSetting limit lookup).lookup = lookup := rfl
      rw [Setting.value_var name p hle, walk, List.findSome?_singleton, obstacle?_var name hle, hlookup]
      cases lookup name with
      | some x => exact ⟨x.getD 0.0, rfl⟩
      | none => exact ⟨0.0, rfl⟩
  | binary level op l r s hle ihl ihr =>
      rw [Setting.value_binary op l r s p hle, findSome?_obstacle?_binary op l r s hle]
      obtain ⟨x, hl⟩ := ihl p
      cases hleft : (strictSetting limit lookup).value (level + 1) l p with
      | mk result q =>
          rw [hleft] at hl
          dsimp only at hl
          cases hfirst : (l.walk (level + 1)).findSome? (obstacle? limit lookup) with
          | some e =>
              rw [hfirst] at hl
              subst hl
              exact ⟨0.0, rfl⟩
          | none =>
              rw [hfirst] at hl
              subst hl
              obtain ⟨y, hr⟩ := ihr q
              dsimp only [Option.elim_none, Option.none_or]
              cases hright : (strictSetting limit lookup).value (level + 1) r q with
              | mk result q' =>
                  rw [hright] at hr
                  dsimp only at hr
                  rw [hr]
                  cases (r.walk (level + 1)).findSome? (obstacle? limit lookup) with
                  | some e => exact ⟨0.0, rfl⟩
                  | none =>
                      dsimp only [Option.elim_none]
                      split
                      · exact ⟨0.0, rfl⟩
                      · exact ⟨op.apply x y, rfl⟩

/-- Where no node lies too deep, the first obstacle is the first name without an entry. -/
theorem findSome?_obstacle?_walk (t : Tree) (h : ∀ n ∈ t.walk level, n.1 ≤ limit) :
    (t.walk level).findSome? (obstacle? limit lookup) =
      (t.names.find? (fun name => (lookup name).isNone)).map .missingVariable := by
  induction level, t using Tree.induction_on_level limit with
  | deep level t hlt => exact absurd (level_le_of_walk h) (Nat.not_le.mpr hlt)
  | const level x s hle =>
      rw [walk, List.findSome?_singleton, obstacle?_const x s hle]
      rfl
  | var level name hle =>
      rw [walk, List.findSome?_singleton, obstacle?_var name hle, names_var, List.find?_singleton]
      split <;> rfl
  | binary level op l r s hle ihl ihr =>
      rw [walk, List.forall_mem_append, List.forall_mem_append] at h
      rw [findSome?_obstacle?_binary op l r s hle, ihl h.1.1, ihr h.1.2, names_binary,
        List.find?_append, Option.map_or]

end Walk

variable (t : Tree) (limit : Nat) (lookup : Lookup)

/-- A strict evaluation fails with the first obstacle. -/
theorem result_eq_error_iff (e : Error) :
    (t.evaluateStrictly limit lookup).result = .error e ↔ t.firstObstacle? limit lookup = some e := by
  obtain ⟨x, hresult⟩ : ∃ x, (t.evaluateStrictly limit lookup).result =
      (t.firstObstacle? limit lookup).elim (.ok x) .error := t.exists_value_eq_obstacle 0 ⟨(), []⟩
  rw [hresult]
  cases t.firstObstacle? limit lookup with
  | none => simp
  | some e' => simp

/-- A strict evaluation has a value just if there is no obstacle. -/
theorem exists_result_iff :
    (∃ x, (t.evaluateStrictly limit lookup).result = .ok x) ↔ t.firstObstacle? limit lookup = none := by
  rw [Option.eq_none_iff_forall_ne_some]
  constructor
  · rintro ⟨x, hx⟩ e he
    cases hx.symm.trans ((t.result_eq_error_iff limit lookup e).mpr he)
  · intro hnone
    cases hresult : (t.evaluateStrictly limit lookup).result with
    | ok x => exact ⟨x, rfl⟩
    | error e => exact absurd ((t.result_eq_error_iff limit lookup e).mp hresult) (hnone e)

/-- An obstacle is a level below the limit or a variable without an entry. -/
theorem of_firstObstacle? {e : Error} (h : t.firstObstacle? limit lookup = some e) :
    e = .tooDeep limit .evaluation ∨ ∃ name, lookup name = none ∧ e = .missingVariable name := by
  obtain ⟨⟨level, node⟩, -, hnode⟩ := List.exists_of_findSome?_eq_some h
  rcases Nat.lt_or_ge limit level with hlt | hle
  · rw [obstacle?_of_lt (level, node) hlt] at hnode
    exact .inl (Option.some.inj hnode).symm
  · right
    cases node with
    | const x s => cases (obstacle?_const x s hle).symm.trans hnode
    | binary op s => cases (obstacle?_binary op s hle).symm.trans hnode
    | var name =>
        rw [obstacle?_var name hle] at hnode
        split at hnode
        · next hmissing =>
            exact ⟨name, Option.isNone_iff_eq_none.mp hmissing, (Option.some.inj hnode).symm⟩
        · cases hnode

/-- A tree that the limit has no room for has an obstacle. -/
theorem firstObstacle?_ne_none (h : limit < t.depth - 1) : t.firstObstacle? limit lookup ≠ none := by
  intro hnone
  have hfits : ∀ n ∈ t.walk 0, n.1 ≤ limit := by
    intro n hn
    by_contra hdeep
    have hfree := List.findSome?_eq_none_iff.mp hnone n hn
    rw [obstacle?_of_lt n (Nat.lt_of_not_le hdeep)] at hfree
    cases hfree
  rw [t.forall_mem_walk_iff] at hfits
  omega

/-- Where the limit has room for the tree, the first obstacle is the first name without an entry. -/
theorem firstObstacle?_of_fits (h : t.depth - 1 ≤ limit) :
    t.firstObstacle? limit lookup =
      (t.distinctNames.find? (fun name => (lookup name).isNone)).map .missingVariable := by
  have hfits : ∀ n ∈ t.walk 0, n.1 ≤ limit := by
    rw [t.forall_mem_walk_iff]
    omega
  rw [firstObstacle?, findSome?_obstacle?_walk t hfits, distinctNames, find?_eraseDups]

/-- With entries for all names the value is the one that policies find, and no policy for missing
variables is asked. -/
theorem result_of_present (h : t.depth - 1 ≤ limit)
    (hpresent : ∀ name ∈ t.distinctNames, (lookup name).isSome) {x : Float}
    (hx : (t.evaluateStrictly limit lookup).result = .ok x) {σ : Type} (missing : MissingPolicy σ)
    (host : σ) :
    (t.evaluateByPolicies limit lookup missing Policy.zero host).result = .ok x ∧
      (t.evaluateByPolicies limit lookup missing Policy.zero host).host = host := by
  have hnames : ∀ name ∈ t.names, (lookup name).isSome :=
    fun name hname => hpresent name (List.mem_eraseDups.mpr hname)
  have hfits : t.depth ≤ limit + 1 := by omega
  have hpure : .ok x = Except.ok (t.outline.pureValue (fun _ _ => 0.0) lookup) :=
    hx.symm.trans (evaluateStrictly_of_present hfits hnames)
  rw [hpure]
  exact evaluateByPolicies_of_present Policy.computes_zero (Q := fun s => s = host)
    (fun _ _ _ hs => hs) hfits hnames missing rfl

/-- **Strict evaluation and the names of the tree.**  Where the limit has room for the tree, there is a
value just if every name of the tree has an entry.  It is then the value with zero for quotients by zero
and any policy for missing variables, which is never asked.  Otherwise the first name without an entry is
missing.  Where the limit has no room for the tree, the error is the first obstacle on the walk: the limit,
or a variable without an entry. -/
theorem evaluateStrictly_names :
    (t.depth - 1 ≤ limit →
      ((∃ x, (t.evaluateStrictly limit lookup).result = .ok x) ↔
        ∀ name ∈ t.distinctNames, (lookup name).isSome) ∧
      (∀ x, (t.evaluateStrictly limit lookup).result = .ok x →
        ∀ {σ : Type} (missing : MissingPolicy σ) (host : σ),
          (t.evaluateByPolicies limit lookup (Policy.noteMissing missing) Policy.zero (host, [])).result =
              .ok x ∧
            (t.evaluateByPolicies limit lookup (Policy.noteMissing missing) Policy.zero (host, [])).host =
              (host, [])) ∧
      ∀ e, (t.evaluateStrictly limit lookup).result = .error e ↔
        ∃ name, t.distinctNames.find? (fun name => (lookup name).isNone) = some name ∧
          e = .missingVariable name) ∧
    (limit < t.depth - 1 →
      ∃ e, (t.evaluateStrictly limit lookup).result = .error e ∧
        t.firstObstacle? limit lookup = some e ∧
        (e = .tooDeep limit .evaluation ∨
          ∃ name, lookup name = none ∧ e = .missingVariable name)) := by
  constructor
  · intro hroom
    have hfirst := t.firstObstacle?_of_fits limit lookup hroom
    have hpresent : (∃ x, (t.evaluateStrictly limit lookup).result = .ok x) ↔
        ∀ name ∈ t.distinctNames, (lookup name).isSome := by
      rw [t.exists_result_iff, hfirst, Option.map_eq_none_iff, List.find?_eq_none]
      simp [Option.isSome_iff_ne_none]
    refine ⟨hpresent, ?_, ?_⟩
    · intro x hx σ missing host
      exact t.result_of_present limit lookup hroom (hpresent.mp ⟨x, hx⟩) hx _ _
    · intro e
      rw [t.result_eq_error_iff, hfirst, Option.map_eq_some_iff]
      simp only [eq_comm]
  · intro hdeep
    obtain ⟨e, he⟩ := Option.ne_none_iff_exists'.mp (t.firstObstacle?_ne_none limit lookup hdeep)
    exact ⟨e, (t.result_eq_error_iff limit lookup e).mpr he, he, t.of_firstObstacle? limit lookup he⟩

end Tree

end InfixFormula
