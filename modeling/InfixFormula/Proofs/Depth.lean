import InfixFormula.Evaluation
import InfixFormula.Proofs.Grammar

/-!
# How deep a tree is

Reading counts bracket pairs, and evaluating counts the levels of the tree.  A chain of operators without
any brackets is a tree as deep as the chain is long, so a limit that is enough for reading may be too
small for evaluating (`Formula.exists_parsed_too_deep`).

Operators at one bracket level are what makes up the difference.  If there are no more than `width` of
them at any level, the tree has no more than `width` levels for each level of nesting, and one for the
leaf (`Phrase.depth_tree_le`).  So `width` times the limit of the reading is enough for evaluating
(`Formula.evaluates_of_parse`).
-/

namespace InfixFormula

namespace Text

/-- The largest number of operators at one bracket level.  At the level that is being read there have
been `here` so far, and at the open levels around it `around`, from the inside out. -/
def widthFrom (here : Nat) (around : List Nat) : Text → Nat
  | [] => around.foldr max here
  | c :: t =>
      if c = '(' then widthFrom 0 (here :: around) t
      else if c = ')' then max here (widthFrom (around.headD 0) around.tail t)
      else if (Operator.ofChar? c).isSome then widthFrom (here + 1) around t
      else widthFrom here around t

/-- The largest number of operators at one bracket level of the text. -/
def width (t : Text) : Nat := t.widthFrom 0 []

section Width

variable (here outer : Nat) (around : List Nat) (t : Text)

/-- A bracket pair is counted for itself. -/
theorem widthFrom_opening : widthFrom here around ('(' :: t) = widthFrom 0 (here :: around) t := rfl

/-- Behind a closing bracket, the count of the level around it goes on. -/
theorem widthFrom_closing :
    widthFrom here (outer :: around) (')' :: t) = max here (widthFrom outer around t) := rfl

/-- Each operator counts for the level that it stands on. -/
theorem widthFrom_symbol (op : Operator) :
    widthFrom here around (op.symbol :: t) = widthFrom (here + 1) around t := by
  cases op <;> rfl

/-- Operands and layout do not count. -/
theorem widthFrom_plain {u : Text} (hu : u.any Literal.isDelimiter = false) :
    widthFrom here around (u ++ t) = widthFrom here around t := by
  induction u with
  | nil => rfl
  | cons c u ih =>
      rw [List.any_cons, Bool.or_eq_false_iff] at hu
      have hopen : c ≠ '(' := by
        rintro rfl
        cases hu.1
      have hclose : c ≠ ')' := by
        rintro rfl
        cases hu.1
      have hother : ¬ (Operator.ofChar? c).isSome = true := by simp [Operator.ofChar?_eq_none hu.1]
      rw [List.cons_append, widthFrom, if_neg hopen, if_neg hclose, if_neg hother]
      exact ih hu.2

end Width

end Text

open Text

theorem Leaf.depth_tree (l : Leaf) (source : Source) : (l.tree source).depth = 1 := by
  cases l <;> rfl

namespace Phrase

variable {k : Kind} {buffer : Text}

/-- The number of operators at the bracket level of the phrase.  The sign of a sole leaf counts. -/
def operators : {k : Kind} → Phrase k → Nat
  | _, leaf _ _ => 0
  | _, pair _ => 0
  | _, operation _ left _ _ right _ _ => left.operators + 1 + right.operators
  | _, sole _ l _ => if l.isSigned then 1 else 0
  | _, compound _ inner _ _ _ => inner.operators

/-- The largest number of operators at one level in the bracket pairs of the phrase. -/
def innerWidth : {k : Kind} → Phrase k → Nat
  | _, leaf _ _ => 0
  | _, pair inside => max inside.operators inside.innerWidth
  | _, operation _ left _ _ right _ _ => max left.innerWidth right.innerWidth
  | _, sole _ _ _ => 0
  | _, compound _ inner _ _ _ => inner.innerWidth

/-- A sign counts as the operator that it looks like. -/
theorem widthFrom_leaf (l : Leaf) (here : Nat) (around : List Nat) (t : Text) :
    widthFrom here around (l.text ++ t) = widthFrom (here + if l.isSigned then 1 else 0) around t := by
  rw [Leaf.text_eq]
  split
  · rw [List.cons_append, show '-' = Operator.subtract.symbol from rfl, widthFrom_symbol,
      widthFrom_plain _ _ _ l.any_isDelimiter_body]
  · rw [widthFrom_plain _ _ _ l.any_isDelimiter_body, Nat.add_zero]

/-- Counting over a phrase adds its operators to the level, and leaves the levels around as they are. -/
theorem widthFrom_text (p : Phrase k) (here : Nat) (around : List Nat) (t : Text) :
    widthFrom here around (p.text ++ t) =
      max p.innerWidth (widthFrom (here + p.operators) around t) := by
  have hlayout : ∀ (w : Layout) (here : Nat) (t : Text),
      widthFrom here around (w.text ++ t) = widthFrom here around t :=
    fun w here t => widthFrom_plain here around t w.any_isDelimiter
  induction p generalizing here around t with
  | leaf l hl =>
      rw [text, widthFrom_leaf, hl, innerWidth, operators, Nat.zero_max]
      rfl
  | pair inside ih =>
      have hinside := ih 0 (here :: around) (')' :: t)
        (fun w here t => widthFrom_plain here _ t w.any_isDelimiter)
      rw [text, List.cons_append, widthFrom_opening, List.append_assoc, List.singleton_append, hinside,
        widthFrom_closing, innerWidth, operators, Nat.zero_add, Nat.add_zero]
      omega
  | operation op left before after right hleft hright ihl ihr =>
      have hright := ihr (here + left.operators + 1) around t hlayout
      rw [text, List.append_assoc, List.append_assoc, ihl _ _ _ hlayout, hlayout, List.cons_append,
        widthFrom_symbol, List.append_assoc, hlayout, hright, innerWidth, operators, Nat.max_assoc]
      simp only [Nat.add_assoc]
  | sole before l after =>
      rw [text, List.append_assoc, List.append_assoc, hlayout, widthFrom_leaf, hlayout, innerWidth,
        operators, Nat.zero_max]
  | compound before inner after hleaf hcontent ih =>
      rw [text, List.append_assoc, List.append_assoc, hlayout, ih _ _ _ hlayout, hlayout, innerWidth,
        operators]

/-- The width of a content is that of its widest level. -/
theorem width_text (c : Phrase k) : c.text.width = max c.innerWidth c.operators := by
  have hwhole := c.widthFrom_text 0 [] []
  rw [List.append_nil, Nat.zero_add] at hwhole
  exact hwhole

example : Text.width "a+b*(c-d)/e".toList = 3 := by decide

/-- **Depth.**  A level of nesting adds no more levels to the tree than it has operators. -/
theorem depth_tree_le (p : Phrase k) {width : Nat} (hinner : p.innerWidth ≤ width) (start : Nat) :
    (p.tree buffer start).depth ≤ p.operators + width * p.nesting + 1 ∧
      (k = .content → p.operators ≤ width → (p.tree buffer start).depth ≤ width * p.nesting + 1) := by
  induction p generalizing start with
  | leaf l hl =>
      rw [tree, Leaf.operand, Leaf.depth_tree]
      exact ⟨by omega, fun _ _ => by omega⟩
  | pair inside ih =>
      rw [innerWidth, Nat.max_le] at hinner
      have hinside := (ih hinner.2 (start + 1)).2 rfl hinner.1
      refine ⟨?_, by simp⟩
      rw [tree, operators, nesting]
      omega
  | operation op left before after right hleft hright ihl ihr =>
      rw [innerWidth, Nat.max_le] at hinner
      have hl := (ihl hinner.1 start).1
      have hr := (ihr hinner.2 (left.rightStart before after start)).1
      have hlnesting := Nat.mul_le_mul_left width (Nat.le_max_left left.nesting right.nesting)
      have hrnesting := Nat.mul_le_mul_left width (Nat.le_max_right left.nesting right.nesting)
      refine ⟨?_, by simp⟩
      rw [tree, Tree.depth, operators, nesting]
      omega
  | sole before l after =>
      rw [tree, Leaf.operand, Leaf.depth_tree]
      exact ⟨by omega, fun _ _ => by omega⟩
  | compound before inner after hkind hcontent ih =>
      have hinner' := (ih hinner (start + before.text.length)).1
      rw [tree, operators, nesting, Nat.mul_succ]
      exact ⟨by omega, fun _ _ => by omega⟩

/-- A text has no fewer characters than its tree has levels. -/
theorem depth_tree_le_length (p : Phrase k) (start : Nat) :
    (p.tree buffer start).depth ≤ p.text.length := by
  have hleaf : ∀ (l : Leaf) (source : Source), (l.tree source).depth ≤ l.text.length := by
    intro l source
    rw [l.depth_tree]
    exact List.length_pos_iff.mpr l.text_ne_nil
  induction p generalizing start with
  | leaf l hl => exact hleaf l _
  | pair inside ih =>
      have hinside := ih (start + 1)
      rw [tree, length_text_pair]
      omega
  | operation op left before after right hleft hright ihl ihr =>
      have hl := ihl start
      have hr := ihr (left.rightStart before after start)
      rw [tree, Tree.depth, length_text_operation]
      omega
  | sole before l after =>
      simp only [text, List.length_append]
      exact Nat.le_trans (hleaf l _) (by omega)
  | compound before inner after hkind hcontent ih =>
      have hinner := ih (start + before.text.length)
      simp only [tree, text, List.length_append]
      omega

end Phrase

namespace Setting

variable {σ : Type} {env : Setting σ} {Q : Except Error Float → Prop}

/-- What holds of all values, and of all answers for variables without an entry, holds of the result of a
tree that does not lie too deep. -/
theorem value_of_fits (hok : ∀ x, Q (.ok x)) (hmissing : ∀ name s, Q (env.missing name s).1) {t : Tree}
    {level : Nat} (hfits : level + t.depth ≤ env.limit + 1) (p : Progress σ) :
    Q (env.value level t p).1 := by
  induction level, t using Tree.induction_on_level env.limit generalizing p with
  | deep level t hlt =>
      have hpos := t.depth_pos
      omega
  | const level x s hle =>
      rw [value_const x s p hle]
      exact hok x
  | var level name hle =>
      rw [value_var name p hle]
      cases env.lookup name with
      | some x => exact hok _
      | none => exact hmissing name p.host
  | binary level op l r s hle ihl ihr =>
      rw [Tree.depth] at hfits
      have hl : Q (env.value (level + 1) l p).1 := ihl (by omega) p
      rw [value_binary op l r s p hle]
      cases hvalue : env.value (level + 1) l p with
      | mk result q =>
          rw [hvalue] at hl
          cases result with
          | error e => exact hl
          | ok x =>
              have hr : Q (env.value (level + 1) r q).1 := ihr (by omega) q
              dsimp only
              cases hvalue' : env.value (level + 1) r q with
              | mk result' q' =>
                  rw [hvalue'] at hr
                  cases result' with
                  | error e => exact hr
                  | ok y =>
                      dsimp only
                      split
                      · exact hok _
                      · exact hok _

end Setting

namespace Tree

variable {t : Tree} {limit : Nat}

/-- With policies, a tree that does not lie too deep has a value. -/
theorem exists_value_of_depth_le (h : t.depth ≤ limit + 1) {σ : Type} (lookup : Lookup)
    (missing : MissingPolicy σ) (divisor : DivisorPolicy σ) (host : σ) :
    ∃ x, (t.evaluateByPolicies limit lookup missing divisor host).result = .ok x := by
  apply Setting.value_of_fits (Q := fun result => ∃ x, result = .ok x)
  · exact fun x => ⟨x, rfl⟩
  · exact fun name s => ⟨_, rfl⟩
  · simpa using h

/-- Without policies, nothing can go wrong with such a tree but a missing variable. -/
theorem isMissingVariable_of_depth_le (h : t.depth ≤ limit + 1) {lookup : Lookup} {e : Error}
    (he : (t.evaluateStrictly limit lookup).result = .error e) : e.isMissingVariable = true := by
  have hresult : ∀ e, (t.evaluateStrictly limit lookup).result = .error e →
      e.isMissingVariable = true := by
    apply Setting.value_of_fits (Q := fun result => ∀ e, result = .error e → e.isMissingVariable = true)
    · intro x e he
      cases he
    · intro name s e he
      cases he
      rfl
    · simpa using h
  exact hresult e he

end Tree

/-- **Reading and evaluating.**  Where a text is read within a limit, and no bracket level has more
operators than `width`, the formula is evaluated within `width` times the limit: with policies it has a
value, and without them only a variable can be missing. -/
theorem Formula.evaluates_of_parse {limit width : Nat} {text : Text} {f : Formula}
    (h : Formula.parse limit text = .ok f) (hwidth : (Bracket.ascii text).width ≤ width)
    (lookup : Lookup) :
    (∀ {σ : Type} (missing : MissingPolicy σ) (divisor : DivisorPolicy σ) (host : σ), ∃ x,
      (f.tree.evaluateByPolicies (width * limit) lookup missing divisor host).result = .ok x) ∧
    ∀ e, (f.tree.evaluateStrictly (width * limit) lookup).result = .error e →
      e.isMissingVariable = true := by
  obtain ⟨c, hc, hnesting, htree⟩ := Tree.parse_eq_ok_iff.mp (Formula.parse_eq_ok_iff.mp h).1
  rw [← hc, c.width_text, Nat.max_le] at hwidth
  have hdepth : f.tree.depth ≤ width * limit + 1 := by
    rw [htree]
    calc (c.tree (Bracket.ascii text) 0).depth
        ≤ width * c.nesting + 1 := (c.depth_tree_le hwidth.1 0).2 rfl hwidth.2
      _ ≤ width * limit + 1 := Nat.succ_le_succ (Nat.mul_le_mul_left width hnesting)
  exact ⟨Tree.exists_value_of_depth_le hdepth lookup, fun e => Tree.isMissingVariable_of_depth_le hdepth⟩

/-- Two levels of brackets with one operator each. -/
theorem Formula.evaluates_of_sample :
    ∃ f, Formula.parse 2 "（1 + x） * 2%".toList = .ok f ∧
      (Bracket.ascii "（1 + x） * 2%".toList).width ≤ 1 ∧
      ∃ x, (f.tree.evaluateByPolicies 2 (fun _ => none) Policy.nothing Policy.zero ()).result = .ok x := by
  obtain ⟨f, hf⟩ := Formula.exists_parse_sample
  have hwidth : (Bracket.ascii "（1 + x） * 2%".toList).width ≤ 1 := by decide
  have hvalue := (Formula.evaluates_of_parse hf hwidth (fun _ => none)).1 Policy.nothing Policy.zero ()
  exact ⟨f, hf, hwidth, hvalue⟩

/-- A chain of operators is read within a limit that is too small for evaluating it. -/
theorem Formula.exists_parsed_too_deep :
    ∃ f, Formula.parse 1 "a+a+a".toList = .ok f ∧
      (f.tree.evaluateByPolicies 1 (fun _ => some (some 1.0)) Policy.nothing Policy.zero ()).result =
        .error (.tooDeep 1 .evaluation) :=
  ⟨⟨_, _, Dict.empty⟩, Formula.parse_eq_ok_iff.mpr ⟨Tree.parse_threeAddends, rfl, rfl⟩, rfl⟩

end InfixFormula
