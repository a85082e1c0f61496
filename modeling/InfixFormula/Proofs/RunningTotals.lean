import InfixFormula.Proofs.Depth
import InfixFormula.Proofs.PureValue

/-!
# Running totals

A formula can be calculated without any tree, in one pass from left to right that keeps a running product
and the sum in front of it (`Totals`).  A multiplicative operator changes the product.  An additive one
puts the finished product into the sum and starts a new product, and its sign waits until that one is
finished too.

To say what the pass goes over, formulas are written down once more, without a word about precedence: a
writing is operands with operators between them (`Writing`).  Whatever is written so is read, and nothing
else is (`Formula.exists_parse_iff_writing`).  Its evaluation, which joins products first and sums
afterwards and then walks the tree, comes to exactly what the pass comes to
(`Formula.result_eq_totals`).  Doubles must not be regrouped, so the two have to do the same operations
on the same operands.  That they do is shown on the two passes over a chain: at every operand, what the
second pass will make of the rest is what the single pass makes of it (`Chain.pureValue_joined`).
-/

namespace InfixFormula

/-- A product so far, and what it will be added to or subtracted from: the sum so far and the sign, if
the product is not the first. -/
structure Totals where
  pending : Option (Float × Operator)
  product : Float

namespace Totals

/-- The sum with the product.  Only additive operators are signs that wait. -/
def finished : Totals → Float
  | ⟨none, product⟩ => product
  | ⟨some (sum, .subtract), product⟩ => sum - product
  | ⟨some (sum, _), product⟩ => sum + product

/-- Goes on with an operator and an operand. -/
def step (quotient : Float → Float → Float) (t : Totals) : Operator → Float → Totals
  | .multiply, x => { t with product := t.product * x }
  | .divide, x =>
      { t with product := if Double.IsZero x then quotient t.product x else t.product / x }
  | .add, x => ⟨some (t.finished, .add), x⟩
  | .subtract, x => ⟨some (t.finished, .subtract), x⟩

variable (quotient : Float → Float → Float) {op : Operator}

/-- A multiplicative operator goes on with the product, and the sum waits on. -/
theorem step_multiplicative (h : op.isMultiplicative = true) (t : Totals) (x : Float) :
    t.step quotient op x = { t with product := op.pureApply quotient t.product x } := by
  cases op with
  | add => cases h
  | subtract => cases h
  | multiply => rfl
  | divide =>
      have hzero : Setting.isZeroDivision .divide x = true ↔ Double.IsZero x := by
        simp [Setting.isZeroDivision_iff]
      simp only [step, Operator.pureApply, Operator.apply, hzero]

/-- An additive operator closes the product, and waits with the sum for the next one. -/
theorem step_additive (h : op.isMultiplicative = false) (t : Totals) (x : Float) :
    t.step quotient op x = ⟨some (t.finished, op), x⟩ := by
  cases op with
  | add => rfl
  | subtract => rfl
  | multiply => cases h
  | divide => cases h

/-- When the product is finished, the sign that waited is applied. -/
theorem finished_pending (h : op.isMultiplicative = false) (sum product : Float) :
    finished ⟨some (sum, op), product⟩ = op.pureApply quotient sum product := by
  cases op with
  | add => rfl
  | subtract => rfl
  | multiply => cases h
  | divide => cases h

end Totals

section Passes

variable (quotient : Float → Float → Float) (lookup : Lookup)

/-- What the operand is worth. -/
def Operand.pureValue (o : Operand) : Float := o.tree.outline.pureValue quotient lookup

namespace Chain

/-- The pass over the values of operands with operators in front of them. -/
def totalsFrom (t : Totals) (links : List (Operator × Operand)) : Totals :=
  links.foldl (fun t link => t.step quotient link.1 (link.2.pureValue quotient lookup)) t

/-- The pass over a chain. -/
def totals (c : Chain) : Totals :=
  totalsFrom quotient lookup ⟨none, c.first.pureValue quotient lookup⟩ c.links

/-- The operand, joined to the sum that waits in front of it. -/
def joined (buffer : Text) (o : Operand) : Option (Operand × Operator) → Operand
  | none => o
  | some (left, op) => operation buffer op left o

variable {quotient lookup} {buffer : Text} {op : Operator}

theorem pureValue_operation (buffer : Text) (op : Operator) (left right : Operand) :
    (operation buffer op left right).pureValue quotient lookup =
      op.pureApply quotient (left.pureValue quotient lookup) (right.pureValue quotient lookup) :=
  rfl

/-- A link at the end of a chain is one more step of the pass. -/
theorem totals_join (c : Chain) (op : Operator) (o : Operand) :
    (c.join op ⟨o, []⟩).totals quotient lookup =
      (c.totals quotient lookup).step quotient op (o.pureValue quotient lookup) := by
  simp [totals, totalsFrom, join]

/-- The sum and the sign that wait in front of a product, by their values. -/
def waiting (quotient : Float → Float → Float) (lookup : Lookup) :
    Option (Operand × Operator) → Option (Float × Operator) :=
  Option.map fun p => (p.1.pureValue quotient lookup, p.2)

/-- A sum that waits by its value is the value of the sum that waits as a tree. -/
theorem finished_joined (buffer : Text) (pending : Option (Operand × Operator))
    (h : ∀ p ∈ pending, p.2.isMultiplicative = false) (o : Operand) :
    Totals.finished ⟨waiting quotient lookup pending, o.pureValue quotient lookup⟩ =
      (joined buffer o pending).pureValue quotient lookup := by
  cases pending with
  | none => rfl
  | some p =>
      rw [joined, pureValue_operation]
      exact Totals.finished_pending quotient (h p rfl) _ _

/-- **Two passes and one.**  The second pass over what the first makes of the operands, with a sum that
waits in front of them, comes to what the single pass comes to. -/
theorem pureValue_joined (links : List (Operator × Operand)) (running : Operand)
    (pending : Option (Operand × Operator)) (h : ∀ p ∈ pending, p.2.isMultiplicative = false) :
    let later := products buffer running links
    (sum buffer ⟨joined buffer later.first pending, later.links⟩).pureValue quotient lookup =
      (totalsFrom quotient lookup
        ⟨waiting quotient lookup pending, running.pureValue quotient lookup⟩ links).finished := by
  induction links generalizing running pending with
  | nil => exact (finished_joined buffer pending h running).symm
  | cons link links ih =>
      obtain ⟨op, o⟩ := link
      rw [totalsFrom, List.foldl_cons]
      cases hop : op.isMultiplicative with
      | true =>
          have hstep := Totals.step_multiplicative quotient hop
            ⟨waiting quotient lookup pending, running.pureValue quotient lookup⟩
            (o.pureValue quotient lookup)
          rw [hstep, products, if_pos hop, ← pureValue_operation buffer op running o]
          exact ih (operation buffer op running o) pending h
      | false =>
          -- The product is finished, so it joins the sum, which now waits behind the new operator.
          have hstep := Totals.step_additive quotient hop
            ⟨waiting quotient lookup pending, running.pureValue quotient lookup⟩
            (o.pureValue quotient lookup)
          have hne : ¬ op.isMultiplicative = true := by simp [hop]
          rw [hstep, products, if_neg hne, finished_joined buffer pending h]
          refine ih o (some (joined buffer running pending, op)) ?_
          rintro p ⟨⟩
          exact hop

/-- A chain is worth what the pass over it comes to. -/
theorem pureValue_operand (c : Chain) :
    (c.operand buffer).pureValue quotient lookup = (c.totals quotient lookup).finished :=
  pureValue_joined c.links c.first none (by simp)

end Chain

end Passes

/-- What is written down: one operand, operands with operators between them, or all that stands between
two brackets or the ends of the text. -/
inductive Shape where
  | atom
  | run
  | content
  deriving DecidableEq

/-- A formula as it is written down, with nothing about which operators go first. -/
inductive Writing : Shape → Type where
  | leaf (l : Leaf) (hl : l.isSigned = false) : Writing .atom
  | pair (inside : Writing .content) : Writing .atom
  | one (a : Writing .atom) : Writing .run
  | more (r : Writing .run) (before : Layout) (op : Operator) (after : Layout) (a : Writing .atom) :
      Writing .run
  | signed (before : Layout) (l : Leaf) (hl : l.isSigned = true) (after : Layout) : Writing .content
  | between (before : Layout) (r : Writing .run) (after : Layout) : Writing .content

/-- What the leaf is worth. -/
def Leaf.worth (lookup : Lookup) : Leaf → Float
  | number d _ => d.toFloat
  | percentage d _ => d.toFloat / 100.0
  | name n _ => (lookup.worth n).getD 0.0

/-- A leaf in a tree is worth what it is worth as it is written. -/
theorem Leaf.pureValue_outline (quotient : Float → Float → Float) (lookup : Lookup) (l : Leaf) :
    l.outline.pureValue quotient lookup = l.worth lookup := by
  cases l <;> rfl

namespace Writing

/-- The characters. -/
def text : {s : Shape} → Writing s → Text
  | _, leaf l _ => l.text
  | _, pair inside => '(' :: (inside.text ++ [')'])
  | _, one a => a.text
  | _, more r before op after a => r.text ++ before.text ++ op.symbol :: (after.text ++ a.text)
  | _, signed before l _ after => before.text ++ l.text ++ after.text
  | _, between before r after => before.text ++ r.text ++ after.text

/-- The pass from left to right.  A bracket pair takes a pass of its own. -/
def totals (quotient : Float → Float → Float) (lookup : Lookup) : {s : Shape} → Writing s → Totals
  | _, leaf l _ => ⟨none, l.worth lookup⟩
  | _, pair inside => ⟨none, (inside.totals quotient lookup).finished⟩
  | _, one a => a.totals quotient lookup
  | _, more r _ op _ a =>
      (r.totals quotient lookup).step quotient op (a.totals quotient lookup).finished
  | _, signed _ l _ _ => ⟨none, l.worth lookup⟩
  | _, between _ r _ => r.totals quotient lookup

/-- The value that the pass comes to. -/
def value (quotient : Float → Float → Float) (lookup : Lookup) {s : Shape} (w : Writing s) : Float :=
  (w.totals quotient lookup).finished

/-- Two runs with an operator between them are a run. -/
theorem exists_append (r : Writing .run) (before : Layout) (op : Operator) (after : Layout) {s : Shape}
    (w : Writing s) (hw : s = .run) :
    ∃ r' : Writing .run, r'.text = r.text ++ before.text ++ op.symbol :: (after.text ++ w.text) := by
  induction w with
  | leaf l hl => cases hw
  | pair inside ih => cases hw
  | one a ih => exact ⟨r.more before op after a, rfl⟩
  | more r' before' op' after' a ihr iha =>
      obtain ⟨longer, hlonger⟩ := ihr rfl
      refine ⟨longer.more before' op' after' a, ?_⟩
      rw [text, hlonger, text]
      simp
  | signed before' l hl after' => cases hw
  | between before' r' after' ih => cases hw

end Writing

namespace Phrase

variable {k : Kind} {s : Shape} {buffer : Text}

/-- The phrase is a derivation of what is written, and the pass over its chain is the pass over what is
written. -/
structure Reads (buffer : Text) (p : Phrase k) (w : Writing s) : Prop where
  text : p.text = w.text
  content : k = .content ↔ s = .content
  tight : s = .atom → k.looseness = 0
  totals : s ≠ .content → ∀ quotient lookup start,
    (p.chain buffer start).totals quotient lookup = w.totals quotient lookup
  value : ∀ quotient lookup, p.outline.pureValue quotient lookup = w.value quotient lookup

theorem Reads.ne_content {p : Phrase k} {w : Writing s} (h : p.Reads buffer w) (hs : s ≠ .content) :
    k ≠ .content :=
  mt h.content.mp hs

/-- The value of a phrase is that of its tree, wherever it stands. -/
theorem pureValue_operand (p : Phrase k) (buffer : Text) (start : Nat)
    (quotient : Float → Float → Float) (lookup : Lookup) :
    (p.operand buffer start).pureValue quotient lookup = p.outline.pureValue quotient lookup := by
  rw [Operand.pureValue, operand, outline_tree]

/-- A phrase is worth what the pass over its chain comes to. -/
theorem pureValue_chain (p : Phrase k) (buffer : Text) (start : Nat)
    (quotient : Float → Float → Float) (lookup : Lookup) :
    p.outline.pureValue quotient lookup =
      ((p.chain buffer start).totals quotient lookup).finished := by
  rw [← p.pureValue_operand buffer start, ← p.operand_chain, Chain.pureValue_operand]

/-- An operand is a product that nothing stands in front of. -/
theorem reads_atom {p : Phrase k} (hk : k.looseness = 0) {w : Writing .atom} (htext : p.text = w.text)
    (hw : ∀ quotient lookup, w.totals quotient lookup = ⟨none, p.outline.pureValue quotient lookup⟩) :
    p.Reads buffer w where
  text := htext
  content := by
    refine iff_of_false ?_ (by decide)
    rintro rfl
    cases hk
  tight _ := hk
  totals _ quotient lookup start := by
    rw [p.chain_tight hk, hw, ← p.pureValue_operand buffer start]
    rfl
  value quotient lookup := by
    rw [Writing.value, hw]
    rfl

/-- The phrase of a run goes on with an operator and an operand. -/
theorem exists_reads_more {r : Writing .run} {p : Phrase k} (hp : p.Reads buffer r) {j : Kind}
    {a : Writing .atom} {b : Phrase j} (hb : b.Reads buffer a) (before : Layout) (op : Operator)
    (after : Layout) : ∃ (k' : Kind) (p' : Phrase k'), p'.Reads buffer (r.more before op after a) := by
  obtain ⟨k', p', hk', htext, -, hitems⟩ :=
    exists_attach buffer p (hp.ne_content (by decide)) before op after b (hb.tight rfl)
  -- Wherever precedence puts the operand, the chain has it at the end.
  have htotals : ∀ quotient lookup start, (p'.chain buffer start).totals quotient lookup =
      (r.more before op after a).totals quotient lookup := by
    intro quotient lookup start
    rw [chain_of_items_append (hitems start), Chain.totals_join, hp.totals (by decide),
      pureValue_operand, hb.value]
    rfl
  refine ⟨k', p', ?_, iff_of_false hk' (by decide), by simp, fun _ => htotals, ?_⟩
  · rw [htext, hp.text, hb.text]
    rfl
  · intro quotient lookup
    rw [p'.pureValue_chain buffer 0, htotals]
    rfl

/-- The phrase of a run is put between layout. -/
theorem exists_reads_between {r : Writing .run} {p : Phrase k} (h : p.Reads buffer r)
    (before after : Layout) : ∃ c : Phrase .content, c.Reads buffer (r.between before after) := by
  have hcontent : k ≠ .content := h.ne_content (by decide)
  have hread : ∀ c : Phrase .content, c.text = before.text ++ p.text ++ after.text →
      c.outline = p.outline → c.Reads buffer (r.between before after) := by
    intro c htext houtline
    refine ⟨?_, by simp, by simp, by simp, ?_⟩
    · rw [htext, h.text]
      rfl
    · intro quotient lookup
      rw [houtline, h.value]
      rfl
  cases p with
  | leaf l hl => exact ⟨.sole before l after, hread _ rfl rfl⟩
  | pair inside =>
      exact ⟨.compound before inside.pair after (by decide) hcontent, hread _ rfl rfl⟩
  | operation op left before' after' right hleft hright =>
      exact ⟨.compound before (.operation op left before' after' right hleft hright) after (by simp)
        hcontent, hread _ rfl rfl⟩
  | sole before' l after' => exact absurd rfl hcontent
  | compound before' inner after' hkind hinner => exact absurd rfl hcontent

/-- **Whatever is written is a phrase.**  Its operands are grouped by precedence, but they are those that
the pass goes over, with the same operators between them. -/
theorem exists_reads (buffer : Text) (w : Writing s) : ∃ (k : Kind) (p : Phrase k), p.Reads buffer w := by
  induction w with
  | leaf l hl =>
      refine ⟨_, .leaf l hl, reads_atom rfl rfl ?_⟩
      intro quotient lookup
      rw [outline, Leaf.pureValue_outline]
      rfl
  | pair inside ih =>
      obtain ⟨k, c, hc⟩ := ih
      obtain rfl : k = .content := hc.content.mpr rfl
      refine ⟨_, c.pair, reads_atom rfl ?_ ?_⟩
      · rw [text, hc.text]
        rfl
      · intro quotient lookup
        rw [outline, hc.value]
        rfl
  | one a ih =>
      obtain ⟨k, p, hp⟩ := ih
      have hk : k ≠ .content := hp.ne_content (by decide)
      exact ⟨k, p, hp.text, iff_of_false hk (by decide), by simp, fun _ => hp.totals (by decide),
        hp.value⟩
  | more r before op after a ihr iha =>
      obtain ⟨k, p, hp⟩ := ihr
      obtain ⟨j, b, hb⟩ := iha
      exact exists_reads_more hp hb before op after
  | signed before l hl after =>
      refine ⟨_, .sole before l after, rfl, by simp, by simp, by simp, ?_⟩
      intro quotient lookup
      rw [outline, Leaf.pureValue_outline]
      rfl
  | between before r after ih =>
      obtain ⟨k, p, hp⟩ := ih
      obtain ⟨c, hc⟩ := exists_reads_between hp before after
      exact ⟨_, c, hc⟩

/-- Every phrase is written down. -/
theorem exists_writing (p : Phrase k) :
    (k ≠ .content → ∃ r : Writing .run, r.text = p.text) ∧
      (k = .content → ∃ c : Writing .content, c.text = p.text) := by
  induction p with
  | leaf l hl => exact ⟨fun _ => ⟨.one (.leaf l hl), rfl⟩, by simp⟩
  | pair inside ih =>
      obtain ⟨c, hc⟩ := ih.2 rfl
      refine ⟨fun _ => ⟨.one c.pair, ?_⟩, by simp⟩
      rw [Writing.text, Writing.text, hc, text]
  | operation op left before after right hleft hright ihl ihr =>
      obtain ⟨r, hr⟩ := ihl.1 (Kind.ne_content_of_le hleft)
      obtain ⟨r', hr'⟩ := ihr.1 (Kind.ne_content_of_le (Nat.le_of_lt hright))
      obtain ⟨longer, hlonger⟩ := r.exists_append before op after r' rfl
      refine ⟨fun _ => ⟨longer, ?_⟩, by simp⟩
      rw [hlonger, hr, hr', text]
  | sole before l after =>
      refine ⟨fun h => absurd rfl h, fun _ => ?_⟩
      cases hl : l.isSigned with
      | true => exact ⟨.signed before l hl after, rfl⟩
      | false => exact ⟨.between before (.one (.leaf l hl)) after, rfl⟩
  | compound before inner after hkind hcontent ih =>
      obtain ⟨r, hr⟩ := ih.1 hcontent
      refine ⟨fun h => absurd rfl h, fun _ => ⟨.between before r after, ?_⟩⟩
      rw [Writing.text, hr, text]

end Phrase

/-- Formulas are what can be written down. -/
theorem Formula.exists_parse_iff_writing {limit : Nat} {text : Text} (hlimit : text.length ≤ limit) :
    (∃ f, Formula.parse limit text = .ok f) ↔
      ∃ c : Writing .content, c.text = Bracket.ascii text := by
  constructor
  · rintro ⟨f, hf⟩
    obtain ⟨c, hc, -, -⟩ := Tree.parse_eq_ok_iff.mp (Formula.parse_eq_ok_iff.mp hf).1
    obtain ⟨w, hw⟩ := c.exists_writing.2 rfl
    exact ⟨w, hw.trans hc⟩
  · rintro ⟨w, hw⟩
    obtain ⟨k, c, hc⟩ := Phrase.exists_reads [] w
    obtain rfl : k = .content := hc.content.mpr rfl
    obtain ⟨f, hf, -⟩ :=
      (Formula.parse_iff_exists_phrase hlimit c.outline).mpr ⟨c, hc.text.trans hw, rfl⟩
    exact ⟨f, hf⟩

/-- **One pass.**  What is written down is read, and evaluating it where every variable has an entry comes
to the very double that the pass from left to right comes to, whichever function replaces the quotients
by zero.  The length of the text is limit enough for reading and evaluating. -/
theorem Formula.result_eq_totals (c : Writing .content) {text : Text}
    (htext : Bracket.ascii text = c.text) :
    (∀ readLimit, text.length ≤ readLimit → ∃ f, Formula.parse readLimit text = .ok f) ∧
      ∀ readLimit f, Formula.parse readLimit text = .ok f → f.tree.depth ≤ text.length ∧
        ∀ limit, f.tree.depth ≤ limit + 1 → ∀ lookup : Lookup,
          (∀ name ∈ f.tree.names, (lookup name).isSome) →
          (f.tree.evaluateStrictly limit lookup).result = .ok (c.value (fun _ _ => 0.0) lookup) ∧
          ∀ (quotient : Float → Float → Float) {σ : Type} (missing : MissingPolicy σ)
            (divisor : DivisorPolicy σ) (host : σ), divisor.Computes quotient →
            (f.tree.evaluateByPolicies limit lookup missing divisor host).result =
              .ok (c.value quotient lookup) := by
  obtain ⟨k, p, hp⟩ := Phrase.exists_reads (Bracket.ascii text) c
  obtain rfl : k = .content := hp.content.mpr rfl
  have hptext : p.text = Bracket.ascii text := hp.text.trans htext.symm
  refine ⟨fun readLimit hlimit => (Formula.exists_parse_iff_writing hlimit).mpr ⟨c, htext.symm⟩, ?_⟩
  intro readLimit f hf
  have hptree : Tree.parse p.nesting text = .ok (p.tree (Bracket.ascii text) 0) :=
    Tree.parse_eq_ok_iff.mpr ⟨p, hptext, Nat.le_refl _, rfl⟩
  have htree : f.tree = p.tree (Bracket.ascii text) 0 :=
    Tree.parse_unique (Formula.parse_eq_ok_iff.mp hf).1 hptree
  have hvalue : ∀ quotient lookup,
      f.tree.outline.pureValue quotient lookup = c.value quotient lookup := by
    intro quotient lookup
    rw [htree, p.outline_tree, hp.value]
  refine ⟨?_, ?_⟩
  · rw [htree, ← Bracket.length_ascii text, ← hptext]
    exact p.depth_tree_le_length 0
  · intro limit hfits lookup hpresent
    refine ⟨?_, ?_⟩
    · rw [Tree.evaluateStrictly_of_present hfits hpresent, hvalue]
    · intro quotient σ missing divisor host hdivisor
      have hresult : (f.tree.evaluateByPolicies limit lookup missing divisor host).result =
          .ok (f.tree.outline.pureValue quotient lookup) :=
        (Tree.evaluateByPolicies_of_present hdivisor (Q := fun _ => True) (fun _ _ _ _ => trivial) hfits
          hpresent missing trivial).1
      rw [hresult, hvalue]

/-- The writing `8/(y-y)-2+y*y`. -/
def Writing.zeroDifference : Writing .content :=
  let eight : Leaf := .number ⟨false, ['8'], []⟩
    ⟨List.forall_mem_singleton.mpr rfl, List.forall_mem_nil _, .inl (List.cons_ne_nil _ _)⟩
  let two : Leaf := .number ⟨false, ['2'], []⟩
    ⟨List.forall_mem_singleton.mpr rfl, List.forall_mem_nil _, .inl (List.cons_ne_nil _ _)⟩
  let y : Leaf := .name ['y'] (.singleton rfl)
  let difference : Writing .run := (one (leaf y rfl)).more .none .subtract .none (leaf y rfl)
  let quotient : Writing .run :=
    (one (leaf eight rfl)).more .none .divide .none (pair (between .none difference .none))
  let rest : Writing .run := quotient.more .none .subtract .none (leaf two rfl)
  let square : Writing .run :=
    (rest.more .none .add .none (leaf y rfl)).more .none .multiply .none (leaf y rfl)
  between .none square .none

/-- The quotient by zero is taken for 8, from which 2 is subtracted before the square of 1.5 is added. -/
theorem Formula.result_eq_totals_zeroDifference :
    Bracket.ascii "8/（y-y）-2+y*y".toList = Writing.zeroDifference.text ∧
      ∃ f, Formula.parse 13 "8/（y-y）-2+y*y".toList = .ok f ∧
        (f.tree.evaluateByPolicies 13 (fun _ => some (some 1.5)) Policy.nothing Policy.dividend
          ()).result = .ok 8.25 := by
  have htext : Bracket.ascii "8/（y-y）-2+y*y".toList = Writing.zeroDifference.text := by decide
  obtain ⟨hread, hresult⟩ := Formula.result_eq_totals Writing.zeroDifference htext
  obtain ⟨f, hf⟩ := hread 13 (by decide)
  obtain ⟨hdepth, hvalue⟩ := hresult 13 f hf
  have hlength : "8/（y-y）-2+y*y".toList.length = 13 := by decide
  have hpolicies := (hvalue 13 (by omega) (fun _ => some (some 1.5)) (fun _ _ => rfl)).2
    (fun x _ => x) Policy.nothing Policy.dividend () Policy.computes_dividend
  have hworth : Writing.zeroDifference.value (fun x _ => x) (fun _ => some (some 1.5)) = 8.25 := by
    decide +kernel
  exact ⟨htext, f, hf, hpolicies.trans (congrArg _ hworth)⟩

end InfixFormula
