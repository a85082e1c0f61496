import InfixFormula.Document.Formula
import InfixFormula.Proofs.Bindings
import InfixFormula.Proofs.Outlines
import InfixFormula.Proofs.SourceText

/-!
# Formulas that were saved and read back

A record that was written with its fields is read with their values (`Document.record?_ofFields`).  So a
tree is read back from its own document as the same tree on buffers of its own, node by node, unless one of
the constants is no finite number: those are written as null, which no reader takes for a number
(`Tree.ofDocument?_toDocument`).

A formula is therefore restored exactly if all its constants are finite, however many levels of containers
may be opened beyond those that the tree needs.  What is restored cannot be told from the formula, but for
the buffers of its sources (`Formula.Restores`, `Formula.restored?_iff_finite`).
-/

namespace InfixFormula

/-- An operator is read back from its name. -/
theorem Operator.ofDocument?_documentName (levels : Nat) (op : Operator) :
    ofDocument? levels (.ofText op.documentName.toList) = some op := by
  rw [Document.ofText, ofDocument?]
  cases op <;> decide

namespace Tree

/-- Whether every constant is a finite number. -/
def isFinite : Tree → Bool
  | const x _ => x.isFinite
  | var _ => true
  | binary _ left right _ => left.isFinite && right.isFinite

/-- The check goes over all constants of the tree. -/
theorem isFinite_iff {t : Tree} :
    t.isFinite = true ↔ ∀ x s, const x s ∈ t.subtrees → x.isFinite = true := by
  induction t with
  | const x s => simp [isFinite, subtrees]
  | var name => simp [isFinite, subtrees]
  | binary op l r s ihl ihr =>
      simp only [isFinite, Bool.and_eq_true, ihl, ihr, subtrees, List.mem_cons, List.mem_append,
        reduceCtorEq, false_or]
      grind

/-- A finite number is a number. -/
theorem hasValues_of_isFinite {t : Tree} (h : t.isFinite = true) : t.hasValues = true := by
  induction t with
  | const x s =>
      rw [hasValues, Bool.not_eq_true', Double.isNaN_of_isFinite h]
  | var name => rfl
  | binary op l r s ihl ihr =>
      rw [isFinite, Bool.and_eq_true] at h
      rw [hasValues, ihl h.1, ihr h.2]
      rfl

/-- A constant that is no finite number is saved but cannot be read back. -/
theorem ofDocument?_const (levels : Nat) (x : Float) (s : Source) :
    ofDocument? (levels + 2) (const x s).toDocument =
      if x.isFinite then some (const x (Source.ofText s.text)) else none := by
  have hrecord : (Document.ofFields (constantFields.zip
      [Document.ofFloat x, Document.ofText s.text])).record? constantFields =
        some [Document.ofFloat x, Document.ofText s.text] :=
    Document.record?_ofFields (by show constantFields.Nodup; decide)
  have hkind : (constantKind.toList == variableKind.toList) = false := by decide
  rw [toDocument, Document.ofFields, List.map_cons, List.map_nil, ofDocument?]
  dsimp only
  rw [hkind, if_neg Bool.false_ne_true, if_pos (beq_self_eq_true _), hrecord]
  dsimp only
  rw [Document.float?_ofFloat]
  by_cases hx : x.isFinite = true
  · rw [if_pos hx, if_pos hx]
    rfl
  · rw [if_neg hx, if_neg hx]

/-- A variable is read back from its name. -/
theorem ofDocument?_var (levels : Nat) (name : Text) :
    ofDocument? (levels + 1) (var name).toDocument = some (var name) := by
  rw [toDocument, Document.ofFields, List.map_cons, List.map_nil]
  unfold ofDocument?
  dsimp only
  rw [if_pos (beq_self_eq_true _)]
  rfl

/-- An operation is read back if both of its operands are. -/
theorem ofDocument?_binary (levels : Nat) (op : Operator) (l r : Tree) (s : Source) :
    ofDocument? (levels + 2) (binary op l r s).toDocument =
      match ofDocument? levels l.toDocument, ofDocument? levels r.toDocument with
      | some l, some r => some (binary op l r (Source.ofText s.text))
      | _, _ => none := by
  have hrecord : (Document.ofFields (binaryFields.zip [Document.ofText op.documentName.toList,
      l.toDocument, r.toDocument, Document.ofText s.text])).record? binaryFields =
        some [Document.ofText op.documentName.toList, l.toDocument, r.toDocument,
          Document.ofText s.text] :=
    Document.record?_ofFields (by show binaryFields.Nodup; decide)
  have hkind : (binaryKind.toList == variableKind.toList) = false := by decide
  have hkind' : (binaryKind.toList == constantKind.toList) = false := by decide
  rw [toDocument, Document.ofFields, List.map_cons, List.map_nil, ofDocument?]
  dsimp only
  rw [hkind, if_neg Bool.false_ne_true, hkind', if_neg Bool.false_ne_true,
    if_pos (beq_self_eq_true _), hrecord]
  dsimp only
  rw [Operator.ofDocument?_documentName]
  cases ofDocument? levels l.toDocument with
  | none => rfl
  | some l =>
      cases ofDocument? levels r.toDocument with
      | none => rfl
      | some r => rfl

/-- A tree is read back with its sources on buffers of their own, unless a constant is no finite
number. -/
theorem ofDocument?_toDocument {t : Tree} {levels : Nat} (h : 2 * t.depth ≤ levels) :
    ofDocument? levels t.toDocument = if t.isFinite then some t.detached else none := by
  induction t generalizing levels with
  | const x s =>
      obtain ⟨inner, rfl⟩ : ∃ inner, levels = inner + 2 := ⟨levels - 2, by rw [depth] at h; omega⟩
      exact ofDocument?_const inner x s
  | var name =>
      obtain ⟨inner, rfl⟩ : ∃ inner, levels = inner + 1 := ⟨levels - 1, by rw [depth] at h; omega⟩
      exact ofDocument?_var inner name
  | binary op l r s ihl ihr =>
      obtain ⟨inner, rfl⟩ : ∃ inner, levels = inner + 2 := ⟨levels - 2, by rw [depth] at h; omega⟩
      rw [depth] at h
      rw [ofDocument?_binary, ihl (by omega), ihr (by omega), isFinite]
      cases l.isFinite with
      | false => rfl
      | true =>
          cases r.isFinite with
          | false => rfl
          | true => rfl

/-- Giving the sources buffers of their own does not change what the tree means. -/
theorem outline_detached (t : Tree) : t.detached.outline = t.outline := by
  induction t with
  | const x s => rfl
  | var name => rfl
  | binary op l r s ihl ihr => rw [detached, outline, outline, ihl, ihr]

/-- Buffers that are their own are not made twice. -/
theorem detached_detached (t : Tree) : t.detached.detached = t.detached := by
  induction t with
  | const x s => rw [detached, detached, Source.text_ofText]
  | var name => rfl
  | binary op l r s ihl ihr => rw [detached, detached, ihl, ihr, Source.text_ofText]

/-- Every node gets its own buffer, in its place. -/
theorem subtrees_detached (t : Tree) : t.detached.subtrees = t.subtrees.map detached := by
  induction t with
  | const x s => rfl
  | var name => rfl
  | binary op l r s ihl ihr =>
      rw [detached, subtrees, subtrees, ihl, ihr, List.map_cons, List.map_append, detached]

/-- Every node shows the same text as before. -/
theorem sourceText_detached (t : Tree) : t.detached.sourceText = t.sourceText := by
  cases t with
  | const x s => exact Source.text_ofText _
  | var name => rfl
  | binary op l r s => exact Source.text_ofText _

theorem hasValues_detached (t : Tree) : t.detached.hasValues = t.hasValues := by
  induction t with
  | const x s => rfl
  | var name => rfl
  | binary op l r s ihl ihr => rw [detached, hasValues, hasValues, ihl, ihr]

/-- The buffer of a detached node is the text of the node and nothing else. -/
theorem buffer?_detached {t : Tree} {buffer : Text} (h : buffer ∈ t.detached.buffer?) :
    buffer = t.sourceText := by
  cases t with
  | const x s => exact (Option.mem_some_iff.mp h).symm
  | var name => cases h
  | binary op l r s => exact (Option.mem_some_iff.mp h).symm

end Tree

namespace Formula

/-- The placeholders are read back in their order. -/
theorem mappingOfDocument?_entries (d : Dict Text) :
    mappingOfDocument? (.object (d.entries.map (fun e => (some e.1, Document.ofText e.2)))) =
      some d := by
  have hentries : (d.entries.map (fun e => (some e.1, Document.ofText e.2))).mapM entryOfDocument? =
      some d.entries := by
    apply Document.mapM_eq_some
    rw [List.map_map]
    rfl
  rw [mappingOfDocument?, hentries, Option.map_some, Dict.ofList_entries]

/-- The formula with each source on a buffer of its own. -/
def detached (f : Formula) : Formula := ⟨f.tree.detached, f.text, f.mapping⟩

/-- A formula is read back as itself on buffers of its own, provided that its constants are finite. -/
theorem ofDocument?_toDocument {f : Formula} {levels : Nat} (h : 2 * f.tree.depth + 1 ≤ levels) :
    ofDocument? levels f.toDocument = if f.tree.isFinite then some f.detached else none := by
  have hdepth := f.tree.depth_pos
  obtain ⟨inner, rfl⟩ : ∃ inner, levels = inner + 1 := ⟨levels - 1, by omega⟩
  have hinner : inner ≠ 0 := by omega
  have hrecord : f.toDocument.record? documentFields = some [f.tree.toDocument, Document.ofText f.text,
      .object (f.mapping.entries.map (fun e => (some e.1, Document.ofText e.2)))] :=
    Document.record?_ofFields (by show documentFields.Nodup; decide)
  rw [ofDocument?, hrecord]
  dsimp only
  rw [Tree.ofDocument?_toDocument (Nat.le_of_succ_le_succ h), mappingOfDocument?_entries]
  cases f.tree.isFinite with
  | false => rfl
  | true => exact if_neg hinner

/-- Formulas that differ in their buffers only are the same. -/
theorem same_of_detached {f g : Formula} (hvalues : f.tree.hasValues = true)
    (h : f.detached = g.detached) : f.same g = true := by
  obtain ⟨htree, htext, hmapping⟩ : f.tree.detached = g.tree.detached ∧ f.text = g.text ∧
      f.mapping = g.mapping := by simpa [detached] using h
  rw [same, Tree.same_of_detached_eq hvalues htree, htext, hmapping, Dict.agrees_self,
    beq_self_eq_true]
  rfl

/-- `g` is as good as `f`: equal to it, with the same values, names, levels, print and texts of nodes,
although each of its sources has a buffer of its own.  Whatever variables and hosts they are evaluated with,
the results are the same, the host is left in the same state, and the records are in the same words. -/
structure Restores (f g : Formula) : Prop where
  same : f.same g = true ∧ g.same f = true
  outline : g.tree.outline = f.tree.outline
  text : g.text = f.text
  mapping : g.mapping = f.mapping
  distinctNames : g.tree.distinctNames = f.tree.distinctNames
  depth : g.tree.depth = f.tree.depth
  print : g.tree.print = f.tree.print
  sourceTexts : g.tree.subtrees.map Tree.sourceText = f.tree.subtrees.map Tree.sourceText
  buffers : ∀ node ∈ g.tree.subtrees, ∀ buffer ∈ node.buffer?, buffer = node.sourceText
  evaluate : ∀ {σ : Type} (env : Setting σ) (host : σ),
    (env.evaluate g.tree host).result = (env.evaluate f.tree host).result ∧
      (env.evaluate g.tree host).host = (env.evaluate f.tree host).host ∧
      (env.evaluate g.tree host).records.map Record.message =
        (env.evaluate f.tree host).records.map Record.message

/-- On buffers of its own, a formula is as good as before. -/
theorem restores_detached {f : Formula} (hvalues : f.tree.hasValues = true) :
    f.Restores f.detached where
  same := by
    have htwice : f.detached.detached = f.detached := by
      rw [detached, detached, Tree.detached_detached]
    have hvalues' : f.detached.tree.hasValues = true :=
      (f.tree.hasValues_detached).trans hvalues
    exact ⟨same_of_detached hvalues htwice.symm, same_of_detached hvalues' htwice⟩
  outline := f.tree.outline_detached
  text := rfl
  mapping := rfl
  distinctNames := congrArg List.eraseDups (Tree.names_congr f.tree.outline_detached)
  depth := Tree.depth_congr f.tree.outline_detached
  print := Tree.print_congr f.tree.outline_detached
  sourceTexts := by
    rw [detached, Tree.subtrees_detached, List.map_map]
    exact List.map_congr_left (fun node _ => node.sourceText_detached)
  buffers := by
    intro node hnode buffer hbuffer
    rw [detached, Tree.subtrees_detached] at hnode
    obtain ⟨original, -, rfl⟩ := List.mem_map.mp hnode
    rw [Tree.sourceText_detached]
    exact Tree.buffer?_detached hbuffer
  evaluate env host :=
    @Setting.evaluate_outline _ env env.lookup env.lookup _ _ f.tree.outline_detached
      (fun _ _ => rfl) host

/-- **Saving and reading back.**  A formula is restored from its document exactly if all its constants are
finite, with any number of levels beyond those of the tree, and what is restored is as good as the
formula. -/
theorem restored?_iff_finite (f : Formula) :
    ((∃ g, f.restored? = some g) ↔ ∀ x s, Tree.const x s ∈ f.tree.subtrees → x.isFinite = true) ∧
      (∀ levels, 2 * f.tree.depth + 1 ≤ levels → ofDocument? levels f.toDocument = f.restored?) ∧
      ∀ g, f.restored? = some g → f.Restores g := by
  have hrestored : f.restored? = if f.tree.isFinite then some f.detached else none :=
    ofDocument?_toDocument (Nat.le_refl _)
  refine ⟨?_, ?_, ?_⟩
  · rw [← Tree.isFinite_iff, hrestored]
    constructor
    · rintro ⟨g, hg⟩
      exact (Option.ite_none_right_eq_some.mp hg).1
    · intro hfinite
      exact ⟨f.detached, if_pos hfinite⟩
  · intro levels hlevels
    rw [hrestored, ofDocument?_toDocument hlevels]
  · intro g hg
    rw [hrestored] at hg
    obtain ⟨hfinite, heq⟩ := Option.ite_none_right_eq_some.mp hg
    obtain rfl : f.detached = g := Option.some.inj heq
    exact restores_detached (Tree.hasValues_of_isFinite hfinite)

-- A one with 309 zeros is read, but no double can hold it, and it is not read back.
example : (parse 0 ('1' :: List.replicate 309 '0')).toOption.map (fun f => f.restored?.isNone) =
    some true := by
  decide +kernel

end Formula

end InfixFormula
