import InfixFormula.Proofs.BracketStyle
import InfixFormula.Proofs.Renaming

/-!
# Formulas without variables

A formula without variables is written in capitals: nothing but its names could change with the case.  So
where none of the known names occurs in it, the substitution gives it back as it was, and it is read as
the same tree, with the same value over all variables (`Formula.parseWith_of_closed`).

A known name that does occur is replaced, even inside a number or a percentage, since names are looked for
without regard to what they stand in.  The small v of the placeholder then stays in the text
(`Substitution.v_mem_substitute`), which is not in capitals any more.  Such a text is no formula without
variables, and its value, if it has one, comes from the variables
(`Formula.exists_closed_reading_variable`).
-/

namespace InfixFormula

open Text

/-- Literals, and names that are left as they are, are spelled as they are written. -/
theorem Leaf.spell_eq_text {l : Leaf} {source : Source} {s : Text → Text}
    (h : ∀ n ∈ (l.tree source).names, s n = n) : l.spell s = l.text := by
  cases l with
  | number d hd => rfl
  | percentage d hd => rfl
  | name n hn => exact h n List.mem_cons_self

/-- A phrase whose names are left as they are is spelled as it is written. -/
theorem Phrase.spell_eq_text {buffer : Text} {s : Text → Text} {k : Kind} (p : Phrase k) {start : Nat}
    (h : ∀ n ∈ (p.tree buffer start).names, s n = n) : p.spell s = p.text := by
  induction p generalizing start with
  | leaf l hl => exact l.spell_eq_text h
  | pair inside ih => rw [spell, ih h, text]
  | operation op left before after right hleft hright ihl ihr =>
      rw [tree, Tree.names_binary, List.forall_mem_append] at h
      rw [spell, ihl h.1, ihr h.2, text]
  | sole before l after => rw [spell, l.spell_eq_text h, text]
  | compound before inner after hkind hcontent ih => rw [spell, ih h, text]

/-- A text that is read without variables is in capitals. -/
theorem Tree.uppercase_of_closed {limit : Nat} {text : Text} {t : Tree}
    (hparse : Tree.parse limit text = .ok t) (hclosed : t.names = []) :
    (Bracket.ascii text).uppercase = Bracket.ascii text := by
  obtain ⟨c, hc, -, rfl⟩ := Tree.parse_eq_ok_iff.mp hparse
  have hnames : ∀ n ∈ (c.tree (Bracket.ascii text) 0).names, n.uppercase = n := by
    rw [hclosed]
    exact List.forall_mem_nil _
  rw [← hc, c.uppercase_text, c.spell_eq_text hnames]

/-- There is no small v in a text that is read without variables. -/
theorem Tree.v_not_mem_of_closed {limit : Nat} {text : Text} {t : Tree}
    (hparse : Tree.parse limit text = .ok t) (hclosed : t.names = []) : 'v' ∉ text := by
  intro hv
  have hascii : 'v' ∈ Bracket.ascii text := List.mem_map.mpr ⟨'v', hv, rfl⟩
  rw [← Tree.uppercase_of_closed hparse hclosed] at hascii
  exact v_not_mem_uppercase _ hascii

namespace Substitution

variable {α : Type} {vars : Dict α} {text : Text}

/-- A name that occurs leaves the letter of its placeholder, or of an earlier one that tore it, which no
later name holds. -/
theorem v_mem_substitute {bs : List (Binding α)}
    (hbs : ∀ b ∈ bs, b.name.uppercase ≠ [] ∧ 'v' ∈ b.placeholder)
    (h : ∃ b ∈ bs, b.name.uppercase <:+: text.uppercase) : 'v' ∈ substitute bs text := by
  induction bs using List.reverseRecOn with
  | nil =>
      obtain ⟨b, hb, -⟩ := h
      cases hb
  | append_singleton bs b ih =>
      rw [List.forall_mem_append, List.forall_mem_singleton] at hbs
      rw [substitute_concat]
      by_cases hearlier : ∃ b' ∈ bs, b'.name.uppercase <:+: text.uppercase
      · exact mem_replaceAll_of_not_mem (v_not_mem_uppercase _) (ih hbs.1 hearlier)
      · have hsame : substitute bs text = text.uppercase :=
          foldl_replaceAll_eq_self (fun b' hb' hoccurs => hearlier ⟨b', hb', hoccurs⟩)
        obtain ⟨b', hb', hoccurs⟩ := h
        obtain rfl : b' = b := by
          rcases List.mem_append.mp hb' with hb' | hb'
          · exact absurd ⟨b', hb', hoccurs⟩ hearlier
          · exact List.mem_singleton.mp hb'
        rw [hsame]
        exact mem_replaceAll_of_occurs hbs.2.1 hbs.2.2 hoccurs

/-- Where no known name occurs, only the case changes. -/
theorem rewritten_of_not_occurs (h : ∀ b ∈ bindings vars, ¬ b.name.uppercase <:+: text.uppercase) :
    rewritten vars text = text ∨ rewritten vars text = text.uppercase := by
  by_cases hvars : vars.entries.isEmpty = true
  · exact .inl (if_pos hvars)
  · rw [rewritten, if_neg hvars]
    exact .inr (foldl_replaceAll_eq_self h)

end Substitution

namespace Formula

variable {α : Type} {limit : Nat} {vars : Dict α} {text : Text} {f : Formula}

open Substitution in
/-- A text without variables, in which no name occurs, has the same tree with the names as without. -/
theorem parse_rewritten_of_closed (hparse : Tree.parse limit text = .ok f.tree)
    (hclosed : f.tree.names = [])
    (h : ∀ b ∈ bindings vars, ¬ b.name.uppercase <:+: text.uppercase) :
    Tree.parse limit (rewritten vars text) = .ok f.tree := by
  rcases rewritten_of_not_occurs h with hrewritten | hrewritten
  · rw [hrewritten, hparse]
  · rw [hrewritten, ← Tree.parse_ascii, Bracket.ascii_uppercase,
      Tree.uppercase_of_closed hparse hclosed, Tree.parse_ascii, hparse]

open Substitution in
/-- **Known names leave alone what they do not occur in.**  A formula without variables is read as the
same tree whatever names are known, if none of them occurs in it, and has the same value.  If one does,
the tree that is read is another one, with variables. -/
theorem parseWith_of_closed (hread : Formula.parse limit text = .ok f) (hclosed : f.tree.names = []) :
    ((∀ name ∈ vars.keys, isReplaced name = true →
        occursIn name.uppercase text.uppercase = false) →
      ∃ g extended, Formula.parseWith limit vars text = .ok (g, extended) ∧ g.tree = f.tree ∧
        ∀ (value : α → Option Float) (lookup : Lookup) {σ : Type} (env : Setting σ) (host : σ),
          (env.withLookup (extended.lookup value)).evaluate g.tree host =
            (env.withLookup lookup).evaluate f.tree host) ∧
      ∀ name ∈ vars.keys, isReplaced name = true → occursIn name.uppercase text.uppercase = true →
        ∀ g extended, Formula.parseWith limit vars text = .ok (g, extended) → g.tree.names ≠ [] := by
  obtain ⟨hparse, -, -⟩ := Formula.parse_eq_ok_iff.mp hread
  constructor
  · intro hnames
    have hoccurs : ∀ b ∈ bindings vars, ¬ b.name.uppercase <:+: text.uppercase := by
      intro b hb
      obtain ⟨hfind, hreplaced, -⟩ := of_mem_bindings hb
      rw [← occursIn_iff, Bool.not_eq_true]
      exact hnames b.name (Dict.mem_keys_of_find? hfind) hreplaced
    have hrewritten := parse_rewritten_of_closed hparse hclosed hoccurs
    refine ⟨_, _, Formula.parseWith_of_tree hrewritten, rfl, ?_⟩
    intro value lookup σ env host
    apply Setting.evaluate_congr
    rw [hclosed]
    exact List.forall_mem_nil _
  · intro name hkey hreplaced hoccurs g extended hg hnone
    obtain ⟨b, hb, rfl⟩ := exists_binding hkey hreplaced
    have hparse' := (Formula.parseWith_eq_ok_iff.mp hg).1
    rw [rewritten_of_mem hb] at hparse'
    refine Tree.v_not_mem_of_closed hparse' hnone (v_mem_substitute ?_ ⟨b, hb, occursIn_iff.mp hoccurs⟩)
    intro b' hb'
    obtain ⟨-, hreplaced', index, hindex⟩ := of_mem_bindings hb'
    obtain ⟨c, hc, -⟩ := exists_not_isDigit hreplaced'
    rw [hindex]
    exact ⟨List.ne_nil_of_mem hc, List.mem_cons_self⟩

/-- The literal `50%`. -/
def half : Leaf :=
  .percentage ⟨false, ['5', '0'], []⟩
    ⟨⟨List.all_eq_true.mp rfl, List.forall_mem_nil _, .inl (List.cons_ne_nil _ _)⟩, List.cons_ne_nil _ _⟩

/-- A percentage is a constant. -/
theorem parse_half :
    Formula.parse defaultLimit "50%".toList =
      .ok ⟨half.tree ⟨"50%".toList, 0, 3⟩, "50%".toList, Dict.empty⟩ := by
  have hascii : Bracket.ascii "50%".toList = "50%".toList := by decide
  rw [Formula.parse_eq_ok_iff, Tree.parse_eq_ok_iff, hascii]
  exact ⟨⟨.sole .none half .none, rfl, Nat.zero_le _, rfl⟩, rfl, rfl⟩

/-- Names of which two occur in `50%` and are never replaced, and two do not occur. -/
def sparedNames : Dict Float :=
  Dict.ofList [("5".toList, 1.0), ("".toList, 2.0), ("0.%".toList, 3.0), ("v1".toList, 4.0)]

/-- Of the four names two are never replaced, and the other two do not occur in `50%`. -/
theorem parseWith_of_closed_half :
    ∃ f, Formula.parse defaultLimit "50%".toList = .ok f ∧ f.tree.names = [] ∧
      (∀ name ∈ sparedNames.keys, Substitution.isReplaced name = true →
        occursIn name.uppercase (uppercase "50%".toList) = false) ∧
      ∃ g extended, Formula.parseWith defaultLimit sparedNames "50%".toList = .ok (g, extended) ∧
        g.tree = f.tree ∧
        ∀ (value : Float → Option Float) (lookup : Lookup) {σ : Type} (env : Setting σ) (host : σ),
          (env.withLookup (extended.lookup value)).evaluate g.tree host =
            (env.withLookup lookup).evaluate f.tree host := by
  have hkeys : sparedNames.keys = ["5".toList, "".toList, "0.%".toList, "v1".toList] := rfl
  have hnames : ∀ name ∈ sparedNames.keys, Substitution.isReplaced name = true →
      occursIn name.uppercase (uppercase "50%".toList) = false := by
    rw [hkeys]
    decide
  exact ⟨_, parse_half, rfl, hnames, (parseWith_of_closed parse_half rfl).1 hnames⟩

/-- A name that is the percent sign. -/
def percentName : Dict Float := Dict.ofList [("%".toList, 1.0)]

/-- The name that is only a percent sign is replaced, since it is no number. -/
theorem bindings_percentName :
    Substitution.bindings percentName = [⟨"%".toList, "v1".toList, 1.0⟩] :=
  Substitution.bindings_eq_of_perm (.refl _) (List.pairwise_singleton _ _)

/-- **A percent sign can be a name.**  It is replaced inside `50%`, which is then read as the variable
`50v1` where it was a half. -/
theorem exists_closed_reading_variable :
    ∃ f g extended, Formula.parse defaultLimit "50%".toList = .ok f ∧ f.tree.names = [] ∧
      (∀ name ∈ percentName.keys, (Bracket.ascii name).any Literal.isDelimiter = false) ∧
      Formula.parseWith defaultLimit percentName "50%".toList = .ok (g, extended) ∧
      g.tree = .var "50v1".toList ∧
      (f.tree.evaluateStrictly defaultLimit (extended.lookup some)).result = .ok 0.5 ∧
      (g.tree.evaluateStrictly defaultLimit (extended.lookup some)).result =
        .error (.missingVariable "50v1".toList) := by
  have hrewritten : Substitution.rewritten percentName "50%".toList = "50v1".toList := by
    rw [Substitution.rewritten, bindings_percentName]
    decide
  have hname : IsName "50v1".toList :=
    (Literal.rejection_eq_none_iff (List.cons_ne_nil _ _) (by decide)).mp (by decide)
  have hread := Formula.parseWith_of_rewritten hrewritten hname (by decide) defaultLimit
  have hmissing : (Substitution.extend (Substitution.bindings percentName) percentName).lookup some
      "50v1".toList = none := by
    rw [bindings_percentName]
    rfl
  have hhalf : Decimal.toFloat ⟨false, ['5', '0'], []⟩ / 100.0 = 0.5 := by decide +kernel
  refine ⟨_, _, _, parse_half, rfl, by decide, hread, rfl, ?_,
    Tree.result_evaluateStrictly_missing hmissing⟩
  rw [← hhalf]
  exact Tree.result_evaluateStrictly_const _ _ _ _

end Formula

end InfixFormula
