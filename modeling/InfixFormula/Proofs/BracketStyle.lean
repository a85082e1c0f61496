import Mathlib.Data.List.Induction
import Mathlib.Data.List.Infix
import InfixFormula.Proofs.Names
import InfixFormula.Proofs.Replacing

/-!
# Full-width brackets

A text is read as if its full-width brackets were ASCII ones, so it makes no difference whether they are
(`Formula.parse_ascii`).  With known names it can make one.  Names are looked for in the text as it is
given, brackets included, and only what is left is read.  A name with ASCII brackets does not stand in a
text where the same characters have full-width ones around them, and after the brackets have been turned
it would (`Formula.exists_tree_ne_ascii`).

This is the only way: where every name, at its turn, starts at the same places of the text as it is and of
the text with its brackets turned (`Bracket.SeenAlike`), the outcome is the same for both
(`Formula.parseWith_ascii`).  Names without brackets of either style are of this kind in every text
(`Bracket.seenAlike_uppercase`).
-/

namespace InfixFormula

open Text

namespace Bracket

/-- The pattern starts in the text where it starts in the text with ASCII brackets. -/
def SeenAlike (pattern t : Text) : Prop := ∀ u ∈ t.tails, (pattern <+: ascii u ↔ pattern <+: u)

instance (pattern t : Text) : Decidable (SeenAlike pattern t) :=
  inferInstanceAs (Decidable (∀ u ∈ t.tails, (pattern <+: ascii u ↔ pattern <+: u)))

/-- Brackets that have been turned stay as they are. -/
theorem ascii_ascii (t : Text) : ascii (ascii t) = ascii t := by
  rw [ascii_eq_self_iff]
  intro c hc
  obtain ⟨d, -, rfl⟩ := List.mem_map.mp hc
  grind

/-- A pattern without brackets does not see of what style those of the text are. -/
theorem seenAlike_of_forall {pattern : Text} (hbracket : ∀ c ∈ pattern, isBracket c = false)
    (hascii : ascii pattern = pattern) (t : Text) : SeenAlike pattern t := by
  intro u _
  apply prefix_map_iff
  intro c hc d
  have hwide := ascii_eq_self_iff.mp hascii c hc
  have hnarrow := hbracket c hc
  simp only [isBracket, Bool.or_eq_false_iff, beq_eq_false_iff_ne] at hnarrow
  grind

/-- A name without brackets of either style is looked for in capitals, which have none either. -/
theorem seenAlike_uppercase {name : Text} (hname : ∀ c ∈ name, c ∉ eitherStyle) (t : Text) :
    SeenAlike name.uppercase t := by
  have hcapitals : ∀ c ∈ name.uppercase, c ∉ eitherStyle :=
    fun c hc hbracket => hname c (mem_of_mem_uppercase hbracket hc) hbracket
  apply seenAlike_of_forall
  · intro c hc
    have hnarrow := hcapitals c hc
    simp only [eitherStyle, List.mem_cons, not_or] at hnarrow
    simp [isBracket, hnarrow]
  · rw [ascii_eq_self_iff]
    intro c hc
    have hwide := hcapitals c hc
    simp only [eitherStyle, List.mem_cons, not_or] at hwide
    exact ⟨hwide.2.2.1, hwide.2.2.2.1⟩

/-- Full-width brackets are turned into ASCII ones before replacing a name or after it. -/
theorem ascii_replaceAll {pattern replacement t : Text} (h : SeenAlike pattern t)
    (hreplacement : ascii replacement = replacement) :
    ascii (replaceAll pattern replacement t) = replaceAll pattern replacement (ascii t) :=
  replaceAll_map hreplacement (fun u hu => h u ((List.mem_tails _ _).mpr hu))

end Bracket

namespace Substitution

variable {α : Type} {vars : Dict α}

/-- The last name is replaced in what the replacements before it have left. -/
theorem substitute_concat (bs : List (Binding α)) (b : Binding α) (text : Text) :
    substitute (bs ++ [b]) text = replaceAll b.name.uppercase b.placeholder (substitute bs text) := by
  rw [substitute, List.foldl_append]
  rfl

/-- Full-width brackets are turned into ASCII ones before the substitution or after it. -/
theorem ascii_substitute {text : Text} (h : ∀ before b after, bindings vars = before ++ b :: after →
      Bracket.SeenAlike b.name.uppercase (substitute before text)) :
    Bracket.ascii (substitute (bindings vars) text) =
      substitute (bindings vars) (Bracket.ascii text) := by
  suffices hstep : ∀ before after, bindings vars = before ++ after →
      Bracket.ascii (substitute before text) = substitute before (Bracket.ascii text) from
    hstep (bindings vars) [] (List.append_nil _).symm
  intro before
  induction before using List.reverseRecOn with
  | nil => exact fun _ _ => Bracket.ascii_uppercase text
  | append_singleton before b ih =>
      intro after hsplit
      rw [List.append_assoc, List.singleton_append] at hsplit
      have hb : b ∈ bindings vars := hsplit ▸ List.mem_append_cons_self
      obtain ⟨-, -, index, hindex⟩ := of_mem_bindings hb
      have hplaceholder : Bracket.ascii b.placeholder = b.placeholder := by
        rw [hindex]
        exact ascii_placeholder index
      rw [substitute_concat, substitute_concat, Bracket.ascii_replaceAll (h before b after hsplit)
        hplaceholder, ih (b :: after) hsplit]

end Substitution

/-- The scanner turns the brackets first, so a text and its turned form give one tree, or one error at
one place. -/
theorem Tree.parse_ascii (limit : Nat) (text : Text) :
    Tree.parse limit (Bracket.ascii text) = Tree.parse limit text := by
  rw [Tree.parse, Bracket.ascii_ascii, Tree.parse]

namespace Formula

/-- The formula as if it had been given as another text. -/
def retext (f : Formula) (text : Text) : Formula := { f with text := text }

/-- Read as it is, a text means the same with brackets of either style. -/
theorem parse_ascii (limit : Nat) (text : Text) :
    Formula.parse limit (Bracket.ascii text) =
      (Formula.parse limit text).map (fun f => f.retext (Bracket.ascii text)) := by
  rw [Formula.parse, Formula.parse, Tree.parse_ascii]
  cases Tree.parse limit text <;> rfl

variable {α : Type}

open Substitution in
/-- The brackets of a text with known names may be turned where every name, at its turn, is seen as it
would be with ASCII brackets. -/
theorem parseWith_ascii_of_seenAlike {vars : Dict α} {text : Text}
    (hseen : ∀ before b after, bindings vars = before ++ b :: after →
      Bracket.SeenAlike b.name.uppercase (substitute before text)) (limit : Nat) :
    Formula.parseWith limit vars (Bracket.ascii text) =
      (Formula.parseWith limit vars text).map
        (fun r => (r.1.retext (Bracket.ascii text), r.2)) := by
  rw [Formula.parseWith, Formula.parseWith]
  by_cases hvars : vars.entries.isEmpty = true
  · rw [if_pos hvars, if_pos hvars, parse_ascii]
    cases Formula.parse limit text <;> rfl
  · rw [if_neg hvars, if_neg hvars]
    dsimp only
    rw [← ascii_substitute hseen, Tree.parse_ascii]
    cases Tree.parse limit (substitute (bindings vars) text) <;> rfl

open Substitution in
/-- **Brackets of either style mean the same**, also where names are known, if every name at its turn is
seen in the text as it would be with ASCII brackets.  Names without brackets of either style are seen so
in every text. -/
theorem parseWith_ascii (limit : Nat) (vars : Dict α) (text : Text) :
    Formula.parse limit (Bracket.ascii text) =
        (Formula.parse limit text).map (fun f => f.retext (Bracket.ascii text)) ∧
      ((∀ before b after, bindings vars = before ++ b :: after →
          Bracket.SeenAlike b.name.uppercase (substitute before text)) →
        Formula.parseWith limit vars (Bracket.ascii text) =
          (Formula.parseWith limit vars text).map
            (fun r => (r.1.retext (Bracket.ascii text), r.2))) ∧
      ((∀ name ∈ vars.keys, ∀ c ∈ name, c ∉ Bracket.eitherStyle) →
        Formula.parseWith limit vars (Bracket.ascii text) =
          (Formula.parseWith limit vars text).map
            (fun r => (r.1.retext (Bracket.ascii text), r.2))) := by
  refine ⟨parse_ascii limit text, fun hseen => parseWith_ascii_of_seenAlike hseen limit, ?_⟩
  intro hnames
  refine parseWith_ascii_of_seenAlike ?_ limit
  intro before b after hsplit
  have hb : b ∈ bindings vars := hsplit ▸ List.mem_append_cons_self
  have hkey : b.name ∈ vars.keys := Dict.mem_keys_of_find? (of_mem_bindings hb).1
  exact Bracket.seenAlike_uppercase (hnames b.name hkey) (substitute before text)

/-- Two names, one of them with brackets. -/
def netNames : Dict Float := Dict.ofList [("gmv(net)".toList, 1.0), ("x".toList, 2.0)]

/-- The longer name comes first. -/
theorem bindings_netNames :
    Substitution.bindings netNames =
      [⟨"gmv(net)".toList, "v1".toList, 1.0⟩, ⟨"x".toList, "v2".toList, 2.0⟩] :=
  Substitution.bindings_eq_of_perm (.refl _) (by
    show List.Pairwise _ ["gmv(net)".toList, "x".toList]
    decide)

/-- Two names without brackets. -/
def plainNames : Dict Float := Dict.ofList [("gmv".toList, 1.0), ("x".toList, 2.0)]

/-- A name with brackets that the text writes in its own style, and names without brackets. -/
theorem parseWith_ascii_netNames :
    ((∀ before b after, Substitution.bindings netNames = before ++ b :: after →
      Bracket.SeenAlike b.name.uppercase
        (Substitution.substitute before "（GMV(net) + x）".toList)) ∧
      Formula.parseWith 2 netNames "(GMV(net) + x)".toList =
        (Formula.parseWith 2 netNames "（GMV(net) + x）".toList).map
          (fun r => (r.1.retext "(GMV(net) + x)".toList, r.2))) ∧
      (∀ name ∈ plainNames.keys, ∀ c ∈ name, c ∉ Bracket.eitherStyle) ∧
      Formula.parseWith 2 plainNames "(GMV + x)".toList =
        (Formula.parseWith 2 plainNames "（GMV + x）".toList).map
          (fun r => (r.1.retext "(GMV + x)".toList, r.2)) := by
  have hseen : ∀ before b after, Substitution.bindings netNames = before ++ b :: after →
      Bracket.SeenAlike b.name.uppercase
        (Substitution.substitute before "（GMV(net) + x）".toList) := by
    intro before b after hsplit
    rw [bindings_netNames] at hsplit
    cases before with
    | nil =>
        obtain ⟨rfl, -⟩ := List.cons.inj hsplit
        decide +kernel
    | cons c before =>
        obtain ⟨rfl, hrest⟩ := List.cons.inj hsplit
        cases before with
        | nil =>
            obtain ⟨rfl, -⟩ := List.cons.inj hrest
            decide +kernel
        | cons d before =>
            obtain ⟨-, hnone⟩ := List.cons.inj hrest
            simp at hnone
  have hascii : Bracket.ascii "（GMV(net) + x）".toList = "(GMV(net) + x)".toList := by decide
  have hread := (parseWith_ascii 2 netNames "（GMV(net) + x）".toList).2.1 hseen
  rw [hascii] at hread
  have hletters : plainNames.keys.all (fun name => name.all Char.isAlpha) = true := by decide
  have hbare : ∀ name ∈ plainNames.keys, ∀ c ∈ name, c ∉ Bracket.eitherStyle := by
    intro name hname c hc hbracket
    have hletter := List.all_eq_true.mp (List.all_eq_true.mp hletters name hname) c hc
    simp only [Bracket.eitherStyle, List.mem_cons, List.not_mem_nil, or_false] at hbracket
    rcases hbracket with rfl | rfl | rfl | rfl <;> cases hletter
  have hbareAscii : Bracket.ascii "（GMV + x）".toList = "(GMV + x)".toList := by decide
  have hbareRead := (parseWith_ascii 2 plainNames "（GMV + x）".toList).2.2 hbare
  rw [hbareAscii] at hbareRead
  exact ⟨⟨hseen, hread⟩, hbare, hbareRead⟩

/-- A name with brackets. -/
def bracketedName : Dict Float := Dict.ofList [("(a)".toList, 1.0)]

/-- The only name has the first placeholder. -/
theorem bindings_bracketedName :
    Substitution.bindings bracketedName = [⟨"(a)".toList, "v1".toList, 1.0⟩] :=
  Substitution.bindings_eq_of_perm (.refl _) (List.pairwise_singleton _ _)

/-- **Brackets can hide a name.**  `(a)` is known and stands in the text that has it in ASCII brackets,
where it becomes `v1`.  With full-width brackets it is not found, and `A` is read between them. -/
theorem exists_tree_ne_ascii :
    ∃ f g next, Formula.parseWith defaultLimit bracketedName "（a）".toList = .ok (f, next) ∧
      Formula.parseWith defaultLimit bracketedName "(a)".toList = .ok (g, next) ∧
      "(a)".toList = Bracket.ascii "（a）".toList ∧
      f.tree = .var "A".toList ∧ g.tree = .var "v1".toList := by
  have hleft : Substitution.rewritten bracketedName "（a）".toList = "（A）".toList := by
    rw [Substitution.rewritten, bindings_bracketedName]
    decide +kernel
  have hreplaced : Substitution.rewritten bracketedName "(a)".toList = "v1".toList := by
    rw [Substitution.rewritten, bindings_bracketedName]
    decide
  have hA : IsName "A".toList := .singleton rfl
  have hparse : Tree.parse defaultLimit (Substitution.rewritten bracketedName "（a）".toList) =
      .ok (.var "A".toList) := by
    have hascii : Bracket.ascii "（A）".toList = "(A)".toList := by decide
    rw [hleft, Tree.parse_eq_ok_iff, hascii]
    refine ⟨.compound .none (.pair (.sole .none (.name _ hA) .none)) .none (by decide) (by decide),
      rfl, ?_, rfl⟩
    show 1 ≤ defaultLimit
    decide
  have hreadAscii := Formula.parseWith_of_rewritten hreplaced (Substitution.isName_placeholder 0)
    (by decide) defaultLimit
  exact ⟨_, _, _, Formula.parseWith_of_tree hparse, hreadAscii, by decide, rfl, rfl⟩

end Formula

end InfixFormula
