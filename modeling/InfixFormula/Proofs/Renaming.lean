import InfixFormula.Proofs.BracketStyle
import InfixFormula.Proofs.Lookup
import InfixFormula.Proofs.Spelling

/-!
# Plain names

Names are plain if they are ASCII, differ in more than case, and are read as variables by themselves.
For plain names it makes no difference whether a formula is read as it is or with the names known: the
second reading succeeds where the first does, its tree is that of the first with placeholders for names
(`Tree.Renamed`), and over the extended variables it has the same value as the first over the variables
as they were (`Formula.parseWith_of_isPlain`).

A name of the formula comes out of the substitution as its own placeholder (`substitute_name`).  The names
before it in the order are at least as long and do not stand in it; and no name stands in a placeholder,
whose digits are no name and whose letter is no capital.
-/

namespace InfixFormula

open Text

/-- The trees differ in sources, and in names that the relation allows. -/
inductive Tree.Renamed (R : Text → Text → Prop) : Tree → Tree → Prop where
  | const (x : Float) (s s' : Source) : Renamed R (.const x s) (.const x s')
  | var {n m : Text} (h : R n m) : Renamed R (.var n) (.var m)
  | binary (op : Operator) {l r l' r' : Tree} (s s' : Source) (hl : Renamed R l l')
      (hr : Renamed R r r') : Renamed R (.binary op l r s) (.binary op l' r' s')

/-- A tree whose names are all related to themselves is a renaming of itself. -/
theorem Tree.Renamed.refl_of_names {R : Text → Text → Prop} {t : Tree} (h : ∀ n ∈ t.names, R n n) :
    t.Renamed R t := by
  induction t with
  | const x s => exact .const x s s
  | var n => exact .var (h n (by simp))
  | binary op l r s ihl ihr =>
      rw [names_binary, List.forall_mem_append] at h
      exact .binary op s s (ihl h.1) (ihr h.2)

namespace Setting

variable {σ : Type}

/-- The same result, and the host left in the same state. -/
def Alike (o o' : Except Error Float × Progress σ) : Prop := o'.1 = o.1 ∧ o'.2.host = o.2.host

/-- What goes on alike after results that are alike ends alike. -/
theorem alike_match {o o' : Except Error Float × Progress σ}
    {k k' : Float → Progress σ → Except Error Float × Progress σ} :
    Alike o o' → (∀ (x : Float) (p p' : Progress σ), p'.host = p.host → Alike (k x p) (k' x p')) →
      Alike (match o with | (.error e, p) => (.error e, p) | (.ok x, p) => k x p)
        (match o' with | (.error e, p) => (.error e, p) | (.ok x, p) => k' x p) :=
  agree_match (Q := fun p p' => p'.host = p.host)

variable {env : Setting σ} {lookup lookup' : Lookup} {R : Text → Text → Prop}

/-- Renamed trees have the same value where their names have. -/
theorem value_renamed (hR : ∀ n m, R n m → ∃ x, lookup n = some x ∧ lookup' m = some x) {t t' : Tree}
    (h : t.Renamed R t') (depth : Nat) (p p' : Progress σ) (hhost : p'.host = p.host) :
    Alike ((env.withLookup lookup).value depth t p) ((env.withLookup lookup').value depth t' p') := by
  refine agree_of_limit (Q := fun p p' => p'.host = p.host) hhost (fun hle => ?_)
  cases h with
  | const x s s' =>
      rw [value_const x s p (hle _), value_const x s' p' (hle _)]
      exact ⟨rfl, hhost⟩
  | var h =>
      obtain ⟨x, hx, hx'⟩ := hR _ _ h
      have hfound : (env.withLookup lookup).lookup _ = some x := hx
      have hfound' : (env.withLookup lookup').lookup _ = some x := hx'
      rw [value_var _ p (hle _), value_var _ p' (hle _), hfound, hfound']
      exact ⟨rfl, hhost⟩
  | binary op s s' hl hr =>
      rw [value_binary _ _ _ _ p (hle _), value_binary _ _ _ _ p' (hle _)]
      refine alike_match (value_renamed hR hl (depth + 1) p p' hhost) ?_
      intro x q q' hhost
      refine alike_match (value_renamed hR hr (depth + 1) q q' hhost) ?_
      intro y q q' hhost
      by_cases hzero : isZeroDivision op y = true
      · rw [if_pos hzero, if_pos hzero, askDivisor, askDivisor, hhost]
        exact ⟨rfl, rfl⟩
      · rw [if_neg hzero, if_neg hzero]
        exact ⟨rfl, hhost⟩

/-- **Renaming changes neither the result nor what the host is asked**, where the names have their
values. -/
theorem evaluate_renamed (hR : ∀ n m, R n m → ∃ x, lookup n = some x ∧ lookup' m = some x) {t t' : Tree}
    (h : t.Renamed R t') (host : σ) :
    ((env.withLookup lookup').evaluate t' host).result = ((env.withLookup lookup).evaluate t host).result ∧
      ((env.withLookup lookup').evaluate t' host).host = ((env.withLookup lookup).evaluate t host).host :=
  value_renamed hR h 0 ⟨host, []⟩ ⟨host, []⟩ rfl

end Setting

section Spelling

variable {R : Text → Text → Prop} {s : Text → Text}

/-- A leaf with another name is a leaf again, with the same sign. -/
theorem Leaf.exists_spelled (l : Leaf) {source : Source}
    (hs : ∀ n ∈ (l.tree source).names, IsName (s n) ∧ R n (s n)) :
    ∃ m : Leaf, m.text = l.spell s ∧ m.isSigned = l.isSigned ∧
      ∀ source', (l.tree source).Renamed R (m.tree source') := by
  cases l with
  | number d hd => exact ⟨.number d hd, rfl, rfl, fun _ => .const _ _ _⟩
  | percentage d hd => exact ⟨.percentage d hd, rfl, rfl, fun _ => .const _ _ _⟩
  | name n hn =>
      obtain ⟨hname, hrenamed⟩ := hs n List.mem_cons_self
      exact ⟨.name (s n) hname, rfl, rfl, fun _ => .var hrenamed⟩

/-- Names in place of names make a phrase of the same shape. -/
theorem Phrase.exists_spelled {buffer : Text} {k : Kind} (p : Phrase k) {start : Nat}
    (hs : ∀ n ∈ (p.tree buffer start).names, IsName (s n) ∧ R n (s n)) :
    ∃ q : Phrase k, q.text = p.spell s ∧ q.nesting = p.nesting ∧
      ∀ buffer' start', (p.tree buffer start).Renamed R (q.tree buffer' start') := by
  induction p generalizing start with
  | leaf l hl =>
      obtain ⟨m, htext, hsigned, hrenamed⟩ := l.exists_spelled hs
      exact ⟨.leaf m (hsigned.trans hl), htext, rfl, fun _ _ => hrenamed _⟩
  | pair inside ih =>
      obtain ⟨q, htext, hnesting, hrenamed⟩ := ih hs
      exact ⟨q.pair, by rw [text, htext, spell], hnesting, fun _ _ => hrenamed _ _⟩
  | operation op left before after right hleft hright ihl ihr =>
      rw [tree, Tree.names_binary, List.forall_mem_append] at hs
      obtain ⟨ql, htextl, hnestingl, hrenamedl⟩ := ihl hs.1
      obtain ⟨qr, htextr, hnestingr, hrenamedr⟩ := ihr hs.2
      refine ⟨.operation op ql before after qr hleft hright, ?_, ?_, ?_⟩
      · rw [text, htextl, htextr, spell]
      · rw [nesting, hnestingl, hnestingr, nesting]
      · exact fun _ _ => .binary op _ _ (hrenamedl _ _) (hrenamedr _ _)
  | sole before l after =>
      obtain ⟨m, htext, -, hrenamed⟩ := l.exists_spelled hs
      exact ⟨.sole before m after, by rw [text, htext, spell], rfl, fun _ _ => hrenamed _⟩
  | compound before inner after hkind hcontent ih =>
      obtain ⟨q, htext, hnesting, hrenamed⟩ := ih hs
      refine ⟨.compound before q after hkind hcontent, ?_, ?_, fun _ _ => hrenamed _ _⟩
      · rw [text, htext, spell]
      · rw [nesting, hnesting, nesting]

end Spelling

variable {α : Type} {vars : Dict α}

/-- Apart from names that are never replaced, the names are ASCII, differ in more than case, and each is
read as the variable of that name. -/
structure Dict.IsPlain (vars : Dict α) : Prop where
  ascii : ∀ name ∈ vars.keys, Substitution.isReplaced name = true → ∀ c ∈ name, c.toNat < 128
  distinct : ∀ m ∈ vars.keys, ∀ n ∈ vars.keys, Substitution.isReplaced m = true →
    Substitution.isReplaced n = true → m.uppercase = n.uppercase → m = n
  isVariable : ∀ name ∈ vars.keys, Substitution.isReplaced name = true →
    ∃ f, Formula.parse defaultLimit name = .ok f ∧ f.tree = .var name

/-- Names of variables are replaced if they are known. -/
theorem IsName.isReplaced {n : Text} (hn : IsName n) : Substitution.isReplaced n = true := by
  have hblank : n.isBlank = false := by
    cases n with
    | nil => exact absurd rfl hn.ne_nil
    | cons c n => simp [isBlank, hn.layout c List.mem_cons_self]
  have hnumber : Literal.isNumber n = false := by
    have hvalue := (Leaf.name n hn).value?_text
    rw [Bool.eq_false_iff, Literal.isNumber, Ne, Option.isSome_iff_exists]
    rintro ⟨d, hd⟩
    simp [Literal.value?, Literal.numberValue?, Leaf.text, Leaf.value?, hd] at hvalue
  rw [Substitution.isReplaced, hblank, hnumber]
  rfl

namespace Substitution

/-- Names that do not occur are not replaced. -/
theorem foldl_replaceAll_eq_self {bs : List (Binding α)} {t : Text}
    (h : ∀ b ∈ bs, ¬ b.name.uppercase <:+: t) :
    bs.foldl (fun t b => replaceAll b.name.uppercase b.placeholder t) t = t := by
  induction bs with
  | nil => rfl
  | cons b bs ih =>
      rw [List.forall_mem_cons] at h
      have hfirst : occursIn b.name.uppercase t = false := by
        rw [← Bool.not_eq_true, occursIn_iff]
        exact h.1
      rw [List.foldl_cons, replaceAll_eq_self _ hfirst, ih h.2]

/-- A name in which no name stands that is replaced earlier becomes its own placeholder. -/
theorem substitute_name_of_before {before after : List (Binding α)} {b : Binding α}
    (hsplit : bindings vars = before ++ b :: after)
    (hbefore : ∀ b' ∈ before, ¬ b'.name.uppercase <:+: b.name.uppercase) :
    substitute (bindings vars) b.name = b.placeholder := by
  have hb : b ∈ bindings vars := hsplit ▸ List.mem_append_cons_self
  obtain ⟨-, hreplaced, index, hindex⟩ := of_mem_bindings hb
  have hne : b.name.uppercase ≠ [] := by
    obtain ⟨c, hc, -⟩ := exists_not_isDigit hreplaced
    exact List.ne_nil_of_mem hc
  have hafter : ∀ b' ∈ after, ¬ b'.name.uppercase <:+: b.placeholder := by
    intro b' hmem
    have hb' : b' ∈ bindings vars := by
      rw [hsplit]
      exact List.mem_append_right _ (List.mem_cons_of_mem _ hmem)
    rw [hindex]
    exact not_occurs_placeholder (of_mem_bindings hb').2.1 index
  rw [substitute, hsplit, List.foldl_append, foldl_replaceAll_eq_self hbefore, List.foldl_cons,
    replaceAll_self hne, foldl_replaceAll_eq_self hafter]

end Substitution

namespace Dict.IsPlain

open Substitution

/-- All names that are replaced are variables as they stand. -/
theorem isName (hvars : vars.IsPlain) {b : Binding α} (hb : b ∈ bindings vars) : IsName b.name := by
  obtain ⟨hfind, hreplaced, -⟩ := of_mem_bindings hb
  obtain ⟨f, hf, htree⟩ := hvars.isVariable b.name (Dict.mem_keys_of_find? hfind) hreplaced
  exact (Tree.isName_of_parse (Formula.parse_eq_ok_iff.mp hf).1 (by rw [htree]; simp)).1

theorem ascii_name (hvars : vars.IsPlain) {b : Binding α} (hb : b ∈ bindings vars) :
    ∀ c ∈ b.name, c.toNat < 128 := by
  obtain ⟨hfind, hreplaced, -⟩ := of_mem_bindings hb
  exact hvars.ascii b.name (Dict.mem_keys_of_find? hfind) hreplaced

/-- Their capitals are variables too. -/
theorem isName_uppercase (hvars : vars.IsPlain) {b : Binding α} (hb : b ∈ bindings vars) :
    IsName b.name.uppercase :=
  (hvars.isName hb).uppercase (hvars.ascii_name hb)

/-- They have no full-width brackets. -/
theorem ascii_eq_self (hvars : vars.IsPlain) {b : Binding α} (hb : b ∈ bindings vars) :
    Bracket.ascii b.name = b.name := by
  rw [Bracket.ascii_eq_self_iff]
  intro c hc
  have hcode := hvars.ascii_name hb c hc
  constructor
  · rintro rfl
    exact absurd hcode (by decide)
  · rintro rfl
    exact absurd hcode (by decide)

/-- They are seen in a text whatever the style of its brackets. -/
theorem seenAlike (hvars : vars.IsPlain) {b : Binding α} (hb : b ∈ bindings vars) (t : Text) :
    Bracket.SeenAlike b.name.uppercase t := by
  apply Bracket.seenAlike_of_forall
  · exact fun c hc => Bracket.isBracket_of_isDelimiter ((hvars.isName_uppercase hb).delimiter c hc)
  · rw [Bracket.ascii_uppercase, hvars.ascii_eq_self hb]

/-- A name that is replaced earlier does not stand in the name: it is as long at least, and another
one. -/
theorem not_occurs_of_before (hvars : vars.IsPlain) {b b' : Binding α} {before after : List (Binding α)}
    (hsplit : bindings vars = before ++ b :: after) (hmem : b' ∈ before) :
    ¬ b'.name.uppercase <:+: b.name.uppercase := by
  intro hoccurs
  have hb : b ∈ bindings vars := hsplit ▸ List.mem_append_cons_self
  have hb' : b' ∈ bindings vars := hsplit ▸ List.mem_append_left _ hmem
  obtain ⟨hprecedes, hne⟩ := precedes_of_before hsplit hmem
  have heq : b'.name.uppercase = b.name.uppercase := by
    apply hoccurs.eq_of_length_le
    rw [length_uppercase (hvars.ascii_name hb), length_uppercase (hvars.ascii_name hb')]
    rw [precedes_iff] at hprecedes
    omega
  obtain ⟨hfind, hreplaced, -⟩ := of_mem_bindings hb
  obtain ⟨hfind', hreplaced', -⟩ := of_mem_bindings hb'
  exact hne (hvars.distinct b'.name (Dict.mem_keys_of_find? hfind') b.name
    (Dict.mem_keys_of_find? hfind) hreplaced' hreplaced heq)

/-- **A known name becomes its own placeholder.** -/
theorem substitute_name (hvars : vars.IsPlain) {b : Binding α} (hb : b ∈ bindings vars) :
    substitute (bindings vars) b.name = b.placeholder := by
  obtain ⟨before, after, hsplit⟩ := List.append_of_mem hb
  exact substitute_name_of_before hsplit (fun b' hmem => hvars.not_occurs_of_before hsplit hmem)

end Dict.IsPlain

open Substitution in
/-- What is read in place of a formula over plain names is a formula with placeholders for the names. -/
theorem Dict.IsPlain.exists_parse_rewritten (hvars : vars.IsPlain) {limit : Nat} {text : Text} {t : Tree}
    (hparse : Tree.parse limit text = .ok t) (hnames : ∀ name ∈ t.names, name ∈ vars.keys) :
    ∃ t', Tree.parse limit (rewritten vars text) = .ok t' ∧
      t.Renamed (fun name p => (mapping (bindings vars)).find? name = some p) t' := by
  have hbinding : ∀ name ∈ t.names, IsName (substitute (bindings vars) name) ∧
      (mapping (bindings vars)).find? name = some (substitute (bindings vars) name) := by
    intro name hname
    have hreplaced := (Tree.isName_of_parse hparse hname).1.isReplaced
    obtain ⟨b, hb, rfl⟩ := exists_binding (hnames name hname) hreplaced
    obtain ⟨-, -, index, hindex⟩ := of_mem_bindings hb
    rw [hvars.substitute_name hb]
    refine ⟨?_, find?_mapping.mpr ⟨b, hb, rfl, rfl⟩⟩
    rw [hindex]
    exact isName_placeholder index
  by_cases hvars' : vars.entries.isEmpty = true
  · refine ⟨t, ?_, Tree.Renamed.refl_of_names ?_⟩
    · rwa [rewritten, if_pos hvars']
    · intro name hname
      have hkey := hnames name hname
      rw [Dict.keys, List.isEmpty_iff.mp hvars'] at hkey
      cases hkey
  · obtain ⟨c, hc, hnesting, rfl⟩ := Tree.parse_eq_ok_iff.mp hparse
    obtain ⟨q, htext, hnesting', hrenamed⟩ :=
      c.exists_spelled (R := fun name p => (mapping (bindings vars)).find? name = some p) hbinding
    have hascii : Bracket.ascii (substitute (bindings vars) text) = q.text := by
      have hcommute : Bracket.ascii (substitute (bindings vars) text) =
          substitute (bindings vars) (Bracket.ascii text) :=
        ascii_substitute (fun before b after hsplit =>
          hvars.seenAlike (hsplit ▸ List.mem_append_cons_self) _)
      rw [hcommute, ← hc, c.substitute_text (fun b hb => hvars.isName_uppercase hb), htext]
    refine ⟨q.tree q.text 0, ?_, hrenamed _ _⟩
    rw [rewritten, if_neg hvars', Tree.parse_eq_ok_iff, hascii]
    exact ⟨q, rfl, by rwa [hnesting'], rfl⟩

open Substitution in
/-- **Known names change nothing.**  A formula over plain names is read with the names known as it is read
without, but for placeholders in place of the names, and has the same value for every host. -/
theorem Formula.parseWith_of_isPlain (hvars : vars.IsPlain) {limit : Nat} {text : Text} {f : Formula}
    (hread : Formula.parse limit text = .ok f) (hnames : ∀ name ∈ f.tree.names, name ∈ vars.keys) :
    ∃ (g : Formula) (extended : Dict α), Formula.parseWith limit vars text = .ok (g, extended) ∧
      f.tree.Renamed (fun name p => g.placeholder? name = some p) g.tree ∧
      ∀ (value : α → Option Float) {σ : Type} (env : Setting σ) (host : σ),
        ((env.withLookup (extended.lookup value)).evaluate g.tree host).result =
            ((env.withLookup (vars.lookup value)).evaluate f.tree host).result ∧
          ((env.withLookup (extended.lookup value)).evaluate g.tree host).host =
            ((env.withLookup (vars.lookup value)).evaluate f.tree host).host := by
  obtain ⟨hparse, -, -⟩ := Formula.parse_eq_ok_iff.mp hread
  obtain ⟨tree, hrewritten, hrenamed⟩ := hvars.exists_parse_rewritten hparse hnames
  refine ⟨_, _, Formula.parseWith_of_tree hrewritten, ?_, ?_⟩
  · exact hrenamed
  · intro value σ env host
    refine Setting.evaluate_renamed ?_ hrenamed host
    intro name p hp
    obtain ⟨b, hb, rfl, rfl⟩ := find?_mapping.mp hp
    refine ⟨value b.value, ?_, ?_⟩
    · rw [Dict.lookup, (of_mem_bindings hb).1]
      rfl
    · rw [Dict.lookup, find?_extend_placeholder hb]
      rfl

/-- Names of which one stands in another and one looks like a placeholder, and two that are never
replaced. -/
def Dict.plainSample : Dict Float :=
  Dict.ofList [("x".toList, 3.0), ("v1".toList, 4.0), ("xx".toList, 5.0), ("".toList, 6.0),
    ("2".toList, 7.0)]

/-- The names that are replaced are variables in ASCII letters, and no two of them share their capitals.
-/
theorem Dict.isPlain_sample : Dict.plainSample.IsPlain := by
  have hkeys : plainSample.keys = ["x".toList, "v1".toList, "xx".toList, "".toList, "2".toList] := rfl
  constructor
  · have hcodes : ∀ name ∈ plainSample.keys, name.all (fun c => c.toNat.blt 128) = true := by
      rw [hkeys]
      decide
    intro name hname hreplaced c hc
    exact Nat.blt_eq.mp (List.all_eq_true.mp (hcodes name hname) c hc)
  · rw [hkeys]
    decide
  · have hnames : ∀ name ∈ plainSample.keys, Substitution.isReplaced name = true →
        name ≠ [] ∧ name.any Literal.isDelimiter = false ∧ Literal.rejection name = none ∧
          Bracket.ascii name = name := by
      rw [hkeys]
      decide
    intro name hname hreplaced
    obtain ⟨hne, hdelimiter, hrejection, hascii⟩ := hnames name hname hreplaced
    have hn := (Literal.rejection_eq_none_iff hne hdelimiter).mp hrejection
    exact ⟨⟨.var name, name, Dict.empty⟩,
      Formula.parse_eq_ok_iff.mpr ⟨Tree.parse_name hn hascii defaultLimit, rfl, rfl⟩, rfl⟩

/-- The only variable of the sample is known, and so is a longer name that does not occur. -/
theorem Formula.parseWith_of_isPlain_sample :
    Dict.plainSample.IsPlain ∧ ∃ f g extended, Formula.parse 2 "（1 + x） * 2%".toList = .ok f ∧
      f.tree.names = ["x".toList] ∧
      Formula.parseWith 2 Dict.plainSample "（1 + x） * 2%".toList = .ok (g, extended) ∧
      f.tree.Renamed (fun name p => g.placeholder? name = some p) g.tree ∧
      ∀ (value : Float → Option Float) {σ : Type} (env : Setting σ) (host : σ),
        ((env.withLookup (extended.lookup value)).evaluate g.tree host).result =
            ((env.withLookup (Dict.plainSample.lookup value)).evaluate f.tree host).result ∧
          ((env.withLookup (extended.lookup value)).evaluate g.tree host).host =
            ((env.withLookup (Dict.plainSample.lookup value)).evaluate f.tree host).host := by
  have hascii : Bracket.ascii "（1 + x） * 2%".toList = "(1 + x) * 2%".toList := by decide
  have hread : Tree.parse 2 "（1 + x） * 2%".toList =
      .ok (Phrase.sample.tree "(1 + x) * 2%".toList 0) := by
    rw [Tree.parse_eq_ok_iff, hascii]
    exact ⟨.sample, by decide, by decide, rfl⟩
  have hf : Formula.parse 2 "（1 + x） * 2%".toList = .ok ⟨_, _, Dict.empty⟩ :=
    Formula.parse_eq_ok_iff.mpr ⟨hread, rfl, rfl⟩
  have hnames : (Phrase.sample.tree "(1 + x) * 2%".toList 0).names = ["x".toList] := rfl
  have hknown : ∀ name ∈ (Phrase.sample.tree "(1 + x) * 2%".toList 0).names,
      name ∈ Dict.plainSample.keys := by
    rw [hnames]
    decide
  obtain ⟨g, extended, hg, hrenamed, hvalue⟩ := Formula.parseWith_of_isPlain Dict.isPlain_sample hf hknown
  exact ⟨Dict.isPlain_sample, _, g, extended, hf, hnames, hg, hrenamed, hvalue⟩

end InfixFormula
