import Mathlib.Data.List.Nodup
import InfixFormula.Substitution

/-!
# Names, placeholders and values

The bindings of some variables hold every name that is replaced once (`exists_binding`), with the value
that the variables have for it (`of_mem_bindings`), and with a placeholder of its own
(`nodup_placeholders`): a small v and digits, which differ from place to place.  A name in front of another
one is another name, and comes before it in the order of replacement (`precedes_of_before`).

Reading with known names is reading the rewritten text (`parseWith_eq_ok_iff`).  What is looked up
afterwards follows.  The mapping has the placeholder of every name that is replaced (`find?_mapping`).  The
extended variables have the value of the name under each placeholder, and under all other names what they
had (`find?_extend_placeholder`, `find?_extend_of_ne`).
-/

namespace InfixFormula

namespace Dict

variable {α : Type} {d : Dict α} {name : Text} {x : α}

/-- Where no name comes twice, what is found is what is there. -/
theorem lookup_eq_some_iff_mem {es : List (Text × α)} (hes : (es.map Prod.fst).Nodup) :
    es.lookup name = some x ↔ (name, x) ∈ es := by
  rw [List.lookup_eq_some_iff]
  constructor
  · rintro ⟨before, after, hsplit, -⟩
    simp [hsplit]
  · intro hmem
    obtain ⟨before, after, rfl⟩ := List.append_of_mem hmem
    refine ⟨before, after, rfl, ?_⟩
    intro e he
    rw [List.map_append, List.map_cons, List.nodup_append] at hes
    have hne := hes.2.2 e.1 (List.mem_map_of_mem he) name List.mem_cons_self
    simpa using hne.symm

/-- A name has the value that its only entry gives it. -/
theorem find?_eq_some_iff : d.find? name = some x ↔ (name, x) ∈ d.entries :=
  lookup_eq_some_iff_mem d.nodup

/-- What is not found is no key. -/
theorem find?_eq_none_iff : d.find? name = none ↔ name ∉ d.keys := by
  rw [Option.eq_none_iff_forall_ne_some, keys, List.mem_map]
  constructor
  · rintro h ⟨e, he, rfl⟩
    exact h e.2 (find?_eq_some_iff.mpr he)
  · intro h x hx
    exact h ⟨(name, x), find?_eq_some_iff.mp hx, rfl⟩

theorem exists_find?_of_mem_keys (h : name ∈ d.keys) : ∃ x, d.find? name = some x := by
  obtain ⟨e, he, rfl⟩ := List.mem_map.mp h
  exact ⟨e.2, find?_eq_some_iff.mpr he⟩

theorem mem_keys_of_find? (h : d.find? name = some x) : name ∈ d.keys :=
  List.mem_map_of_mem (find?_eq_some_iff.mp h)

/-- A dictionary agrees with itself if its values do. -/
theorem agrees_self [BEq α] [ReflBEq α] (d : Dict α) : d.agrees d = true := by
  have hfound : ∀ e ∈ d.entries, (d.find? e.1 == some e.2) = true := by
    intro e he
    have hfind : d.find? e.1 = some e.2 := find?_eq_some_iff.mpr he
    rw [hfind, beq_self_eq_true]
  rw [agrees, beq_self_eq_true, List.all_eq_true.mpr hfound]
  rfl

/-- Of names that come once, each holds the value that was put, and all other names hold theirs. -/
theorem find?_insertAll (d : Dict α) {es : List (Text × α)} (hes : (es.map Prod.fst).Nodup)
    (name : Text) : (d.insertAll es).find? name = (es.lookup name).or (d.find? name) := by
  induction es generalizing d with
  | nil => rfl
  | cons e es ih =>
      rw [List.map_cons, List.nodup_cons] at hes
      have hstep : d.insertAll (e :: es) = (d.insert e.1 e.2).insertAll es := rfl
      rw [hstep, ih _ hes.2, find?_insert, List.lookup_cons]
      by_cases hname : name = e.1
      · have hlookup : es.lookup name = none := by
          rw [List.lookup_eq_none_iff]
          intro e' he'
          rw [hname, bne_iff_ne]
          rintro heq
          exact hes.1 (heq ▸ List.mem_map_of_mem he')
        rw [hlookup, if_pos hname, beq_iff_eq.mpr hname]
        rfl
      · have hbeq : (name == e.1) = false := by simpa using hname
        rw [if_neg hname, hbeq]

end Dict

namespace Substitution

variable {α : Type} {vars : Dict α}

/-- Behind the small v, a placeholder is all digits. -/
theorem isDigit_of_mem_tail_placeholder {index : Nat} {c : Char} (hc : c ∈ (placeholder index).tail) :
    c.isDigit = true :=
  Nat.isDigit_of_mem_toDigits (by decide) (by decide) hc

/-- Different places have different placeholders. -/
theorem placeholder_injective {i j : Nat} (h : placeholder i = placeholder j) : i = j := by
  have hdigits := congrArg (fun t => Nat.ofDigitChars 10 (List.tail t) 0) h
  simp only [placeholder, List.tail_cons, Text.ofNat, Nat.ofDigitChars_ten_toDigits] at hdigits
  omega

theorem precedes_iff {m n : Text} :
    precedes m n = true ↔ n.length < m.length ∨ m.length = n.length ∧ n.lex m = false := by
  simp [precedes]

/-- Of two names, one goes before the other. -/
theorem precedes_total (m n : Text) : (precedes m n || precedes n m) = true := by
  have hlex : n.lex m = false ∨ m.lex n = false := by
    rcases List.le_total m n with h | h
    · exact .inl (List.lex_eq_false_iff_ge.mpr h)
    · exact .inr (List.lex_eq_false_iff_ge.mpr h)
  rw [Bool.or_eq_true, precedes_iff, precedes_iff]
  rcases Nat.lt_trichotomy m.length n.length with h | h | h
  · exact .inr (.inl h)
  · exact hlex.imp (fun hle => .inr ⟨h, hle⟩) (fun hle => .inr ⟨h.symm, hle⟩)
  · exact .inl (.inl h)

/-- The order of replacement is transitive. -/
theorem precedes_trans {m n o : Text} (hmn : precedes m n = true) (hno : precedes n o = true) :
    precedes m o = true := by
  have hlex : n.lex m = false → o.lex n = false → o.lex m = false := by
    intro h h'
    have hle := List.le_trans (List.lex_eq_false_iff_ge.mp h) (List.lex_eq_false_iff_ge.mp h')
    exact List.lex_eq_false_iff_ge.mpr hle
  rw [precedes_iff] at hmn hno ⊢
  grind

/-- The order of replacement lists the entries whose names are replaced, and no others. -/
theorem mem_ordered {e : Text × α} : e ∈ ordered vars ↔ e ∈ vars.entries ∧ isReplaced e.1 = true := by
  rw [ordered, List.mem_mergeSort, List.mem_filter]

/-- No two names share a place in the order of replacement. -/
theorem precedes_antisymm {m n : Text} (hmn : precedes m n = true) (hnm : precedes n m = true) :
    m = n := by
  have hlex : n.lex m = false → m.lex n = false → m = n := by
    intro h h'
    exact List.le_antisymm (List.lex_eq_false_iff_ge.mp h) (List.lex_eq_false_iff_ge.mp h')
  rw [precedes_iff] at hmn hnm
  grind

/-- The names are in order. -/
theorem pairwise_ordered (vars : Dict α) :
    ((ordered vars).map Prod.fst).Pairwise (fun m n => precedes m n = true) := by
  have htrans : ∀ e e' e'' : Text × α, precedes e.1 e'.1 = true → precedes e'.1 e''.1 = true →
      precedes e.1 e''.1 = true := fun _ _ _ => precedes_trans
  have htotal : ∀ e e' : Text × α, (precedes e.1 e'.1 || precedes e'.1 e.1) = true :=
    fun _ _ => precedes_total _ _
  exact List.pairwise_map.mpr (List.pairwise_mergeSort htrans htotal _)

/-- There is one way to put the names in order. -/
theorem ordered_eq_of_perm {es : List (Text × α)}
    (hperm : es.Perm (vars.entries.filter (fun e => isReplaced e.1)))
    (hes : (es.map Prod.fst).Pairwise (fun m n => precedes m n = true)) : ordered vars = es := by
  refine List.Perm.eq_of_pairwise ?_ (List.pairwise_map.mp (pairwise_ordered vars))
    (List.pairwise_map.mp hes) ((List.mergeSort_perm _ _).trans hperm.symm)
  rintro ⟨m, x⟩ ⟨n, y⟩ hm hn hmn hnm
  obtain rfl : m = n := precedes_antisymm hmn hnm
  have hx := Dict.find?_eq_some_iff.mpr (mem_ordered.mp hm).1
  have hy := Dict.find?_eq_some_iff.mpr (List.mem_filter.mp (hperm.subset hn)).1
  rw [Option.some.inj (hx.symm.trans hy)]

/-- What is in order is numbered as it stands. -/
theorem bindings_eq_of_perm {es : List (Text × α)}
    (hperm : es.Perm (vars.entries.filter (fun e => isReplaced e.1)))
    (hes : (es.map Prod.fst).Pairwise (fun m n => precedes m n = true)) :
    bindings vars = es.zipIdx.map (fun e => ⟨e.1.1, placeholder e.2, e.1.2⟩) := by
  rw [bindings, ordered_eq_of_perm hperm hes]

theorem map_name_bindings (vars : Dict α) :
    (bindings vars).map Binding.name = (ordered vars).map Prod.fst := by
  rw [bindings, List.map_map]
  have hfst := List.zipIdx_map_fst 0 (ordered vars)
  conv_rhs => rw [← hfst, List.map_map]
  rfl

/-- The placeholders are numbered without gaps. -/
theorem map_placeholder_bindings (vars : Dict α) :
    (bindings vars).map Binding.placeholder = (List.range (ordered vars).length).map placeholder := by
  rw [bindings, List.map_map]
  have hsnd := List.zipIdx_map_snd 0 (ordered vars)
  rw [← List.range_eq_range'] at hsnd
  rw [← hsnd, List.map_map]
  rfl

/-- No name comes twice. -/
theorem nodup_names (vars : Dict α) : ((bindings vars).map Binding.name).Nodup := by
  rw [map_name_bindings, ordered]
  have hperm := (List.mergeSort_perm (vars.entries.filter (fun e => isReplaced e.1))
    (fun e e' => precedes e.1 e'.1)).map Prod.fst
  rw [hperm.nodup_iff]
  exact vars.nodup.sublist (List.filter_sublist.map Prod.fst)

/-- No placeholder comes twice. -/
theorem nodup_placeholders (vars : Dict α) : ((bindings vars).map Binding.placeholder).Nodup := by
  rw [map_placeholder_bindings]
  exact List.nodup_range.map (fun i j h => placeholder_injective h)

/-- A binding is a name that is replaced, with its value and some placeholder. -/
theorem of_mem_bindings {b : Binding α} (hb : b ∈ bindings vars) :
    vars.find? b.name = some b.value ∧ isReplaced b.name = true ∧
      ∃ index, b.placeholder = placeholder index := by
  rw [bindings, List.mem_map] at hb
  obtain ⟨⟨e, index⟩, he, rfl⟩ := hb
  have hmem : e ∈ ordered vars := (List.mem_zipIdx he).2.2 ▸ List.getElem_mem _
  rw [mem_ordered] at hmem
  exact ⟨Dict.find?_eq_some_iff.mpr hmem.1, hmem.2, index, rfl⟩

/-- Every name that is replaced has a binding. -/
theorem exists_binding {name : Text} (hname : name ∈ vars.keys) (hreplaced : isReplaced name = true) :
    ∃ b ∈ bindings vars, b.name = name := by
  rw [← List.mem_map, map_name_bindings]
  obtain ⟨e, he, rfl⟩ := List.mem_map.mp hname
  exact List.mem_map_of_mem (mem_ordered.mpr ⟨he, hreplaced⟩)

/-- A binding in front of another one has another name, which comes first. -/
theorem precedes_of_before {before after : List (Binding α)} {b b' : Binding α}
    (hsplit : bindings vars = before ++ b :: after) (hmem : b' ∈ before) :
    precedes b'.name b.name = true ∧ b'.name ≠ b.name := by
  have hordered := pairwise_ordered vars
  have hnodup := nodup_names vars
  rw [← map_name_bindings, hsplit, List.map_append, List.map_cons, List.pairwise_append] at hordered
  rw [hsplit, List.map_append, List.map_cons, List.nodup_append] at hnodup
  have hname : b'.name ∈ before.map Binding.name := List.mem_map_of_mem hmem
  exact ⟨hordered.2.2 _ hname _ List.mem_cons_self, hnodup.2.2 _ hname _ List.mem_cons_self⟩

/-- Which name gets which placeholder is a matter of the names alone. -/
theorem map_name_placeholder_bindings (vars : Dict α) :
    (bindings vars).map (fun b => (b.name, b.placeholder)) =
      ((vars.keys.filter isReplaced).mergeSort precedes).zipIdx.map
        (fun e => (e.1, placeholder e.2)) := by
  have hordered : (ordered vars).map Prod.fst = (vars.keys.filter isReplaced).mergeSort precedes := by
    have hsort : ∀ es : List (Text × α), (es.mergeSort (fun e e' => precedes e.1 e'.1)).map Prod.fst =
        (es.map Prod.fst).mergeSort precedes :=
      fun es => List.map_mergeSort (fun _ _ _ _ => rfl)
    rw [ordered, hsort, Dict.keys, List.filter_map]
    rfl
  rw [← hordered, List.zipIdx_map, bindings, List.map_map, List.map_map]
  rfl

/-- The substitution looks at names and placeholders, never at values. -/
theorem substitute_eq_foldl (bs : List (Binding α)) (text : Text) :
    substitute bs text =
      (bs.map (fun b => (b.name, b.placeholder))).foldl
        (fun t e => Text.replaceAll e.1.uppercase e.2 t) text.uppercase := by
  rw [substitute, List.foldl_map]

/-- The values of the variables do not show in the text, nor in the mapping. -/
theorem substitute_bindings_congr {other : Dict α} (h : other.keys = vars.keys) (text : Text) :
    substitute (bindings other) text = substitute (bindings vars) text ∧
      mapping (bindings other) = mapping (bindings vars) := by
  have hpairs := map_name_placeholder_bindings other
  rw [h, ← map_name_placeholder_bindings vars] at hpairs
  rw [substitute_eq_foldl, substitute_eq_foldl, mapping, mapping, hpairs]
  exact ⟨rfl, rfl⟩

/-- The mapping gives each name its placeholder, and gives nothing else. -/
theorem find?_mapping {name p : Text} :
    (mapping (bindings vars)).find? name = some p ↔
      ∃ b ∈ bindings vars, b.name = name ∧ b.placeholder = p := by
  have hnodup : (((bindings vars).map (fun b => (b.name, b.placeholder))).map Prod.fst).Nodup := by
    rw [List.map_map]
    exact nodup_names vars
  rw [mapping, Dict.ofList, Dict.find?_insertAll _ hnodup, Dict.find?_empty, Option.or_none,
    Dict.lookup_eq_some_iff_mem hnodup, List.mem_map]
  simp [Prod.ext_iff]

/-- A key is found among the placeholders first, and only then among the old names. -/
theorem find?_extend (vars : Dict α) (name : Text) :
    (extend (bindings vars) vars).find? name =
      (((bindings vars).map (fun b => (b.placeholder, b.value))).lookup name).or
        (vars.find? name) := by
  have hnodup : (((bindings vars).map (fun b => (b.placeholder, b.value))).map Prod.fst).Nodup := by
    rw [List.map_map]
    exact nodup_placeholders vars
  exact Dict.find?_insertAll vars hnodup name

/-- Each placeholder holds the value of its name. -/
theorem find?_extend_placeholder {b : Binding α} (hb : b ∈ bindings vars) :
    (extend (bindings vars) vars).find? b.placeholder = some b.value := by
  have hnodup : (((bindings vars).map (fun b => (b.placeholder, b.value))).map Prod.fst).Nodup := by
    rw [List.map_map]
    exact nodup_placeholders vars
  have hlookup := (Dict.lookup_eq_some_iff_mem hnodup).mpr
    (List.mem_map_of_mem (f := fun b => (b.placeholder, b.value)) hb)
  rw [find?_extend, hlookup, Option.some_or]

/-- What is no placeholder holds what it held. -/
theorem find?_extend_of_ne {name : Text} (h : ∀ b ∈ bindings vars, b.placeholder ≠ name) :
    (extend (bindings vars) vars).find? name = vars.find? name := by
  have hlookup : ((bindings vars).map (fun b => (b.placeholder, b.value))).lookup name = none := by
    rw [List.lookup_eq_none_iff]
    intro e he
    obtain ⟨b, hb, rfl⟩ := List.mem_map.mp he
    simpa using (h b hb).symm
  rw [find?_extend, hlookup, Option.none_or]

/-- Under a name stands the value that it gets as a placeholder, or what it held. -/
theorem find?_extend_cases (vars : Dict α) (name : Text) :
    (∃ b ∈ bindings vars, b.placeholder = name ∧
        (extend (bindings vars) vars).find? name = some b.value) ∨
      (extend (bindings vars) vars).find? name = vars.find? name := by
  by_cases hname : ∃ b ∈ bindings vars, b.placeholder = name
  · obtain ⟨b, hb, rfl⟩ := hname
    exact .inl ⟨b, hb, rfl, find?_extend_placeholder hb⟩
  · exact .inr (find?_extend_of_ne (fun b hb hp => hname ⟨b, hb, hp⟩))

/-- The text that is read in place of the one that was given. -/
def rewritten (vars : Dict α) (text : Text) : Text :=
  if vars.entries.isEmpty then text else substitute (bindings vars) text

/-- Where there is a binding, the text is rewritten by the substitution. -/
theorem rewritten_of_mem {vars : Dict α} {b : Binding α} (hb : b ∈ bindings vars) (text : Text) :
    rewritten vars text = substitute (bindings vars) text := by
  rw [rewritten, if_neg]
  intro hvars
  rw [List.isEmpty_iff] at hvars
  simp [bindings, ordered, hvars] at hb

end Substitution

open Substitution in
/-- Reading with known names succeeds where reading the rewritten text does. -/
theorem Formula.parseWith_eq_ok_iff {α : Type} {limit : Nat} {vars next : Dict α} {text : Text}
    {f : Formula} :
    Formula.parseWith limit vars text = .ok (f, next) ↔
      Tree.parse limit (rewritten vars text) = .ok f.tree ∧ f.text = text ∧
        f.mapping = Substitution.mapping (bindings vars) ∧ next = extend (bindings vars) vars := by
  obtain ⟨tree, given, names⟩ := f
  by_cases hvars : vars.entries.isEmpty = true
  · have hbindings : bindings vars = [] := by
      rw [List.isEmpty_iff] at hvars
      simp [bindings, ordered, hvars]
    have hextend : extend (bindings vars) vars = vars := by
      rw [hbindings]
      rfl
    have hmapping : Substitution.mapping (bindings vars) = Dict.empty := by
      rw [hbindings]
      rfl
    rw [Formula.parseWith, rewritten, if_pos hvars, if_pos hvars, hextend, hmapping, Formula.parse]
    cases Tree.parse limit text <;> grind
  · rw [Formula.parseWith, rewritten, if_neg hvars, if_neg hvars]
    dsimp only
    cases Tree.parse limit (substitute (bindings vars) text) <;> grind

open Substitution in
/-- The tree of the rewritten text is that of the formula, which keeps the text that was given. -/
theorem Formula.parseWith_of_tree {α : Type} {limit : Nat} {vars : Dict α} {text : Text} {tree : Tree}
    (h : Tree.parse limit (rewritten vars text) = .ok tree) :
    Formula.parseWith limit vars text =
      .ok (⟨tree, text, Substitution.mapping (bindings vars)⟩, extend (bindings vars) vars) :=
  Formula.parseWith_eq_ok_iff.mpr ⟨h, rfl, rfl, rfl⟩

open Substitution in
/-- Reading with known names fails as reading the rewritten text does. -/
theorem Formula.parseWith_eq_error_iff {α : Type} {limit : Nat} {vars : Dict α} {text : Text} {e : Error} :
    Formula.parseWith limit vars text = .error e ↔
      Tree.parse limit (rewritten vars text) = .error e := by
  rw [Formula.parseWith, rewritten]
  by_cases hvars : vars.entries.isEmpty = true
  · rw [if_pos hvars, if_pos hvars, ← Formula.parse_eq_error_iff]
    cases Formula.parse limit text <;> simp
  · rw [if_neg hvars, if_neg hvars]
    dsimp only
    cases Tree.parse limit (substitute (bindings vars) text) <;> simp

/-- The placeholders of a formula that was read are those of the bindings. -/
theorem Formula.placeholder?_eq_some_iff {α : Type} {limit : Nat} {vars next : Dict α} {text : Text}
    {f : Formula} (h : Formula.parseWith limit vars text = .ok (f, next)) {name p : Text} :
    f.placeholder? name = some p ↔
      ∃ b ∈ Substitution.bindings vars, b.name = name ∧ b.placeholder = p := by
  rw [Formula.placeholder?, (Formula.parseWith_eq_ok_iff.mp h).2.2.1, Substitution.find?_mapping]

end InfixFormula
