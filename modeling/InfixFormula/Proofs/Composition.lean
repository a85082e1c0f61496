import InfixFormula.Proofs.Grammar
import InfixFormula.Proofs.SourceText
import InfixFormula.Proofs.Spelling
import InfixFormula.Proofs.StrictValue

/-!
# Formulas put into formulas

A formula may stand in another one, between brackets, wherever a variable stands.  In the text this is
`Text.bindToken`: every token that is the name gives way to the bracketed text.  Tokens are cut at
layout, brackets of either width and operators, and all that is shown about the cutting is one equation
(`bindToken_append_cons`): what stands on either side of such a character is bound by itself.

In the grammar a bracketed content is a pair, which binds as tightly as the leaf it stands for, so no
operand changes its place (`Phrase.exists_puts`).  The text is therefore read, its tree is that of the
one formula with that of the other in it, and its strict value is the one that the variable with the
value of the other formula gives (`Formula.parse_bindToken`).
-/

namespace InfixFormula

namespace Text

/-- Whether tokens are cut at the character. -/
def endsToken (c : Char) : Bool := isBoundary c || c == '（' || c == '）'

/-- The token, or `v` if it is `x`. -/
def bound (x v token : Text) : Text := if token = x then v else token

/-- The text and the start of a token before it, with `v` in place of each token `x`. -/
def bindTokenFrom (x v : Text) : Text → Text → Text
  | token, [] => bound x v token
  | token, c :: t =>
      if endsToken c then bound x v token ++ c :: bindTokenFrom x v [] t
      else bindTokenFrom x v (token ++ [c]) t

/-- The text with `v` in place of each token `x`. -/
def bindToken (t x v : Text) : Text := bindTokenFrom x v [] t

variable {x v : Text}

/-- What stands around tokens ends them. -/
theorem endsToken_of_isBoundary {c : Char} (h : isBoundary c = true) : endsToken c = true := by
  rw [endsToken, h]
  rfl

/-- A text without cuts is one token. -/
theorem bindTokenFrom_token {t : Text} (ht : ∀ c ∈ t, endsToken c = false) (token : Text) :
    bindTokenFrom x v token t = bound x v (token ++ t) := by
  induction t generalizing token with
  | nil => rw [bindTokenFrom, List.append_nil]
  | cons c t ih =>
      rw [List.forall_mem_cons] at ht
      rw [bindTokenFrom, if_neg (by simp [ht.1]), ih ht.2, List.append_assoc]
      rfl

/-- The token ends at the character, and behind it another one begins. -/
theorem bindTokenFrom_append_cons {c : Char} (hc : endsToken c = true) (t u token : Text) :
    bindTokenFrom x v token (t ++ c :: u) = bindTokenFrom x v token t ++ c :: bindToken u x v := by
  induction t generalizing token with
  | nil =>
      rw [List.nil_append]
      exact if_pos hc
  | cons d t ih =>
      rw [List.cons_append, bindTokenFrom, bindTokenFrom]
      split
      · rw [ih, List.append_assoc, List.cons_append]
      · exact ih _

/-- A text without an end of a token is one token. -/
theorem bindToken_token {t : Text} (ht : ∀ c ∈ t, endsToken c = false) :
    t.bindToken x v = bound x v t :=
  bindTokenFrom_token ht []

/-- **Tokens are bound one by one.** -/
theorem bindToken_append_cons {c : Char} (hc : endsToken c = true) (t u : Text) :
    bindToken (t ++ c :: u) x v = t.bindToken x v ++ c :: u.bindToken x v :=
  bindTokenFrom_append_cons hc t u []

example : bindToken "x*（x1 - x）".toList "x".toList "(u)".toList = "(u)*（x1 - (u)）".toList := by
  decide

/-- An empty text holds no token with a name. -/
theorem bindToken_empty (hx : x ≠ []) : bindToken [] x v = [] :=
  if_neg (Ne.symm hx)

/-- A character that ends tokens stays where it is. -/
theorem bindToken_cons (hx : x ≠ []) {c : Char} (hc : endsToken c = true) (t : Text) :
    bindToken (c :: t) x v = c :: t.bindToken x v := by
  have h := bindToken_append_cons (x := x) (v := v) hc [] t
  rwa [bindToken_empty hx] at h

/-- Characters that end tokens stay in front of the others. -/
theorem bindToken_append_left (hx : x ≠ []) {w : Text} (hw : ∀ c ∈ w, endsToken c = true) (t : Text) :
    bindToken (w ++ t) x v = w ++ t.bindToken x v := by
  induction w with
  | nil => rfl
  | cons c w ih =>
      rw [List.forall_mem_cons] at hw
      rw [List.cons_append, bindToken_cons hx hw.1, ih hw.2, List.cons_append]

/-- Characters that end tokens stay behind the others. -/
theorem bindToken_append_right (hx : x ≠ []) {w : Text} (hw : ∀ c ∈ w, endsToken c = true) (t : Text) :
    bindToken (t ++ w) x v = t.bindToken x v ++ w := by
  cases w with
  | nil => rw [List.append_nil, List.append_nil]
  | cons c w =>
      have hrest := bindToken_append_left hx (v := v) (List.forall_mem_cons.mp hw).2 []
      rw [List.append_nil, bindToken_empty hx, List.append_nil] at hrest
      rw [bindToken_append_cons (List.forall_mem_cons.mp hw).1, hrest]

end Text

open Text

variable {x : Text}

namespace Bracket

variable {v : Text}

/-- Brackets may be turned before or after a token is bound. -/
theorem ascii_bound {token : Text} (htoken : ascii token = token) :
    ascii (bound x v token) = bound x (ascii v) token := by
  rw [bound, bound]
  split
  · rfl
  · exact htoken

/-- What cuts tokens still does so in ASCII. -/
theorem exists_ascii_of_endsToken {c : Char} (hc : endsToken c = true) :
    ∃ d, ascii [c] = [d] ∧ endsToken d = true := by
  by_cases hopen : c = '（'
  · exact ⟨'(', by rw [hopen]; rfl, rfl⟩
  · by_cases hclose : c = '）'
    · exact ⟨')', by rw [hclose]; rfl, rfl⟩
    · exact ⟨c, ascii_eq_self_iff.mpr (by simp [hopen, hclose]), hc⟩

/-- Brackets of both styles end tokens, so nothing else is turned. -/
theorem ascii_of_not_endsToken {c : Char} (hc : ¬ endsToken c = true) : ascii [c] = [c] := by
  simp only [endsToken, Bool.or_eq_true, beq_iff_eq, not_or] at hc
  rw [ascii_eq_self_iff]
  simp [hc.1.2, hc.2]

/-- Brackets may be turned before or after the tokens are bound. -/
theorem ascii_bindTokenFrom (t : Text) {token : Text} (htoken : ascii token = token) :
    ascii (bindTokenFrom x v token t) = bindTokenFrom x (ascii v) token (ascii t) := by
  induction t generalizing token with
  | nil => exact ascii_bound htoken
  | cons c t ih =>
      have hcons : ∀ u, ascii (c :: u) = ascii [c] ++ ascii u := ascii_append [c]
      by_cases hc : endsToken c = true
      · obtain ⟨d, hd, hends⟩ := exists_ascii_of_endsToken hc
        rw [bindTokenFrom, if_pos hc, ascii_append, ascii_bound htoken, hcons, ih rfl, hcons t, hd,
          List.singleton_append, List.singleton_append, bindTokenFrom, if_pos hends]
      · have hsame := ascii_of_not_endsToken hc
        have htoken' : ascii (token ++ [c]) = token ++ [c] := by rw [ascii_append, htoken, hsame]
        rw [bindTokenFrom, if_neg hc, ih htoken', hcons, hsame, List.singleton_append, bindTokenFrom,
          if_neg hc]

/-- It does not matter whether brackets are made ASCII before or after. -/
theorem ascii_bindToken (t : Text) :
    ascii (t.bindToken x v) = (ascii t).bindToken x (ascii v) :=
  ascii_bindTokenFrom t rfl

end Bracket

theorem Leaf.mem_text_of_mem_body {l : Leaf} {c : Char} (hc : c ∈ l.body) : c ∈ l.text := by
  rw [l.text_eq]
  split
  · exact List.mem_cons_of_mem _ hc
  · exact hc

/-- What is read as a value is not a name. -/
theorem Leaf.body_ne_of_value? {l : Leaf} {y : Float} (hl : l.value? = some y) (hx : IsName x) :
    l.body ≠ x := by
  rintro rfl
  apply hx.other
  intro c hc
  rcases Leaf.mem_text_of_value? hl (Leaf.mem_text_of_mem_body hc) with rfl | rfl | hdigit
  · cases hx.delimiter _ hc
  · exact absurd hc hx.percent
  · exact hdigit

/-- A leaf is one token and perhaps a sign, and only a name is bound. -/
theorem Leaf.bindToken_text {l : Leaf} (hl : ∀ c ∈ l.text, c ≠ '（' ∧ c ≠ '）') (hx : IsName x)
    (v : Text) : l.text.bindToken x v = l.spell (bound x v) := by
  have hbody : l.body.bindToken x v = bound x v l.body := by
    apply bindToken_token
    intro c hc
    simp [endsToken, isBoundary, Leaf.mem_body hc, hl c (Leaf.mem_text_of_mem_body hc)]
  cases hvalue : l.value? with
  | some y =>
      rw [bound, if_neg (Leaf.body_ne_of_value? hvalue hx)] at hbody
      rw [Leaf.spell_of_value? hvalue, l.text_eq]
      split
      · rw [bindToken_cons hx.ne_nil rfl, hbody]
      · exact hbody
  | none =>
      cases l with
      | number d hd => cases hvalue
      | percentage d hd => cases hvalue
      | name n hn => exact hbody

namespace Phrase

/-- The tokens of a phrase are its leaves. -/
theorem bindToken_text (hx : IsName x) (v : Text) {k : Kind} (p : Phrase k)
    (hp : ∀ c ∈ p.text, c ≠ '（' ∧ c ≠ '）') :
    p.text.bindToken x v = p.spell (bound x v) := by
  have hlayout : ∀ (w : Layout), ∀ c ∈ w.text, endsToken c = true :=
    fun w c hc => endsToken_of_isBoundary (w.isBoundary_of_mem hc)
  have hbetween : ∀ (before after : Layout) (t : Text),
      bindToken (before.text ++ t ++ after.text) x v = before.text ++ t.bindToken x v ++ after.text := by
    intro before after t
    rw [bindToken_append_right hx.ne_nil (hlayout after),
      bindToken_append_left hx.ne_nil (hlayout before)]
  induction p with
  | leaf l hl => exact Leaf.bindToken_text hp hx v
  | pair inside ih =>
      rw [text, bindToken_cons hx.ne_nil rfl, bindToken_append_right hx.ne_nil (by simp; rfl),
        ih (fun c hc => hp c (by simp [text, hc])), spell]
  | operation op left before after right hleft hright ihl ihr =>
      rw [text, bindToken_append_cons (endsToken_of_isBoundary op.isBoundary_symbol),
        bindToken_append_right hx.ne_nil (hlayout before),
        bindToken_append_left hx.ne_nil (hlayout after), ihl (fun c hc => hp c (by simp [text, hc])),
        ihr (fun c hc => hp c (by simp [text, hc])), spell]
  | sole before l after =>
      rw [text, hbetween, Leaf.bindToken_text (fun c hc => hp c (by simp [text, hc])) hx, spell]
  | compound before inner after hkind hcontent ih =>
      rw [text, hbetween, ih (fun c hc => hp c (by simp [text, hc])), spell]

/-- The phrase `q` is `p` with `u` between brackets in place of each name `x`. -/
structure Puts (x : Text) (u : Phrase .content) {k k' : Kind} (p : Phrase k) (q : Phrase k') : Prop where
  kind : k' = k ∨ k = .leaf ∧ k' = .pair
  text : q.text = p.spell (bound x ('(' :: (u.text ++ [')'])))
  outline : q.outline = p.outline.bind x u.outline
  nesting : q.nesting ≤ p.nesting + u.nesting + 1

/-- A pair binds as tightly as the leaf it stands for. -/
theorem Puts.looseness {u : Phrase .content} {k k' : Kind} {p : Phrase k} {q : Phrase k'}
    (h : Puts x u p q) : k'.looseness = k.looseness := by
  rcases h.kind with rfl | ⟨rfl, rfl⟩
  · rfl
  · rfl

/-- Where the leaf is no such name, nothing is put in. -/
theorem bound_leaf {l : Leaf} (hl : ∀ hn, l ≠ .name x hn) (u : Phrase .content) :
    l.text = l.spell (bound x ('(' :: (u.text ++ [')']))) ∧ l.outline = l.outline.bind x u.outline := by
  cases l with
  | number d hd => exact ⟨rfl, rfl⟩
  | percentage d hd => exact ⟨rfl, rfl⟩
  | name n hn =>
      have hne : n ≠ x := by
        rintro rfl
        exact hl hn rfl
      exact ⟨(if_neg hne).symm, (if_neg hne).symm⟩

/-- **Content can be put in for a name.** -/
theorem exists_puts (x : Text) (u : Phrase .content) {k : Kind} (p : Phrase k) :
    ∃ (k' : Kind) (q : Phrase k'), Puts x u p q := by
  induction p with
  | leaf l hl =>
      by_cases hname : ∃ hn, l = .name x hn
      · obtain ⟨hn, rfl⟩ := hname
        exact ⟨.pair, .pair u, .inr ⟨rfl, rfl⟩, (if_pos rfl).symm, (if_pos rfl).symm, by simp [nesting]⟩
      · obtain ⟨htext, houtline⟩ := bound_leaf (not_exists.mp hname) u
        exact ⟨.leaf, .leaf l hl, .inl rfl, htext, houtline, Nat.zero_le _⟩
  | pair inside ih =>
      obtain ⟨k', q, hq⟩ := ih
      obtain rfl : k' = .content := by simpa using hq.kind
      exact ⟨.pair, .pair q, .inl rfl, by rw [text, hq.text, spell], hq.outline, hq.nesting⟩
  | operation op left before after right hleft hright ihl ihr =>
      obtain ⟨j', l, hl⟩ := ihl
      obtain ⟨k', r, hr⟩ := ihr
      refine ⟨_, .operation op l before after r (hl.looseness ▸ hleft) (hr.looseness ▸ hright), .inl rfl,
        ?_, ?_, ?_⟩
      · rw [text, hl.text, hr.text, spell]
      · rw [outline, hl.outline, hr.outline, outline, Outline.bind]
      · have hnl := hl.nesting
        have hnr := hr.nesting
        simp only [nesting]
        omega
  | sole before l after =>
      by_cases hname : ∃ hn, l = .name x hn
      · obtain ⟨hn, rfl⟩ := hname
        refine ⟨.content, .compound before (.pair u) after (by simp) (by simp), .inl rfl, ?_, ?_, ?_⟩
        · rw [text, text, spell, Leaf.spell, bound, if_pos rfl]
        · exact (if_pos rfl).symm
        · simp [nesting]
      · obtain ⟨htext, houtline⟩ := bound_leaf (not_exists.mp hname) u
        exact ⟨.content, .sole before l after, .inl rfl, by rw [text, spell, ← htext], houtline,
          Nat.zero_le _⟩
  | compound before inner after hkind hcontent ih =>
      obtain ⟨k', q, hq⟩ := ih
      obtain rfl : k' = _ := hq.kind.resolve_right (fun h => hkind h.1)
      refine ⟨.content, .compound before q after hkind hcontent, .inl rfl, ?_, hq.outline, ?_⟩
      · rw [text, hq.text, spell]
      · have hn := hq.nesting
        simp only [nesting]
        omega

end Phrase

/-- A text with another one put in for a name is read, one level deeper than both together, and its tree
is the tree of the one with the tree of the other in place of the name. -/
theorem Tree.exists_parse_bindToken {limit limit' room : Nat} {s u : Text} {t r : Tree} (hx : IsName x)
    (hs : Tree.parse limit s = .ok t) (hu : Tree.parse limit' u = .ok r)
    (hroom : limit + limit' + 1 ≤ room) :
    ∃ b, Tree.parse room (s.bindToken x ('(' :: (u ++ [')']))) = .ok b ∧
      b.outline = t.outline.bind x r.outline := by
  obtain ⟨p, hp, hdepth, rfl⟩ := Tree.parse_eq_ok_iff.mp hs
  obtain ⟨c, hc, hdepth', rfl⟩ := Tree.parse_eq_ok_iff.mp hu
  obtain ⟨k, q, hq⟩ := Phrase.exists_puts x c p
  obtain rfl : k = .content := by simpa using hq.kind
  have hpair : Bracket.ascii ('(' :: (u ++ [')'])) = '(' :: (c.text ++ [')']) := by
    rw [hc]
    exact congrArg ('(' :: ·) (Bracket.ascii_append u [')'])
  have htext : q.text = Bracket.ascii (s.bindToken x ('(' :: (u ++ [')']))) := by
    rw [hq.text, Bracket.ascii_bindToken, hpair, ← hp, p.bindToken_text hx]
    rw [hp]
    exact fun c => Bracket.ne_of_mem_ascii
  refine ⟨_, Tree.parse_eq_ok_iff.mpr ⟨q, htext, ?_, rfl⟩, ?_⟩
  · have hn := hq.nesting
    omega
  · rw [q.outline_tree, hq.outline, p.outline_tree, c.outline_tree]

/-- **Putting in is binding.**  Where `s` and `u` are read, `s` is read with `u` between brackets for each
variable `x`.  The tree is that of `s` with that of `u` for each `x`, and as a strict evaluation it comes
to what `s` comes to with the value of `u` for `x`, errors included. -/
theorem Formula.parse_bindToken {limit limit' room : Nat} {s u : Text} {f g : Formula} (hx : IsName x)
    (hf : Formula.parse limit s = .ok f) (hg : Formula.parse limit' u = .ok g)
    (hroom : limit + limit' + 1 ≤ room) :
    ∃ h, Formula.parse room (s.bindToken x ('(' :: (u ++ [')']))) = .ok h ∧
      h.tree.outline = f.tree.outline.bind x g.tree.outline ∧
      ∀ (lookup : Lookup) (v : Float) (deep deep' : Nat),
        (g.tree.evaluateStrictly deep' lookup).result = .ok v → f.tree.depth + g.tree.depth ≤ deep + 2 →
        (h.tree.evaluateStrictly deep lookup).result =
          (f.tree.evaluateStrictly deep (lookup.bind x v)).result := by
  obtain ⟨b, hb, houtline⟩ := Tree.exists_parse_bindToken hx (Formula.parse_eq_ok_iff.mp hf).1
    (Formula.parse_eq_ok_iff.mp hg).1 hroom
  refine ⟨⟨b, _, Dict.empty⟩, Formula.parse_eq_ok_iff.mpr ⟨hb, rfl, rfl⟩, houtline, ?_⟩
  intro lookup v deep deep' hvalue hdeep
  have hdepth : b.depth < f.tree.depth + g.tree.depth := by
    have h := Outline.depth_bind_lt f.tree.outline x g.tree.outline
    rwa [← houtline, Tree.depth_outline, Tree.depth_outline, Tree.depth_outline] at h
  have hpos := g.tree.depth_pos
  calc (b.evaluateStrictly deep lookup).result
      = b.outline.strictValue lookup := Tree.result_eq_strictValue (by omega) lookup
    _ = f.tree.outline.strictValue (lookup.bind x v) := by
        rw [houtline, Outline.strictValue_bind (Tree.strictValue_of_result hvalue)]
    _ = (f.tree.evaluateStrictly deep (lookup.bind x v)).result :=
        (Tree.result_eq_strictValue (by omega) _).symm

/-- The sum `a+a+a` put in for `x` in the sample. -/
theorem Formula.parse_bindToken_of_sample :
    ∃ f g h, IsName ['x'] ∧
      Formula.parse 2 "（1 + x） * 2%".toList = .ok f ∧
      Formula.parse 1 "a+a+a".toList = .ok g ∧
      Formula.parse 4 "（1 + (a+a+a)） * 2%".toList = .ok h ∧
      h.tree.outline = f.tree.outline.bind ['x'] g.tree.outline ∧
      ∃ lookup v, (g.tree.evaluateStrictly 4 lookup).result = .ok v ∧
        f.tree.depth + g.tree.depth ≤ 6 ∧
        (h.tree.evaluateStrictly 4 lookup).result =
          (f.tree.evaluateStrictly 4 (lookup.bind ['x'] v)).result := by
  have hx : IsName ['x'] := .singleton rfl
  have hf : Formula.parse 2 "（1 + x） * 2%".toList = .ok ⟨_, _, Dict.empty⟩ :=
    Formula.parse_eq_ok_iff.mpr ⟨Tree.parse_sample, rfl, rfl⟩
  have hg : Formula.parse 1 "a+a+a".toList = .ok ⟨_, _, Dict.empty⟩ :=
    Formula.parse_eq_ok_iff.mpr ⟨Tree.parse_threeAddends, rfl, rfl⟩
  obtain ⟨h, hh, houtline, hvalue⟩ := Formula.parse_bindToken hx hf hg (Nat.le_refl 4)
  exact ⟨_, _, h, hx, hf, hg, hh, houtline, fun _ => some (some 1.0), 1.0 + 1.0 + 1.0, rfl, by decide,
    hvalue _ _ 4 4 rfl (by decide)⟩

end InfixFormula
