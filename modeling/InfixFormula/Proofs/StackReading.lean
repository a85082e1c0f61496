import InfixFormula.Descent
import InfixFormula.Formula
import InfixFormula.Proofs.Brackets

/-!
# The stack reading is the recursive descent

A state of the reading with a stack stands for a recursive reading that is under way: the rest of the
innermost group is still to be read, its tree is an operand of the group around it, whose rest is read
next, and so on to the outside.  `Scan.finish` reads on in this way, by recursive descent.

No step changes what a state will be finished to (`agrees_step`), and the whole reading starts in a
state that the descent finishes to its own answer.  What a step relies on is `Scan.Aligned`: every group
knows the text that is left of it, the collected characters hold no bracket and no operator, and every
bracket that is still ahead in a group has its partner in that group or nowhere, so the pairs of the
whole text agree with the counting inside one piece.
-/

namespace InfixFormula

/-- The text `t` stands at position `pos` of the buffer, and the partners of its opening brackets are in
it or nowhere: either it is balanced, or there are no brackets behind it. -/
def StandsAt (buffer : Text) (pos : Nat) (t : Text) : Prop :=
  ∃ after, buffer.drop pos = t ++ after ∧
    (Bracket.isBalanced 0 t = true ∨ Bracket.isFlat after = true)

namespace StandsAt

variable {buffer : Text} {pos k : Nat} {c : Char} {t : Text}

theorem drop_add {after : Text} (h : buffer.drop pos = t ++ after) :
    buffer.drop (pos + t.length) = after := by
  rw [← List.drop_drop, h, List.drop_left]

/-- Behind a character that is no bracket, the rest stands as it did. -/
theorem tail (h : StandsAt buffer pos (c :: t)) (hc : Bracket.isBracket c = false) :
    StandsAt buffer (pos + 1) t := by
  obtain ⟨after, hdrop, hends⟩ := h
  rw [Bracket.isBalanced_other 0 t hc] at hends
  refine ⟨after, ?_, hends⟩
  exact drop_add (t := [c]) hdrop

/-- The pairs of the whole text and the counting inside the piece name the same partner. -/
theorem lookup_pairs (h : StandsAt buffer pos ('(' :: t)) :
    (Bracket.pairs buffer).lookup pos = (Bracket.closingOffset? 0 t).map (pos + 1 + ·) := by
  obtain ⟨after, hdrop, hends⟩ := h
  have hrest : Bracket.closingOffset? 0 (t ++ after) = Bracket.closingOffset? 0 t := by
    rcases hends with hbalanced | hflat
    · obtain ⟨k, hk⟩ := Bracket.exists_closingOffset?_of_isBalanced
        (by simpa using hbalanced : Bracket.isBalanced (0 + 1) t = true)
      rw [hk, Bracket.closingOffset?_append_of_some hk]
    · exact Bracket.closingOffset?_append_flat hflat 0 t
  rw [Bracket.lookup_pairs (u := t ++ after) hdrop, hrest]

/-- The inside of a pair stands behind its opening bracket. -/
theorem inside (h : StandsAt buffer pos ('(' :: t)) (hk : Bracket.closingOffset? 0 t = some k) :
    StandsAt buffer (pos + 1) (t.take k) := by
  obtain ⟨after, hdrop, -⟩ := h
  refine ⟨')' :: t.drop (k + 1) ++ after, ?_, .inl (Bracket.isBalanced_take_of_closingOffset? hk)⟩
  have hcut := Bracket.take_append_closing_append_drop hk
  rw [← List.append_assoc, hcut]
  exact drop_add (t := ['(']) hdrop

/-- What follows a pair stands behind its closing bracket. -/
theorem behind (h : StandsAt buffer pos ('(' :: t)) (hk : Bracket.closingOffset? 0 t = some k) :
    StandsAt buffer (pos + k + 2) (t.drop (k + 1)) := by
  obtain ⟨after, hdrop, hends⟩ := h
  have hcut := Bracket.take_append_closing_append_drop hk
  have hlt := Bracket.closingOffset?_lt hk
  refine ⟨after, ?_, hends.imp ?_ id⟩
  · have hlength : pos + k + 2 = pos + ('(' :: t.take k ++ [')']).length := by
      simp only [List.length_append, List.length_cons, List.length_take, List.length_nil]
      omega
    rw [hlength]
    apply drop_add
    rw [hdrop, ← List.append_assoc]
    congr 1
    simpa using hcut.symm
  · intro hbalanced
    have hpair : Bracket.isBalanced 0 ('(' :: (t.take k ++ [')'])) = true := by
      rw [Bracket.isBalanced_opening]
      have hinside := Bracket.isBalanced_take_of_closingOffset? hk
      simpa using Bracket.isBalanced_append hinside 1 [')']
    have happend := Bracket.isBalanced_append hpair 0 (t.drop (k + 1))
    rw [← happend]
    simpa [hcut] using hbalanced

/-- Trimming keeps a piece where it stands. -/
theorem trim (h : StandsAt buffer pos t) : StandsAt buffer (pos + t.margin.length) t.trim := by
  obtain ⟨after, hdrop, hends⟩ := h
  obtain ⟨w, hw, ht⟩ := t.exists_eq_margin_trim
  refine ⟨w ++ after, ?_, ?_⟩
  · apply drop_add
    rw [hdrop, ← List.append_assoc, ← List.append_assoc, ← ht]
  · rcases hends with hbalanced | hafter
    · exact .inl ((Bracket.isBalanced_trim t).trans hbalanced)
    · right
      rw [Bracket.isFlat, List.all_append, Bool.and_eq_true]
      exact ⟨Bracket.isFlat_of_isBlank hw, hafter⟩

end StandsAt

/-- The operand of a group, if its remaining items are read with the outcome `later`. -/
def Frame.close (r : Reader) (g : Frame) (later : Except Error (List Item)) :
    Except Error Operand :=
  match later with
  | .error e => .error e
  | .ok items =>
      match Chain.treeOf r.buffer g.range.start (g.items.reverse ++ items) with
      | .error e => .error e
      | .ok tree => .ok ⟨tree, g.span⟩

/-- The tree of the formula, if the group inside the suspended ones is read with the given outcome. -/
def Suspended.finish (r : Reader) : List Suspended → Except Error Operand → Except Error Tree
  | _, .error e => .error e
  | [], .ok o => .ok o.tree
  | g :: outer, .ok o =>
      Suspended.finish r outer
        ({ g.frame with items := .operand o :: g.frame.items }.close r
          (Reader.itemsFrom (r.descend (g.frame.depth + 1)) o.span.stop [] o.span.stop g.rest))

namespace Scan

/-- The tree that recursive descent finds from the state on. -/
def finish (r : Reader) (s : Scan) : Except Error Tree :=
  Suspended.finish r s.outer
    (s.frame.close r
      (Reader.itemsFrom (r.descend (s.frame.depth + 1)) s.mark s.pending s.position s.rest))

/-- What is left of a suspended group stands behind the bracket pair that is read in it. -/
def OuterAligned (buffer : Text) : Nat → List Suspended → Prop
  | _, [] => True
  | stop, g :: outer => StandsAt buffer stop g.rest ∧ OuterAligned buffer g.frame.span.stop outer

/-- The state knows where its texts stand, and its collected characters are those of one token. -/
structure Aligned (r : Reader) (s : Scan) : Prop where
  pending : s.pending.any Literal.isDelimiter = false
  rest : StandsAt r.buffer s.position s.rest
  outer : OuterAligned r.buffer s.frame.span.stop s.outer

variable {r : Reader} {s : Scan}

/-- The collected characters mean the same to both readings. -/
theorem operandBetween_pending (hs : s.Aligned r) :
    Reader.operandBetween (r.descend (s.frame.depth + 1)) s.mark s.pending.reverse =
      r.pendingItems (s.frame.depth + 1) s.mark s.pending.reverse := by
  apply Reader.operandBetween_descend
  rw [List.any_reverse]
  exact hs.pending

/-- An operand that fails fails the scan. -/
theorem flush_of_error {e : Error}
    (h : r.pendingItems (s.frame.depth + 1) s.mark s.pending.reverse = .error e) :
    s.flush r = .error e := by
  rw [flush, h]

/-- An operand that is finished is put on top of the items. -/
theorem flush_of_ok {new : List Item}
    (h : r.pendingItems (s.frame.depth + 1) s.mark s.pending.reverse = .ok new) :
    s.flush r = .ok (new ++ s.frame.items) := by
  rw [flush, h]

/-- Collected characters make one item at most. -/
theorem reverse_pendingItems {depth mark : Nat} {t : Text} {new : List Item}
    (h : r.pendingItems depth mark t = .ok new) : new.reverse = new := by
  unfold Reader.pendingItems at h
  split at h
  · cases h
    rfl
  · split at h <;> cases h
    rfl

/-- Items that are found become items of the group. -/
theorem close_append {new : List Item} (hnew : new.reverse = new) (g : Frame) (items : List Item)
    (later : List Item) :
    g.close r (.ok (new ++ items ++ later)) =
      { g with items := items.reverse ++ (new ++ g.items) }.close r (.ok later) := by
  simp only [Frame.close, List.reverse_append, List.reverse_reverse, hnew, List.append_assoc]

/-- The inside of a bracket pair is read as a group without items. -/
theorem close_group {depth start : Nat} {t contents : Text} {range : Span}
    (h : r.piece depth start t = .ok (.compound contents range)) (span : Span) :
    (match r.descend depth start t with
      | .error e => .error e
      | .ok o => .ok ⟨o.tree, span⟩) =
      Frame.close r ⟨range, span, depth, []⟩
        (Reader.itemsFrom (r.descend (depth + 1)) range.start [] range.start contents) := by
  rw [Reader.descend_of_compound h]
  cases Reader.itemsFrom (r.descend (depth + 1)) range.start [] range.start contents with
  | error e => rfl
  | ok items =>
      simp only [Frame.close, List.reverse_nil, List.nil_append]
      cases Chain.treeOf r.buffer range.start items with
      | error e => rfl
      | ok tree => rfl

/-- What holds of a step's outcome if the step changes nothing for the descent. -/
def Agrees (r : Reader) (s : Scan) : Except Error (Tree ⊕ Scan) → Prop
  | .error e => s.finish r = .error e
  | .ok (.inl tree) => s.finish r = .ok tree
  | .ok (.inr next) => s.finish r = next.finish r ∧ next.Aligned r

/-- An error passes through all frames that are suspended. -/
theorem finish_error (outer : List Suspended) (e : Error) :
    Suspended.finish r outer (.error e) = .error e := by
  cases outer <;> rfl

/-- At the end of a frame, scan and descent agree on what becomes of its items. -/
theorem agrees_end (hs : s.Aligned r) (hrest : s.rest = []) (pairs : List (Nat × Nat)) :
    s.Agrees r (s.step r pairs) := by
  have hfinish : s.finish r = Suspended.finish r s.outer (s.frame.close r
      (r.pendingItems (s.frame.depth + 1) s.mark s.pending.reverse)) := by
    rw [finish, hrest, Reader.itemsFrom_nil, operandBetween_pending hs]
  cases hp : r.pendingItems (s.frame.depth + 1) s.mark s.pending.reverse with
  | error e =>
      rw [step_end hrest, flush_of_error hp, Agrees, hfinish, hp]
      exact finish_error s.outer e
  | ok new =>
      have hitems : (new ++ s.frame.items).reverse = s.frame.items.reverse ++ new := by
        rw [List.reverse_append, reverse_pendingItems hp]
      rw [step_end hrest, flush_of_ok hp]
      simp only [leave, hitems]
      rw [hp] at hfinish
      simp only [Frame.close] at hfinish
      cases htree : Chain.treeOf r.buffer s.frame.range.start (s.frame.items.reverse ++ new) with
      | error e =>
          rw [htree, finish_error] at hfinish
          exact hfinish
      | ok tree =>
          rw [htree] at hfinish
          cases houter : s.outer with
          | nil =>
              rw [houter] at hfinish
              exact hfinish
          | cons parent outer =>
              have haround := hs.outer
              rw [houter] at hfinish haround
              exact ⟨hfinish, rfl, haround.1, haround.2⟩

/-- Where a bracket pair opens, the descent reads its inside and then goes on behind it. -/
theorem finish_opening (hs : s.Aligned r) {tail : Text} {new : List Item} {k : Nat}
    (hrest : s.rest = '(' :: tail)
    (hp : r.pendingItems (s.frame.depth + 1) s.mark s.pending.reverse = .ok new)
    (hk : Bracket.closingOffset? 0 tail = some k) :
    s.finish r = Suspended.finish r
      (⟨{ s.frame with items := new ++ s.frame.items }, tail.drop (k + 1)⟩ :: s.outer)
      (match r.descend (s.frame.depth + 1) (s.position + 1) (tail.take k) with
        | .error e => .error e
        | .ok o => .ok ⟨o.tree, ⟨s.position, s.position + k + 2⟩⟩) := by
  rw [finish, hrest, Reader.itemsFrom_opening, operandBetween_pending hs, hp]
  simp only [hk]
  cases r.descend (s.frame.depth + 1) (s.position + 1) (tail.take k) with
  | error e => exact finish_error s.outer e
  | ok o =>
      simp only [Suspended.finish]
      cases Reader.itemsFrom (r.descend (s.frame.depth + 1)) (s.position + k + 2) []
          (s.position + k + 2) (tail.drop (k + 1)) with
      | error e => rfl
      | ok later =>
          have happend := close_append (r := r) (reverse_pendingItems hp) s.frame
            [.operand ⟨o.tree, ⟨s.position, s.position + k + 2⟩⟩] later
          simp only [List.append_assoc, List.singleton_append] at happend
          rw [happend]
          rfl

/-- At an opening bracket, the table names the closing one that the descent finds by counting. -/
theorem agrees_opening (hs : s.Aligned r) {tail : Text} (hrest : s.rest = '(' :: tail) :
    s.Agrees r (s.step r (Bracket.pairs r.buffer)) := by
  have hstands := hs.rest
  rw [hrest] at hstands
  have hlookup := hstands.lookup_pairs
  cases hp : r.pendingItems (s.frame.depth + 1) s.mark s.pending.reverse with
  | error e =>
      rw [step_opening hrest, flush_of_error hp, Agrees, finish, hrest, Reader.itemsFrom_opening,
        operandBetween_pending hs, hp]
      exact finish_error s.outer e
  | ok new =>
      cases hk : Bracket.closingOffset? 0 tail with
      | none =>
          rw [hk] at hlookup
          rw [step_opening hrest, flush_of_ok hp]
          simp only [hlookup, Option.map_none]
          rw [Agrees, finish, hrest, Reader.itemsFrom_opening, operandBetween_pending hs, hp]
          simp only [hk]
          exact finish_error s.outer _
      | some k =>
          have hfinish := finish_opening hs hrest hp hk
          have hinside := hstands.inside hk
          have hbehind := hstands.behind hk
          have htake : s.position + 1 + k - (s.position + 1) = k := by omega
          have hdrop : s.position + 1 + k - s.position = k + 1 := by omega
          have hnext : s.position + 1 + k + 1 = s.position + k + 2 := by omega
          rw [hk] at hlookup
          rw [step_opening hrest, flush_of_ok hp]
          simp only [hlookup, Option.map_some, openPair, htake, hdrop, hnext]
          cases hpiece : r.piece (s.frame.depth + 1) (s.position + 1) (tail.take k) with
          | error e =>
              rw [Reader.descend_of_error hpiece] at hfinish
              exact hfinish
          | ok p =>
              cases p with
              | leaf o =>
                  rw [Reader.descend_of_leaf hpiece] at hfinish
                  exact ⟨hfinish, rfl, hbehind, hs.outer⟩
              | compound contents range =>
                  obtain ⟨-, -, -, -, rfl, rfl⟩ := Reader.piece_eq_compound_iff.mp hpiece
                  rw [close_group hpiece] at hfinish
                  exact ⟨hfinish, rfl, hinside.trim, hbehind, hs.outer⟩

/-- At an operator, both put it on top of the items and go on. -/
theorem agrees_operator (hs : s.Aligned r) {tail : Text} {op : Operator}
    (hrest : s.rest = op.symbol :: tail) (pairs : List (Nat × Nat)) :
    s.Agrees r (s.step r pairs) := by
  rw [step_operator hrest]
  cases hp : r.pendingItems (s.frame.depth + 1) s.mark s.pending.reverse with
  | error e =>
      rw [flush_of_error hp, Agrees, finish, hrest, Reader.itemsFrom_operator,
        operandBetween_pending hs, hp]
      exact finish_error s.outer e
  | ok new =>
      have hstands := hs.rest
      rw [hrest] at hstands
      have htail := hstands.tail (by cases op <;> rfl)
      rw [flush_of_ok hp]
      refine ⟨?_, rfl, htail, hs.outer⟩
      rw [finish, hrest, Reader.itemsFrom_operator, operandBetween_pending hs, hp]
      simp only [finish, resume]
      cases Reader.itemsFrom (r.descend (s.frame.depth + 1)) (s.position + 1) []
          (s.position + 1) tail with
      | error e => rfl
      | ok later =>
          have happend := close_append (r := r) (reverse_pendingItems hp) s.frame
            [.operator op s.position] later
          simp only [List.append_assoc, List.singleton_append] at happend
          simp only [happend, List.reverse_singleton, List.singleton_append]

/-- **No step changes the outcome.**  What the descent finds from a state on, it finds from the next
state, and where a step ends the reading it ends it with what the descent finds. -/
theorem agrees_step (hs : s.Aligned r) : s.Agrees r (s.step r (Bracket.pairs r.buffer)) := by
  cases hrest : s.rest with
  | nil => exact agrees_end hs hrest _
  | cons c tail =>
      rcases Literal.eq_bracket_or_symbol_or_other c with rfl | rfl | ⟨op, rfl⟩ | hc
      · exact agrees_opening hs hrest
      · rw [step_closing hrest, Agrees, finish, hrest, Reader.itemsFrom_closing]
        exact finish_error s.outer _
      · exact agrees_operator hs hrest _
      · have hstands := hs.rest
        rw [hrest] at hstands
        rw [step_other hrest hc]
        refine ⟨?_, ?_, hstands.tail (Bracket.isBracket_of_isDelimiter hc), hs.outer⟩
        · rw [finish, hrest, Reader.itemsFrom_other _ _ _ _ _ hc]
          rfl
        · rw [List.any_cons, hc]
          exact hs.pending

/-- A scan that begins stands at the front of its contents. -/
theorem aligned_start {contents : Text} {range : Span}
    (h : r.piece 0 0 r.buffer = .ok (.compound contents range)) : (start contents range).Aligned r := by
  obtain ⟨-, -, -, -, rfl, rfl⟩ := Reader.piece_eq_compound_iff.mp h
  have hwhole : StandsAt r.buffer 0 r.buffer := ⟨[], by simp, .inr rfl⟩
  exact ⟨rfl, hwhole.trim, trivial⟩

/-- The reading with a stack ends with what the descent finds from its first state on. -/
theorem run_eq_finish {r : Reader} {s : Scan} (hs : s.Aligned r) :
    s.run r (Bracket.pairs r.buffer) = s.finish r := by
  have hstep := agrees_step hs
  rw [run]
  split
  · next e he =>
      rw [he] at hstep
      exact hstep.symm
  · next tree htree =>
      rw [htree] at hstep
      exact hstep.symm
  · next next hnext =>
      have hlt := measure_step_lt hnext
      rw [hnext] at hstep
      rw [hstep.1]
      exact run_eq_finish hstep.2
termination_by s.measure

end Scan

/-- **One reading, two ways.**  The reading with a stack of open groups and the pairs of the whole text
gives the answer of the recursive descent: the same tree with the same spans, or the same error. -/
theorem Reader.tree_eq_descend (r : Reader) : r.tree = (r.descend 0 0 r.buffer).map Operand.tree := by
  rw [Reader.tree]
  cases hp : r.piece 0 0 r.buffer with
  | error e =>
      rw [Reader.descend_of_error hp]
      rfl
  | ok p =>
      cases p with
      | leaf o =>
          rw [Reader.descend_of_leaf hp]
          rfl
      | compound contents range =>
          calc (Scan.start contents range).run r (Bracket.pairs r.buffer)
              = Suspended.finish r [] (Frame.close r ⟨range, range, 0, []⟩
                  (itemsFrom (r.descend 1) range.start [] range.start contents)) :=
                Scan.run_eq_finish (Scan.aligned_start hp)
            _ = (r.descend 0 0 r.buffer).map Operand.tree := by
                rw [← Scan.close_group hp range]
                cases r.descend 0 0 r.buffer <;> rfl

/-- **Reading a formula is recursive descent.**  For every limit and every text, the answer is the one
that the descent has for the text with ASCII brackets. -/
theorem Tree.parse_eq_descend (limit : Nat) (text : Text) :
    Tree.parse limit text =
      (Reader.descend ⟨limit, Bracket.ascii text⟩ 0 0 (Bracket.ascii text)).map Operand.tree :=
  Reader.tree_eq_descend ⟨limit, Bracket.ascii text⟩

end InfixFormula
