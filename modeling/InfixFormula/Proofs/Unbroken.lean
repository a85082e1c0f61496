import InfixFormula.Proofs.Bytewise
import InfixFormula.Proofs.FaultPositions
import InfixFormula.Proofs.Groupings
import InfixFormula.Proofs.PartnerTable
import InfixFormula.Proofs.Progress
import InfixFormula.Proofs.Relocation

/-!
# The bytewise reading never breaks

Let all positions of a state of the reading be put into bytes.  Then one step by bytes has the outcome of
one step by characters (`Bytewise.step_eq`): a further state, a tree or an error, and never a breach.  It
relies on where the texts of a reached state stand (`Scan.Placed`), on the collected characters being those
of one token (`Scan.Aligned`), and on faults lying in the text.

Since the byte index increases with every step, the steps that the bytewise reading may take are enough
(`Bytewise.run_eq`).  So it is the reading by characters, and of the errors only faults of the text and the
limit of nesting can occur (`Formula.parse_unbroken`).
-/

namespace InfixFormula

/-- Offsets in the place of positions. -/
def Relocation.bytes (buffer : Text) : Relocation := ⟨buffer.offset, id⟩

def Piece.inBytes (buffer : Text) : Piece → Piece
  | leaf o => leaf (o.relocated (.bytes buffer))
  | compound contents range => compound contents (range.inBytes buffer)

def Frame.inBytes (buffer : Text) (g : Frame) : Frame where
  range := g.range.inBytes buffer
  span := g.span.inBytes buffer
  depth := g.depth
  items := g.items.map (Item.relocated (.bytes buffer))

def Scan.inBytes (buffer : Text) (s : Scan) : Bytewise.State where
  frame := s.frame.inBytes buffer
  outer := s.outer.map (fun g => g.frame.inBytes buffer)
  index := buffer.offset s.position
  mark := buffer.offset s.mark

@[simp] theorem Scan.index_inBytes (buffer : Text) (s : Scan) :
    (s.inBytes buffer).index = buffer.offset s.position := rfl

namespace Text.OccursAt

variable {buffer t : Text} {start : Nat}

/-- The next position lies behind all bytes of the character. -/
theorem offset_succ {c : Char} (h : buffer.OccursAt start (c :: t)) :
    buffer.offset (start + 1) = buffer.offset start + c.utf8Size := by
  simpa using (left (t := [c]) h).offset_add

/-- What trimming takes off in front is counted in bytes. -/
theorem offset_margin (h : buffer.OccursAt start t) :
    buffer.offset start + (t.utf8Length - t.trimStart.utf8Length) =
      buffer.offset (start + t.margin.length) := by
  have hlength : t.utf8Length = t.margin.utf8Length + t.trimStart.utf8Length := by
    rw [← utf8Length_append, t.margin_trimStart]
  rw [← t.margin_trimStart] at h
  rw [h.left.offset_add, hlength, Nat.add_sub_cancel]

end Text.OccursAt

namespace Bytewise

/-- The outcome by characters, as the bytewise reading has it. -/
def reported {α β : Type} (f : α → β) : Except Error α → Except Stop β
  | .ok a => .ok (f a)
  | .error e => .error (.error e)

section Reported

variable {α β : Type} (f : α → β)

@[simp] theorem reported_ok (a : α) : reported f (.ok a) = .ok (f a) := rfl

@[simp] theorem reported_error (e : Error) : reported f (.error e) = .error (.error e) := rfl

/-- What is reported is never a breach. -/
theorem reported_ne_breach (o : Except Error α) (breach : Breach) :
    reported f o ≠ .error (.breach breach) := by
  cases o <;> simp

end Reported

variable {r : Reader} {buffer t : Text} {start : Nat}

/-- What stands in the buffer is cut out by its bytes without a breach. -/
theorem slice_eq (h : buffer.OccursAt start t) :
    slice buffer (Span.inBytes buffer ⟨start, start + t.length⟩) = .ok t := by
  rw [slice, h.sliceBytes?]

/-- A fault at a byte that starts a character is reported at that character. -/
theorem fail_eq {α : Type} {position : Nat} (h : position ≤ buffer.length) (fault : Fault) :
    fail (α := α) buffer (buffer.offset position) fault =
      .error (.error (.malformed position fault)) := by
  have hlength : (buffer.take position).length = position := by
    rw [List.length_take, Nat.min_eq_left h]
  have hbefore : slice buffer ⟨0, buffer.offset position⟩ = .ok (buffer.take position) := by
    have hslice := slice_eq ((Text.OccursAt.whole buffer).take position)
    rwa [hlength, Nat.zero_add] at hslice
  rw [fail, hbefore, ok_bind, hlength]

/-- A stretch that stands in the text is the piece that it is by characters. -/
theorem piece_eq (depth : Nat) (h : r.buffer.OccursAt start t) :
    piece r depth (Span.inBytes r.buffer ⟨start, start + t.length⟩) =
      reported (Piece.inBytes r.buffer) (r.piece depth start t) := by
  have hlength := h.le_length
  have hmargin := Text.length_margin_trim_le t
  have hcore : r.buffer.offset (start + t.margin.length) + t.trim.utf8Length =
      r.buffer.offset (start + t.margin.length + t.trim.length) := h.trim.offset_add.symm
  unfold piece Reader.piece
  by_cases hdepth : r.limit < depth
  · simp [hdepth]
  · simp only [hdepth, if_false, slice_eq h, ok_bind]
    by_cases hblank : t.trim.isEmpty = true
    · simp only [hblank, if_true, Span.inBytes]
      exact fail_eq hlength _
    · simp only [hblank, Span.inBytes, h.offset_margin, hcore]
      cases Literal.value? t.trim with
      | some x => rfl
      | none =>
          by_cases hany : t.trim.any Literal.isDelimiter = true
          · simp only [hany, if_true]
            rfl
          · simp only [hany]
            cases Literal.rejection t.trim with
            | some fault => exact fail_eq (by omega) _
            | none => rfl

/-- Collected text without brackets and operators is blank or a leaf. -/
theorem pendingItems_eq (depth : Nat) (h : r.buffer.OccursAt start t)
    (hplain : t.any Literal.isDelimiter = false) :
    pendingItems r depth (Span.inBytes r.buffer ⟨start, start + t.length⟩) =
      reported (List.map (Item.relocated (.bytes r.buffer))) (r.pendingItems depth start t) := by
  unfold pendingItems Reader.pendingItems
  rw [slice_eq h, ok_bind]
  by_cases hblank : t.isBlank = true
  · simp [hblank]
  · simp only [hblank, piece_eq depth h]
    cases hpiece : r.piece depth start t with
    | error e => rfl
    | ok p =>
        cases p with
        | leaf o => rfl
        | compound contents range =>
            obtain ⟨-, -, -, hany, -, -⟩ := Reader.piece_eq_compound_iff.mp hpiece
            obtain ⟨c, hc, hdelimiter⟩ := List.any_eq_true.mp hany
            exact absurd hdelimiter (List.any_eq_false.mp hplain c (Text.mem_of_mem_trim hc))

/-- The first pass puts down the terms and the additive operators of the products. -/
theorem foldl_next (buffer : Text) (links : List (Operator × Operand)) (terms : List Operand)
    (operators : List Operator) (running : Operand) :
    let p := links.foldl (Pass.next buffer) ⟨terms, operators, running⟩
    let c := Chain.products buffer running links
    p.terms ++ [p.running] = terms ++ c.first :: c.links.map Prod.snd ∧
      p.operators = operators ++ c.links.map Prod.fst := by
  induction links generalizing terms operators running with
  | nil => simp [Chain.products]
  | cons link links ih =>
      obtain ⟨op, o⟩ := link
      by_cases hop : op.isMultiplicative = true
      · simpa [Pass.next, Chain.products, hop] using ih terms operators (Chain.operation buffer op running o)
      · simpa [Pass.next, Chain.products, hop] using ih (terms ++ [running]) (operators ++ [op]) o

/-- There is a first term, and no operator or term is left over. -/
theorem join_eq (buffer : Text) (c : Chain) : join buffer c = .ok (c.tree buffer) := by
  obtain ⟨first, links⟩ := c
  unfold join Chain.tree
  cases links with
  | nil => rfl
  | cons link links =>
      obtain ⟨hterms, hoperators⟩ := foldl_next buffer (link :: links) [] [] first
      simp only [List.isEmpty_cons, hterms, hoperators, List.nil_append]
      have hzip : (Chain.products buffer first (link :: links)).links = List.zip _ _ :=
        List.zip_of_prod rfl rfl
      rw [← hzip]
      rfl

/-- Items are combined to the same tree, or to the same fault at the same character. -/
theorem combine_eq {items : List Item} (hne : items ≠ [])
    (hposition : ∀ position fault,
      Chain.treeOf buffer start items = .error (.malformed position fault) → position ≤ buffer.length) :
    combine buffer (buffer.offset start) (items.map (Item.relocated (.bytes buffer))) =
      reported (Tree.relocated (.bytes buffer)) (Chain.treeOf buffer start items) := by
  have hitems := Chain.ofItems_relocated (.bytes buffer) start items
  have hempty : (items.map (Item.relocated (.bytes buffer))).isEmpty = false := by
    simpa using hne
  rw [combine, hempty]
  rw [Chain.treeOf] at hposition ⊢
  change Chain.ofItems (buffer.offset start) _ = _ at hitems
  rw [hitems]
  cases hchain : Chain.ofItems start items with
  | ok c =>
      simp only [Relocation.outcome_ok, join_eq]
      exact congrArg Except.ok (Chain.tree_relocated (.bytes buffer) buffer c)
  | error e =>
      obtain ⟨fault, rfl⟩ := Chain.exists_fault_of_ofItems hchain
      rw [hchain] at hposition
      exact fail_eq (hposition _ _ rfl) fault

/-- A reading of bytes finds the brackets that one of characters does, each at its byte. -/
theorem pairsFrom_eq {position : Nat} (waiting : List Nat) (h : buffer.OccursAt position t) :
    pairsFrom (buffer.offset position) (waiting.map buffer.offset) t =
      (Bracket.pairsFrom position waiting t).map (Prod.map buffer.offset buffer.offset) := by
  induction t generalizing position waiting with
  | nil => rfl
  | cons c t ih =>
      have hnext := h.offset_succ
      rcases Bracket.eq_opening_or_closing_or_other c with rfl | rfl | hc
      · rw [Bracket.pairsFrom_opening, ← ih (position :: waiting) h.tail, hnext]
        rfl
      · cases waiting with
        | nil =>
            rw [Bracket.pairsFrom_closing_nil, ← ih [] h.tail, hnext]
            rfl
        | cons opening earlier =>
            rw [Bracket.pairsFrom_closing_cons, List.map_cons, List.map_cons, ← ih earlier h.tail, hnext]
            rfl
      · rw [Bracket.pairsFrom_other position waiting t hc, ← ih waiting h.tail, hnext]
        simp only [Bracket.isBracket, Bool.or_eq_false_iff, beq_eq_false_iff_ne] at hc
        simp only [pairsFrom, if_neg hc.1, if_neg hc.2]

/-- The table of byte indices is that of positions, each turned into its offset. -/
theorem pairs_eq (t : Text) :
    pairs t = (Bracket.pairs t).map (Prod.map t.offset t.offset) :=
  pairsFrom_eq [] (.whole t)

/-- No two keys of a table have one offset. -/
theorem lookup_map {ps : List (Nat × Nat)} {i : Nat} (hi : i ≤ t.length)
    (hkeys : ∀ p ∈ ps, p.1 ≤ t.length) :
    (ps.map (Prod.map t.offset t.offset)).lookup (t.offset i) = (ps.lookup i).map t.offset := by
  induction ps with
  | nil => rfl
  | cons p ps ih =>
      obtain ⟨key, close⟩ := p
      have hrest := ih (fun q hq => hkeys q (List.mem_cons_of_mem _ hq))
      have hle : key ≤ t.length := hkeys (key, close) List.mem_cons_self
      by_cases hkey : i = key
      · simp [hkey]
      · have hoffset : t.offset i ≠ t.offset key := fun heq => hkey (Text.offset_inj hi hle heq)
        simpa [List.lookup_cons, beq_eq_false_iff_ne.mpr hkey, beq_eq_false_iff_ne.mpr hoffset] using hrest

/-- The partner of a bracket is the same by offsets. -/
theorem lookup_pairs {i : Nat} (hi : i ≤ t.length) :
    (pairs t).lookup (t.offset i) = ((Bracket.pairs t).lookup i).map t.offset := by
  rw [pairs_eq]
  apply lookup_map hi
  intro p hp
  obtain ⟨hlt, -⟩ := List.getElem?_eq_some_iff.mp (Bracket.opening_of_mem_pairs hp)
  exact Nat.le_of_lt hlt

section Steps

variable {n : Nat} {s : Scan}

/-- The waiting operand is the same whether it is cut out by bytes or has been collected. -/
theorem flush_eq (h : Scan.Reached r n s) :
    (s.inBytes r.buffer).flush r (r.buffer.offset s.position) =
      reported (List.map (Item.relocated (.bytes r.buffer))) (s.flush r) := by
  have hplain : s.pending.reverse.any Literal.isDelimiter = false := by
    rw [List.any_reverse]
    exact h.aligned.pending
  have hpending := pendingItems_eq (s.frame.depth + 1) h.placed.pending hplain
  rw [List.length_reverse, ← h.placed.position] at hpending
  change (pendingItems r (s.frame.depth + 1) (Span.inBytes r.buffer ⟨s.mark, s.position⟩) >>= _) = _
  rw [hpending, Scan.flush]
  cases r.pendingItems (s.frame.depth + 1) s.mark s.pending.reverse with
  | error e => rfl
  | ok new =>
      rw [reported_ok, reported_ok, ok_bind, List.map_append]
      rfl

/-- A group that is left has an item, since it was entered for a bracket or an operator in it. -/
theorem items_ne_nil (h : Scan.Reached r n s) (hrest : s.rest = []) {items : List Item}
    (hitems : s.flush r = .ok items) : items ≠ [] := by
  have hfound : s.frame.items ≠ [] := by
    intro hnil
    have hdelimited := h.placed.delimited hnil
    rw [hrest, List.append_nil, List.any_reverse, h.aligned.pending] at hdelimited
    cases hdelimited
  rw [Scan.flush] at hitems
  split at hitems
  · cases hitems
    exact List.append_ne_nil_of_right_ne_nil _ hfound
  · cases hitems

/-- Leaving a frame by bytes is leaving it by characters. -/
theorem leave_eq {items : List Item} (hne : items ≠ [])
    (hposition : ∀ position fault,
      s.leave items r = .error (.malformed position fault) → position ≤ r.buffer.length) :
    (s.inBytes r.buffer).leave (items.map (Item.relocated (.bytes r.buffer))) r =
      reported (Sum.map (Tree.relocated (.bytes r.buffer)) (Scan.inBytes r.buffer)) (s.leave items r) := by
  have hfault : ∀ position fault,
      Chain.treeOf r.buffer s.frame.range.start items.reverse = .error (.malformed position fault) →
        position ≤ r.buffer.length := by
    intro position fault he
    apply hposition position fault
    rw [Scan.leave, he]
  have htree := combine_eq (mt List.reverse_eq_nil_iff.mp hne) hfault
  rw [List.map_reverse] at htree
  change (combine r.buffer (r.buffer.offset s.frame.range.start) _ >>= _) = _
  rw [htree, Scan.leave]
  cases Chain.treeOf r.buffer s.frame.range.start items.reverse with
  | error e => rfl
  | ok tree =>
      obtain ⟨frame, outer, position, rest, mark, pending⟩ := s
      cases outer <;> rfl

/-- The inside of a bracket pair lies between the two brackets, which are one byte each. -/
theorem openPair_eq (hs : s.Placed r.buffer) {items : List Item} {tail : Text} {k : Nat}
    (hrest : s.rest = '(' :: tail) (hk : Bracket.closingOffset? 0 tail = some k) :
    (s.inBytes r.buffer).openPair (items.map (Item.relocated (.bytes r.buffer))) r
        (r.buffer.offset (s.position + 1 + k)) =
      reported (Scan.inBytes r.buffer) (s.openPair items r tail (s.position + 1 + k)) := by
  have hopening := hs.rest
  rw [hrest] at hopening
  have hcut := hopening.tail
  rw [← Bracket.take_append_closing_append_drop hk] at hcut
  have hlength : (tail.take k).length = k := by
    rw [List.length_take, Nat.min_eq_left (Nat.le_of_lt (Bracket.closingOffset?_lt hk))]
  have hinside := piece_eq (s.frame.depth + 1) hcut.left
  have hclosing := hcut.right
  rw [hlength] at hinside hclosing
  have hfirst : r.buffer.offset (s.position + 1) = r.buffer.offset s.position + 1 := hopening.offset_succ
  have hlast : r.buffer.offset (s.position + 1 + k + 1) = r.buffer.offset (s.position + 1 + k) + 1 :=
    hclosing.offset_succ
  have htake : s.position + 1 + k - (s.position + 1) = k := by omega
  rw [Span.inBytes, hfirst] at hinside
  change (piece r (s.frame.depth + 1)
    ⟨r.buffer.offset s.position + 1, r.buffer.offset (s.position + 1 + k)⟩ >>= _) = _
  rw [hinside, Scan.openPair, htake]
  cases r.piece (s.frame.depth + 1) (s.position + 1) (tail.take k) with
  | error e => rfl
  | ok p =>
      rw [reported_ok, ok_bind, ← hlast]
      cases p <;> rfl

/-- The fault with which a step ends the reading lies in the text. -/
theorem position_le_of_step (h : Scan.Reached r n s) {position : Nat} {fault : Fault}
    (he : s.step r (Bracket.pairs r.buffer) = .error (.malformed position fault)) :
    position ≤ r.buffer.length := by
  have htree := Scan.run_of_error he
  rw [h.run_eq] at htree
  have hlies : fault.LiesAt r.buffer position := Reader.liesIn_of_tree htree
  exact hlies.le_length

/-- Where a step looks for the next character, the rest of the group stands. -/
theorem slice_rest (h : Scan.Reached r n s) :
    slice r.buffer ⟨(s.inBytes r.buffer).index, (s.inBytes r.buffer).frame.range.stop⟩ = .ok s.rest := by
  have hslice := slice_eq h.placed.rest
  rwa [← h.placed.stop] at hslice

/-- At the end of a frame, the steps over bytes and over characters are the same. -/
theorem step_eq_of_nil (h : Scan.Reached r n s) (hrest : s.rest = []) :
    (s.inBytes r.buffer).step r (pairs r.buffer) =
      reported (Sum.map (Tree.relocated (.bytes r.buffer)) (Scan.inBytes r.buffer))
        (s.step r (Bracket.pairs r.buffer)) := by
  have hslice := slice_rest h
  have hstop := h.placed.stop
  have hfault : ∀ position fault,
      s.step r (Bracket.pairs r.buffer) = .error (.malformed position fault) →
        position ≤ r.buffer.length := fun position fault he => position_le_of_step h he
  rw [hrest] at hslice hstop
  have hend : (s.inBytes r.buffer).frame.range.stop = r.buffer.offset s.position :=
    congrArg r.buffer.offset hstop
  rw [Scan.step_end hrest] at hfault ⊢
  rw [State.step_end hslice, hend, flush_eq h]
  cases hitems : s.flush r with
  | error e => rfl
  | ok items =>
      rw [hitems] at hfault
      exact leave_eq (items_ne_nil h hrest hitems) hfault

/-- At an opening bracket, they are the same too: its partner is looked up by byte or by position. -/
theorem step_eq_of_opening (h : Scan.Reached r n s) {tail : Text} (hrest : s.rest = '(' :: tail) :
    (s.inBytes r.buffer).step r (pairs r.buffer) =
      reported (Sum.map (Tree.relocated (.bytes r.buffer)) (Scan.inBytes r.buffer))
        (s.step r (Bracket.pairs r.buffer)) := by
  have hslice := slice_rest h
  have hpartner := h.aligned.rest
  have hle := h.placed.position_le_length
  rw [hrest] at hslice hpartner
  have hlookup := lookup_pairs hle
  rw [hpartner.lookup_pairs] at hlookup
  rw [Scan.step_opening hrest, hpartner.lookup_pairs, State.step_opening hslice, Scan.index_inBytes,
    flush_eq h]
  cases s.flush r with
  | error e => rfl
  | ok items =>
      rw [reported_ok, ok_bind, hlookup]
      cases hk : Bracket.closingOffset? 0 tail with
      | none => exact fail_eq hle _
      | some k =>
          simp only [Option.map_some, openPair_eq h.placed hrest hk]
          cases s.openPair items r tail (s.position + 1 + k) <;> rfl

/-- **A step by bytes is a step by characters.**  In a state that is reached, the two have the same
outcome, and there is no breach. -/
theorem step_eq (h : Scan.Reached r n s) :
    (s.inBytes r.buffer).step r (pairs r.buffer) =
      reported (Sum.map (Tree.relocated (.bytes r.buffer)) (Scan.inBytes r.buffer))
        (s.step r (Bracket.pairs r.buffer)) := by
  cases hrest : s.rest with
  | nil => exact step_eq_of_nil h hrest
  | cons c tail =>
      have hslice := slice_rest h
      have hstands := h.placed.rest
      rw [hrest] at hslice hstands
      rcases Literal.eq_bracket_or_symbol_or_other c with rfl | rfl | ⟨op, rfl⟩ | hc
      · exact step_eq_of_opening h hrest
      · rw [Scan.step_closing hrest, State.step_closing hslice]
        exact fail_eq h.placed.position_le_length _
      · have hsize : op.symbol.utf8Size = 1 := by cases op <;> rfl
        have hnext := hstands.offset_succ
        rw [hsize] at hnext
        rw [Scan.step_operator hrest, State.step_operator hslice, Scan.index_inBytes, flush_eq h, ← hnext]
        cases s.flush r <;> rfl
      · rw [Scan.step_other hrest hc, State.step_other hslice hc, Scan.index_inBytes,
          ← hstands.offset_succ]
        rfl

/-- The steps that are allowed are enough. -/
theorem run_eq (h : Scan.Reached r n s) {steps : Nat}
    (hsteps : r.buffer.utf8Length < r.buffer.offset s.position + steps) :
    (s.inBytes r.buffer).run r (pairs r.buffer) steps =
      reported (Tree.relocated (.bytes r.buffer)) (s.run r (Bracket.pairs r.buffer)) := by
  induction steps generalizing n s with
  | zero =>
      have hle := r.buffer.offset_mono h.placed.position_le_length
      rw [Text.offset_length] at hle
      omega
  | succ steps ih =>
      rw [State.run, step_eq h]
      cases hstep : s.step r (Bracket.pairs r.buffer) with
      | error e =>
          rw [Scan.run_of_error hstep]
          rfl
      | ok found =>
          cases found with
          | inl tree =>
              rw [Scan.run_of_tree hstep]
              rfl
          | inr next =>
              have hlt := h.offset_lt hstep
              rw [Scan.run_of_next hstep]
              exact ih (h.step hstep) (by omega)

end Steps

/-- The reading by bytes is the reading by characters. -/
theorem tree_eq (r : Reader) : tree r = reported (Tree.relocated (.bytes r.buffer)) r.tree := by
  have hpiece := piece_eq 0 (.whole r.buffer)
  rw [Nat.zero_add, Span.inBytes, Text.offset_length] at hpiece
  change (piece r 0 ⟨r.buffer.offset 0, r.buffer.utf8Length⟩ >>= _) = _
  rw [hpiece, Reader.tree]
  cases hwhole : r.piece 0 0 r.buffer with
  | error e => rfl
  | ok p =>
      cases p with
      | leaf o => rfl
      | compound contents range =>
          exact run_eq (Scan.Reached.start hwhole) (by omega)

end Bytewise

/-- The errors of reading: a fault of the text, and a nesting beyond the limit. -/
def Reader.MayFailWith (r : Reader) (e : Error) : Prop :=
  (∃ position fault, e = .malformed position fault) ∨ e = .tooDeep r.limit .parsing

namespace Reader

variable {r : Reader} {e : Error}

theorem mayFailWith_of_piece {depth start : Nat} {t : Text} (h : r.piece depth start t = .error e) :
    r.MayFailWith e := by
  unfold piece at h
  unfold MayFailWith
  grind

theorem mayFailWith_of_flush {s : Scan} (h : s.flush r = .error e) : r.MayFailWith e := by
  unfold Scan.flush pendingItems at h
  split at h
  · cases h
  · next e' hpending =>
      cases h
      split at hpending
      · cases hpending
      · split at hpending
        · cases hpending
        · cases hpending
          exact .inl ⟨_, _, rfl⟩
        · next hpiece =>
            cases hpending
            exact mayFailWith_of_piece hpiece

theorem mayFailWith_of_leave {s : Scan} {items : List Item} (h : s.leave items r = .error e) :
    r.MayFailWith e := by
  unfold Scan.leave at h
  split at h
  · next htree =>
      cases h
      obtain ⟨fault, rfl⟩ := Chain.exists_fault_of_treeOf htree
      exact .inl ⟨_, _, rfl⟩
  · split at h <;> cases h

theorem mayFailWith_of_openPair {s : Scan} {items : List Item} {tail : Text} {close : Nat}
    (h : s.openPair items r tail close = .error e) : r.MayFailWith e := by
  unfold Scan.openPair at h
  dsimp only at h
  split at h
  · next hpiece =>
      cases h
      exact mayFailWith_of_piece hpiece
  · cases h
  · cases h

/-- A step fails with a fault of the text or at the limit of the reader. -/
theorem mayFailWith_of_step {s : Scan} {pairs : List (Nat × Nat)} (h : s.step r pairs = .error e) :
    r.MayFailWith e := by
  cases hrest : s.rest with
  | nil =>
      rw [Scan.step_end hrest] at h
      split at h
      · next hflush =>
          cases h
          exact mayFailWith_of_flush hflush
      · exact mayFailWith_of_leave h
  | cons c tail =>
      rcases Literal.eq_bracket_or_symbol_or_other c with rfl | rfl | ⟨op, rfl⟩ | hc
      · rw [Scan.step_opening hrest] at h
        split at h
        · next hflush =>
            cases h
            exact mayFailWith_of_flush hflush
        · split at h
          · cases h
            exact .inl ⟨_, _, rfl⟩
          · split at h
            · next hpair =>
                cases h
                exact mayFailWith_of_openPair hpair
            · cases h
      · rw [Scan.step_closing hrest] at h
        cases h
        exact .inl ⟨_, _, rfl⟩
      · rw [Scan.step_operator hrest] at h
        split at h
        · next hflush =>
            cases h
            exact mayFailWith_of_flush hflush
        · cases h
      · rw [Scan.step_other hrest hc] at h
        cases h

/-- A reading fails with a fault of the text or at its own limit, and in no other way. -/
theorem mayFailWith_of_tree (h : r.tree = .error e) : r.MayFailWith e := by
  cases hwhole : r.piece 0 0 r.buffer with
  | error e' =>
      rw [tree, hwhole] at h
      cases h
      exact mayFailWith_of_piece hwhole
  | ok p =>
      cases p with
      | leaf o =>
          rw [tree, hwhole] at h
          cases h
      | compound contents range =>
          obtain ⟨n, s, -, hlast⟩ := (Scan.Reached.start hwhole).exists_last
          rw [h] at hlast
          exact mayFailWith_of_step hlast

end Reader

/-- **Nothing impossible happens.**  For every limit and every text, the reading by bytes is the reading by
characters, with offsets in the place of positions.  So it never meets a breach: it cuts out only what
stands in the text, the text between brackets and operators is never compound, the character of an operator
writes one, a chain that is joined has items and terms, and there are at most as many steps as the text has
bytes, and the last one.  The errors are faults of the text and the limit of nesting. -/
theorem Formula.parse_unbroken (limit : Nat) (text : Text) :
    Bytewise.parse limit text =
        Bytewise.reported (Tree.relocated (.bytes (Bracket.ascii text))) (Tree.parse limit text) ∧
      (∀ breach, Bytewise.parse limit text ≠ .error (.breach breach)) ∧
      ∀ e, Formula.parse limit text = .error e →
        (∃ position fault, e = .malformed position fault) ∨ e = .tooDeep limit .parsing := by
  have htree : Bytewise.parse limit text =
      Bytewise.reported (Tree.relocated (.bytes (Bracket.ascii text))) (Tree.parse limit text) :=
    Bytewise.tree_eq ⟨limit, Bracket.ascii text⟩
  refine ⟨htree, ?_, ?_⟩
  · intro breach
    rw [htree]
    exact Bytewise.reported_ne_breach _ _ breach
  · intro e he
    exact Reader.mayFailWith_of_tree (r := ⟨limit, Bracket.ascii text⟩) (parse_eq_error_iff.mp he)

end InfixFormula
