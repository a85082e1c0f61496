import InfixFormula.Proofs.Offsets
import InfixFormula.Formula

/-!
# Reading by byte offsets

A program that keeps its text as bytes finds its way through a formula by offsets: of the next character,
of the text that is not yet taken, of the ends of a group and of the brackets around it, of the partner of
a bracket.  Nothing but these offsets says which stretch of the text it looks at, and an offset that is not
a place of the text makes it fail.

`Bytewise.parse` is the reading with a stack, done in this way.  To look at a stretch it cuts it out first,
and to report a fault it cuts out what stands in front, since the position of a fault counts characters.  It
ends in a `Breach` where a stretch cannot be cut out, and wherever it comes to what is thought impossible:
collected text that is no leaf, an operator character that writes no operator, a group without items, a
first pass that leaves no term.  It is given a step for each byte of the text and one more; when these are
used up, that is a breach too.
-/

namespace InfixFormula

namespace Bytewise

/-- What is thought impossible. -/
inductive Breach where
  /-- The span stops before it starts, or an end of it is no place of the text. -/
  | slice (s : Span)
  /-- The text collected between brackets and operators is compound. -/
  | compound (s : Span)
  /-- The character of an operator writes none. -/
  | symbol (c : Char)
  /-- A group to be joined has no items. -/
  | noItems
  /-- The first pass over a chain leaves no term. -/
  | noTerms
  /-- The allowed steps are used up. -/
  | endless

/-- How a reading stops without a tree. -/
inductive Stop where
  | error (e : Error)
  | breach (b : Breach)

section Bind

variable {α β : Type}

@[simp] theorem ok_bind (a : α) (f : α → Except Stop β) : (Except.ok a >>= f) = f a := rfl

@[simp] theorem error_bind (stop : Stop) (f : α → Except Stop β) :
    (Except.error stop >>= f) = Except.error stop := rfl

end Bind

/-- Cuts a stretch out of the text. -/
def slice (buffer : Text) (s : Span) : Except Stop Text :=
  match buffer.sliceBytes? s with
  | some t => .ok t
  | none => .error (.breach (.slice s))

/-- The fault at an offset.  Its position is the number of characters before it. -/
def fail {α : Type} (buffer : Text) (byte : Nat) (fault : Fault) : Except Stop α := do
  let before ← slice buffer ⟨0, byte⟩
  .error (.error (.malformed before.length fault))

/-- Says what stands in the span. -/
def piece (r : Reader) (depth : Nat) (span : Span) : Except Stop Piece :=
  if r.limit < depth then .error (.error (.tooDeep r.limit .parsing))
  else do
    let t ← slice r.buffer span
    let core := t.trim
    if core.isEmpty then fail r.buffer span.stop .emptyExpression
    else
      let first := span.start + (t.utf8Length - t.trimStart.utf8Length)
      let range : Span := ⟨first, first + core.utf8Length⟩
      match Literal.value? core with
      | some x => .ok (.leaf ⟨.const x ⟨r.buffer, range⟩, range⟩)
      | none =>
          if core.any Literal.isDelimiter then .ok (.compound core range)
          else
            match Literal.rejection core with
            | some fault => fail r.buffer first (.badToken fault core)
            | none => .ok (.leaf ⟨.var core, range⟩)

/-- The operand in the span, if there is more than layout. -/
def pendingItems (r : Reader) (depth : Nat) (span : Span) : Except Stop (List Item) := do
  let t ← slice r.buffer span
  if t.isBlank then .ok []
  else
    match ← piece r depth span with
    | .leaf o => .ok [.operand o]
    | .compound _ range => .error (.breach (.compound range))

/-- What the first pass over a chain has come to: the terms that are complete, the additive operators
behind them, and the product that is being joined. -/
structure Pass where
  terms : List Operand
  operators : List Operator
  running : Operand

/-- The first pass comes to a link. -/
def Pass.next (buffer : Text) (p : Pass) (link : Operator × Operand) : Pass :=
  if link.1.isMultiplicative then
    { p with running := Chain.operation buffer link.1 p.running link.2 }
  else ⟨p.terms ++ [p.running], p.operators ++ [link.1], link.2⟩

/-- Joins a chain in two passes, the terms and the operators between them in lists of their own. -/
def join (buffer : Text) (c : Chain) : Except Stop Tree :=
  if c.links.isEmpty then .ok c.first.tree
  else
    let pass := c.links.foldl (Pass.next buffer) ⟨[], [], c.first⟩
    match pass.terms ++ [pass.running] with
    | [] => .error (.breach .noTerms)
    | first :: terms => .ok (Chain.sum buffer ⟨first, pass.operators.zip terms⟩).tree

/-- Joins the items of a group whose contents start at an offset. -/
def combine (buffer : Text) (start : Nat) (items : List Item) : Except Stop Tree :=
  if items.isEmpty then .error (.breach .noItems)
  else
    match Chain.ofItems start items with
    | .ok c => join buffer c
    | .error (.malformed byte fault) => fail buffer byte fault
    | .error e => .error (.error e)

/-- The pairs that a reading still makes which has come to the offset and has the opening brackets
`waiting`, the latest first. -/
def pairsFrom (byte : Nat) (waiting : List Nat) : Text → List (Nat × Nat)
  | [] => []
  | c :: t =>
      if c = '(' then pairsFrom (byte + c.utf8Size) (byte :: waiting) t
      else if c = ')' then
        match waiting with
        | [] => pairsFrom (byte + c.utf8Size) [] t
        | opening :: earlier => (opening, byte) :: pairsFrom (byte + c.utf8Size) earlier t
      else pairsFrom (byte + c.utf8Size) waiting t

/-- The offsets of all opening brackets that have a partner, each with that of its partner. -/
def pairs (t : Text) : List (Nat × Nat) := pairsFrom 0 [] t

/-- A state of the reading. -/
structure State where
  /-- The innermost open group. -/
  frame : Frame
  /-- The groups around it, from the inside out. -/
  outer : List Frame
  /-- The offset that has been reached. -/
  index : Nat
  /-- The offset behind the latest item. -/
  mark : Nat

namespace State

/-- Before the first character of a formula. -/
def start (range : Span) : State := ⟨⟨range, range, 0, []⟩, [], range.start, range.start⟩

/-- The text from the mark on as an item of the group. -/
def flush (r : Reader) (s : State) (stop : Nat) : Except Stop (List Item) := do
  let new ← pendingItems r (s.frame.depth + 1) ⟨s.mark, stop⟩
  .ok (new ++ s.frame.items)

def resume (s : State) (items : List Item) (index : Nat) : State :=
  ⟨{ s.frame with items := items }, s.outer, index, index⟩

def enter (s : State) (items : List Item) (span range : Span) : State :=
  ⟨⟨range, span, s.frame.depth + 1, []⟩, { s.frame with items := items } :: s.outer, range.start,
    range.start⟩

/-- The innermost group is complete and becomes an operand of the group around it. -/
def leave (s : State) (items : List Item) (r : Reader) : Except Stop (Tree ⊕ State) := do
  let tree ← combine r.buffer s.frame.range.start items.reverse
  match s.outer with
  | [] => .ok (.inl tree)
  | parent :: outer =>
      let index := s.frame.span.stop
      let items := .operand ⟨tree, s.frame.span⟩ :: parent.items
      .ok (.inr ⟨{ parent with items := items }, outer, index, index⟩)

/-- Reads the bracket pair that opens here and closes at `close`. -/
def openPair (s : State) (items : List Item) (r : Reader) (close : Nat) : Except Stop State := do
  let span : Span := ⟨s.index, close + 1⟩
  match ← piece r (s.frame.depth + 1) ⟨s.index + 1, close⟩ with
  | .leaf o => .ok (s.resume (.operand ⟨o.tree, span⟩ :: items) (close + 1))
  | .compound _ range => .ok (s.enter items span range)

/-- One step of the reading. -/
def step (r : Reader) (pairs : List (Nat × Nat)) (s : State) : Except Stop (Tree ⊕ State) := do
  match ← slice r.buffer ⟨s.index, s.frame.range.stop⟩ with
  | [] =>
      let items ← s.flush r s.frame.range.stop
      s.leave items r
  | c :: _ =>
      if c = '(' then
        let items ← s.flush r s.index
        match pairs.lookup s.index with
        | none => fail r.buffer s.index .unmatchedOpening
        | some close =>
            let next ← s.openPair items r close
            .ok (.inr next)
      else if c = ')' then fail r.buffer s.index .unmatchedClosing
      else if c = '*' ∨ c = '/' ∨ c = '+' ∨ c = '-' then
        let items ← s.flush r s.index
        match Operator.ofChar? c with
        | none => .error (.breach (.symbol c))
        | some op => .ok (.inr (s.resume (.operator op s.index :: items) (s.index + 1)))
      else .ok (.inr { s with index := s.index + c.utf8Size })

section Steps

variable {r : Reader} {pairs : List (Nat × Nat)} {s : State} {tail : Text}

/-- At the end of a frame, the bytes since the mark are the last operand, and the frame is left. -/
theorem step_end (h : slice r.buffer ⟨s.index, s.frame.range.stop⟩ = .ok []) :
    s.step r pairs = (do
      let items ← s.flush r s.frame.range.stop
      s.leave items r) := by
  rw [step, h]
  rfl

/-- An opening bracket finishes the operand in front of its byte, and opens the pair that the table of
byte indices has for it. -/
theorem step_opening (h : slice r.buffer ⟨s.index, s.frame.range.stop⟩ = .ok ('(' :: tail)) :
    s.step r pairs = (do
      let items ← s.flush r s.index
      match pairs.lookup s.index with
      | none => fail r.buffer s.index .unmatchedOpening
      | some close =>
          let next ← s.openPair items r close
          .ok (.inr next)) := by
  rw [step, h]
  rfl

/-- A closing bracket is reported at the character that its byte belongs to. -/
theorem step_closing (h : slice r.buffer ⟨s.index, s.frame.range.stop⟩ = .ok (')' :: tail)) :
    s.step r pairs = fail r.buffer s.index .unmatchedClosing := by
  rw [step, h]
  rfl

/-- An operator is a single byte. -/
theorem step_operator {op : Operator}
    (h : slice r.buffer ⟨s.index, s.frame.range.stop⟩ = .ok (op.symbol :: tail)) :
    s.step r pairs = (do
      let items ← s.flush r s.index
      .ok (.inr (s.resume (.operator op s.index :: items) (s.index + 1)))) := by
  rw [step, h]
  cases op <;> rfl

/-- Every other character is passed with all its bytes, so the index stays between characters. -/
theorem step_other {c : Char} (h : slice r.buffer ⟨s.index, s.frame.range.stop⟩ = .ok (c :: tail))
    (hc : Literal.isDelimiter c = false) :
    s.step r pairs = .ok (.inr { s with index := s.index + c.utf8Size }) := by
  simp only [Literal.isDelimiter, Bool.or_eq_false_iff, beq_eq_false_iff_ne] at hc
  obtain ⟨⟨⟨⟨⟨hopen, hclose⟩, hmultiply⟩, hdivide⟩, hadd⟩, hsubtract⟩ := hc
  simp only [step, h, ok_bind, hopen, hclose, hmultiply, hdivide, hadd, hsubtract, or_self, if_false]

end Steps

/-- Reads on to the end, for at most so many steps. -/
def run (r : Reader) (pairs : List (Nat × Nat)) : Nat → State → Except Stop Tree
  | 0, _ => .error (.breach .endless)
  | steps + 1, s => do
      match ← s.step r pairs with
      | .inl tree => .ok tree
      | .inr next => next.run r pairs steps

end State

/-- The tree of the whole buffer. -/
def tree (r : Reader) : Except Stop Tree := do
  match ← piece r 0 ⟨0, r.buffer.utf8Length⟩ with
  | .leaf o => .ok o.tree
  | .compound _ range => (State.start range).run r (pairs r.buffer) (r.buffer.utf8Length + 1)

/-- Reads a text as a tree. -/
def parse (limit : Nat) (text : Text) : Except Stop Tree := tree ⟨limit, Bracket.ascii text⟩

end Bytewise

end InfixFormula
