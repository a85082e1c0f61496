import InfixFormula.Text.Basic

/-!
# Brackets and their partners

Brackets in a text are paired by one reading from left to right.  A closing bracket takes the latest
opening one that still waits; a closing bracket that finds none waiting is skipped, and an opening
bracket that is never taken stays without a partner.

`pairs` is that reading.  Beside it stand two ways of counting depth, which look at a stretch of text
and at nothing before it: `closingOffset?` finds the bracket that closes a stretch, and `isBalanced`
says that every bracket of the stretch has its partner in it.

Full-width brackets mean the same as ASCII ones; `ascii` turns them into those.
-/

namespace InfixFormula.Bracket

/-- The text with ASCII brackets in place of full-width ones. -/
def ascii (t : Text) : Text :=
  t.map (fun c => if c = '（' then '(' else if c = '）' then ')' else c)

/-- The pairs that a reading still makes which has come to position `pos` and has the opening brackets
`waiting`, the latest first. -/
def pairsFrom (pos : Nat) (waiting : List Nat) : Text → List (Nat × Nat)
  | [] => []
  | c :: t =>
      if c = '(' then pairsFrom (pos + 1) (pos :: waiting) t
      else if c = ')' then
        match waiting with
        | [] => pairsFrom (pos + 1) [] t
        | opening :: earlier => (opening, pos) :: pairsFrom (pos + 1) earlier t
      else pairsFrom (pos + 1) waiting t

/-- The positions of all opening brackets that have a partner, each with its partner. -/
def pairs (t : Text) : List (Nat × Nat) := pairsFrom 0 [] t

/-- How far into the text the bracket stands that closes `depth` brackets opened in it and the one
opened just before it. -/
def closingOffset? (depth : Nat) : Text → Option Nat
  | [] => none
  | c :: t =>
      if c = '(' then (closingOffset? (depth + 1) t).map (· + 1)
      else if c = ')' then
        match depth with
        | 0 => some 0
        | d + 1 => (closingOffset? d t).map (· + 1)
      else (closingOffset? depth t).map (· + 1)

/-- Whether the text closes `depth` brackets opened before it and all of its own, and no others. -/
def isBalanced (depth : Nat) : Text → Bool
  | [] => depth == 0
  | c :: t =>
      if c = '(' then isBalanced (depth + 1) t
      else if c = ')' then
        match depth with
        | 0 => false
        | d + 1 => isBalanced d t
      else isBalanced depth t

/-- Turning brackets moves no position. -/
@[simp] theorem length_ascii (t : Text) : (ascii t).length = t.length := by
  simp [ascii]

/-- The bracket that closes a stretch lies in the text. -/
theorem closingOffset?_lt {depth k : Nat} {t : Text} (h : closingOffset? depth t = some k) :
    k < t.length := by
  induction t generalizing depth k with
  | nil => simp [closingOffset?] at h
  | cons c t ih =>
      unfold closingOffset? at h
      split at h
      · obtain ⟨j, hj, rfl⟩ := Option.map_eq_some_iff.mp h
        have := ih hj
        simp only [List.length_cons]
        omega
      · split at h
        · cases depth with
          | zero =>
              cases h
              simp
          | succ d =>
              obtain ⟨j, hj, rfl⟩ := Option.map_eq_some_iff.mp h
              have := ih hj
              simp only [List.length_cons]
              omega
        · obtain ⟨j, hj, rfl⟩ := Option.map_eq_some_iff.mp h
          have := ih hj
          simp only [List.length_cons]
          omega

/-- What stands in front of the bracket that closes a stretch is balanced. -/
theorem isBalanced_take_of_closingOffset? {depth k : Nat} {t : Text}
    (h : closingOffset? depth t = some k) : isBalanced depth (t.take k) = true := by
  induction t generalizing depth k with
  | nil => simp [closingOffset?] at h
  | cons c t ih =>
      unfold closingOffset? at h
      split at h
      · next hc =>
          obtain ⟨j, hj, rfl⟩ := Option.map_eq_some_iff.mp h
          simp [isBalanced, hc, ih hj]
      · next hc =>
          split at h
          · next hc' =>
              cases depth with
              | zero =>
                  cases h
                  rfl
              | succ d =>
                  obtain ⟨j, hj, rfl⟩ := Option.map_eq_some_iff.mp h
                  simp [isBalanced, hc', ih hj]
          · next hc' =>
              obtain ⟨j, hj, rfl⟩ := Option.map_eq_some_iff.mp h
              simp [isBalanced, hc, hc', ih hj]

end InfixFormula.Bracket
