import InfixFormula.Error

/-!
# The texts of faults

No two named faults have the same text (`Fault.eq_of_message_eq`), so what is said about a fault may be
said about its text.

The text of a rejected token has the token in it, between a stem and a quote.  All other texts are fixed
but for operators, so there are finitely many of them, and none starts with a stem.
-/

namespace InfixFormula.Fault

/-- Whether the fault has a name of its own. -/
def isNamed : Fault → Bool
  | described _ => false
  | _ => true

/-- The named faults whose text has no token in it. -/
def tokenless : List Fault :=
  let operators : List Operator := [.add, .subtract, .multiply, .divide]
  [emptyExpression, unmatchedOpening, unmatchedClosing, missingOperator] ++
    operators.map missingLeftOperand ++ operators.map missingRightOperand ++
    operators.flatMap (fun op => operators.map (unexpectedOperator op))

/-- What stands before the token in the text of a rejection. -/
def stem (reason : TokenFault) : Text := reason.message.toList ++ " in '".toList

variable {reason reason' : TokenFault}

/-- A message about a token starts with the reason and ends with the token between quotes. -/
theorem toList_message_badToken (reason : TokenFault) (token : Text) :
    (badToken reason token).message.toList = stem reason ++ (token ++ ['\'']) := by
  have hopening : " in ".toList ++ "'".toList = " in '".toList := by decide +kernel
  have hclosing : "'".toList = ['\''] := by decide +kernel
  have hjoin : ∀ a b c : String, (a ++ b ++ c).toList = a.toList ++ b.toList ++ c.toList := by
    intro a b c
    rw [String.toList_append, String.toList_append]
  calc (badToken reason token).message.toList
      = reason.message.toList ++ " in ".toList ++ (quotedInMessage token).toList := hjoin _ _ _
    _ = reason.message.toList ++ " in ".toList ++ ("'".toList ++ token ++ "'".toList) := by
        rw [quotedInMessage, hjoin, @String.toList_ofList token]
    _ = reason.message.toList ++ (" in ".toList ++ "'".toList) ++ (token ++ "'".toList) := by
        simp only [List.append_assoc]
    _ = stem reason ++ (token ++ ['\'']) := by rw [hopening, hclosing, stem]

/-- A fault that a reading reports is about a token, or it is one of finitely many. -/
theorem eq_badToken_or_mem_tokenless {f : Fault} (hf : f.isNamed = true) :
    (∃ reason token, f = badToken reason token) ∨ f ∈ tokenless := by
  cases f with
  | badToken reason token => exact .inl ⟨reason, token, rfl⟩
  | described text => cases hf
  | emptyExpression => exact .inr (by decide)
  | unmatchedOpening => exact .inr (by decide)
  | unmatchedClosing => exact .inr (by decide)
  | missingOperator => exact .inr (by decide)
  | missingLeftOperand op => exact .inr (by cases op <;> decide)
  | missingRightOperand op => exact .inr (by cases op <;> decide)
  | unexpectedOperator op previous => exact .inr (by cases op <;> cases previous <;> decide)

/-- No two of the faults without a token have the same words. -/
theorem eq_of_mem_tokenless :
    ∀ f ∈ tokenless, ∀ g ∈ tokenless, f.message = g.message → f = g := by
  decide +kernel

/-- No message without a token begins like one with a token. -/
theorem not_prefix_stem_of_mem_tokenless :
    ∀ f ∈ tokenless, ∀ reason ∈ [TokenFault.missingOperator, .invalidNumber, .invalidPercentage],
      ¬ stem reason <+: f.message.toList := by
  decide +kernel

/-- A rejection shares its text with no fault without a token. -/
theorem message_badToken_ne {token : Text} {f : Fault} (hf : f ∈ tokenless) :
    (badToken reason token).message ≠ f.message := by
  intro h
  have hprefix : stem reason <+: f.message.toList := by
    rw [← h, toList_message_badToken]
    exact List.prefix_append _ _
  exact not_prefix_stem_of_mem_tokenless f hf reason (by cases reason <;> decide) hprefix

/-- The first words of a message about a token give the reason. -/
theorem eq_of_prefix_stem (h : stem reason <+: stem reason') : reason = reason' := by
  revert h
  cases reason <;> cases reason' <;> decide +kernel

/-- Reason and token are both read off the message. -/
theorem eq_of_message_badToken {token token' : Text}
    (h : (badToken reason token).message = (badToken reason' token').message) :
    badToken reason token = badToken reason' token' := by
  have htext := congrArg String.toList h
  rw [toList_message_badToken, toList_message_badToken] at htext
  have hprefix : stem reason <+: stem reason' ++ (token' ++ ['\'']) := ⟨_, htext⟩
  obtain rfl : reason = reason' := by
    rcases List.prefix_or_prefix_of_prefix hprefix (List.prefix_append _ _) with hstem | hstem
    · exact eq_of_prefix_stem hstem
    · exact (eq_of_prefix_stem hstem).symm
  rw [List.append_cancel_right (List.append_cancel_left htext)]

/-- **The text tells the fault.**  No two named faults have the same text. -/
theorem eq_of_message_eq {f g : Fault} (hf : f.isNamed = true) (hg : g.isNamed = true)
    (h : f.message = g.message) : f = g := by
  rcases eq_badToken_or_mem_tokenless hf with ⟨reason, token, rfl⟩ | hf
  · rcases eq_badToken_or_mem_tokenless hg with ⟨reason', token', rfl⟩ | hg
    · exact eq_of_message_badToken h
    · exact absurd h (message_badToken_ne hg)
  · rcases eq_badToken_or_mem_tokenless hg with ⟨reason', token', rfl⟩ | hg
    · exact absurd h.symm (message_badToken_ne hf)
    · exact eq_of_mem_tokenless f hf g hg h

end InfixFormula.Fault
