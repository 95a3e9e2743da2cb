import Pipewright.Unit.Names

/-! # Names that generated programs use
The variables of steps differ from each other, from the names that every generated program uses and
from every name that an overall input may have. A variable of a step can be told by its lead and by
the digits behind that. -/

namespace Pipewright

variable {i j : Nat} {a b x : String}

/-! ## Digits -/

/-- The digits of a number, and what is behind them if that does not start with a digit. -/
theorem takeWhile_digits (n : Nat) (rest : List Char) :
    ((toString n).toList ++ '_' :: rest).takeWhile Char.isDigit = (toString n).toList := by
  have digits : ∀ c ∈ (toString n).toList, c.isDigit = true := by
    intro c m
    rw [Nat.toString_eq_ofList_toDigits, String.toList_ofList] at m
    exact Nat.isDigit_of_mem_toDigits (by decide) (by decide) m
  rw [List.takeWhile_append_of_pos digits, List.takeWhile_cons, if_neg (by decide),
    List.append_nil]

/-- What is behind the digits of a number. -/
theorem dropWhile_digits (n : Nat) (rest : List Char) :
    ((toString n).toList ++ '_' :: rest).dropWhile Char.isDigit = '_' :: rest := by
  have whole := List.takeWhile_append_dropWhile
    (p := Char.isDigit) (l := (toString n).toList ++ '_' :: rest)
  rw [takeWhile_digits] at whole
  exact List.append_cancel_left whole

/-- A number is told by its digits. -/
theorem toString_inj {m n : Nat} (h : (toString m).toList = (toString n).toList) : m = n := by
  rw [Nat.toString_eq_ofList_toDigits, Nat.toString_eq_ofList_toDigits, String.toList_ofList,
    String.toList_ofList] at h
  rw [← Nat.ofDigitChars_ten_toDigits (n := m), h, Nat.ofDigitChars_ten_toDigits]

/-! ## The variables of steps -/

/-- A name that consists of a lead, the digits of a step, an underscore and something else. -/
def NamesStep (lead : String) (step : Nat) (name : String) : Prop :=
  ∃ rest : List Char, name.toList = lead.toList ++ ((toString step).toList ++ '_' :: rest)

/-- The variable of a result names its step. -/
theorem namesStep_returnVariable (i : Nat) (a : String) :
    NamesStep "step_" i (returnVariable i a) := by
  refine ⟨(Script.sanitize a ++ "_" ++ returnSlot).toList, ?_⟩
  unfold returnVariable
  simp only [String.toList_append, List.append_assoc]
  rfl

/-- The variable of an operation names its step. -/
theorem namesStep_functionVariable (i : Nat) (a : String) :
    NamesStep "function_" i (functionVariable i a) := by
  refine ⟨(Script.sanitize a).toList, ?_⟩
  unfold functionVariable
  simp only [String.toList_append, List.append_assoc]
  rfl

/-- The step that a name names is told by the name. -/
theorem NamesStep.unique {lead : String} (h : NamesStep lead i x) (h' : NamesStep lead j x) :
    i = j := by
  obtain ⟨rest, e⟩ := h
  obtain ⟨rest', e'⟩ := h'
  have same := List.append_cancel_left (e.symm.trans e')
  have digits := congrArg (List.takeWhile Char.isDigit) same
  rw [takeWhile_digits, takeWhile_digits] at digits
  exact toString_inj digits

/-- A name that names a step is spelled like the variable of one. -/
theorem NamesStep.isStepName {lead : String} (known : lead ∈ stepLeads) (h : NamesStep lead i x) :
    isStepName x = true := by
  obtain ⟨rest, e⟩ := h
  unfold Pipewright.isStepName
  refine List.any_eq_true.2 ⟨lead, known, ?_⟩
  rw [e, Text.dropLead?_append]
  simp only [takeWhile_digits, dropWhile_digits]
  simp

/-- Steps are told by the variables of their results. -/
theorem returnVariable_inj (h : returnVariable i a = returnVariable j b) : i = j :=
  (namesStep_returnVariable i a).unique (h ▸ namesStep_returnVariable j b)

/-- The variable of a result is not that of an operation. -/
theorem returnVariable_ne_functionVariable : returnVariable i a ≠ functionVariable j b := by
  intro h
  obtain ⟨rest, e⟩ := namesStep_returnVariable i a
  obtain ⟨rest', e'⟩ := namesStep_functionVariable j b
  have first := congrArg List.head? (e.symm.trans ((congrArg String.toList h).trans e'))
  have apart : "step_".toList.head? ≠ "function_".toList.head? := by decide
  exact apart first

/-- The variable of a result is spelled like one. -/
theorem isStepName_returnVariable (i : Nat) (a : String) : isStepName (returnVariable i a) = true :=
  (namesStep_returnVariable i a).isStepName (by simp [stepLeads])

/-- The variable of an operation is spelled like one. -/
theorem isStepName_functionVariable (i : Nat) (a : String) :
    isStepName (functionVariable i a) = true :=
  (namesStep_functionVariable i a).isStepName (by simp [stepLeads])

/-! ## Own names and accepted names -/

/-- No name that every generated program uses is spelled like the variable of a step. -/
theorem ne_of_mem_ownNames (own : x ∈ ownNames) {y : String} (h : isStepName y = true) : x ≠ y := by
  have apart : ∀ x ∈ ownNames, isStepName x = false := by decide +kernel
  rintro rfl
  rw [apart x own] at h
  exact Bool.noConfusion h

/-- What is accepted as the name of an overall input or output is an identifier that no generated
program uses. -/
theorem nameFault?_eq_none_iff :
    nameFault? x = none ↔ Script.isIdentifier x = true ∧ isGeneratedName x = false := by
  unfold nameFault?
  cases Script.isIdentifier x <;> cases isGeneratedName x <;> simp

/-- An accepted name is none that every generated program uses. -/
theorem ne_of_nameFault? (h : nameFault? x = none) {y : String} (own : y ∈ ownNames) : x ≠ y := by
  have free := (nameFault?_eq_none_iff.1 h).2
  rintro rfl
  rw [isGeneratedName, List.contains_iff_mem.2 own] at free
  simp at free

/-- An accepted name is not the variable of a step. -/
theorem ne_stepName_of_nameFault? (h : nameFault? x = none) {y : String}
    (step : isStepName y = true) : x ≠ y := by
  have free := (nameFault?_eq_none_iff.1 h).2
  rintro rfl
  rw [isGeneratedName, step] at free
  simp at free

end Pipewright
