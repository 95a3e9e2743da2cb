import Pipewright.Proofs.Script.Blocks
import Pipewright.Proofs.Unit.Names
import Pipewright.Unit.Binding

/-! # Generated expressions read as they are written
The names in generated programs are words of the language that start no statement, and the spellings
of literals and types, the accesses and the bindings are legible. -/

namespace Pipewright

open Script (Expr Stmt isPlainWord isNameWord isIdentifier isWordChar statementWords isReserved
  isPlainWord_of_isIdentifier)

variable {name suffix : String}

/-! ## Words -/

/-- A word that is neither a truth value nor starts a statement can stand in an expression. -/
theorem isNameWord_of (word : isPlainWord name.toList = true)
    (other : name ∉ "true" :: "false" :: statementWords) : isNameWord name = true := by
  simp only [List.mem_cons, not_or] at other
  unfold isNameWord
  simp [word, other.1, other.2.1, other.2.2]

/-- An identifier can stand in an expression: the language keeps the words that start a statement
for itself. -/
theorem isNameWord_of_isIdentifier (h : isIdentifier name = true) : isNameWord name = true := by
  refine isNameWord_of (isPlainWord_of_isIdentifier h) fun m => ?_
  have kept : ∀ w ∈ "true" :: "false" :: statementWords, isReserved w = true := by decide +kernel
  have free := Script.isReserved_of_isIdentifier h
  rw [kept name m] at free
  cases free

/-- A word stays one with more characters of words behind it. -/
theorem isPlainWord_append (h : isPlainWord name.toList = true)
    (more : suffix.toList.all isWordChar = true) : isPlainWord (name ++ suffix).toList = true := by
  unfold isPlainWord at h ⊢
  rw [String.toList_append]
  cases e : name.toList with
  | nil =>
    rw [e] at h
    cases h
  | cons c cs =>
    rw [e] at h
    simp only [Bool.and_eq_true, List.cons_append, List.all_cons, List.all_append] at h ⊢
    exact ⟨h.1, h.2.1, h.2.2, more⟩

/-- The endings of the names of the functions that make packs. -/
def packEndings : List String := ["Inputs", "Outputs", "ParameterNode"]

/-- An identifier with the ending of a pack can stand in an expression. -/
theorem isNameWord_pack (h : isIdentifier name = true) (ending : suffix ∈ packEndings) :
    isNameWord (name ++ suffix) = true := by
  have more : ∀ suffix ∈ packEndings, suffix.toList.all isWordChar = true := by decide +kernel
  refine isNameWord_of (isPlainWord_append (isPlainWord_of_isIdentifier h) (more _ ending)) fun m => ?_
  have apart : ∀ w ∈ "true" :: "false" :: statementWords, ∀ suffix ∈ packEndings,
      ¬ suffix.toList <:+ w.toList := by decide +kernel
  refine apart _ m _ ending ?_
  rw [String.toList_append]
  exact List.suffix_append _ _

/-- A text without characters that cannot stand in words is what is left of any text. -/
theorem all_isWordChar_sanitize (text : String) :
    (Script.sanitize text).toList.all isWordChar = true := by
  rw [List.all_eq_true]
  intro c m
  rw [Script.sanitize, String.toList_ofList] at m
  exact Script.isWordChar_of_mem_sanitizeChars m

/-- The digits of a number can stand in words. -/
theorem all_isWordChar_toString (n : Nat) : (toString n).toList.all isWordChar = true := by
  rw [List.all_eq_true]
  intro c m
  rw [Nat.toString_eq_ofList_toDigits, String.toList_ofList] at m
  have digit := Nat.isDigit_of_mem_toDigits (by decide) (by decide) m
  simp [isWordChar, Char.isAlphanum, digit]

/-- A word that is spelled like the variable of a step can stand in an expression. -/
theorem isNameWord_of_isStepName (word : isPlainWord name.toList = true)
    (step : isStepName name = true) : isNameWord name = true := by
  refine isNameWord_of word fun m => ?_
  have apart : ∀ w ∈ "true" :: "false" :: statementWords, isStepName w = false := by decide +kernel
  rw [apart name m] at step
  cases step

/-- The variable of a result can stand in an expression. -/
theorem isNameWord_returnVariable (i : Nat) (a : String) :
    isNameWord (returnVariable i a) = true := by
  refine isNameWord_of_isStepName ?_ (isStepName_returnVariable i a)
  have first := @isPlainWord_append "step_" _ (by decide) (all_isWordChar_toString i)
  have second := @isPlainWord_append _ "_" first (by decide)
  have third := isPlainWord_append second (all_isWordChar_sanitize a)
  have fourth := @isPlainWord_append _ "_" third (by decide)
  exact @isPlainWord_append _ returnSlot fourth (by decide)

/-- The variable of an operation can stand in an expression. -/
theorem isNameWord_functionVariable (i : Nat) (a : String) :
    isNameWord (functionVariable i a) = true := by
  refine isNameWord_of_isStepName ?_ (isStepName_functionVariable i a)
  have first := @isPlainWord_append "function_" _ (by decide) (all_isWordChar_toString i)
  have second := @isPlainWord_append _ "_" first (by decide)
  exact isPlainWord_append second (all_isWordChar_sanitize a)

/-! ## Lists of expressions -/

namespace Script

/-- Expressions are legible if each of them is. -/
theorem Expr.areLegible_iff {items : List Expr} :
    Expr.areLegible items = true ↔ ∀ e ∈ items, e.isLegible = true := by
  induction items with
  | nil => exact ⟨fun _ e m => absurd m List.not_mem_nil, fun _ => rfl⟩
  | cons item items ih =>
    unfold Expr.areLegible
    rw [Bool.and_eq_true, ih, List.forall_mem_cons]

/-- Entries are legible if the value of each of them is. -/
theorem Expr.areLegibleEntries_iff {entries : List (String × Expr)} :
    Expr.areLegibleEntries entries = true ↔ ∀ p ∈ entries, p.2.isLegible = true := by
  induction entries with
  | nil => exact ⟨fun _ e m => absurd m List.not_mem_nil, fun _ => rfl⟩
  | cons entry entries ih =>
    obtain ⟨key, e⟩ := entry
    unfold Expr.areLegibleEntries
    rw [Bool.and_eq_true, ih, List.forall_mem_cons]

/-- A list of legible expressions is legible. -/
theorem Expr.isLegible_array {layout : Layout} {items : List Expr}
    (h : ∀ e ∈ items, e.isLegible = true) : (Expr.array layout items).isLegible = true := by
  unfold Expr.isLegible
  exact Expr.areLegible_iff.2 h

/-- A list of texts is legible. -/
theorem Expr.isLegible_texts (layout : Layout) (texts : List String) :
    (Expr.array layout (texts.map Expr.str)).isLegible = true :=
  Expr.isLegible_array fun e m => by
    obtain ⟨text, -, rfl⟩ := List.mem_map.1 m
    rfl

/-- A map of legible expressions is legible. -/
theorem Expr.isLegible_object {layout : Layout} {entries : List (String × Expr)}
    (h : ∀ p ∈ entries, p.2.isLegible = true) : (Expr.object layout entries).isLegible = true := by
  unfold Expr.isLegible
  exact Expr.areLegibleEntries_iff.2 h

/-- A call on a legible target with legible arguments is legible. -/
theorem Expr.isLegible_method {receiver : Expr} {function : String} {arguments : List Expr}
    (target : receiver.isTarget = true) (legible : receiver.isLegible = true)
    (word : isPlainWord function.toList = true) (h : Expr.areLegible arguments = true) :
    (Expr.method receiver function arguments).isLegible = true := by
  unfold Expr.isLegible
  rw [target, legible, word, h]
  rfl

/-- A call with legible arguments is legible. -/
theorem Expr.isLegible_call {function : String} {arguments : List Expr}
    (word : isNameWord function = true) (h : ∀ e ∈ arguments, e.isLegible = true) :
    (Expr.call function arguments).isLegible = true := by
  unfold Expr.isLegible
  rw [word, Expr.areLegible_iff.2 h]
  rfl

end Script

/-- A constant of a module is legible. -/
theorem HostModule.isLegible_constant (m : HostModule) (word : isPlainWord name.toList = true) :
    (m.constant name).isLegible = true := by
  unfold HostModule.constant Expr.isLegible
  rw [word]
  cases m <;> decide

/-- A call of a function of a module with legible arguments is legible. -/
theorem HostModule.isLegible_call (m : HostModule) {function : String} {arguments : List Expr}
    (word : isPlainWord function.toList = true) (h : ∀ e ∈ arguments, e.isLegible = true) :
    (m.call function arguments).isLegible = true := by
  unfold HostModule.call Expr.isLegible
  rw [word, Script.Expr.areLegible_iff.2 h]
  cases m <;> decide

/-! ## Literals and types -/

namespace Value

mutual

/-- The spelling of a literal is legible. -/
theorem isLegible_spelling : (v : Value) → v.spelling.isLegible = true
  | .int n => by
    unfold spelling
    split <;> rfl
  | .float x => by
    unfold spelling
    split
    · exact Script.Expr.isLegible_call (by decide) (by simp [Expr.isLegible])
    split
    · exact Script.Expr.isLegible_call (by decide) (by simp [Expr.isLegible])
    -- a number that is finite is written with digits
    next number finite =>
    unfold Expr.isLegible
    rw [Bool.eq_false_iff.2 number, Bool.eq_false_iff.2 finite]
    rfl
  | .str _ => rfl
  | .bool _ => rfl
  | .list items => by
    unfold spelling
    exact Script.Expr.isLegible_array (isLegible_spellings items)
  | .tuple items =>
    HostModule.isLegible_call .blob (by decide) (by simp [Expr.isLegible])
  | .dict pairs =>
    HostModule.isLegible_call .blob (by decide) (by simp [Expr.isLegible])

/-- The spellings of literals are legible. -/
theorem isLegible_spellings : (vs : List Value) → ∀ e ∈ spellings vs, e.isLegible = true
  | [] => by simp [spellings]
  | v :: vs => by
    unfold spellings
    exact List.forall_mem_cons.2 ⟨isLegible_spelling v, isLegible_spellings vs⟩

end

end Value

/-- The spelling of an annotation is legible. -/
theorem Annotation.isLegible_spelling (a : Annotation) : a.spelling.isLegible = true := by
  have named : a.constructorName ∈
      ["minimum", "maximum", "default_value", "decimals", "single_step", "within_range"] := by
    cases a <;> simp [constructorName]
  have words : ∀ w ∈ ["minimum", "maximum", "default_value", "decimals", "single_step",
      "within_range"], isPlainWord w.toList = true := by decide
  refine HostModule.isLegible_call .annotations (words _ named) fun e m => ?_
  obtain ⟨v, -, rfl⟩ := List.mem_map.1 m
  exact v.isLegible_spelling

namespace DataType

mutual

/-- The spelling of a type is legible. -/
theorem isLegible_spelling : (t : DataType) → t.spelling.isLegible = true
  | .unit => HostModule.isLegible_constant .types (by decide)
  | .int => HostModule.isLegible_constant .types (by decide)
  | .float => HostModule.isLegible_constant .types (by decide)
  | .str => HostModule.isLegible_constant .types (by decide)
  | .bool => HostModule.isLegible_constant .types (by decide)
  | .progress => HostModule.isLegible_constant .types (by decide)
  | .list item => by
    unfold spelling
    exact HostModule.isLegible_call .types (by decide) (by simp [isLegible_spelling item])
  | .dict key value => by
    unfold spelling
    exact HostModule.isLegible_call .types (by decide)
      (by simp [isLegible_spelling key, isLegible_spelling value])
  | .tuple items => by
    unfold spelling
    have inner : (Expr.items (spellings items)).isLegible = true :=
      Script.Expr.isLegible_array (isLegible_spellings items)
    exact HostModule.isLegible_call .types (by decide) (by simp [inner])
  | .node c => by
    unfold spelling
    split
    next known => exact HostModule.isLegible_constant .scene (isPlainWord_of_isIdentifier known)
    · exact HostModule.isLegible_call .blob (by decide) (by simp [Expr.isLegible])
  | .pack name fields => by
    unfold spelling
    have inner : (Expr.items (spellingFields fields)).isLegible = true :=
      Script.Expr.isLegible_array (isLegible_spellingFields fields)
    exact HostModule.isLegible_call .types (by decide) (by simp [inner, Expr.isLegible])
  | .annotated inner [] => isLegible_spelling inner
  | .annotated inner (a :: as) => by
    unfold spelling
    have hints : (Expr.items ((a :: as).map Annotation.spelling)).isLegible = true :=
      Script.Expr.isLegible_array fun e m => by
        obtain ⟨a', -, rfl⟩ := List.mem_map.1 m
        exact a'.isLegible_spelling
    refine HostModule.isLegible_call .types (by decide) (List.forall_mem_cons.2 ⟨?_, ?_⟩)
    · exact isLegible_spelling inner
    · exact List.forall_mem_singleton.2 hints
  | .external _ => HostModule.isLegible_call .blob (by decide) (by simp [Expr.isLegible])

/-- The spellings of types are legible. -/
theorem isLegible_spellings : (ts : List DataType) → ∀ e ∈ spellings ts, e.isLegible = true
  | [] => by simp [spellings]
  | t :: ts => by
    unfold spellings
    exact List.forall_mem_cons.2 ⟨isLegible_spelling t, isLegible_spellings ts⟩

/-- The spellings of fields are legible. -/
theorem isLegible_spellingFields : (fields : List (String × DataType)) →
    ∀ e ∈ spellingFields fields, e.isLegible = true
  | [] => by simp [spellingFields]
  | (name, t) :: fields => by
    unfold spellingFields
    have first : (Expr.items [.str name, spelling t]).isLegible = true :=
      Script.Expr.isLegible_array (by simp [isLegible_spelling t, Expr.isLegible])
    exact List.forall_mem_cons.2 ⟨first, isLegible_spellingFields fields⟩

end

end DataType

/-! ## Accesses and bindings -/

/-- A field of a legible target is legible, and a target itself. -/
theorem isLegible_member {target : Expr} (h : target.isLegible = true)
    (h' : target.isTarget = true) (name : String) :
    (target.member name).isLegible = true ∧ (target.member name).isTarget = true := by
  unfold Script.Expr.member
  split
  next known =>
    refine ⟨?_, rfl⟩
    unfold Expr.isLegible
    rw [h, h', isPlainWord_of_isIdentifier known]
    rfl
  · refine ⟨?_, rfl⟩
    unfold Expr.isLegible
    rw [h, h']
    rfl

namespace Access

/-- Whether the variable of an access can stand in an expression. -/
def IsNamed (a : Access) : Prop := isNameWord a.base = true

/-- What reads a named access is legible. -/
theorem isLegible_expr {a : Access} (h : a.IsNamed) : a.expr.isLegible = true := by
  obtain ⟨base, path⟩ := a
  suffices all : ∀ (path : List String) (target : Expr), target.isLegible = true →
      target.isTarget = true → (path.foldl Expr.member target).isLegible = true from
    all path (.var base) h rfl
  intro path
  induction path with
  | nil => exact fun _ legible _ => legible
  | cons name path ih =>
    intro target legible target'
    obtain ⟨legible, target'⟩ := isLegible_member legible target' name
    exact ih _ legible target'

/-- The place of an access is read by the expression that reads the access. -/
theorem expr_place (a : Access) : a.place.expr = a.expr := by
  obtain ⟨base, path⟩ := a
  unfold place Script.Place.expr expr
  rw [List.foldl_map]
  congr 1
  funext target name
  unfold Script.Expr.member
  by_cases known : isIdentifier name = true
  · rw [if_pos known, if_pos known]
  · rw [if_neg known, if_neg known]

/-- What reads a named access where it may be missing is legible. -/
theorem isLegible_guarded {a : Access} (h : a.IsNamed) : a.guarded.isLegible = true := by
  unfold guarded
  split
  · exact h
  · refine Script.Expr.isLegible_call (by decide) ?_
    have variable' : (Expr.var a.base).isLegible = true := h
    have path : (Expr.items (a.path.map Expr.str)).isLegible = true :=
      Script.Expr.isLegible_texts _ _
    simp [variable', path]

end Access

/-- What a binding evaluates to is read by a legible expression. -/
theorem Binding.isLegible_expr {b : Binding} (h : ∀ a, b = .access a → a.IsNamed) :
    b.expr.isLegible = true := by
  cases b with
  | literal v => exact v.isLegible_spelling
  | access a => exact a.isLegible_expr (h a rfl)

end Pipewright
