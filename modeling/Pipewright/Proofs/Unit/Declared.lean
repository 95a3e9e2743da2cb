import Pipewright.Proofs.Unit.Legible
import Pipewright.Proofs.Unit.Supply

/-! # Names in the functions that run pipelines
A name that generated programs make up is a word with a letter in front, and none that the language
keeps for itself. It differs from the names that overall inputs may have and from those that every
program uses, so no function of a piece that runs a pipeline has two parameters or variables of one
name. -/

namespace Pipewright

open Script (Expr Function Stmt isWordChar isReserved)

variable {i j : Nat} {a b x : String}

/-! ## Names -/

/-- Steps are told by the variables of their operations. -/
theorem functionVariable_inj (h : functionVariable i a = functionVariable j b) : i = j :=
  (namesStep_functionVariable i a).unique (h ▸ namesStep_functionVariable j b)

/-- What starts with a lead starts with a letter. -/
theorem NamesStep.head?_isAlpha {lead : String} (known : lead ∈ stepLeads)
    (h : NamesStep lead i x) : x.toList.head?.any Char.isAlpha = true := by
  have letters : ∀ lead ∈ stepLeads, ∃ c rest, lead.toList = c :: rest ∧ c.isAlpha = true := by
    simp only [stepLeads, List.forall_mem_cons]
    exact ⟨⟨'s', _, rfl, rfl⟩, ⟨'f', _, rfl, rfl⟩, by simp⟩
  obtain ⟨rest, e⟩ := h
  obtain ⟨c, cs, first, letter⟩ := letters lead known
  rw [e, first, List.cons_append, List.head?_cons, Option.any_some]
  exact letter

/-- The language keeps no name of the variable of a step for itself. -/
theorem isReserved_of_isStepName (h : isStepName x = true) : isReserved x = false := by
  have apart : ∀ w ∈ Script.reservedWords, isStepName w = false := by decide +kernel
  cases e : isReserved x with
  | false => rfl
  | true =>
    rw [apart x (List.contains_iff_mem.1 e)] at h
    cases h

/-- A name that can stand in an expression consists of characters of words. -/
theorem all_isWordChar_of_isNameWord (h : Script.isNameWord x = true) :
    x.toList.all isWordChar = true := by
  have word := Script.isPlainWord_of_isNameWord h
  unfold Script.isPlainWord at word
  cases e : x.toList with
  | nil => rfl
  | cons c cs =>
    rw [e] at word
    exact (Bool.and_eq_true_iff.1 word).2

/-- Names that tell the steps they are for differ where the steps do. -/
theorem nodup_map_of_steps {name : Nat → String → String} {steps : List (Nat × String)}
    (told : ∀ {i j a b}, name i a = name j b → i = j) (h : (steps.map Prod.fst).Nodup) :
    (steps.map fun step => name step.1 step.2).Nodup :=
  List.pairwise_map.2 ((List.pairwise_map.1 h).imp fun differ same => differ (told same))

/-- Accepted names, variables of results, variables of operations and the names that every generated
program uses are all different. -/
theorem nodup_names {inputs : List String} {results handles : List (Nat × String)}
    (accepted : ∀ x ∈ inputs, nameFault? x = none) (inputs' : inputs.Nodup)
    (results' : (results.map Prod.fst).Nodup) (handles' : (handles.map Prod.fst).Nodup) :
    (inputs ++ (results.map fun step => returnVariable step.1 step.2) ++
      (handles.map fun step => functionVariable step.1 step.2) ++ ownNames).Nodup := by
  have made : ∀ y ∈ results.map fun step => returnVariable step.1 step.2,
      isStepName y = true := by
    intro y m
    obtain ⟨step, -, rfl⟩ := List.mem_map.1 m
    exact isStepName_returnVariable _ _
  have made' : ∀ y ∈ handles.map fun step => functionVariable step.1 step.2,
      isStepName y = true := by
    intro y m
    obtain ⟨step, -, rfl⟩ := List.mem_map.1 m
    exact isStepName_functionVariable _ _
  refine List.nodup_append.2 ⟨List.nodup_append.2 ⟨List.nodup_append.2 ⟨inputs',
    nodup_map_of_steps returnVariable_inj results', fun x m y m' => ?_⟩,
    nodup_map_of_steps functionVariable_inj handles', fun x m y m' => ?_⟩, by decide,
    fun x m y own => ?_⟩
  · exact ne_stepName_of_nameFault? (accepted x m) (made y m')
  · rcases List.mem_append.1 m with m | m
    · exact ne_stepName_of_nameFault? (accepted x m) (made' y m')
    · obtain ⟨step, -, rfl⟩ := List.mem_map.1 m
      obtain ⟨step', -, rfl⟩ := List.mem_map.1 m'
      exact returnVariable_ne_functionVariable
  · rcases List.mem_append.1 m with m | m
    · rcases List.mem_append.1 m with m | m
      · exact ne_of_nameFault? (accepted x m) own
      · exact (ne_of_mem_ownNames own (made x m)).symm
    · exact (ne_of_mem_ownNames own (made' x m)).symm

namespace PipelineGraph

variable {g : PipelineGraph} {r : Registry}

/-! ## Declared variables -/

/-- A step declares the variable of its operation. -/
theorem exists_declared_stepStmts {keys : List SlotKey} {stmts : List Stmt}
    (h : g.stepStmts r keys = .ok stmts) : ∃ operation, stepOperation r keys = .ok operation ∧
      stmts.flatMap Stmt.declared = [functionVariable operation.1 operation.2.name] := by
  unfold stepStmts at h
  cases found : stepOperation r keys with
  | error fault =>
    rw [found] at h
    cases h
  | ok operation =>
  obtain ⟨step, o⟩ := operation
  cases bound : g.arguments step o with
  | error fault =>
    simp only [found, bind, Except.bind, bound] at h
    cases h
  | ok entries =>
    simp only [found, bind, Except.bind, bound] at h
    cases h
    exact ⟨_, rfl, rfl⟩

/-- Empty lines between blocks declare nothing. -/
theorem declared_separateBlocks (blocks : List (List Stmt)) :
    (separateBlocks blocks).flatMap Stmt.declared =
      blocks.flatMap fun block => block.flatMap Stmt.declared := by
  induction blocks with
  | nil => rfl
  | cons block blocks ih =>
    cases blocks with
    | nil => simp [separateBlocks]
    | cons next blocks =>
      rw [separateBlocks, List.flatMap_append, List.flatMap_cons, ih]
      · rfl
      · exact List.cons_ne_nil _ _

/-- The statements of the inner steps declare the variables of their operations. -/
theorem exists_declared_innerStmts {steps : List Stmt} (h : g.innerStmts r = .ok steps) :
    ∃ operations, g.innerSteps.mapM (stepOperation r) = .ok operations ∧
      Stmt.declaredOfBlock steps = operations.map fun o => functionVariable o.1 o.2.name := by
  unfold innerStmts at h
  cases e : g.innerSteps.mapM (g.stepStmts r) with
  | error fault =>
    simp only [e, bind, Except.bind] at h
    cases h
  | ok blocks =>
  simp only [e, bind, Except.bind] at h
  cases h
  have each : ∃ operations, List.Forall₂ (stepOperation r · = .ok ·) g.innerSteps operations ∧
      (blocks.flatMap fun block => block.flatMap Stmt.declared) =
        operations.map fun o => functionVariable o.1 o.2.name := by
    replace e := mapM_eq_ok_iff.1 e
    generalize g.innerSteps = lists at e
    induction e with
    | nil => exact ⟨[], .nil, rfl⟩
    | cons made _ ih =>
      obtain ⟨operation, found, declared⟩ := exists_declared_stepStmts made
      obtain ⟨operations, others, declared'⟩ := ih
      refine ⟨operation :: operations, .cons found others, ?_⟩
      rw [List.flatMap_cons, declared, declared', List.map_cons, List.singleton_append]
  obtain ⟨operations, found, declared⟩ := each
  refine ⟨operations, mapM_eq_ok_iff.2 found, ?_⟩
  rw [← declared]
  split
  -- the statement that stands there without inner steps declares nothing
  · next none =>
    rw [List.isEmpty_iff.1 none]
    rfl
  · rw [Stmt.declaredOfBlock_eq_flatMap, declared_separateBlocks]

/-- Removing nodes declares the list of what stays, if there is something to remove. -/
theorem declared_cleanupStmts (managed returned : List Access) (inputs : List SlotKey) :
    Stmt.declaredOfBlock (g.cleanupStmts managed returned inputs) = [] ∨
      Stmt.declaredOfBlock (g.cleanupStmts managed returned inputs) = ["_retained"] := by
  have removals : ∀ targets : List Access,
      (targets.map removalStmt).flatMap Stmt.declared = [] := by
    intro targets
    rw [List.flatMap_eq_nil_iff]
    intro stmt m
    obtain ⟨a, -, rfl⟩ := List.mem_map.1 m
    rfl
  rw [Stmt.declaredOfBlock_eq_flatMap]
  unfold cleanupStmts
  simp only
  split
  · exact .inl rfl
  · right
    rw [List.flatMap_cons, removals]
    rfl

/-- The function that runs a pipeline declares the variables of the results, those that keep a
failure, and what the steps and the removal of nodes declare. -/
theorem declared_runBody (steps cleanup : List Stmt) (result : Expr) :
    Stmt.declaredOfBlock (runBody g steps cleanup result) =
      g.resultVariables ++ ["_failed", "_failure"] ++ Stmt.declaredOfBlock steps ++
        Stmt.declaredOfBlock cleanup := by
  have results : (g.resultVariables.map fun name => Stmt.declare name (some .unit)).flatMap
      Stmt.declared = g.resultVariables := by
    rw [List.flatMap_map]
    exact List.flatMap_singleton' _
  unfold runBody
  rw [Stmt.declaredOfBlock_eq_flatMap, List.flatMap_append, List.flatMap_append, results]
  simp [Stmt.declared, Stmt.declaredOfBlock, Stmt.declaredOfBranches, reportStmt, Stmt.set]

/-- The operations of the inner steps belong to the steps one after another, and the variables of the
results are named for them. -/
theorem Wired.steps_of_operations (w : g.Wired r) (built : r.Built)
    {operations : List (Nat × Operation)}
    (h : g.innerSteps.mapM (stepOperation r) = .ok operations) :
    operations.map Prod.fst = List.range' 1 (g.lastStep - 1) ∧
      g.resultVariables = operations.map fun o => returnVariable o.1 o.2.name := by
  rw [w.innerSteps_eq] at h
  have each := List.forall₂_map_left_iff.1 (mapM_eq_ok_iff.1 h)
  have inner : ∀ i ∈ List.range' 1 (g.lastStep - 1), 1 ≤ i ∧ i < g.lastStep := by
    intro i m
    rw [List.mem_range'_1] at m
    omega
  rw [w.resultVariables_eq]
  generalize List.range' 1 (g.lastStep - 1) = steps at each inner
  clear h
  induction each with
  | nil => exact ⟨rfl, rfl⟩
  | @cons i operation steps operations found _ ih =>
    obtain ⟨first, last⟩ := inner i List.mem_cons_self
    obtain ⟨o, at', found'⟩ := w.exists_operationAt first last
    cases Except.ok.inj (found.symm.trans found')
    obtain ⟨same, same'⟩ := ih fun j m => inner j (List.mem_cons_of_mem _ m)
    rw [List.map_cons, List.map_cons, List.map_cons, same, same', w.stepVariable_operation built at']
    exact ⟨rfl, rfl⟩

/-! ## Functions -/

variable {p : ValidatedPipeline} {s : Settings} {name : String} {piece : Piece}

/-- The names of the parameters and variables of a function that runs a pipeline: those of its
inputs, the trailing parameters, the results and operations of its steps, and those that keep a
failure and what stays. -/
def runNames (inputs : List SlotKey) (operations : List (Nat × Operation)) : List String :=
  inputs.map SlotKey.slot ++ [callbackName, removalName] ++
    (operations.map fun o => returnVariable o.1 o.2.name) ++
    (operations.map fun o => functionVariable o.1 o.2.name) ++ ["_failed", "_failure", "_retained"]

/-- The names in a function that runs a pipeline are all different. -/
theorem Wired.nodup_runNames (w : g.Wired r) (built : r.Built) {inputs : List SlotKey}
    (named : g.NamedKeys 0 inputs) {operations : List (Nat × Operation)}
    (h : g.innerSteps.mapM (stepOperation r) = .ok operations) :
    (runNames inputs operations).Nodup := by
  have accepted : ∀ x ∈ inputs.map SlotKey.slot, nameFault? x = none := by
    intro x m
    obtain ⟨key, there, rfl⟩ := List.mem_map.1 m
    exact named.named key there
  have steps : ((operations.map fun o => (o.1, o.2.name)).map Prod.fst).Nodup := by
    rw [List.map_map]
    have := (w.steps_of_operations built h).1
    exact this ▸ List.nodup_range'
  have all := nodup_names accepted (named.nodup_slots w (.inl rfl)) steps steps
  rw [List.map_map, List.map_map] at all
  -- the trailing parameters and the variables of a failure are names that every program uses
  have own : ownNames = [callbackName, removalName] ++ (["_failed", "_failure", "_retained"] ++
      ["inputs", "outputs", "output_value", "parameter_node"]) := rfl
  rw [own, ← List.append_assoc, ← List.append_assoc] at all
  have used := all.sublist (List.sublist_append_left _ _)
  refine (List.Perm.nodup_iff (List.Perm.append_right _ ?_)).1 used
  simp only [List.append_assoc]
  refine List.Perm.append_left _ ?_
  rw [← List.append_assoc]
  exact List.perm_append_comm

/-- A function runs a pipeline with all parameters, and declares variables for the results, for a
failure, for the operations and, where nodes may be removed, for what stays. -/
structure Declares (run : String) (inputs : List SlotKey) (operations : List (Nat × Operation))
    (f : Function) : Prop where
  /-- It is called by the name of the function. -/
  named : f.name = run
  /-- Its parameters are the inputs and the trailing ones. -/
  parameters : f.parameters = inputs.map SlotKey.slot ++ [callbackName, removalName]
  /-- Its variables, in the order of their declarations. -/
  declared : ∃ retained, (retained = [] ∨ retained = ["_retained"]) ∧
    f.declared = (operations.map fun o => returnVariable o.1 o.2.name) ++ ["_failed", "_failure"] ++
      (operations.map fun o => functionVariable o.1 o.2.name) ++ retained

/-- The parameters and variables of a function that runs a pipeline with all parameters have
different names. -/
theorem Declares.nodup {run : String} {inputs : List SlotKey} {operations : List (Nat × Operation)}
    {f : Function} (d : Declares run inputs operations f)
    (all : (runNames inputs operations).Nodup) : (f.parameters ++ f.declared).Nodup := by
  obtain ⟨retained, kept, declared⟩ := d.declared
  have part : List.Sublist (["_failed", "_failure"] ++ retained)
      ["_failed", "_failure", "_retained"] := by
    rcases kept with rfl | rfl
    · exact .cons_cons _ (.cons_cons _ (.cons _ .slnil))
    · exact List.Sublist.refl _
  have used := all.sublist (List.Sublist.append (List.Sublist.refl _) part)
  rw [d.parameters, declared]
  refine (List.Perm.nodup_iff ?_).1 used
  simp only [List.append_assoc]
  refine List.Perm.append_left _ (List.Perm.append_left _ (List.Perm.append_left _ ?_))
  -- only the variables of a failure stand in another place
  exact List.perm_append_comm_assoc _ _ _

section Parts

variable {inputs outputs : List SlotKey} {steps : List Stmt} {returned : List Binding}
  {places : List Access} {operations : List (Nat × Operation)}

/-- A piece that runs a pipeline has a function that declares what it keeps. -/
theorem RunParts.exists_declares (w : g.Wired r) (built : r.Built)
    (parts : g.RunParts r name s piece inputs outputs steps returned places) :
    ∃ operations, g.innerSteps.mapM (stepOperation r) = .ok operations ∧
      Declares s.runFunction inputs operations
        ⟨s.runFunction, inputs.map SlotKey.slot ++ [callbackName, removalName],
          runBody g steps (g.cleanupStmts places (returned.filterMap Binding.access?) inputs)
            (resultExpr (name ++ "Outputs") returned)⟩ := by
  obtain ⟨operations, found, handles⟩ := exists_declared_innerStmts parts.generated
  refine ⟨operations, found, rfl, rfl, _, declared_cleanupStmts (g := g) places
    (returned.filterMap Binding.access?) inputs, ?_⟩
  rw [Function.declared, declared_runBody, handles, (w.steps_of_operations built found).2]

/-- No function of a piece that runs a pipeline has two parameters or declared variables of one
name. -/
theorem RunParts.nodup_declared (w : g.Wired r)
    (parts : g.RunParts r name s piece inputs outputs steps returned places)
    (all : (runNames inputs operations).Nodup)
    (d : Declares s.runFunction inputs operations
      ⟨s.runFunction, inputs.map SlotKey.slot ++ [callbackName, removalName],
        runBody g steps (g.cleanupStmts places (returned.filterMap Binding.access?) inputs)
          (resultExpr (name ++ "Outputs") returned)⟩) :
    ∀ f ∈ piece.functions, (f.parameters ++ f.declared).Nodup := by
  have outputs' : (outputs.map SlotKey.slot).Nodup :=
    (namedKeys_of_orderedOutputs w parts.named parts.ordered').nodup_slots w (.inr rfl)
  have parameters : (inputs.map SlotKey.slot ++ [callbackName, removalName]).Nodup :=
    (d.nodup all).sublist (List.sublist_append_left _ _)
  -- a function that only evaluates an expression declares nothing
  have plain : ∀ {run : String} {names : List String} {e : Expr}, names.Nodup →
      (names ++ (Function.mk run names [.value e]).declared).Nodup := by
    intro run names e nodup
    rw [Function.declared, Stmt.declaredOfBlock_eq_flatMap, List.flatMap_singleton]
    exact (List.append_nil names).symm ▸ nodup
  intro f m
  rw [parts.functions] at m
  simp only [runFunctions, List.mem_cons, List.mem_append, List.not_mem_nil, or_false] at m
  rcases m with rfl | rfl | m | rfl | rfl | rfl
  · decide
  · decide
  · split at m
    · cases List.mem_singleton.1 m
      exact plain outputs'
    · cases m
  · exact plain (parameters.sublist (List.sublist_append_left _ _))
  · refine plain (parameters.sublist ((List.Sublist.refl _).append ?_))
    exact .cons_cons _ (.cons _ .slnil)
  · exact d.nodup all

end Parts

/-- Accepted names, the variables of steps and the names that every generated program uses are all
different, whatever the operations are called. The variables of steps are told by their steps, they
consist of letters, digits and underscores with a letter in front, and are no words that the language
keeps for itself. So in the piece that runs a pipeline the inputs, the trailing parameters, the
results and operations of the steps and the variables of a failure and of what stays have different
names: these are the names of the function with all parameters, and no function of the piece has two
parameters or declared variables of one name. -/
theorem names_apart :
    (∀ i j a b x, nameFault? x = none →
      (x :: returnVariable i a :: functionVariable j b :: ownNames).Nodup) ∧
    (∀ i j a b, returnVariable i a = returnVariable j b → i = j) ∧
    (∀ i j a b, functionVariable i a = functionVariable j b → i = j) ∧
    (∀ i a, ∀ name ∈ [returnVariable i a, functionVariable i a],
      name.toList.all isWordChar = true ∧ name.toList.head?.any Char.isAlpha = true ∧
        isReserved name = false) ∧
    ∀ (g : PipelineGraph) (r : Registry), g.Built → r.Built → ∀ p, g.validate r = .ok p →
      ∀ name s piece, runPiece name p r s = .ok piece →
        (∀ f ∈ piece.functions, (f.parameters ++ f.declared).Nodup) ∧
        ∃ inputs operations, p.graph.orderedInputs = .ok inputs ∧
          p.graph.innerSteps.mapM (stepOperation r) = .ok operations ∧
          (runNames inputs operations).Nodup ∧
          ∃ f ∈ piece.functions, Declares s.runFunction inputs operations f := by
  refine ⟨fun i j a b x accepted => ?_, fun i j a b => returnVariable_inj,
    fun i j a b => functionVariable_inj, fun i a name m => ?_, fun g r h built p e name s piece made =>
    ?_⟩
  · exact @nodup_names [x] [(i, a)] [(j, b)] (by simpa using accepted) (List.nodup_singleton _)
      (List.nodup_singleton _) (List.nodup_singleton _)
  · rcases List.mem_cons.1 m with rfl | m
    · exact ⟨all_isWordChar_of_isNameWord (isNameWord_returnVariable i a),
        (namesStep_returnVariable i a).head?_isAlpha (by simp [stepLeads]),
        isReserved_of_isStepName (isStepName_returnVariable i a)⟩
    · cases List.mem_singleton.1 m
      exact ⟨all_isWordChar_of_isNameWord (isNameWord_functionVariable i a),
        (namesStep_functionVariable i a).head?_isAlpha (by simp [stepLeads]),
        isReserved_of_isStepName (isStepName_functionVariable i a)⟩
  · have w := wired_of_validate h e
    obtain ⟨inputs, outputs, steps, returned, places, parts⟩ := exists_runParts made
    obtain ⟨operations, found, declares⟩ := parts.exists_declares w built
    have all := w.nodup_runNames built (namedKeys_of_orderedInputs w parts.named parts.ordered) found
    refine ⟨parts.nodup_declared w all declares, inputs, operations, parts.ordered, found, all, _, ?_,
      declares⟩
    rw [parts.functions]
    simp [runFunctions]

/-- An input is doubled twice. Its name is the start of the variable of the first step. -/
def closelyNamed : PipelineGraph :=
  let slots := (((((empty.addInput "step_1" .int 0).addParameter 1 "double" "n").addReturn 1
    "double").addParameter 2 "double" "n").addReturn 2 "double").addOutput 3 "out" .int 0
  ((slots.addEdge (.input "step_1") (.parameter 1 "double" "n")).addEdge (.returnValue 1 "double")
    (.parameter 2 "double" "n")).addEdge (.returnValue 2 "double") (.output 3 "out")

/-- An input that is called almost like the variable of a step clashes with none, and neither do the
names of two steps of one operation. -/
theorem names_apart_closelyNamed :
    (nameFault? "step_1" = none ∧
      ("step_1" :: returnVariable 1 "1 double" :: functionVariable 1 "1 double" :: ownNames).Nodup) ∧
    closelyNamed.Built ∧ doublings.Built ∧ ∃ p, closelyNamed.validate doublings = .ok p ∧
      ∃ piece, runPiece "Twice" p doublings .standard = .ok piece ∧
        ∀ f ∈ piece.functions, (f.parameters ++ f.declared).Nodup := by
  have accepted : nameFault? "step_1" = none := by decide +kernel
  have built : closelyNamed.Built := by
    unfold closelyNamed addOutput addReturn addParameter addInput
    exact ⟨.addEdge _ _ (.addEdge _ _ (.addEdge _ _ (.addNode _ _ (.addNode _ _ (.addNode _ _
      (.addNode _ _ (.addNode _ _ (.addNode _ _ .empty)))))))), by decide +kernel⟩
  have registered : doublings.Built := .register doubling .empty rfl
  have generated : ((closelyNamed.validate doublings).toOption.any fun p =>
      (runPiece "Twice" p doublings .standard).isOk) = true := by decide +kernel
  obtain ⟨differ, -, -, -, pieces⟩ := names_apart
  refine ⟨⟨accepted, differ 1 1 _ _ _ accepted⟩, built, registered, ?_⟩
  cases valid : closelyNamed.validate doublings with
  | error fault =>
    rw [valid] at generated
    cases generated
  | ok p =>
  cases made : runPiece "Twice" p doublings .standard with
  | error fault =>
    rw [valid, Except.toOption, Option.any_some, made] at generated
    cases generated
  | ok piece => exact ⟨p, rfl, piece, made, (pieces _ _ built registered p valid _ _ _ made).1⟩

end PipelineGraph

end Pipewright
