import Pipewright.Host.Evaluation

/-! # Outcomes within the limits of the host
A program that takes too many steps or nests calls too deeply is stopped, whatever it does. What it
does otherwise does not depend on how many steps are left, so it is said without them: from some
variables and a world, something comes to a result with other variables and another world, unless
it is stopped before. -/

namespace Pipewright.Host

universe u v

variable {α : Type} {β : Type} {s s' s'' : Entries} {w w' w'' : World}

/-- Something comes to a result, unless the limits of the host stop it. -/
def Yields (x : Eval α) (s : Entries) (w : World) (r : Except Halt α) (s' : Entries)
    (w' : World) : Prop :=
  ∀ budget, (x.run.run ⟨s, w, budget⟩).1 = .error .exhausted ∨
    ∃ left, x.run.run ⟨s, w, budget⟩ = (r, ⟨s', w', left⟩)

/-! ## Sequences -/

/-- What follows something is done with its value, or not at all. -/
theorem run_bind (x : Eval α) (f : α → Eval β) (m : Machine) :
    (x >>= f).run.run m =
      match x.run.run m with
      | (.ok a, after) => (f a).run.run after
      | (.error halt, after) => (.error halt, after) := by
  show (ExceptT.bindCont f (x.run.run m).1) (x.run.run m).2 = _
  cases h : x.run.run m with
  | mk r after =>
    cases r with
    | ok a => rfl
    | error halt => rfl

/-- Where something is stopped, nothing follows it. -/
theorem run_bind_exhausted {x : Eval α} {f : α → Eval β} {m : Machine}
    (stop : (x.run.run m).1 = .error .exhausted) :
    ((x >>= f).run.run m).1 = .error .exhausted := by
  rw [run_bind]
  generalize x.run.run m = result at stop
  obtain ⟨_, after⟩ := result
  subst stop
  rfl

namespace Yields

/-- A value is come to at once. -/
theorem pure (a : α) : Yields (pure a) s w (.ok a) s w := fun budget => .inr ⟨budget, rfl⟩

/-- A halt is come to at once. -/
theorem throw (halt : Halt) : Yields (throw halt : Eval α) s w (.error halt) s w :=
  fun budget => .inr ⟨budget, rfl⟩

/-- What is stopped in any case comes to anything. -/
theorem exhausted (r : Except Halt α) : Yields (MonadExcept.throw Halt.exhausted) s w r s' w' :=
  fun _ => .inl rfl

/-- What follows a value goes on from where that was come to. -/
theorem bind {x : Eval α} {f : α → Eval β} {a : α} {r : Except Halt β}
    (h : Yields x s w (.ok a) s' w') (h' : Yields (f a) s' w' r s'' w'') :
    Yields (x >>= f) s w r s'' w'' := by
  intro budget
  rcases h budget with stop | ⟨left, e⟩
  · exact .inl (run_bind_exhausted stop)
  · rw [run_bind, e]
    exact h' left

/-- Nothing follows a halt. -/
theorem bind_error {x : Eval α} {f : α → Eval β} {halt : Halt}
    (h : Yields x s w (.error halt) s' w') : Yields (x >>= f) s w (.error halt) s' w' := by
  intro budget
  rcases h budget with stop | ⟨left, e⟩
  · exact .inl (run_bind_exhausted stop)
  · rw [run_bind, e]
    exact .inr ⟨left, rfl⟩

/-- A value that something comes to can be changed afterwards. -/
theorem map {x : Eval α} {a : α} (f : α → β) (h : Yields x s w (.ok a) s' w') :
    Yields (do return f (← x)) s w (.ok (f a)) s' w' := h.bind (.pure _)

/-- An option that holds a value is one. -/
theorem require {o : Option α} {a : α} (h : o = some a) :
    Yields (Host.require o) s w (.ok a) s w := by
  subst h
  exact .pure a

/-- An empty option is a fault. -/
theorem require_none {o : Option α} (h : o = none) :
    Yields (Host.require o) s w (.error .fault) s w := by
  subst h
  exact .throw .fault

/-- An option that has to hold a value, or else a message is raised. -/
theorem demand {o : Option α} {a : α} (message : String) (h : o = some a) :
    Yields (Host.demand message o) s w (.ok a) s w := by
  subst h
  exact .pure a

/-- A raised message. -/
theorem raise (message : String) :
    Yields (Host.raise message : Eval α) s w (.error (.thrown (.text message))) s w :=
  .throw _

/-- Taking a step changes nothing else. -/
theorem tick : Yields tick s w (.ok ()) s w := by
  intro budget
  cases budget with
  | zero => exact .inl rfl
  | succ left => exact .inr ⟨left, rfl⟩

/-! ## Variables and the world -/

/-- The world after something was done with it. -/
theorem withWorld (f : World → α × World) :
    Yields (withWorld f) s w (.ok (f w).1) s (f w).2 := fun budget => .inr ⟨budget, rfl⟩

/-- Looking at the scene changes nothing. -/
theorem readScene (f : Scene Entries → α) : Yields (readScene f) s w (.ok (f w.scene)) s w :=
  fun budget => .inr ⟨budget, rfl⟩

/-- A declared variable is the innermost one. -/
theorem declare (name : String) (d : Datum) :
    Yields (declare name d) s w (.ok ()) ((name, d) :: s) w := fun budget => .inr ⟨budget, rfl⟩

/-- What follows a declaration sees the variable. -/
theorem declare_then {name : String} {d : Datum} {x : Eval α} {r : Except Halt α}
    (h : Yields x ((name, d) :: s) w r s' w') :
    Yields (Host.declare name d >>= fun _ => x) s w r s' w' :=
  (declare name d).bind h

/-- A variable that is there is read. -/
theorem readVariable {name : String} {d : Datum} (h : Keyed.lookup name s = some d) :
    Yields (readVariable name) s w (.ok d) s w := by
  intro budget
  refine .inr ⟨budget, ?_⟩
  show (Host.require (Keyed.lookup name s)).run.run ⟨s, w, budget⟩ = _
  rw [h]
  rfl

/-- A variable that is there is changed. -/
theorem writeVariable {name : String} (d : Datum) (h : Keyed.contains name s = true) :
    Yields (writeVariable name d) s w (.ok ()) (Keyed.modify name (fun _ => d) s) w := by
  intro budget
  refine .inr ⟨budget, ?_⟩
  unfold Host.writeVariable
  rw [run_bind]
  show (if Keyed.contains name s = true then _ else _ : Eval Unit).run.run ⟨s, w, budget⟩ = _
  rw [if_pos h]
  rfl

end Yields

/-! ## Blocks, functions, rounds and attempts -/

/-- A block comes to the result of its body and drops the variables that were declared in it. -/
theorem run_inBlock (x : Eval α) (m : Machine) :
    (inBlock x).run.run m =
      ((x.run.run m).1, { (x.run.run m).2 with
        scope := (x.run.run m).2.scope.drop ((x.run.run m).2.scope.length - m.scope.length) }) :=
  rfl

/-- What sees only variables of its own leaves the others alone. -/
theorem run_withScope (own : Entries) (x : Eval α) (m : Machine) :
    (withScope own x).run.run m =
      ((x.run.run { m with scope := own }).1,
        { (x.run.run { m with scope := own }).2 with scope := m.scope }) :=
  rfl

/-- The result of a function whose body comes to a result. -/
def functionResult : Except Halt Datum → Except Halt Datum
  | .error (.returned d) => .ok d
  | .error .left => .error .fault
  | .error .nextRound => .error .fault
  | r => r

/-- A function comes to the result of its body. -/
theorem run_asFunction (x : Eval Datum) (m : Machine) :
    (asFunction x).run.run m = (functionResult (x.run.run m).1, (x.run.run m).2) := by
  unfold asFunction
  simp only [ExceptT.run_mk, StateT.run]
  cases x.run m with
  | mk r after =>
    cases r with
    | ok d => rfl
    | error halt => cases halt <;> rfl

/-- The result of a round whose body comes to a result. -/
def roundResult : Except Halt Datum → Except Halt Bool
  | .ok _ => .ok true
  | .error .left => .ok false
  | .error .nextRound => .ok true
  | .error halt => .error halt

/-- A round comes to the result of its body. -/
theorem run_asRound (x : Eval Datum) (m : Machine) :
    (asRound x).run.run m = (roundResult (x.run.run m).1, (x.run.run m).2) := by
  unfold asRound
  simp only [ExceptT.run_mk, StateT.run]
  cases x.run m with
  | mk r after =>
    cases r with
    | ok d => rfl
    | error halt => cases halt <;> rfl

/-- An attempt does something else where a halt can be caught. -/
theorem run_attempt (x : Eval Datum) (handler : Datum → Eval Datum) (m : Machine) :
    (attempt x handler).run.run m =
      match x.run.run m with
      | (.ok d, after) => (.ok d, after)
      | (.error halt, after) =>
        match halt.caught? with
        | none => (.error halt, after)
        | some d =>
          match (handler d).run.run after with
          | (.ok _, after) => (.ok .unit, after)
          | (.error (.thrown .unit), after) => (.error halt, after)
          | (.error other, after) => (.error other, after) :=
  rfl

section Attempts

variable {x : Eval Datum} {handler : Datum → Eval Datum} {m after : Machine}

/-- An attempt that is stopped is not handled. -/
theorem run_attempt_exhausted (stop : (x.run.run m).1 = .error .exhausted) :
    ((attempt x handler).run.run m).1 = .error .exhausted := by
  rw [run_attempt]
  generalize x.run.run m = result at stop
  obtain ⟨_, after⟩ := result
  subst stop
  rfl

/-- Where the handler is stopped, so is the attempt. -/
theorem run_attempt_handler_exhausted {halt : Halt} {seen : Datum}
    (e : x.run.run m = (.error halt, after)) (caught : halt.caught? = some seen)
    (stop : ((handler seen).run.run after).1 = .error .exhausted) :
    ((attempt x handler).run.run m).1 = .error .exhausted := by
  rw [run_attempt, e]
  simp only [caught]
  generalize (handler seen).run.run after = result at stop
  obtain ⟨_, last⟩ := result
  subst stop
  rfl

end Attempts

namespace Yields

/-- Of the variables after a block the innermost ones are dropped, as many as were declared. -/
theorem inBlock_dropping {x : Eval α} {r : Except Halt α} {after : Entries}
    (h : Yields x s w r after w') (kept : after.drop (after.length - s.length) = s') :
    Yields (inBlock x) s w r s' w' := by
  intro budget
  rw [run_inBlock]
  rcases h budget with stop | ⟨left, e⟩
  · exact .inl stop
  · rw [e]
    exact .inr ⟨left, by rw [← kept]⟩

/-- A block that declares nothing drops nothing. -/
theorem inBlock {x : Eval α} {r : Except Halt α} (h : Yields x s w r s' w')
    (same : s'.length = s.length) : Yields (inBlock x) s w r s' w' :=
  h.inBlock_dropping (by rw [same, Nat.sub_self, List.drop_zero])

/-- What sees only variables of its own leaves the others alone. -/
theorem withScope {x : Eval α} {r : Except Halt α} {own own' : Entries}
    (h : Yields x own w r own' w') : Yields (withScope own x) s w r s w' := by
  intro budget
  rw [run_withScope]
  rcases h budget with stop | ⟨left, e⟩
  · exact .inl stop
  · rw [e]
    exact .inr ⟨left, rfl⟩

/-- A function comes to the result of its body. -/
theorem asFunction {x : Eval Datum} {r : Except Halt Datum} (h : Yields x s w r s' w') :
    Yields (asFunction x) s w (functionResult r) s' w' := by
  intro budget
  rw [run_asFunction]
  rcases h budget with stop | ⟨left, e⟩
  · rw [stop]
    exact .inl rfl
  · rw [e]
    exact .inr ⟨left, rfl⟩

/-- A round comes to the result of its body. -/
theorem asRound {x : Eval Datum} {r : Except Halt Datum} (h : Yields x s w r s' w') :
    Yields (asRound x) s w (roundResult r) s' w' := by
  intro budget
  rw [run_asRound]
  rcases h budget with stop | ⟨left, e⟩
  · rw [stop]
    exact .inl rfl
  · rw [e]
    exact .inr ⟨left, rfl⟩

/-- An attempt that succeeds. -/
theorem attempt_ok {x : Eval Datum} {handler : Datum → Eval Datum} {d : Datum}
    (h : Yields x s w (.ok d) s' w') : Yields (attempt x handler) s w (.ok d) s' w' := by
  intro budget
  rcases h budget with stop | ⟨left, e⟩
  · exact .inl (run_attempt_exhausted stop)
  · rw [run_attempt, e]
    exact .inr ⟨left, rfl⟩

/-- An attempt that fails, and whose handler goes through. -/
theorem attempt_caught {x : Eval Datum} {handler : Datum → Eval Datum} {halt : Halt}
    {seen d : Datum} (h : Yields x s w (.error halt) s' w') (caught : halt.caught? = some seen)
    (h' : Yields (handler seen) s' w' (.ok d) s'' w'') :
    Yields (attempt x handler) s w (.ok .unit) s'' w'' := by
  intro budget
  rcases h budget with stop | ⟨left, e⟩
  · exact .inl (run_attempt_exhausted stop)
  · rcases h' left with stop | ⟨left', e'⟩
    · exact .inl (run_attempt_handler_exhausted e caught stop)
    · rw [run_attempt, e]
      simp only [caught]
      rw [e']
      exact .inr ⟨left', rfl⟩

/-- An attempt that fails, and whose handler raises again what it has seen. -/
theorem attempt_raised {x : Eval Datum} {handler : Datum → Eval Datum} {halt : Halt}
    {seen : Datum} (h : Yields x s w (.error halt) s' w') (caught : halt.caught? = some seen)
    (h' : Yields (handler seen) s' w' (.error (.thrown seen)) s'' w'') :
    Yields (attempt x handler) s w (.error (.thrown seen)) s'' w'' := by
  intro budget
  rcases h budget with stop | ⟨left, e⟩
  · exact .inl (run_attempt_exhausted stop)
  · rcases h' left with stop | ⟨left', e'⟩
    · exact .inl (run_attempt_handler_exhausted e caught stop)
    · rw [run_attempt, e]
      simp only [caught]
      rw [e']
      refine .inr ⟨left', ?_⟩
      -- raising nothing raises the first halt again, which is then to have raised nothing
      cases halt with
      | thrown d =>
        cases caught
        cases seen <;> rfl
      | fault =>
        cases caught
        rfl
      | _ => cases caught

end Yields

end Pipewright.Host
