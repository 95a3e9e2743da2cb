import Pipewright.Proofs.Unit.Literals
import Pipewright.Proofs.Unit.Scope

/-! # What bindings evaluate to
The expression that a slot is bound to evaluates to what the slot carries, in any variables that
show the overall inputs and the results of the steps before. -/

namespace Pipewright

open Host (Environment Yields evalExpr callFunction)
open Script (Expr)

/-! ## Fields -/

/-- A text that is no identifier names no field but an entry of a map. -/
theorem Datum.item?_text {name : String} (plain : ¬ Script.isIdentifier name = true) (d : Datum) :
    d.item? (.text name) = d.field? name := by
  have id : name ≠ "id" := fun e => plain (e ▸ by decide)
  have className : name ≠ "class_name" := fun e => plain (e ▸ by decide)
  have own : name ≠ "name" := fun e => plain (e ▸ by decide)
  cases d with
  | map entries => rfl
  | node handle => simp [Datum.item?, Datum.field?, id, className]
  | operation registered => simp [Datum.item?, Datum.field?, own]
  | _ => rfl

namespace Host

/-- What is come to where a value has to be there. -/
def requireResult {α : Type} : Option α → Except Halt α
  | some a => .ok a
  | none => .error .fault

variable {env : Environment} {call : Caller} {s : Entries} {w : World}

/-- What fields lead to, if what they start from is come to. -/
def followResult (path : List String) : Except Halt Datum → Except Halt Datum
  | .ok d => requireResult (d.fields? path)
  | .error halt => .error halt

/-- A field of what an expression comes to. -/
theorem yields_member {target : Expr} {d : Datum} (name : String)
    (h : Yields (evalExpr env call target) s w (.ok d) s w) :
    Yields (evalExpr env call (target.member name)) s w (requireResult (d.field? name)) s w := by
  have required : Yields (require (d.field? name)) s w (requireResult (d.field? name)) s w := by
    cases e : d.field? name with
    | some part => exact .require rfl
    | none => exact .require_none rfl
  unfold Expr.member
  by_cases bare : Script.isIdentifier name = true
  · rw [if_pos bare]
    exact h.bind required
  · rw [if_neg bare]
    rw [← Datum.item?_text bare] at required ⊢
    exact h.bind ((Yields.str name).bind required)

/-- A field of what an expression fails to come to. -/
theorem yields_member_halt {target : Expr} {halt : Halt} (name : String)
    (h : Yields (evalExpr env call target) s w (.error halt) s w) :
    Yields (evalExpr env call (target.member name)) s w (.error halt) s w := by
  unfold Expr.member
  by_cases bare : Script.isIdentifier name = true
  · rw [if_pos bare]
    exact h.bind_error
  · rw [if_neg bare]
    exact h.bind_error

/-- Fields that are followed one after another. -/
theorem yields_members {target : Expr} {r : Except Halt Datum} (path : List String)
    (h : Yields (evalExpr env call target) s w r s w) :
    Yields (evalExpr env call (path.foldl Expr.member target)) s w (followResult path r) s w := by
  induction path generalizing target r with
  | nil => cases r <;> exact h
  | cons name path ih =>
    rw [List.foldl_cons]
    cases r with
    | error halt => exact ih (yields_member_halt name h)
    | ok d =>
      have next := ih (yields_member name h)
      rw [followResult, Datum.fields?]
      cases e : d.field? name with
      | some part =>
        rw [e] at next
        exact next
      | none =>
        rw [e] at next
        exact next

end Host

/-! ## Bindings -/

/-- The value that a binding stands for, among some variables. -/
def Binding.value? (s : Entries) : Binding → Option Datum
  | .literal v => v.reading
  | .access a => (Keyed.lookup a.base s).bind fun d => d.fields? a.path

/-- Something comes to a value, or to a halt that can be caught if there is none. -/
def Host.YieldsOption {α : Type} (x : Host.Eval α) (s : Entries) (w : World) (o : Option α) : Prop :=
  match o with
  | some a => Yields x s w (.ok a) s w
  | none => ∃ halt seen, halt.caught? = some seen ∧ Yields x s w (.error halt) s w

/-- The expression of a binding evaluates to what the binding stands for. -/
theorem Host.yields_binding {env : Environment} {call : Caller} {s : Entries} {w : World}
    (lacks : env.Lacks "parse_float") (b : Binding) :
    YieldsOption (evalExpr env call b.expr) s w (b.value? s) := by
  cases b with
  | literal v =>
    have read : Yields (evalExpr env call v.spelling) s w (literalResult v.reading) s w :=
      yields_literal v lacks
    show YieldsOption (evalExpr env call v.spelling) s w v.reading
    -- a literal that cannot be read raises something, and stands for no value
    cases e : v.reading with
    | some d =>
      rw [e] at read
      exact read
    | none =>
      rw [e] at read
      exact ⟨_, _, rfl, read⟩
  | access a =>
    show YieldsOption (evalExpr env call (a.path.foldl Expr.member (.var a.base))) s w
      ((Keyed.lookup a.base s).bind fun d => d.fields? a.path)
    cases found : Keyed.lookup a.base s with
    | none =>
      have absent : Yields (evalExpr env call (.var a.base)) s w (.error .fault) s w := by
        intro budget
        refine .inr ⟨budget, ?_⟩
        show (Host.require (Keyed.lookup a.base s)).run.run ⟨s, w, budget⟩ = _
        rw [found]
        rfl
      exact ⟨_, _, rfl, Host.yields_members a.path absent⟩
    | some d =>
      have read : Yields (evalExpr env call (.var a.base)) s w (.ok d) s w := .var found
      have reached := Host.yields_members a.path read
      rw [Host.followResult] at reached
      rw [Option.bind_some]
      cases e : d.fields? a.path with
      | some part =>
        rw [e] at reached
        exact reached
      | none =>
        rw [e] at reached
        exact ⟨_, _, rfl, reached⟩

namespace PipelineGraph

variable {g : PipelineGraph} {r : Registry} {inputs : List (SlotKey × Datum)}
  {results : List (Nat × Datum)} {bound : Nat} {s : Entries}

/-- Slots that are handed on to by none but each other are bound to the same in two graphs, if they
have the same literals there, and without one the same producer. -/
theorem binding_congr {h : PipelineGraph} {p : SlotKey → Prop}
    (closed : ∀ {key source}, p key → g.FedBy key source → source.operation ≠ none →
      ¬ source.isReturn = true → p source)
    (literals : ∀ {key}, p key → h.fixed? key = g.fixed? key)
    (producers : ∀ {key}, p key → g.fixed? key = none → h.producer? key = g.producer? key)
    {key : SlotKey} (m : p key) : h.binding key = g.binding key := by
  -- only a parameter hands on to another one, which is at an earlier step
  fun_induction g.binding key with
  | case1 key v fixed =>
    unfold binding
    rw [literals m, fixed]
  | case2 key fixed nothing =>
    unfold binding
    rw [literals m, fixed, producers m fixed, nothing]
  | case3 key fixed source producer boundary =>
    unfold binding
    rw [literals m, fixed, producers m fixed, producer]
    simp only [boundary]
  | case4 key fixed source producer operation named isReturn =>
    unfold binding
    rw [literals m, fixed, producers m fixed, producer]
    simp only [named, if_pos isReturn]
  | case5 key fixed source producer operation named plain before ih =>
    have fed : g.FedBy key source := ⟨fixed, producer⟩
    rw [← ih (closed m fed (by simp [named]) plain)]
    conv_lhs => unfold binding
    rw [literals m, fixed, producers m fixed, producer]
    simp only [named, if_neg plain, if_pos before]
  | case6 key fixed source producer operation named plain late =>
    unfold binding
    rw [literals m, fixed, producers m fixed, producer]
    simp only [named, if_neg plain, if_neg late]

/-- Variables show the overall inputs and the results of the steps before another one. -/
structure Shows (g : PipelineGraph) (inputs : List (SlotKey × Datum))
    (results : List (Nat × Datum)) (bound : Nat) (s : Entries) : Prop where
  /-- An overall input is in the variable of its name. -/
  input : ∀ key ∈ g.keys, key.step = 0 → Keyed.lookup key.slot s = Keyed.lookup key inputs
  /-- The result of a step is in the variable of the step. -/
  result : ∀ i, 1 ≤ i → i < bound → Keyed.lookup (g.stepVariable i) s = Keyed.lookup i results

/-- A slot carries exactly what its binding stands for. -/
theorem Shows.carries_iff (h : g.Shows inputs results bound s) (w : g.Wired r) {key : SlotKey}
    {b : Binding} (bound' : g.binding key = .ok b) (le : key.step ≤ bound) {d : Datum} :
    g.Carries Value.reading inputs results key d ↔ b.value? s = some d := by
  -- the cases are those in which a binding is found; only a parameter hands on to another one
  fun_induction g.binding key with
  | case1 key v fixed =>
    cases bound'
    exact carries_literal_iff fixed
  | case2 => cases bound'
  | case3 key fixed source producer boundary =>
    cases bound'
    obtain ⟨there, -, -⟩ := w.earlier producer
    have shown := h.input source there (w.source_input producer boundary)
    have fed : g.FedBy key source := ⟨fixed, producer⟩
    rw [fed.carries_iff, if_pos boundary, Binding.value?, shown]
    cases Keyed.lookup source inputs <;> exact Iff.rfl
  | case4 key fixed source producer operation named isReturn =>
    cases bound'
    obtain ⟨there, -, before⟩ := w.earlier producer
    have bound : source.operation ≠ none := by simp [named]
    obtain ⟨first, -, -⟩ := w.inner_of_bound there bound
    have shown := h.result source.step first (by omega)
    have fed : g.FedBy key source := ⟨fixed, producer⟩
    rw [w.stepVariable_eq there named] at shown
    rw [fed.carries_iff, if_neg bound, if_pos isReturn, Binding.value?, shown]
    exact Iff.rfl
  | case5 key fixed source producer operation named plain before ih =>
    have bound : source.operation ≠ none := by simp [named]
    have fed : g.FedBy key source := ⟨fixed, producer⟩
    rw [fed.carries_iff, if_neg bound, if_neg plain]
    exact ih bound' (by omega)
  | case6 => cases bound'

end PipelineGraph

end Pipewright
