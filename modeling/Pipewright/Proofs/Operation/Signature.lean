import Mathlib.Data.List.Nodup
import Pipewright.Operation.Signature
import Pipewright.Proofs.Keyed

/-! # Checked signatures
Which signatures are accepted, and what becomes of the parameters of one that is: those that take a
progress callback are told from the others, which keep their order. The check goes through the
parameters once and remembers what it has sorted so far; here it is said of the declaration as a
whole. -/

namespace Pipewright

namespace Signature

/-- A declared parameter has a type. -/
def IsTyped (p : String × Option DataType) : Prop := p.2.isSome = true

/-- Whether a declared parameter takes a progress callback. -/
def takesProgress (p : String × Option DataType) : Bool := p.2.any DataType.isProgress

/-- The parameters that take a progress callback. -/
def callbacks (parameters : List (String × Option DataType)) : List (String × Option DataType) :=
  parameters.filter takesProgress

/-- The parameters that take none. -/
def plain (parameters : List (String × Option DataType)) : List (String × Option DataType) :=
  parameters.filter fun p => !takesProgress p

/-- A sorted parameter as it was declared. -/
def declared (p : String × DataType) : String × Option DataType := (p.1, some p.2)

/-- Sorted parameters are told by their declarations. -/
theorem map_declared_inj {a b : List (String × DataType)} :
    a.map declared = b.map declared ↔ a = b := by
  refine List.map_inj_right ?_
  rintro ⟨name, t⟩ ⟨name', t'⟩ same
  cases same
  rfl

/-- An optional name is told by the list of it. -/
theorem toList_inj {a b : Option String} : a.toList = b.toList ↔ a = b := by
  cases a <;> cases b <;> simp

variable {parameters : List (String × Option DataType)} {wired wired' : List (String × DataType)}
  {progress progress' : Option String}

/-- Parameters are sorted if they have types, their names are new and different, and at most one
callback is taken in all; then nothing is lost and no order is changed. -/
theorem sortParameters_eq_ok_iff :
    sortParameters wired progress parameters = .ok (wired', progress') ↔
      (∀ p ∈ parameters, IsTyped p) ∧ (parameters.map Prod.fst).Nodup ∧
        (∀ p ∈ parameters, p.1 ∉ Keyed.keys wired ∧ progress ≠ some p.1) ∧
        wired'.map declared = wired.map declared ++ plain parameters ∧
        progress'.toList = progress.toList ++ (callbacks parameters).map Prod.fst := by
  induction parameters generalizing wired progress with
  | nil =>
    simp only [sortParameters, Except.ok.injEq, Prod.mk.injEq, plain, callbacks, List.filter_nil,
      List.map_nil, List.append_nil, map_declared_inj, toList_inj]
    simp [eq_comm]
  | cons parameter rest ih =>
    obtain ⟨name, _ | t⟩ := parameter
    · simp [sortParameters, IsTyped]
    · unfold sortParameters
      split
      -- the name is one of those before
      · next taken =>
        rw [Bool.or_eq_true, Keyed.contains_iff, beq_iff_eq] at taken
        simp only [reduceCtorEq, false_iff, not_and]
        intro _ _ fresh
        have new := fresh (name, some t) List.mem_cons_self
        exact absurd taken (by simp [new.1, new.2])
      · next fresh =>
        rw [Bool.or_eq_true, not_or, Keyed.contains_iff, beq_iff_eq] at fresh
        by_cases callback : t.isProgress = true
        · rw [if_pos callback]
          have first : callbacks ((name, some t) :: rest) = (name, some t) :: callbacks rest := by
            simp [callbacks, takesProgress, callback]
          have others : plain ((name, some t) :: rest) = plain rest := by
            simp [plain, takesProgress, callback]
          rw [first, others]
          cases progress with
          | some earlier =>
            simp only [reduceCtorEq, false_iff, not_and]
            intro _ _ _ _ two
            cases progress' <;> simp at two
          | none =>
            simp only [ih, List.forall_mem_cons, List.map_cons, List.nodup_cons, List.mem_map,
              Option.toList_some, Option.toList_none, List.nil_append, List.singleton_append]
            grind [IsTyped]
        · rw [if_neg callback]
          have first : plain ((name, some t) :: rest) = declared (name, t) :: plain rest := by
            simp [plain, takesProgress, callback, declared]
          have others : callbacks ((name, some t) :: rest) = callbacks rest := by
            simp [callbacks, takesProgress, callback]
          rw [first, others, ih]
          simp only [List.forall_mem_cons, List.map_cons, List.nodup_cons, List.mem_map,
            List.map_append, List.map_nil, List.append_assoc, List.singleton_append, Keyed.keys,
            List.mem_append, List.mem_singleton]
          grind [IsTyped, Keyed.keys]

/-- If no name is repeated, that of a parameter that takes a callback is that of no other one. -/
theorem not_mem_plain (distinct : (parameters.map Prod.fst).Nodup) {name : String}
    (m : name ∈ (callbacks parameters).map Prod.fst) : name ∉ (plain parameters).map Prod.fst := by
  obtain ⟨p, taken, rfl⟩ := List.mem_map.1 m
  intro m'
  obtain ⟨p', other, same⟩ := List.mem_map.1 m'
  obtain ⟨there, takes⟩ := List.mem_filter.1 taken
  obtain ⟨there', takesNot⟩ := List.mem_filter.1 other
  cases List.inj_on_of_nodup_map distinct there' there same
  simp [takes] at takesNot

/-! ## Accepted signatures -/

/-- A signature has nothing wrong with it. -/
structure Acceptable (s : Signature) : Prop where
  /-- Something is returned. -/
  returns : ∃ t, s.returns? = some t ∧ t.unannotated ≠ .unit
  /-- Every parameter has a type. -/
  typed : ∀ p ∈ s.parameters, IsTyped p
  /-- No two parameters have one name. -/
  distinct : (s.parameters.map Prod.fst).Nodup
  /-- At most one parameter takes a progress callback. -/
  one_callback : (callbacks s.parameters).length ≤ 1

/-- A type is that of nothing exactly if it is below its annotations. -/
theorem isUnit_iff {t : DataType} : t.isUnit = true ↔ t.unannotated = .unit := by
  unfold DataType.isUnit
  split <;> simp_all

/-- A type is that of callbacks exactly if it is below its annotations. -/
theorem isProgress_iff {t : DataType} : t.isProgress = true ↔ t.unannotated = .progress := by
  unfold DataType.isProgress
  split <;> simp_all

variable {s : Signature}

/-- A signature is accepted exactly if nothing is wrong with it; its parameters are then told apart
by whether they take a callback. -/
theorem check_eq_ok_iff {checked : CheckedSignature} :
    s.check = .ok checked ↔
      s.Acceptable ∧ s.returns? = some checked.returns ∧
        checked.parameters.map declared = plain s.parameters ∧
        checked.progress?.toList = (callbacks s.parameters).map Prod.fst := by
  unfold check
  cases returns : s.returns? with
  | none => simp
  | some t =>
    dsimp only
    by_cases nothing : t.isUnit = true
    · rw [if_pos nothing]
      simp only [reduceCtorEq, false_iff, not_and]
      rintro ⟨⟨t', e, something⟩, -, -, -⟩
      rw [returns] at e
      cases e
      exact absurd (isUnit_iff.1 nothing) something
    · rw [if_neg nothing]
      obtain ⟨wired, result, progress⟩ := checked
      cases sorted : sortParameters [] none s.parameters with
      | error fault =>
        simp only [reduceCtorEq, false_iff, not_and]
        intro acceptable _ names callback
        have ok : sortParameters [] none s.parameters = .ok (wired, progress) :=
          sortParameters_eq_ok_iff.2
            ⟨acceptable.typed, acceptable.distinct, by simp [Keyed.keys], names, callback⟩
        rw [sorted] at ok
        cases ok
      | ok parts =>
        obtain ⟨wired', progress'⟩ := parts
        obtain ⟨typed, distinct, -, names, callback⟩ := sortParameters_eq_ok_iff.1 sorted
        have one : (callbacks s.parameters).length ≤ 1 := by
          have length := congrArg List.length callback
          cases progress' <;> simp at length <;> omega
        have acceptable : s.Acceptable :=
          ⟨⟨t, returns, fun e => nothing (isUnit_iff.2 e)⟩, typed, distinct, one⟩
        rw [List.map_nil, List.nil_append] at names
        rw [Option.toList_none, List.nil_append] at callback
        simp only [Except.ok.injEq, CheckedSignature.mk.injEq, Option.some.injEq, ← names,
          ← callback, map_declared_inj, toList_inj]
        grind

/-- Declarations with types are those of sorted parameters. -/
theorem exists_map_declared (typed : ∀ p ∈ parameters, IsTyped p) :
    ∃ sorted : List (String × DataType), sorted.map declared = parameters := by
  induction parameters with
  | nil => exact ⟨[], rfl⟩
  | cons parameter rest ih =>
    obtain ⟨first, others⟩ := List.forall_mem_cons.1 typed
    obtain ⟨sorted, e⟩ := ih others
    obtain ⟨name, type?⟩ := parameter
    obtain ⟨t, rfl⟩ := Option.isSome_iff_exists.1 first
    exact ⟨(name, t) :: sorted, by rw [List.map_cons, e, declared]⟩

/-- A signature with which nothing is wrong is accepted. -/
theorem Acceptable.exists_check (h : s.Acceptable) : ∃ checked, s.check = .ok checked := by
  obtain ⟨t, returns, -⟩ := h.returns
  obtain ⟨sorted, e⟩ : ∃ sorted : List (String × DataType),
      sorted.map declared = plain s.parameters :=
    exists_map_declared fun p m => h.typed p (List.mem_filter.1 m).1
  have callback : (callbacks s.parameters).head?.toList = callbacks s.parameters := by
    have one := h.one_callback
    rcases e : callbacks s.parameters with _ | ⟨first, _ | ⟨second, rest⟩⟩
    · rfl
    · rfl
    · rw [e] at one
      simp at one
  refine ⟨⟨sorted, t, (callbacks s.parameters).head?.map Prod.fst⟩, check_eq_ok_iff.2
    ⟨h, returns, e, ?_⟩⟩
  rw [Option.toList_map, callback]

/-- A signature is rejected exactly if its return type is missing or that of nothing, a parameter has
no type, a name is repeated, or two parameters take a progress callback. -/
theorem exists_fault_iff : (∃ fault, s.check = .error fault) ↔
    s.returns? = none ∨ (∃ t, s.returns? = some t ∧ t.unannotated = .unit) ∨
      (∃ name, (name, none) ∈ s.parameters) ∨ ¬ (s.parameters.map Prod.fst).Nodup ∨
      2 ≤ (callbacks s.parameters).length := by
  have rejected : (∃ fault, s.check = .error fault) ↔ ¬ s.Acceptable := by
    constructor
    · rintro ⟨fault, e⟩ acceptable
      obtain ⟨checked, ok⟩ := acceptable.exists_check
      cases e.symm.trans ok
    · intro faulty
      cases e : s.check with
      | error fault => exact ⟨fault, rfl⟩
      | ok checked => exact absurd (check_eq_ok_iff.1 e).1 faulty
  have untyped : (∃ name, (name, none) ∈ s.parameters) ↔ ¬ ∀ p ∈ s.parameters, IsTyped p := by
    simp [IsTyped]
  rw [rejected, untyped]
  constructor
  · intro faulty
    by_contra fine
    simp only [not_or, not_exists, not_and, not_not, Nat.not_le] at fine
    obtain ⟨some', something, typed, distinct, one⟩ := fine
    obtain ⟨t, returns⟩ := Option.ne_none_iff_exists'.1 some'
    exact faulty ⟨⟨t, returns, something t returns⟩, typed, distinct, by omega⟩
  · rintro cause ⟨⟨t, returns, something⟩, typed, distinct, one⟩
    rcases cause with missing | ⟨t', returns', nothing⟩ | untyped | repeated | two
    · rw [returns] at missing
      cases missing
    · rw [returns] at returns'
      cases returns'
      exact something nothing
    · exact untyped typed
    · exact repeated distinct
    · omega

end Signature

end Pipewright
