import Pipewright.Host.Basic
import Pipewright.Proofs.Keyed

/-! # Units that are ready
Units are loaded and forgotten, and hosts are told by which function they run units, by calls of any
order and number. A unit that a host hands out is the one that would be read from its text then, but
for the function that runs it: that is one the host was told before the unit was read, and stays when
the host is told another one. -/

namespace Pipewright

variable {functions functions' : List String} {name source : String} {u : LoadedUnit} {e : Failure}

/-! ## Loading -/

/-- A unit that is read from a text is read the same by whichever function it is run. -/
theorem LoadedUnit.load_of_load {function : String} (h : load name source function = .ok u)
    (function' : String) : load name source function' = .ok { u with runFunction := function' } := by
  unfold load at h ⊢
  cases read : Script.Program.ofText? source with
  | none =>
    rw [read] at h
    cases h
  | some program =>
    rw [read] at h
    cases h
    rfl

/-- A unit has the name, the text and the function that it was read with. -/
theorem LoadedUnit.load_spec {function : String} (h : load name source function = .ok u) :
    u.name = name ∧ u.source = source ∧ u.runFunction = function := by
  unfold load at h
  split at h
  · cases h
    exact ⟨rfl, rfl, rfl⟩
  · cases h

/-- What is found under a name has the text that was asked for. -/
theorem UnitCache.lookup_of_unit? {c : UnitCache} (h : c.unit? name source = some u) :
    Keyed.lookup name c.units = some u ∧ u.source = source := by
  obtain ⟨found, same⟩ := Option.filter_eq_some_iff.1 h
  exact ⟨found, by simpa using same⟩

namespace Host

variable {h : Host}

/-- A unit that is ready was read from its text, to be run by one of some functions. -/
structure IsReady (functions : List String) (name : String) (u : LoadedUnit) : Prop where
  /-- It is kept under its name. -/
  named : u.name = name
  /-- It is run by one of the functions. -/
  known : u.runFunction ∈ functions
  /-- It was read from its text. -/
  read : LoadedUnit.load u.name u.source u.runFunction = .ok u

/-- All units that are ready were read from their texts, to be run by one of some functions, to which
belongs the one by which the host runs the units that it reads now. -/
structure Ready (functions : List String) (h : Host) : Prop where
  /-- The function of the units that are read now. -/
  current : h.runFunction ∈ functions
  /-- The units that are ready. -/
  units : ∀ name u, (name, u) ∈ h.cache.units → IsReady functions name u

namespace Ready

/-- There may be more functions. -/
theorem mono (ready : h.Ready functions) (sub : functions ⊆ functions') : h.Ready functions' :=
  ⟨sub ready.current, fun name u m =>
    have unit := ready.units name u m
    ⟨unit.named, sub unit.known, unit.read⟩⟩

/-- A host that has no units is ready to run them by its function. -/
theorem new (r : Registry) (extra : List NodeClass) :
    (Host.new r extra).Ready [Settings.standard.runFunction] :=
  ⟨List.mem_singleton_self _, fun _ _ m => absurd m List.not_mem_nil⟩

/-- What cannot be read is not handed out either. -/
theorem load_error (ready : h.Ready functions)
    (refused : LoadedUnit.load name source h.runFunction = .error e) :
    h.load name source = .error e := by
  unfold Host.load
  cases found : h.cache.unit? name source with
  | none =>
    rw [refused]
    rfl
  | some u =>
    obtain ⟨there, rfl⟩ := UnitCache.lookup_of_unit? found
    have unit := ready.units name u (Keyed.mem_of_lookup there)
    obtain rfl := unit.named
    -- a unit that is ready was read from this text, so the text cannot be refused
    rw [LoadedUnit.load_of_load unit.read] at refused
    cases refused

/-- What can be read is handed out, to be run by one of the functions, and kept. -/
theorem load_ok (ready : h.Ready functions)
    (read : LoadedUnit.load name source h.runFunction = .ok u) :
    ∃ function ∈ functions, ∃ h' : Host,
      h.load name source = .ok ({ u with runFunction := function }, h') ∧
        h'.runFunction = h.runFunction ∧ h'.Ready functions := by
  unfold Host.load
  cases found : h.cache.unit? name source with
  | none =>
    obtain ⟨rfl, rfl, same⟩ := LoadedUnit.load_spec read
    refine ⟨h.runFunction, ready.current, { h with cache := h.cache.insert u }, ?_, rfl, ?_⟩
    · rw [read, ← same]
      rfl
    · refine ⟨ready.current, fun name' u' m => ?_⟩
      rcases Keyed.mem_of_mem_insert m with e | m
      · cases e
        exact ⟨rfl, same ▸ ready.current, same ▸ read⟩
      · exact ready.units name' u' m
  | some u' =>
    obtain ⟨there, rfl⟩ := UnitCache.lookup_of_unit? found
    have unit := ready.units name u' (Keyed.mem_of_lookup there)
    obtain rfl := unit.named
    -- the unit that is ready and the one that would be read differ at most in their functions
    rw [LoadedUnit.load_of_load unit.read] at read
    cases read
    exact ⟨u'.runFunction, unit.known, h, rfl, rfl, ready⟩

/-- Units that are forgotten leave the others ready. -/
theorem unload (ready : h.Ready functions) (name : String) : (h.unload name).Ready functions :=
  ⟨ready.current, fun name' u m => ready.units name' u (List.mem_filter.1 m).1⟩

end Ready

/-! ## Calls -/

/-- A call that is about the units that are ready, or the function that runs them. -/
inductive UnitCall where
  /-- Load a unit. -/
  | load (name source : String)
  /-- Forget a unit. -/
  | unload (name : String)
  /-- Run the units that are read from now on by a function. -/
  | runBy (function : String)

namespace UnitCall

/-- The host after a call; one that fails leaves it as it was. -/
def perform (h : Host) : UnitCall → Host
  | .load name source => ((h.load name source).map Prod.snd).toOption.getD h
  | .unload name => h.unload name
  | .runBy function => { h with runFunction := function }

/-- The host after some calls, one after another. -/
def performAll (h : Host) (calls : List UnitCall) : Host := calls.foldl perform h

/-- The function that a host is told. -/
def function? : UnitCall → Option String
  | .runBy function => some function
  | _ => none

/-- One call leaves all units ready that there are, to be run by the functions that the host was
told. -/
theorem ready_perform (call : UnitCall) (ready : h.Ready functions) :
    (call.perform h).Ready (functions ++ call.function?.toList) := by
  cases call with
  | load name source =>
    refine Ready.mono ?_ (List.subset_append_left _ _)
    show Ready functions (((h.load name source).map Prod.snd).toOption.getD h)
    cases read : LoadedUnit.load name source h.runFunction with
    | error e =>
      -- a call that fails leaves the host as it was
      rw [ready.load_error read]
      exact ready
    | ok u =>
      obtain ⟨function, -, h', e, -, ready'⟩ := ready.load_ok read
      rw [e]
      exact ready'
  | unload name => exact (ready.unload name).mono (List.subset_append_left _ _)
  | runBy function =>
    have more := ready.mono (List.subset_append_left functions [function])
    exact ⟨List.mem_append_right _ (List.mem_singleton_self _), more.units⟩

/-- Calls leave all units ready that there are, to be run by the functions that the host was told. -/
theorem ready_performAll (calls : List UnitCall) (ready : h.Ready functions) :
    (performAll h calls).Ready (functions ++ calls.filterMap function?) := by
  induction calls generalizing h functions with
  | nil => simpa [performAll] using ready
  | cons call calls ih =>
    have all := ih (call.ready_perform ready)
    have same : functions ++ call.function?.toList ++ calls.filterMap function? =
        functions ++ (call :: calls).filterMap function? := by
      cases e : call.function? with
      | none => simp [List.filterMap_cons_none e]
      | some function => simp [List.filterMap_cons_some e]
    rwa [same] at all

/-- The functions that a new host was told in some calls, before which it runs units by the one that
everybody uses. -/
def told (calls : List UnitCall) : List String :=
  Settings.standard.runFunction :: calls.filterMap function?

/-- After any calls a host refuses the texts that it would refuse without units that are ready, for
the same reason, and hands out any other as the unit that would be read from it, to be run by a
function that it was told in one of the calls. -/
theorem load_performAll (r : Registry) (extra : List NodeClass) (calls : List UnitCall)
    (name source : String) :
    match LoadedUnit.load name source (performAll (Host.new r extra) calls).runFunction with
    | .error e => (performAll (Host.new r extra) calls).load name source = .error e
    | .ok u => ∃ function ∈ told calls,
        ((performAll (Host.new r extra) calls).load name source).map Prod.fst =
          .ok { u with runFunction := function } := by
  have ready : (performAll (Host.new r extra) calls).Ready (told calls) :=
    ready_performAll calls (.new r extra)
  cases read : LoadedUnit.load name source (performAll (Host.new r extra) calls).runFunction with
  | error e => exact ready.load_error read
  | ok u =>
    obtain ⟨function, known, h', e, -, -⟩ := ready.load_ok read
    exact ⟨function, known, by rw [e]; rfl⟩

/-- The function stays: a text that is loaded again is handed out as it was read first. -/
example : ((performAll (.new .empty []) [.load "A" "1", .runBy "start"]).load "A" "1").toOption.map
    (fun r => r.1.runFunction) = some "run" := by decide +kernel

/-- As long as a host is told no other function, nobody notices whether units are ready. -/
theorem load_performAll_eq (r : Registry) (extra : List NodeClass) {calls : List UnitCall}
    (same : ∀ function ∈ calls.filterMap function?, function = Settings.standard.runFunction)
    (name source : String) :
    ((performAll (Host.new r extra) calls).load name source).map Prod.fst =
      LoadedUnit.load name source Settings.standard.runFunction := by
  have one : ∀ function ∈ told calls, function = Settings.standard.runFunction :=
    List.forall_mem_cons.2 ⟨rfl, same⟩
  have ready : (performAll (Host.new r extra) calls).Ready (told calls) :=
    ready_performAll calls (.new r extra)
  have loaded := load_performAll r extra calls name source
  rw [one _ ready.current] at loaded
  cases read : LoadedUnit.load name source Settings.standard.runFunction with
  | error e =>
    simp only [read] at loaded
    rw [loaded]
    rfl
  | ok u =>
    simp only [read] at loaded
    obtain ⟨function, known, e⟩ := loaded
    rw [e, one function known, ← (LoadedUnit.load_spec read).2.2]

/-- A unit that was forgotten is read again, to be run by the function that the host was told
last. -/
theorem load_unload (h : Host) (name source : String) :
    ((h.unload name).load name source).map Prod.fst =
      LoadedUnit.load name source h.runFunction := by
  have none : (h.unload name).cache.unit? name source = none := by
    have absent : Keyed.lookup name (Keyed.erase name h.cache.units) = none := by
      refine Keyed.lookup_eq_none_iff.2 fun m => ?_
      obtain ⟨entry, there, same⟩ := List.mem_map.1 m
      exact absurd same (by simpa using (List.mem_filter.1 there).2)
    show (Keyed.lookup name (Keyed.erase name h.cache.units)).filter _ = none
    rw [absent]
    rfl
  unfold Host.load
  rw [none]
  show ((LoadedUnit.load name source h.runFunction).map _).map Prod.fst = _
  cases LoadedUnit.load name source h.runFunction <;> rfl

end UnitCall

end Host

end Pipewright
