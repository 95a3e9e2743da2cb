import Pipewright.Proofs.Scene.Calls
import Pipewright.Proofs.Script.Lexing

/-! # Ids of nodes
The id of a node is the name of its class and a number. Where no name of a class ends with a digit,
the two can be told from the id: no id is ever given twice, and a new node leaves the others alone. -/

namespace Pipewright

universe u

/-! ## Names and numbers -/

/-- Whether a name does not end with a digit. -/
def endsPlain (name : String) : Bool := name.toList.getLast?.all fun c => !c.isDigit

/-- Where names do not end with digits, a name and a number behind it can be told apart. -/
theorem append_toString_inj {name name' : String} {n n' : Nat} (plain : endsPlain name = true)
    (plain' : endsPlain name' = true) (h : name ++ toString n = name' ++ toString n') :
    name = name' ∧ n = n' := by
  -- read backwards, the digits of the number end where the name starts
  have split : ∀ {name : String} {n : Nat}, endsPlain name = true →
      (name ++ toString n).toList.reverse.takeWhile Char.isDigit = (toString n).toList.reverse ∧
        (name ++ toString n).toList.reverse.dropWhile Char.isDigit = name.toList.reverse := by
    intro name n plain
    rw [String.toList_append, List.reverse_append]
    refine Script.takeWhile_append_of_head (fun c m => ?_) fun c m => ?_
    · exact (Script.toString_digits n).1 c (List.mem_reverse.1 m)
    · rw [List.head?_reverse] at m
      unfold endsPlain at plain
      rw [Option.mem_def.1 m] at plain
      simpa using plain
  obtain ⟨digits, front⟩ := split (n := n) plain
  obtain ⟨digits', front'⟩ := split (n := n') plain'
  rw [h, digits'] at digits
  rw [h, front'] at front
  have number : (toString n).toList = (toString n').toList := (List.reverse_injective digits).symm
  constructor
  · exact String.toList_inj.1 (List.reverse_injective front).symm
  · rw [← Script.readDigits_toString n, number, Script.readDigits_toString]

namespace Scene

/-! ## Ids that were given -/

section Numbered

variable {α : Type u} {s s' : Scene α} {ids : List String}

/-- How many nodes of a class were ever added. -/
def count (s : Scene α) (name : String) : Nat := (Keyed.lookup name s.counters).getD 0

/-- The ids that were given so far are made of names of classes and numbers that were counted, and the
nodes have such ids. -/
structure Numbered (s : Scene α) (ids : List String) : Prop where
  /-- The numbers in ids were counted. -/
  counted : ∀ id ∈ ids, ∃ name n, endsPlain name = true ∧ id = name ++ toString n ∧ n ≤ s.count name
  /-- The ids of nodes were given. -/
  given : ∀ id, s.contains id = true → id ∈ ids

/-- No ids were given for the scene without nodes. -/
theorem numbered_empty : (empty : Scene α).Numbered [] :=
  ⟨fun _ m => absurd m List.not_mem_nil, fun _ there => absurd there (by simp [contains, empty,
    Keyed.contains])⟩

namespace Numbered

/-- Where nothing is counted and no node is added, no id is given. -/
theorem mono (h : s.Numbered ids) (counters : s'.counters = s.counters)
    (less : ∀ id, s'.contains id = true → s.contains id = true) : s'.Numbered ids := by
  refine ⟨fun id m => ?_, fun id there => h.given id (less id there)⟩
  unfold count
  rw [counters]
  exact h.counted id m

/-- The id of a new node was not given before. -/
theorem fresh (h : s.Numbered ids) {c : NodeClass} (plain : endsPlain c.name = true) (name : String)
    (content : α) : (s.addNode c name content).1.id ∉ ids := by
  intro m
  obtain ⟨name', n, plain', e, counted⟩ := h.counted _ m
  have same : c.name ++ toString (s.count c.name + 1) = name' ++ toString n := e
  obtain ⟨rfl, rfl⟩ := append_toString_inj plain plain' same
  omega

/-- The id of a new node is given. -/
theorem addNode (h : s.Numbered ids) {c : NodeClass} (plain : endsPlain c.name = true)
    (name : String) (content : α) :
    (s.addNode c name content).2.Numbered ((s.addNode c name content).1.id :: ids) := by
  have counter : (s.addNode c name content).2.count c.name = s.count c.name + 1 := by
    show (Keyed.lookup c.name (Keyed.insert c.name (s.count c.name + 1) s.counters)).getD 0 = _
    rw [Keyed.lookup_insert_self, Option.getD_some]
  have others : ∀ name', name' ≠ c.name →
      (s.addNode c name content).2.count name' = s.count name' := by
    intro name' apart
    show (Keyed.lookup name' (Keyed.insert c.name (s.count c.name + 1) s.counters)).getD 0 = _
    rw [Keyed.lookup_insert_of_ne apart]
    rfl
  constructor
  · intro id m
    rcases List.mem_cons.1 m with rfl | m
    · exact ⟨c.name, s.count c.name + 1, plain, rfl, by omega⟩
    · obtain ⟨name', n, plain', e, counted⟩ := h.counted id m
      refine ⟨name', n, plain', e, ?_⟩
      by_cases same : name' = c.name
      · rw [same] at counted ⊢
        omega
      · rwa [others name' same]
  · intro id there
    rcases Keyed.mem_keys_insert.1 (Keyed.contains_iff.1 there) with rfl | there
    · exact List.mem_cons_self
    · exact List.mem_cons_of_mem _ (h.given id (Keyed.contains_iff.2 there))

end Numbered

/-- Adding a node leaves every node alone whose id is another one. -/
theorem record?_addNode {c : NodeClass} {name id : String} {content : α}
    (h : id ≠ (s.addNode c name content).1.id) :
    (s.addNode c name content).2.record? id = s.record? id :=
  Keyed.lookup_insert_of_ne h _ _

/-- Changing a record counts nothing, and adds and removes no node. -/
theorem of_update {id : String} {f : NodeRecord α → NodeRecord α} (e : s.update id f = .ok s') :
    s'.counters = s.counters ∧ ∀ other, s'.contains other = s.contains other := by
  obtain ⟨-, rfl⟩ := update_eq_ok_iff.1 e
  refine ⟨rfl, fun other => ?_⟩
  rw [Bool.eq_iff_iff, contains, contains, Keyed.contains_iff, Keyed.contains_iff, Keyed.keys_modify]

end Numbered

/-! ## Calls -/

namespace Call

/-- Whether a call adds no node, or one of a class whose name does not end with a digit. -/
def isPlain : Call → Bool
  | .addNode c _ => endsPlain c.name
  | _ => true

/-- What a call does to a scene: it adds a node, or it counts nothing and adds none. -/
theorem of_apply {call : Call} {s s' : Scene Entries} {handle : Option NodeHandle}
    (e : call.apply s = .ok (handle, s')) :
    (∃ c name, call = .addNode c name ∧ handle = some (s.addNode c name []).1 ∧
      s' = (s.addNode c name []).2) ∨
    handle = none ∧ s'.counters = s.counters ∧ ∀ id, s'.contains id = true → s.contains id = true := by
  -- calls that change one record
  have changed : ∀ {x : Except SceneError (Scene Entries)},
      (∀ s', x = .ok s' → ∃ id f, s.update id f = .ok s') → x.map (none, ·) = .ok (handle, s') →
      handle = none ∧ s'.counters = s.counters ∧
        ∀ id, s'.contains id = true → s.contains id = true := by
    intro x spec e
    cases x with
    | error fault => cases e
    | ok s'' =>
      cases e
      obtain ⟨id, f, e⟩ := spec s' rfl
      obtain ⟨counters, same⟩ := of_update e
      exact ⟨rfl, counters, fun other there => same other ▸ there⟩
  cases call with
  | addNode c name =>
    cases e
    exact .inl ⟨c, name, rfl, rfl, rfl⟩
  | removeNode id =>
    cases e
    refine .inr ⟨rfl, ?_, fun other there => ?_⟩
    · unfold Scene.removeNode
      split <;> rfl
    · rw [contains_removeNode, Bool.and_eq_true] at there
      exact there.1
  | setName id name => exact .inr (changed (fun s' e => ⟨_, _, e⟩) e)
  | setContent id content => exact .inr (changed (fun s' e => ⟨_, _, e⟩) e)
  | addReference holder role target =>
    exact .inr (changed (fun s' e => ⟨_, _, (addReference_eq_ok_iff.1 e).2⟩) e)
  | copyContent source target =>
    refine .inr (changed (fun s' e => ?_) e)
    obtain ⟨src, dest, -, -, -, e⟩ := copyContent_eq_ok_iff.1 e
    exact ⟨_, _, e⟩

/-- The id that a call gives, if it adds a node. -/
def given (w : World) (call : Call) : Option String :=
  match (call.perform.run.run w).1 with
  | .ok (some handle) => some handle.id
  | _ => none

/-- The ids that are given by calls, one after another. -/
def issued (w : World) : List Call → List String
  | [] => []
  | call :: calls => (given w call).toList ++ issued (call.perform.run.run w).2 calls

variable {w : World} {ids : List String}

/-- The id that a call gives was not given before. -/
theorem numbered_perform {call : Call} (h : w.scene.Numbered ids) (plain : call.isPlain = true) :
    (call.perform.run.run w).2.scene.Numbered ((given w call).toList ++ ids) ∧
      ∀ id ∈ given w call, id ∉ ids := by
  unfold given perform
  rw [Recipe.run_change]
  cases e : call.apply w.scene with
  | error fault => exact ⟨h, fun _ m => absurd m (Option.not_mem_none _)⟩
  | ok result =>
    obtain ⟨handle, s'⟩ := result
    rcases of_apply e with ⟨c, name, rfl, rfl, rfl⟩ | ⟨rfl, counters, less⟩
    · refine ⟨h.addNode plain name [], fun id m => ?_⟩
      cases Option.mem_some.1 m
      exact h.fresh plain name []
    · exact ⟨h.mono counters less, fun _ m => absurd m (Option.not_mem_none _)⟩

/-- The ids that calls give are different from each other and from those that were given before. -/
theorem numbered_performAll {calls : List Call} (h : w.scene.Numbered ids) (once : ids.Nodup)
    (plain : ∀ call ∈ calls, call.isPlain = true) :
    (performAll w calls).scene.Numbered (issued w calls ++ ids) ∧ (issued w calls ++ ids).Nodup := by
  induction calls generalizing w ids with
  | nil => exact ⟨h, once⟩
  | cons call calls ih =>
    obtain ⟨first, others⟩ := List.forall_mem_cons.1 plain
    obtain ⟨numbered, fresh⟩ := numbered_perform h first
    have once' : ((given w call).toList ++ ids).Nodup := by
      cases e : given w call with
      | none => exact once
      | some id => exact List.nodup_cons.2 ⟨fresh id e, once⟩
    obtain ⟨numbered', once''⟩ := ih numbered once' others
    -- what was given by the first call stands in front of what is given later
    have perm : (issued (call.perform.run.run w).2 calls ++ ((given w call).toList ++ ids)).Perm
        (issued w (call :: calls) ++ ids) := by
      have opened : issued w (call :: calls) =
          (given w call).toList ++ issued (call.perform.run.run w).2 calls := rfl
      rw [opened, ← List.append_assoc]
      exact List.perm_append_comm.append_right ids
    refine ⟨⟨fun id m => numbered'.counted id (perm.mem_iff.2 m), fun id there => ?_⟩,
      perm.nodup_iff.1 once''⟩
    exact perm.mem_iff.1 (numbered'.given id there)

/-- Where no class of a new node has a name that ends with a digit, no id is given twice, whatever else
is called, and a node that is added next gets an id that was never given and leaves all nodes that
are there alone. -/
theorem nodup_issued {calls : List Call} (plain : ∀ call ∈ calls, call.isPlain = true) :
    (issued .empty calls).Nodup ∧ ∀ (c : NodeClass) (name : String), endsPlain c.name = true →
      let s := (performAll .empty calls).scene
      (s.addNode c name []).1.id ∉ issued .empty calls ∧
        ∀ id, s.contains id = true → (s.addNode c name []).2.record? id = s.record? id := by
  obtain ⟨numbered, once⟩ :=
    @numbered_performAll World.empty [] calls numbered_empty List.nodup_nil plain
  rw [List.append_nil] at numbered once
  refine ⟨once, fun c name plain' => ?_⟩
  intro s
  have fresh := numbered.fresh plain' name []
  refine ⟨fresh, fun id there => record?_addNode ?_⟩
  rintro rfl
  exact fresh (numbered.given _ there)

/-- A class whose name ends with a digit may get the id of another one's node. -/
example : issued .empty ((.addNode (.derived "A1" .root) "first") ::
    List.replicate 11 (.addNode (.derived "A" .root) "next")) =
    ["A11", "A1", "A2", "A3", "A4", "A5", "A6", "A7", "A8", "A9", "A10", "A11"] := by
  decide +kernel

end Call

end Scene

end Pipewright
