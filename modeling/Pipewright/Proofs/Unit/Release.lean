import Pipewright.Proofs.Unit.Copies
import Pipewright.Proofs.Unit.Retention

/-! # The functions of a widget
Every widget has functions of its own: one copies a node into another one, one tells whether a node
is among some values, and one removes nodes, but for those that are kept. -/

namespace Pipewright

open Script (Expr Stmt Function)

/-! ## Same nodes -/

namespace Datum

/-- Whether two values are nodes of one id. -/
def isSameNode : Datum → Datum → Bool
  | .node a, .node b => a.id == b.id
  | _, _ => false

/-- Whether a value is a node that is among some values. -/
def isAmong (ds : List Datum) (d : Datum) : Bool := ds.any fun n => n.isSameNode d

/-- A node is among some values exactly if they include its id. -/
theorem isAmong_node_iff {ds : List Datum} {handle : NodeHandle} :
    isAmong ds (.node handle) = true ↔ Includes ds handle.id := by
  unfold isAmong
  rw [List.any_eq_true]
  constructor
  · rintro ⟨n, m, same⟩
    cases n with
    | node other => exact ⟨other, m, by simpa [isSameNode] using same⟩
    | _ => cases same
  · rintro ⟨other, m, e⟩
    exact ⟨_, m, by simp [isSameNode, e]⟩

/-- Values with a node in front include it, and what the others include. -/
theorem includes_node_cons {ds : List Datum} {handle : NodeHandle} {id : String} :
    Includes (.node handle :: ds) id ↔ handle.id = id ∨ Includes ds id := by
  simp [Includes, or_and_right, exists_or]

/-- What is no node in front of values adds nothing to what they include. -/
theorem includes_cons_of_not_node {ds : List Datum} {d : Datum} {id : String}
    (other : ¬ ∃ handle, d = .node handle) : Includes (d :: ds) id ↔ Includes ds id := by
  constructor
  · rintro ⟨handle, m, e⟩
    rcases List.mem_cons.1 m with same | m
    · exact absurd ⟨handle, same.symm⟩ other
    · exact ⟨handle, m, e⟩
  · rintro ⟨handle, m, e⟩
    exact ⟨handle, List.mem_cons_of_mem _ m, e⟩

/-- A value is a node exactly if it is of that kind. -/
theorem kind_eq_node_iff {d : Datum} : d.kind = "Node" ↔ ∃ handle, d = .node handle := by
  cases d <;> simp [kind]

/-- A value is nothing exactly if it is of that kind. -/
theorem kind_eq_unit_iff {d : Datum} : d.kind = "()" ↔ d = .unit := by
  cases d <;> simp [kind]

/-- Where something is not a node, it is not the same one. -/
theorem isSameNode_of_not_node {a b : Datum} (h : ¬ ((∃ x, a = .node x) ∧ ∃ y, b = .node y)) :
    a.isSameNode b = false := by
  unfold isSameNode
  split
  · exact absurd ⟨⟨_, rfl⟩, ⟨_, rfl⟩⟩ h
  · rfl

end Datum

namespace Host

variable {env : Environment} {call : Caller} {s : Entries} {w : World}

/-- A test of two values for being the same node. -/
theorem yields_isSameNode {left right : String} {a b : Datum} (h : Keyed.lookup left s = some a)
    (h' : Keyed.lookup right s = some b) :
    Yields (evalExpr env call (HostModule.scene.call "same_node" [.var left, .var right])) s w
      (.ok (.bool (a.isSameNode b))) s w := by
  refine .moduleCall (.items_cons (.var h) (.items_cons (.var h') .items_nil)) ?_
  rw [Environment.callModule, module?_name]
  cases a with
  | node handle => cases b <;> exact .pure _
  | _ => exact .pure _

/-- Only between nodes content is copied. -/
theorem yields_copyNode_fault {a b : Datum} (h : ¬ ((∃ x, a = .node x) ∧ ∃ y, b = .node y)) :
    Yields (env.callModule HostModule.scene.name "copy_node" [a, b]) s w (.error .fault) s w := by
  rw [Environment.callModule, module?_name]
  cases a with
  | node handle =>
    cases b with
    | node other => exact absurd ⟨⟨_, rfl⟩, ⟨_, rfl⟩⟩ h
    | _ => exact .throw _
  | _ => exact .throw _

/-- What the host does to copy content between nodes. -/
theorem callModule_copyNode (a b : NodeHandle) :
    env.callModule HostModule.scene.name "copy_node" [.node a, .node b] =
      (get >>= fun m =>
        match m.world.scene.copyContent a.id b.id with
        | .ok scene => do
          set { m with world := { m.world with scene := scene } }
          return .unit
        | .error e => raise e.message) := by
  rw [Environment.callModule, module?_name]
  rfl

/-- Content is copied between nodes of a scene. -/
theorem yields_copyContent {a b : NodeHandle} {scene : Scene Entries}
    (h : w.scene.copyContent a.id b.id = .ok scene) :
    Yields (env.callModule HostModule.scene.name "copy_node" [.node a, .node b]) s w (.ok .unit) s
      { w with scene := scene } := by
  intro budget
  have got : (get : Eval Machine).run.run ⟨s, w, budget⟩ = (.ok ⟨s, w, budget⟩, ⟨s, w, budget⟩) := rfl
  rw [callModule_copyNode, run_bind, got]
  simp only [h]
  exact .inr ⟨budget, rfl⟩

/-- Where content cannot be copied, a message is raised. -/
theorem yields_copyContent_error {a b : NodeHandle} {e : SceneError}
    (h : w.scene.copyContent a.id b.id = .error e) :
    Yields (env.callModule HostModule.scene.name "copy_node" [.node a, .node b]) s w
      (.error (.thrown (.text e.message))) s w := by
  intro budget
  have got : (get : Eval Machine).run.run ⟨s, w, budget⟩ = (.ok ⟨s, w, budget⟩, ⟨s, w, budget⟩) := rfl
  rw [callModule_copyNode, run_bind, got]
  simp only [h]
  exact .inr ⟨budget, rfl⟩

/-! ## Copying a node -/

/-- The variables of the function that copies a node. -/
def copyScope (src dest : Datum) : Entries := [("dest", dest), ("src", src)]

/-- What the function that copies a node does with values of which neither is nothing. -/
def copyBranch : Stmt :=
  .branch
    [(.not (HostModule.scene.call "same_node" [.var "src", .var "dest"]),
      [.run (HostModule.scene.call "copy_node" [.var "src", .var "dest"])])] []

/-- Values of which neither is nothing are copied, if they are nodes, and not the same one. -/
theorem yields_copyBranch {src dest : Datum} (full : src ≠ .unit) (full' : dest ≠ .unit) :
    ∃ r : Except Halt Datum, functionResult (r.map fun _ => dest) = (copyNode w.scene src dest).1 ∧
      Yields (evalStmt env call copyBranch) (copyScope src dest) w r (copyScope src dest)
        { w with scene := (copyNode w.scene src dest).2 } := by
  have differ : Yields
      (evalExpr env call (.not (HostModule.scene.call "same_node" [.var "src", .var "dest"])))
      (copyScope src dest) w (.ok (.bool !src.isSameNode dest)) (copyScope src dest) w :=
    .not (yields_isSameNode rfl rfl)
  have copying : ∀ {r w'}, Yields (env.callModule HostModule.scene.name "copy_node" [src, dest])
      (copyScope src dest) w r (copyScope src dest) w' → src.isSameNode dest = false →
      Yields (evalStmt env call copyBranch) (copyScope src dest) w r (copyScope src dest) w' := by
    intro r w' copied apart
    rw [apart] at differ
    exact .branch_true differ (.block_single rfl (.run (.moduleCall
      (.items_cons (.var rfl) (.items_cons (.var rfl) .items_nil)) copied))) rfl
  -- the host copies between two nodes, if they differ, and refuses anything else
  by_cases nodes : (∃ x, src = .node x) ∧ ∃ y, dest = .node y
  · obtain ⟨⟨a, rfl⟩, b, rfl⟩ := nodes
    cases same : a.id == b.id with
    | true =>
      have nothing : copyNode w.scene (.node a) (.node b) = (.ok (.node b), w.scene) := by
        rw [copyNode, if_pos same]
      rw [nothing]
      rw [Datum.isSameNode, same] at differ
      exact ⟨.ok .unit, rfl, .branch_skipped differ⟩
    | false =>
      cases copied : w.scene.copyContent a.id b.id with
      | ok scene =>
        have made : copyNode w.scene (.node a) (.node b) = (.ok (.node b), scene) := by
          rw [copyNode, if_neg (by simp [same]), copied]
        rw [made]
        exact ⟨.ok .unit, rfl, copying (yields_copyContent copied) same⟩
      | error e =>
        have failed : copyNode w.scene (.node a) (.node b) =
            (.error (.thrown (.text e.message)), w.scene) := by
          rw [copyNode, if_neg (by simp [same]), copied]
        rw [failed]
        exact ⟨_, rfl, copying (yields_copyContent_error copied) same⟩
  · have failed : copyNode w.scene src dest = (.error .fault, w.scene) := by
      unfold copyNode
      split
      · exact absurd rfl full
      · exact absurd rfl full'
      · exact absurd ⟨⟨_, rfl⟩, ⟨_, rfl⟩⟩ nodes
      · rfl
    rw [failed]
    exact ⟨.error .fault, rfl,
      copying (yields_copyNode_fault nodes) (Datum.isSameNode_of_not_node nodes)⟩

/-- The function that copies a node comes to what belongs in the place of the other one. -/
theorem comes_copy (lacks : env.Lacks "type_of") (src dest : Datum) (w : World) :
    Yields.Comes env copyFunction [src, dest] w (copyNode w.scene src dest).1
      { w with scene := (copyNode w.scene src dest).2 } := by
  intro depth
  have first : Yields (evalExpr env (callFunction env depth) (isKind "src" "()"))
      (copyScope src dest) w (.ok (.bool (src.kind == "()"))) (copyScope src dest) w :=
    .isKind "()" lacks rfl
  have second : Yields (evalExpr env (callFunction env depth) (isKind "dest" "()"))
      (copyScope src dest) w (.ok (.bool (dest.kind == "()"))) (copyScope src dest) w :=
    .isKind "()" lacks rfl
  -- with nothing on one side the other one is returned, before the nodes are looked at
  by_cases none : src = .unit
  · subst none
    exact ⟨.error (.returned dest), _, rfl, .block_halt rfl (.returnIf_true first (.var rfl))⟩
  · rw [beq_eq_false_iff_ne.2 fun e => none (Datum.kind_eq_unit_iff.1 e)] at first
    by_cases none' : dest = .unit
    · subst none'
      have taken : copyNode w.scene src .unit = (.ok src, w.scene) := by
        cases src with
        | unit => exact absurd rfl none
        | _ => rfl
      rw [taken]
      exact ⟨.error (.returned src), _, rfl, .block_cons rfl (.returnIf_false first)
        (.block_halt rfl (.returnIf_true second (.var rfl)))⟩
    · rw [beq_eq_false_iff_ne.2 fun e => none' (Datum.kind_eq_unit_iff.1 e)] at second
      obtain ⟨r, result, copied⟩ : ∃ r : Except Halt Datum,
          functionResult (r.map fun _ => dest) = (copyNode w.scene src dest).1 ∧
          Yields (evalStmt env (callFunction env depth) copyBranch) (copyScope src dest) w r
            (copyScope src dest) { w with scene := (copyNode w.scene src dest).2 } :=
        yields_copyBranch none none'
      refine ⟨r.map fun _ => dest, copyScope src dest, result, ?_⟩
      have ends : Yields (evalBlock env (callFunction env depth) .unit
          [copyBranch, .value (.var "dest")]) (copyScope src dest) w (r.map fun _ => dest)
          (copyScope src dest) { w with scene := (copyNode w.scene src dest).2 } := by
        cases r with
        | ok v => exact .block_cons rfl copied (.block_single rfl (.value (.var rfl)))
        | error halt => exact .block_halt rfl copied
      exact .block_cons rfl (.returnIf_false first) (.block_cons rfl (.returnIf_false second) ends)

/-! ## Looking for a node among others -/

/-- A round of the loop that looks for a node among others. -/
def amongRound (env : Environment) (call : Caller) (n : Datum) : Eval Bool :=
  asRound (inBlock (declare "n" n >>= fun _ => evalBlock env call .unit
    [returnIf (.binary .both (isKind "n" "Node")
      (HostModule.scene.call "same_node" [.var "n", .var "node"])) (.bool true)]))

/-- The loop that looks for a node among others finds it if it is among them. -/
theorem yields_among (lacks : env.Lacks "type_of") (all d : Datum) (ds : List Datum) :
    Yields (forItems (amongRound env call) ds) [("node", d), ("nodes", all)] w
      (searchResult (Datum.isAmong ds d) .unit) [("node", d), ("nodes", all)] w := by
  induction ds with
  | nil => exact .forItems_nil
  | cons n ds ih =>
    have same : Yields (evalExpr env call (.binary .both (isKind "n" "Node")
        (HostModule.scene.call "same_node" [.var "n", .var "node"])))
        [("n", n), ("node", d), ("nodes", all)] w (.ok (.bool (n.isSameNode d)))
        [("n", n), ("node", d), ("nodes", all)] w := by
      have both : Yields (evalExpr env call (.binary .both (isKind "n" "Node")
          (HostModule.scene.call "same_node" [.var "n", .var "node"])))
          [("n", n), ("node", d), ("nodes", all)] w
          (.ok (.bool (n.kind == "Node" && n.isSameNode d)))
          [("n", n), ("node", d), ("nodes", all)] w :=
        .both (.isKind "Node" lacks rfl) fun _ => yields_isSameNode rfl rfl
      -- only nodes are the same
      have only : (n.kind == "Node" && n.isSameNode d) = n.isSameNode d := by
        cases n <;> rfl
      rwa [only] at both
    have round : Yields (amongRound env call n) [("node", d), ("nodes", all)] w
        (searchResult (n.isSameNode d) true) [("node", d), ("nodes", all)] w := by
      have body : Yields (amongRound env call n) [("node", d), ("nodes", all)] w
          (roundResult (searchResult (n.isSameNode d) .unit)) [("node", d), ("nodes", all)] w :=
        .round (.block_single rfl (yields_returnIf same)) rfl
      cases e : n.isSameNode d with
      | true =>
        rw [e] at body
        exact body
      | false =>
        rw [e] at body
        exact body
    unfold Datum.isAmong
    rw [List.any_cons]
    cases found : n.isSameNode d with
    | true =>
      rw [found] at round
      exact .forItems_halt round
    | false =>
      rw [found] at round
      exact .forItems_cons round ih

/-- The function that looks for a node among others tells whether it is among them. -/
theorem comes_holds (lacks : env.Lacks "type_of") (ds : List Datum) (d : Datum) (w : World) :
    Yields.Comes env holdsFunction [.array ds, d] w (.ok (.bool (Datum.isAmong ds d))) w := by
  intro depth
  have loop : Yields (evalStmt env (callFunction env depth) (.forEach "n" (.var "nodes")
      [returnIf (.binary .both (isKind "n" "Node")
        (HostModule.scene.call "same_node" [.var "n", .var "node"])) (.bool true)]))
      [("node", d), ("nodes", .array ds)] w (searchResult (Datum.isAmong ds d) .unit)
      [("node", d), ("nodes", .array ds)] w :=
    .forEach (.var rfl) (yields_among lacks (.array ds) d ds)
  cases found : Datum.isAmong ds d with
  | true =>
    rw [found] at loop
    exact ⟨_, _, rfl, .block_halt rfl loop⟩
  | false =>
    rw [found] at loop
    exact ⟨_, _, rfl, .block_cons rfl loop (.block_single rfl (.value (.bool false)))⟩

end Host

/-! ## Removing nodes -/

namespace Scene

/-- A scene without the nodes among some values, but for those among others. -/
def drop (keep : List Datum) : List Datum → Scene Entries → Scene Entries
  | [], s => s
  | d :: ds, s =>
    match d with
    | .node handle => drop keep ds (if Datum.isAmong keep d then s else s.removeNode handle.id)
    | _ => drop keep ds s

/-- A node is left if it was there and is not among the values, or is kept. -/
theorem contains_drop {keep ds : List Datum} {s : Scene Entries} {id : String} :
    (s.drop keep ds).contains id = true ↔
      s.contains id = true ∧ (Datum.Includes ds id → Datum.Includes keep id) := by
  induction ds generalizing s with
  | nil => simp [drop, Datum.Includes]
  | cons d ds ih =>
    -- only nodes are removed, so anything else is passed over
    by_cases node : ∃ handle, d = .node handle
    · obtain ⟨handle, rfl⟩ := node
      rw [drop, ih, Datum.includes_node_cons]
      by_cases kept : Datum.isAmong keep (.node handle) = true
      · have kept' : Datum.Includes keep handle.id := Datum.isAmong_node_iff.1 kept
        rw [if_pos kept]
        constructor
        · rintro ⟨there, others⟩
          exact ⟨there, fun m => m.elim (fun e => e ▸ kept') others⟩
        · rintro ⟨there, all⟩
          exact ⟨there, fun m => all (.inr m)⟩
      · rw [if_neg kept, contains_removeNode, Bool.and_eq_true, bne_iff_ne]
        rw [Datum.isAmong_node_iff] at kept
        constructor
        · rintro ⟨⟨there, ne⟩, others⟩
          exact ⟨there, fun m => m.elim (fun e => absurd e.symm ne) others⟩
        · rintro ⟨there, all⟩
          exact ⟨⟨there, fun e => kept (e ▸ all (.inl e.symm))⟩, fun m => all (.inr m)⟩
    · have skipped : s.drop keep (d :: ds) = s.drop keep ds := by
        cases d with
        | node handle => exact absurd ⟨handle, rfl⟩ node
        | _ => rfl
      rw [skipped, ih, Datum.includes_cons_of_not_node node]

/-- A scene without some nodes is one in which they were removed one after another. -/
theorem exists_drop_eq (keep ds : List Datum) :
    ∃ ids, (∀ id, id ∈ ids ↔ Datum.Includes ds id ∧ ¬ Datum.Includes keep id) ∧
      ∀ s : Scene Entries, s.drop keep ds = s.releaseAll [] ids := by
  induction ds with
  | nil => exact ⟨[], by simp [Datum.Includes], fun _ => rfl⟩
  | cons d ds ih =>
    obtain ⟨ids, removed, same⟩ := ih
    by_cases node : ∃ handle, d = .node handle
    · obtain ⟨handle, rfl⟩ := node
      by_cases kept : Datum.isAmong keep (.node handle) = true
      · refine ⟨ids, fun id => ?_, fun s => by rw [drop, if_pos kept, same]⟩
        rw [Datum.isAmong_node_iff] at kept
        rw [removed, Datum.includes_node_cons]
        grind
      · refine ⟨handle.id :: ids, fun id => ?_, fun s => by rw [drop, if_neg kept, same]; rfl⟩
        rw [Datum.isAmong_node_iff] at kept
        rw [List.mem_cons, removed, Datum.includes_node_cons]
        grind
    · refine ⟨ids, fun id => ?_, fun s => ?_⟩
      · rw [removed, Datum.includes_cons_of_not_node node]
      · rw [← same]
        cases d with
        | node handle => exact absurd ⟨handle, rfl⟩ node
        | _ => rfl

/-- A reference is left if it was there and neither end is removed. -/
theorem hasReference_drop {keep ds : List Datum} {s : Scene Entries} {holder role target : String}
    (h : s.Sound) : (s.drop keep ds).hasReference holder role target = true ↔
      s.hasReference holder role target = true ∧
        (Datum.Includes ds holder → Datum.Includes keep holder) ∧
        (s.contains target = true → Datum.Includes ds target → Datum.Includes keep target) := by
  obtain ⟨ids, removed, same⟩ := exists_drop_eq keep ds
  have none : ∀ id, s.keeps [] id = false := fun _ => rfl
  rw [same, hasReference_releaseAll h]
  simp only [removed, none]
  grind

end Scene

namespace Host

variable {env : Environment} {w : World} {depth : Nat}

/-- What the functions that remove the nodes of results call: the host, and one another. -/
structure Environment.Releases (env : Environment) : Prop where
  /-- The kind of a value is told by the host. -/
  typeOf : env.Lacks "type_of"
  /-- Arrays grow as the host says. -/
  push : env.Lacks "push"
  /-- The function that looks for a node among others. -/
  holds : env.Provides holdsFunction

/-- The variables of the function that removes nodes. -/
def releaseScope (all : Datum) (keep released : List Datum) : Entries :=
  [("released", .array released), ("keep", .array keep), ("sources", all)]

/-- The condition under which a node is passed over. -/
def passedOver : Expr :=
  .binary .either
    (.binary .either
      (.binary .differ (.call "type_of" [.var "src"]) (.str "Node"))
      (.call "_holds_node" [.var "keep", .var "src"]))
    (.call "_holds_node" [.var "released", .var "src"])

/-- The body of the loop that removes nodes. -/
def releaseBody : List Stmt :=
  [.branch [(passedOver, [.nextRound])] [],
    .run (HostModule.scene.call "remove_node" [.var "src"]),
    .run (.method (.var "released") "push" [.var "src"])]

/-- A round of the loop that removes nodes. -/
def releaseRound (env : Environment) (call : Caller) (d : Datum) : Eval Bool :=
  asRound (inBlock (declare "src" d >>= fun _ => evalBlock env call .unit releaseBody))

section Rounds

variable {all d : Datum} {keep released : List Datum}

/-- Whether a value is passed over: it is no node, or a node that is kept or was removed before. -/
def isPassedOver (keep released : List Datum) (d : Datum) : Bool :=
  (!(d.kind == "Node") || Datum.isAmong keep d) || Datum.isAmong released d

/-- The condition tells whether a value is passed over. -/
theorem yields_passedOver (h : env.Releases) :
    Yields (evalExpr env (callFunction env depth) passedOver)
      (("src", d) :: releaseScope all keep released) w (.ok (.bool (isPassedOver keep released d)))
      (("src", d) :: releaseScope all keep released) w := by
  have among : ∀ {name ds}, Keyed.lookup name (("src", d) :: releaseScope all keep released) =
      some (.array ds) → Yields (evalExpr env (callFunction env depth)
        (.call holdsFunction.name [.var name, .var "src"]))
        (("src", d) :: releaseScope all keep released) w (.ok (.bool (Datum.isAmong ds d)))
        (("src", d) :: releaseScope all keep released) w :=
    fun found => .call_provided h.holds (.items_cons (.var found) (.items_cons (.var rfl) .items_nil))
      rfl (comes_holds h.typeOf _ _ _)
  refine .either (.either (.differ (.typeOf h.typeOf rfl) (.str _) rfl) fun _ => ?_) fun _ => ?_
  · exact among rfl
  · exact among rfl

/-- A round passes a value over. -/
theorem yields_releaseRound_passed (h : env.Releases)
    (passed : isPassedOver keep released d = true) :
    Yields (releaseRound env (callFunction env depth) d) (releaseScope all keep released) w
      (.ok true) (releaseScope all keep released) w := by
  have condition : Yields (evalExpr env (callFunction env depth) passedOver)
      (("src", d) :: releaseScope all keep released) w (.ok (.bool true))
      (("src", d) :: releaseScope all keep released) w := by
    rw [← passed]
    exact yields_passedOver h
  have body : Yields (evalBlock env (callFunction env depth) .unit releaseBody)
      (("src", d) :: releaseScope all keep released) w (.error .nextRound)
      (("src", d) :: releaseScope all keep released) w :=
    .block_halt rfl (.branch_true condition (.block_single rfl .nextRound) rfl)
  exact .round body rfl

/-- A round removes a node. -/
theorem yields_releaseRound_removed (h : env.Releases) {handle : NodeHandle}
    (passed : isPassedOver keep released (.node handle) = false) :
    Yields (releaseRound env (callFunction env depth) (.node handle)) (releaseScope all keep released)
      w (.ok true) (releaseScope all keep (released ++ [Datum.node handle]))
      { w with scene := w.scene.removeNode handle.id } := by
  have condition : Yields (evalExpr env (callFunction env depth) passedOver)
      (("src", .node handle) :: releaseScope all keep released) w (.ok (.bool false))
      (("src", .node handle) :: releaseScope all keep released) w := by
    rw [← passed]
    exact yields_passedOver h
  have removed : Yields (evalExpr env (callFunction env depth)
      (HostModule.scene.call "remove_node" [.var "src"]))
      (("src", .node handle) :: releaseScope all keep released) w
      (.ok (.bool (w.scene.contains handle.id)))
      (("src", .node handle) :: releaseScope all keep released)
      { w with scene := w.scene.removeNode handle.id } := by
    refine .moduleCall (.items_cons (.var rfl) .items_nil) ?_
    rw [Environment.callModule, module?_name]
    exact Yields.withWorld fun w => (Datum.bool (w.scene.contains handle.id),
      { w with scene := w.scene.removeNode handle.id })
  have pushed : ∀ w', Yields (evalExpr env (callFunction env depth)
      (.method (.var "released") "push" [.var "src"]))
      (("src", .node handle) :: releaseScope all keep released) w' (.ok .unit)
      (("src", .node handle) :: releaseScope all keep (released ++ [Datum.node handle])) w' :=
    fun w' => .push rfl (.var rfl) (h.push 1)
  exact .round (.block_cons rfl (.branch_skipped condition) (.block_cons rfl (.run removed)
    (.block_single rfl (.run (pushed _))))) rfl

/-- The loop removes the nodes among some values, but for those that are kept. -/
theorem yields_release (h : env.Releases) (ds : List Datum)
    (gone : ∀ id, Datum.Includes released id → w.scene.contains id = false) :
    ∃ released', Yields (forItems (releaseRound env (callFunction env depth)) ds)
      (releaseScope all keep released) w (.ok .unit) (releaseScope all keep released')
      { w with scene := w.scene.drop keep ds } := by
  induction ds generalizing released w with
  | nil => exact ⟨released, .forItems_nil⟩
  | cons d ds ih =>
    -- what is passed over is also passed over in the scene
    have passing : isPassedOver keep released d = true →
        w.scene.drop keep (d :: ds) = w.scene.drop keep ds := by
      intro passed
      cases d with
      | node handle =>
        rw [Scene.drop]
        by_cases kept : Datum.isAmong keep (.node handle) = true
        · rw [if_pos kept]
        · have before : Datum.isAmong released (.node handle) = true := by
            simpa [isPassedOver, Datum.kind, kept] using passed
          have absent := gone _ (Datum.isAmong_node_iff.1 before)
          rw [if_neg kept, Scene.removeNode, if_neg (by simp [absent])]
      | _ => rfl
    cases passed : isPassedOver keep released d with
    | true =>
      obtain ⟨released', rest⟩ := ih gone
      rw [passing passed]
      exact ⟨released', .forItems_cons (yields_releaseRound_passed h passed) rest⟩
    | false =>
      obtain ⟨⟨node, apart⟩, -⟩ : (d.kind = "Node" ∧ Datum.isAmong keep d = false) ∧
          Datum.isAmong released d = false := by simpa [isPassedOver] using passed
      obtain ⟨handle, rfl⟩ := Datum.kind_eq_node_iff.1 node
      have gone' : ∀ id, Datum.Includes (released ++ [Datum.node handle]) id →
          (w.scene.removeNode handle.id).contains id = false := by
        rintro id ⟨other, m, rfl⟩
        rw [Scene.contains_removeNode]
        rcases List.mem_append.1 m with m | m
        · rw [gone _ ⟨other, m, rfl⟩, Bool.false_and]
        · cases List.mem_singleton.1 m
          simp
      obtain ⟨released', rest⟩ := @ih { w with scene := w.scene.removeNode handle.id } _ gone'
      have dropped : w.scene.drop keep (.node handle :: ds) =
          (w.scene.removeNode handle.id).drop keep ds := by
        rw [Scene.drop, if_neg (by simp [apart])]
      rw [dropped]
      exact ⟨released', .forItems_cons (yields_releaseRound_removed h passed) rest⟩

end Rounds

/-- The function that removes nodes removes those among the sources, but for those that are kept. -/
theorem comes_release (h : env.Releases) (sources keep : List Datum) (w : World) :
    Yields.Comes env releaseFunction [.array sources, .array keep] w (.ok .unit)
      { w with scene := w.scene.drop keep sources } := by
  intro depth
  obtain ⟨released', loop⟩ : ∃ released',
      Yields (forItems (releaseRound env (callFunction env depth)) sources)
        (releaseScope (.array sources) keep []) w (.ok .unit)
        (releaseScope (.array sources) keep released') { w with scene := w.scene.drop keep sources } :=
    yields_release h sources fun _ ⟨_, m, _⟩ => absurd m List.not_mem_nil
  exact ⟨.ok .unit, _, rfl, .block_cons rfl (.declared (.array .items_nil))
    (.block_single rfl (.forEach (.var rfl) loop))⟩

end Host

end Pipewright
