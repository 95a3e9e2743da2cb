import Pipewright.Proofs.Host.Statements
import Pipewright.Proofs.Scene.Removal
import Pipewright.Unit.Run

/-! # What stays when nodes are removed
The two functions of every unit that look into values: one follows a path of fields, the other tells
whether a node is found in some values or referenced by a node that is. Neither changes
anything. -/

namespace Pipewright

open Host (Environment Yields evalBlock evalExpr callFunction)

/-! ## Nodes in values -/

namespace Datum

/-- What is found at a path of fields; nothing, where something other than a map is on the way. -/
def member : Datum → List String → Datum
  | d, [] => d
  | .map entries, name :: path => ((Keyed.lookup name entries).getD .unit).member path
  | _, _ :: _ => .unit

/-- Whether a value is a node with an id of some kind. -/
def isNode (p : String → Bool) : Datum → Bool
  | .node handle => p handle.id
  | _ => false

mutual

/-- The nodes in a value, at any depth of arrays and maps. -/
def nodes : Datum → List NodeHandle
  | .node handle => [handle]
  | .array items => nodesOfItems items
  | .map entries => nodesOfEntries entries
  | _ => []

/-- The nodes in a list of values. -/
def nodesOfItems : List Datum → List NodeHandle
  | [] => []
  | item :: items => nodes item ++ nodesOfItems items

/-- The nodes in a list of entries. -/
def nodesOfEntries : List (String × Datum) → List NodeHandle
  | [] => []
  | (_, d) :: entries => nodes d ++ nodesOfEntries entries

end

/-- The nodes in a list of values are those in each of them. -/
theorem nodesOfItems_eq (items : List Datum) : nodesOfItems items = items.flatMap nodes := by
  induction items with
  | nil => rfl
  | cons item items ih => rw [nodesOfItems, ih, List.flatMap_cons]

/-- The nodes in a list of entries are those in their values. -/
theorem nodesOfEntries_eq (entries : List (String × Datum)) :
    nodesOfEntries entries = nodesOfItems (entries.map Prod.snd) := by
  induction entries with
  | nil => rfl
  | cons entry entries ih =>
    obtain ⟨name, d⟩ := entry
    rw [nodesOfEntries, ih, List.map_cons, nodesOfItems]

/-- The values of entries are smaller than the map of them. -/
theorem sizeOf_values_lt (entries : List (String × Datum)) :
    sizeOf (entries.map Prod.snd) < sizeOf (Datum.map entries) := by
  induction entries with
  | nil => simp
  | cons entry entries ih =>
    obtain ⟨name, d⟩ := entry
    simp only [List.map_cons, Datum.map.sizeOf_spec, List.cons.sizeOf_spec, Prod.mk.sizeOf_spec]
      at ih ⊢
    omega

end Datum

/-! ## Kinds -/

namespace Host

open Script (Expr Stmt)

variable {env : Environment} {call : Caller} {s s' : Entries} {w w' : World}

/-- A module is found under its name. -/
@[simp] theorem module?_name (m : HostModule) : Environment.module? m.name = some m := by
  cases m <;> rfl

namespace Yields

/-- The kind of a variable's value. -/
theorem typeOf {name : String} {d : Datum} (lacks : env.Lacks "type_of")
    (there : Keyed.lookup name s = some d) :
    Yields (evalExpr env call (.call "type_of" [.var name])) s w (.ok (.text d.kind)) s w :=
  call_native (items_cons (var there) items_nil) (lacks _) (.pure _)

/-- The test for a kind tells whether a value is of it. -/
theorem isKind {name : String} {d : Datum} (kind : String) (lacks : env.Lacks "type_of")
    (there : Keyed.lookup name s = some d) :
    Yields (evalExpr env call (Pipewright.isKind name kind)) s w (.ok (.bool (d.kind == kind))) s
      w :=
  equal (typeOf lacks there) (str kind) rfl

/-- The function is left with a value if a condition holds. -/
theorem returnIf_true {condition result : Expr} {d : Datum}
    (h : Yields (evalExpr env call condition) s w (.ok (.bool true)) s w)
    (h' : Yields (evalExpr env call result) s w (.ok d) s w) :
    Yields (evalStmt env call (returnIf condition result)) s w (.error (.returned d)) s w :=
  branch_true h (block_single rfl (leaveFunction h')) rfl

/-- Nothing is done if a condition does not hold. -/
theorem returnIf_false {condition result : Expr}
    (h : Yields (evalExpr env call condition) s w (.ok (.bool false)) s w) :
    Yields (evalStmt env call (returnIf condition result)) s w (.ok .unit) s w :=
  branch_skipped h

end Yields

/-! ## Following a path -/

/-- A value is a map exactly if it is of that kind. -/
theorem kind_eq_map_iff {d : Datum} : d.kind = "map" ↔ ∃ entries, d = .map entries := by
  cases d <;> simp [Datum.kind]

/-- The body of the loop that follows a path. -/
def followBody : List Stmt :=
  [.branch [(.binary .differ (.call "type_of" [.var "value"]) (.str "map"),
      [.leaveFunction (some .unit)])] [],
    .set "value" (.index (.var "value") (.var "key"))]

/-- A round of the loop that follows a path. -/
def followRound (env : Environment) (call : Caller) (key : Datum) : Eval Bool :=
  asRound (inBlock (declare "key" key >>= fun _ => evalBlock env call .unit followBody))

/-- A round goes from a map to an entry of it. -/
theorem yields_followRound_map (lacks : env.Lacks "type_of") (all : Datum) (name : String)
    (entries : Entries) :
    Yields (followRound env call (.text name)) [("path", all), ("value", .map entries)] w
      (.ok true) [("path", all), ("value", (Keyed.lookup name entries).getD .unit)] w := by
  have condition : Yields
      (evalExpr env call (.binary .differ (.call "type_of" [.var "value"]) (.str "map")))
      [("key", .text name), ("path", all), ("value", .map entries)] w (.ok (.bool false))
      [("key", .text name), ("path", all), ("value", .map entries)] w :=
    .differ (.typeOf lacks rfl) (.str _) rfl
  have entry : Yields (evalExpr env call (.index (.var "value") (.var "key")))
      [("key", .text name), ("path", all), ("value", .map entries)] w
      (.ok ((Keyed.lookup name entries).getD .unit))
      [("key", .text name), ("path", all), ("value", .map entries)] w :=
    .index (.var rfl) (.var rfl) rfl
  have assign : Yields
      (evalStmt env call (.set "value" (.index (.var "value") (.var "key"))))
      [("key", .text name), ("path", all), ("value", .map entries)] w (.ok .unit)
      [("key", .text name), ("path", all), ("value", (Keyed.lookup name entries).getD .unit)] w :=
    .set entry rfl
  exact .round (.block_cons rfl (.branch_skipped condition) (.block_single rfl assign)) rfl

/-- A round at anything but a map leaves the function with nothing. -/
theorem yields_followRound_other (lacks : env.Lacks "type_of") (all key : Datum) {d : Datum}
    (other : d.kind ≠ "map") :
    Yields (followRound env call key) [("path", all), ("value", d)] w (.error (.returned .unit))
      [("path", all), ("value", d)] w := by
  have condition : Yields
      (evalExpr env call (.binary .differ (.call "type_of" [.var "value"]) (.str "map")))
      [("key", key), ("path", all), ("value", d)] w (.ok (.bool true))
      [("key", key), ("path", all), ("value", d)] w := by
    refine .differ (.typeOf lacks rfl) (.str _) ?_
    simp [Datum.differ?, Datum.equal?, other]
  have leave : Yields (evalBlock env call .unit followBody)
      [("key", key), ("path", all), ("value", d)] w (.error (.returned .unit))
      [("key", key), ("path", all), ("value", d)] w :=
    .block_halt rfl (.branch_true condition (.block_single rfl (.leaveFunction .unit)) rfl)
  exact .round leave rfl

/-- The loop that follows a path comes to what is found there: in the variable, or, where something
other than a map is on the way, by leaving the function with nothing. -/
theorem yields_follow (call : Caller) (w : World) (lacks : env.Lacks "type_of") (all : Datum)
    (path : List String) (d : Datum) :
    Yields (forItems (followRound env call) (path.map .text)) [("path", all), ("value", d)] w
        (.ok .unit) [("path", all), ("value", d.member path)] w ∨
      d.member path = .unit ∧ ∃ last, Yields (forItems (followRound env call) (path.map .text))
        [("path", all), ("value", d)] w (.error (.returned .unit))
        [("path", all), ("value", last)] w := by
  induction path generalizing d with
  | nil => exact .inl .forItems_nil
  | cons name path ih =>
    by_cases kind : d.kind = "map"
    · obtain ⟨entries, rfl⟩ := kind_eq_map_iff.1 kind
      have round : Yields (followRound env call (.text name))
          [("path", all), ("value", .map entries)] w (.ok true)
          [("path", all), ("value", (Keyed.lookup name entries).getD .unit)] w :=
        yields_followRound_map lacks all name entries
      rcases ih ((Keyed.lookup name entries).getD .unit) with rest | ⟨none, last, rest⟩
      · exact .inl (.forItems_cons round rest)
      · exact .inr ⟨none, last, .forItems_cons round rest⟩
    · have none : d.member (name :: path) = .unit := by
        cases d <;> first | rfl | exact absurd rfl kind
      exact .inr ⟨none, d, .forItems_halt (yields_followRound_other lacks all (.text name) kind)⟩

/-- The function that follows a path comes to what is found there. -/
theorem comes_member (lacks : env.Lacks "type_of") (d : Datum) (path : List String) :
    Yields.Comes env memberFunction [d, .array (path.map .text)] w (.ok (d.member path)) w := by
  intro depth
  have loop : ∀ {r s'}, Yields (forItems (followRound env (callFunction env depth))
      (path.map .text)) [("path", .array (path.map .text)), ("value", d)] w r s' w →
      Yields (evalStmt env (callFunction env depth) (.forEach "key" (.var "path") followBody))
        [("path", .array (path.map .text)), ("value", d)] w r s' w :=
    fun h => .forEach (.var rfl) h
  rcases yields_follow (callFunction env depth) w lacks (.array (path.map .text)) path d with
    found | ⟨none, last, left⟩
  · exact ⟨_, _, rfl, .block_cons rfl (loop found) (.block_single rfl (.value (.var rfl)))⟩
  · exact ⟨_, _, by rw [none]; rfl, .block_halt rfl (loop left)⟩

/-! ## Looking for a node -/

/-- The branches of the loop that looks for a node, one for each kind of value that may hold one. -/
def searchBranch : Stmt :=
  .branch [
    (.binary .equal (.var "kind") (.str "map"),
      [returnIf (.call "_node_referenced_by"
        [.var "node", .method (.var "option") "values" []]) (.bool true)]),
    (.binary .equal (.var "kind") (.str "array"),
      [returnIf (.call "_node_referenced_by" [.var "node", .var "option"]) (.bool true)]),
    (.binary .equal (.var "kind") (.str "Node"), [
      returnIf (HostModule.scene.call "same_node" [.var "option", .var "node"]) (.bool true),
      .forEach "role" (HostModule.scene.call "reference_roles" [.var "option"]) [
        returnIf (HostModule.scene.call "has_reference"
          [.var "option", .var "role", .var "node"]) (.bool true)]])] []

/-- A round of the loop that looks for a node. -/
def searchRound (env : Environment) (call : Caller) (option : Datum) : Eval Bool :=
  asRound (inBlock (declare "option" option >>= fun _ => evalBlock env call .unit
    [.declare "kind" (some (.call "type_of" [.var "option"])), searchBranch]))

/-- The variables of the function that looks for a node. -/
def searchScope (node candidates : Datum) : Entries := [("candidates", candidates), ("node", node)]

/-- The variables of a round of the loop that looks for a node. -/
def optionScope (node candidates option : Datum) : Entries :=
  ("kind", .text option.kind) :: ("option", option) :: searchScope node candidates

/-- What the search comes to: it leaves the function where the node is found. -/
def searchResult {α : Type} (found : Bool) (a : α) : Except Halt α :=
  if found then .error (.returned (.bool true)) else .ok a

section Search

variable {node all : Datum}

/-- A round comes to what its branches come to. -/
theorem yields_searchRound (lacks : env.Lacks "type_of") {d v : Datum} {found : Bool}
    (h : Yields (evalStmt env call searchBranch) (optionScope node all d) w (searchResult found v)
      (optionScope node all d) w) :
    Yields (searchRound env call d) (searchScope node all) w (searchResult found true)
      (searchScope node all) w := by
  have kind : Yields (evalStmt env call (.declare "kind" (some (.call "type_of" [.var "option"]))))
      (("option", d) :: searchScope node all) w (.ok .unit) (optionScope node all d) w :=
    .declared (.typeOf lacks rfl)
  have body := Yields.block_cons (v := .unit) rfl kind (.block_single rfl h)
  have dropped : Yields (inBlock _) (searchScope node all) w (searchResult found v)
      (searchScope node all) w := body.declare_then.inBlock_dropping rfl
  cases found with
  | true => exact dropped.asRound
  | false => exact dropped.asRound

/-- A test for the kind that was declared. -/
theorem yields_kind {kind : String} {d : Datum} {same : Bool} (h : (d.kind == kind) = same) :
    Yields (evalExpr env call (.binary .equal (.var "kind") (.str kind))) (optionScope node all d) w
      (.ok (.bool same)) (optionScope node all d) w := by
  subst h
  exact .equal (.var rfl) (.str kind) rfl

/-- The function is left, or not, as a condition holds or not. -/
theorem yields_returnIf {condition : Expr} {found : Bool}
    (h : Yields (evalExpr env call condition) s w (.ok (.bool found)) s w) :
    Yields (evalStmt env call (returnIf condition (.bool true))) s w (searchResult found .unit) s
      w := by
  cases found with
  | true => exact .returnIf_true h (.bool true)
  | false => exact .returnIf_false h

/-- Values of other kinds are passed over. -/
theorem yields_searchBranch_other {d : Datum} (map : d.kind ≠ "map") (array : d.kind ≠ "array")
    (other : d.kind ≠ "Node") :
    Yields (evalStmt env call searchBranch) (optionScope node all d) w (.ok .unit)
      (optionScope node all d) w :=
  .branch_false (yields_kind (by simpa using map)) <|
    .branch_false (yields_kind (by simpa using array)) <|
      .branch_skipped (yields_kind (by simpa using other))

/-- A test of two nodes for being the same. -/
theorem yields_sameNode {handle : NodeHandle} (option : Keyed.lookup "option" s = some (.node handle))
    (there : Keyed.lookup "node" s = some node) :
    Yields (evalExpr env call (HostModule.scene.call "same_node" [.var "option", .var "node"])) s w
      (.ok (.bool (node.isNode fun id => handle.id == id))) s w := by
  refine .moduleCall (.items_cons (.var option) (.items_cons (.var there) .items_nil)) ?_
  rw [Environment.callModule, module?_name]
  cases node with
  | node target => exact .pure _
  | _ => exact .pure _

/-- A test for a reference under a role. -/
theorem yields_hasReference {handle : NodeHandle} {role : String}
    (option : Keyed.lookup "option" s = some (.node handle))
    (found : Keyed.lookup "role" s = some (.text role))
    (there : Keyed.lookup "node" s = some node) :
    Yields (evalExpr env call
      (HostModule.scene.call "has_reference" [.var "option", .var "role", .var "node"])) s w
      (.ok (.bool (node.isNode (w.scene.hasReference handle.id role)))) s w := by
  refine .moduleCall (.items_cons (.var option) (.items_cons (.var found)
    (.items_cons (.var there) .items_nil))) ?_
  rw [Environment.callModule, module?_name]
  cases node with
  | node target => exact .readScene _
  | _ => exact .pure _

/-- The loop over roles finds a reference under one of them. -/
theorem yields_roles {handle : NodeHandle} (roles : List String)
    (option : Keyed.lookup "option" s = some (.node handle))
    (there : Keyed.lookup "node" s = some node) :
    Yields (forItems (fun item => asRound (inBlock (declare "role" item >>= fun _ =>
        evalBlock env call .unit [returnIf (HostModule.scene.call "has_reference"
          [.var "option", .var "role", .var "node"]) (.bool true)])))
      (roles.map .text)) s w
      (searchResult (roles.any fun role => node.isNode (w.scene.hasReference handle.id role)) .unit)
      s w := by
  induction roles with
  | nil => exact .forItems_nil
  | cons role roles ih =>
    have test : Yields (evalBlock env call .unit [returnIf (HostModule.scene.call "has_reference"
        [.var "option", .var "role", .var "node"]) (.bool true)]) (("role", .text role) :: s) w
        (searchResult (node.isNode (w.scene.hasReference handle.id role)) .unit)
        (("role", .text role) :: s) w :=
      .block_single rfl (yields_returnIf (yields_hasReference (by simpa using option)
        (by simp) (by simpa using there)))
    have round := Yields.round test rfl
    rw [List.any_cons]
    cases found : node.isNode (w.scene.hasReference handle.id role) with
    | true =>
      rw [found] at round
      exact .forItems_halt round
    | false =>
      rw [found] at round
      exact .forItems_cons round ih

/-- The loop over the roles of a node finds a reference from it. -/
theorem yields_references (handle : NodeHandle) :
    Yields (evalStmt env call (.forEach "role"
      (HostModule.scene.call "reference_roles" [.var "option"])
      [returnIf (HostModule.scene.call "has_reference"
        [.var "option", .var "role", .var "node"]) (.bool true)]))
      (optionScope node all (.node handle)) w
      (searchResult (node.isNode (w.scene.refers handle.id)) .unit)
      (optionScope node all (.node handle)) w := by
  have listed : Yields
      (evalExpr env call (HostModule.scene.call "reference_roles" [.var "option"]))
      (optionScope node all (.node handle)) w
      (.ok (.array ((w.scene.rolesOf handle.id).map .text)))
      (optionScope node all (.node handle)) w := by
    refine .moduleCall (.items_cons (.var rfl) .items_nil) ?_
    rw [Environment.callModule, module?_name]
    refine Eq.subst (motive := fun r => Yields _ _ _ r _ _) ?_ (Yields.readScene _)
    unfold Scene.rolesOf
    cases w.scene.roles handle.id <;> rfl
  have some : node.isNode (w.scene.refers handle.id) = (w.scene.rolesOf handle.id).any
      fun role => node.isNode (w.scene.hasReference handle.id role) := by
    cases node with
    | node target => rfl
    | _ => simp [Datum.isNode]
  rw [some]
  exact .forEach listed (yields_roles _ rfl rfl)

/-- The branch for nodes finds the node itself and the holder of a reference to it. -/
theorem yields_searchBranch_node (handle : NodeHandle) :
    Yields (evalStmt env call searchBranch) (optionScope node all (.node handle)) w
      (searchResult (node.isNode fun id => handle.id == id || w.scene.refers handle.id id) .unit)
      (optionScope node all (.node handle)) w := by
  refine .branch_false (yields_kind rfl) <| .branch_false (yields_kind rfl) <|
    .branch_true (yields_kind rfl) ?_ rfl
  have itself : Yields (evalStmt env call (returnIf
      (HostModule.scene.call "same_node" [.var "option", .var "node"]) (.bool true)))
      (optionScope node all (.node handle)) w
      (searchResult (node.isNode fun id => handle.id == id) .unit)
      (optionScope node all (.node handle)) w :=
    yields_returnIf (yields_sameNode rfl rfl)
  cases node with
  | node target =>
    simp only [Datum.isNode] at itself ⊢
    cases same : handle.id == target.id with
    | true =>
      rw [same] at itself
      exact .block_halt rfl itself
    | false =>
      rw [same] at itself
      rw [Bool.false_or]
      exact .block_cons rfl itself (.block_single rfl (yields_references handle))
  | _ => exact .block_cons rfl itself (.block_single rfl (yields_references handle))

/-- The branch for arrays finds what a search among their items finds. -/
theorem yields_searchBranch_array {depth : Nat} {items : List Datum} {found : Bool}
    (provides : env.Provides referencedFunction)
    (h : Yields.Comes env referencedFunction [node, .array items] w (.ok (.bool found)) w) :
    Yields (evalStmt env (callFunction env depth) searchBranch)
      (optionScope node all (.array items)) w (searchResult found .unit)
      (optionScope node all (.array items)) w := by
  have called : Yields (evalExpr env (callFunction env depth)
      (.call referencedFunction.name [.var "node", .var "option"]))
      (optionScope node all (.array items)) w (.ok (.bool found))
      (optionScope node all (.array items)) w :=
    .call_provided provides (.items_cons (.var rfl) (.items_cons (.var rfl) .items_nil)) rfl h
  exact .branch_false (yields_kind rfl) <| .branch_true (yields_kind rfl)
    (.block_single rfl (yields_returnIf called)) rfl

/-- The branch for maps finds what a search among their values finds. -/
theorem yields_searchBranch_map {depth : Nat} {entries : Entries} {found : Bool}
    (provides : env.Provides referencedFunction) (lacks : env.Lacks "values")
    (h : Yields.Comes env referencedFunction [node, .array (entries.map Prod.snd)] w
      (.ok (.bool found)) w) :
    Yields (evalStmt env (callFunction env depth) searchBranch)
      (optionScope node all (.map entries)) w (searchResult found .unit)
      (optionScope node all (.map entries)) w := by
  have values : Yields (evalExpr env (callFunction env depth) (.method (.var "option") "values" []))
      (optionScope node all (.map entries)) w (.ok (.array (entries.map Prod.snd)))
      (optionScope node all (.map entries)) w :=
    .method_native rfl .items_nil (lacks _) (by decide) (.pure _)
  have called : Yields (evalExpr env (callFunction env depth) (.call referencedFunction.name
      [.var "node", .method (.var "option") "values" []]))
      (optionScope node all (.map entries)) w (.ok (.bool found))
      (optionScope node all (.map entries)) w :=
    .call_provided provides (.items_cons (.var rfl) (.items_cons values .items_nil)) rfl h
  exact .branch_true (yields_kind rfl) (.block_single rfl (yields_returnIf called)) rfl

/-- The loop over values finds what one of its rounds finds. -/
theorem yields_search {items : List Datum} {p : Datum → Bool}
    (h : ∀ d ∈ items, Yields (searchRound env call d) (searchScope node all) w
      (searchResult (p d) true) (searchScope node all) w) :
    Yields (forItems (searchRound env call) items) (searchScope node all) w
      (searchResult (items.any p) .unit) (searchScope node all) w := by
  induction items with
  | nil => exact .forItems_nil
  | cons d items ih =>
    have round := h d List.mem_cons_self
    rw [List.any_cons]
    cases found : p d with
    | true =>
      rw [found] at round
      exact .forItems_halt round
    | false =>
      rw [found] at round
      exact .forItems_cons round (ih fun d m => h d (List.mem_cons_of_mem _ m))

end Search

/-- A node is kept by what is in some values exactly if one of them keeps it. -/
theorem any_isNode_keeps (node : Datum) (scene : Scene Entries) (items : List Datum) :
    (items.any fun d => node.isNode (scene.keeps d.nodes)) =
      node.isNode (scene.keeps (Datum.nodesOfItems items)) := by
  cases node with
  | node target =>
    rw [Datum.nodesOfItems_eq]
    simp [Datum.isNode, Scene.keeps, List.any_flatMap]
  | _ => simp [Datum.isNode]

/-- The function that looks for a node tells whether it is kept by the nodes in some values. -/
theorem comes_referenced (typeOf : env.Lacks "type_of") (values : env.Lacks "values")
    (provides : env.Provides referencedFunction) (node : Datum) (items : List Datum) :
    Yields.Comes env referencedFunction [node, .array items] w
      (.ok (.bool (node.isNode (w.scene.keeps (Datum.nodesOfItems items))))) w := by
  -- a container among the values is smaller than the list of them, and so is its list of values
  induction size : sizeOf items using Nat.strongRecOn generalizing items with
  | ind n ih =>
    subst size
    intro depth
    have nothing : Yields (evalExpr env (callFunction env depth) (isKind "node" "()"))
        (searchScope node (.array items)) w (.ok (.bool (node.kind == "()")))
        (searchScope node (.array items)) w :=
      .isKind "()" typeOf rfl
    by_cases unit : node = .unit
    · subst unit
      exact ⟨_, _, rfl, .block_halt rfl (.returnIf_true nothing (.bool false))⟩
    · have other : (node.kind == "()") = false := by
        cases node <;> first | rfl | exact absurd rfl unit
      rw [other] at nothing
      have rounds : ∀ d ∈ items, Yields (searchRound env (callFunction env depth) d)
          (searchScope node (.array items)) w
          (searchResult (node.isNode (w.scene.keeps d.nodes)) true)
          (searchScope node (.array items)) w := by
        intro d m
        have smaller := List.sizeOf_lt_of_mem m
        refine yields_searchRound (v := .unit) typeOf ?_
        cases d with
        | node handle =>
          have e : w.scene.keeps (Datum.node handle).nodes =
              fun id => handle.id == id || w.scene.refers handle.id id := by
            funext id
            simp [Datum.nodes, Scene.keeps]
          rw [e]
          exact yields_searchBranch_node handle
        | array inner =>
          have less : sizeOf inner < sizeOf items := by
            simp only [Datum.array.sizeOf_spec] at smaller
            omega
          exact yields_searchBranch_array provides (ih _ less inner rfl)
        | map entries =>
          have less : sizeOf (entries.map Prod.snd) < sizeOf items :=
            Nat.lt_trans (Datum.sizeOf_values_lt entries) smaller
          rw [Datum.nodes, Datum.nodesOfEntries_eq]
          exact yields_searchBranch_map provides values (ih _ less _ rfl)
        | _ =>
          have none : node.isNode (w.scene.keeps []) = false := by cases node <;> rfl
          simp only [Datum.nodes, none]
          exact yields_searchBranch_other (by simp [Datum.kind]) (by simp [Datum.kind])
            (by simp [Datum.kind])
      have loop := yields_search rounds
      rw [any_isNode_keeps] at loop
      have first : Yields (evalStmt env (callFunction env depth)
          (returnIf (isKind "node" "()") (.bool false))) (searchScope node (.array items)) w
          (.ok .unit) (searchScope node (.array items)) w :=
        .returnIf_false nothing
      cases found : node.isNode (w.scene.keeps (Datum.nodesOfItems items)) with
      | true =>
        rw [found] at loop
        exact ⟨_, _, rfl, .block_cons rfl first (.block_halt rfl (.forEach (.var rfl) loop))⟩
      | false =>
        rw [found] at loop
        exact ⟨_, _, rfl, .block_cons rfl first (.block_cons rfl (.forEach (.var rfl) loop)
          (.block_single rfl (.value (.bool false))))⟩

end Host

end Pipewright
