import Mathlib.Data.List.Basic
import Pipewright.Proofs.Unit.Retention

/-! # The removal of nodes
The statements that remove nodes after the steps of a pipeline have been run leave all variables as
they are, and of the scene what is left when the nodes at some places are released, except those
that are kept by what is found at other places. -/

namespace Pipewright

open Host (Environment Yields evalBlock evalExpr evalStmt evalItems callFunction)
open Script (Expr Stmt)

/-- What is found at a place; nothing, where something other than a map is on the way. -/
def Access.read (a : Access) (s : Entries) : Datum :=
  ((Keyed.lookup a.base s).getD .unit).member a.path

/-- The ids of the nodes at some places. -/
def nodesAt (places : List Access) (s : Entries) : List String :=
  places.filterMap fun a => (a.read s).node?.map NodeHandle.id

/-- A value is a node or nothing. -/
def Datum.IsNodeOrUnit (d : Datum) : Prop := d = .unit ∨ ∃ handle, d = .node handle

/-- What is raised where a value is to be removed that is neither a node nor nothing. -/
def Datum.stray? : Datum → Option String
  | .unit => none
  | .node _ => none
  | d => some ("remove_node: expected a node, found " ++ d.hostKind)

/-- What is raised when the nodes at some places are to be removed, if one of the places holds
something that is neither a node nor nothing. -/
def strayAt? (places : List Access) (s : Entries) : Option String :=
  (places.map fun a => a.read s).findSome? Datum.stray?

/-- A node or nothing can be removed. -/
theorem Datum.stray?_eq_none_iff {d : Datum} : d.stray? = none ↔ d.IsNodeOrUnit := by
  unfold Datum.IsNodeOrUnit
  cases d <;> simp [Datum.stray?]

/-- The world after the node that a value is was removed. -/
def World.remove (w : World) : Datum → World
  | .node handle => { w with scene := w.scene.removeNode handle.id }
  | _ => w

/-- The world after the node that a value is was released. -/
def World.release (w : World) (kept : List NodeHandle) : Datum → World
  | .node handle => { w with scene := w.scene.release kept handle.id }
  | _ => w

/-- Releasing a node leaves what callbacks have seen. -/
theorem World.board_release (w : World) (kept : List NodeHandle) (d : Datum) :
    (w.release kept d).board = w.board := by
  cases d <;> rfl

/-- Releasing a node that is kept changes nothing. -/
theorem World.release_of_keeps {w : World} {kept : List NodeHandle} {d : Datum}
    (keeps : d.isNode (w.scene.keeps kept) = true) : w.release kept d = w := by
  cases d with
  | node handle =>
    have keeps' : w.scene.keeps kept handle.id = true := keeps
    rw [release, Scene.release, if_pos keeps']
  | _ => rfl

/-- Releasing a node that is not kept removes it. -/
theorem World.release_of_not_keeps {w : World} {kept : List NodeHandle} {d : Datum}
    (loose : d.isNode (w.scene.keeps kept) = false) :
    w.release kept d = w.remove d := by
  cases d with
  | node handle =>
    have loose' : ¬ w.scene.keeps kept handle.id = true := ne_true_of_eq_false loose
    rw [release, Scene.release, if_neg loose', remove]
  | _ => rfl

/-- The world after nodes were released one after another. -/
def World.releaseAll (w : World) (kept : List NodeHandle) (ids : List String) : World :=
  { w with scene := w.scene.releaseAll kept ids }

/-- The program of an environment has the functions that look into values. -/
structure Host.Environment.Searches (env : Environment) : Prop where
  /-- The kind of a value is told by the host. -/
  typeOf : env.Lacks "type_of"
  /-- The values of a map are told by the host. -/
  values : env.Lacks "values"
  /-- The function that follows a path. -/
  member : env.Provides memberFunction
  /-- The function that looks for a node. -/
  referenced : env.Provides referencedFunction

namespace Host

variable {env : Environment} {s : Entries} {w : World} {depth : Nat}

/-- The values of expressions that spell texts. -/
theorem yields_texts {call : Caller} (texts : List String) :
    Yields (evalItems env call (texts.map Expr.str)) s w (.ok (texts.map .text)) s w := by
  induction texts with
  | nil => exact .items_nil
  | cons text texts ih => exact .items_cons (.str text) ih

/-- What is read at a place that is there. -/
theorem yields_guarded (h : env.Searches) {a : Access} (there : Keyed.contains a.base s = true) :
    Yields (evalExpr env (callFunction env depth) a.guarded) s w (.ok (a.read s)) s w := by
  obtain ⟨d, found⟩ := Option.isSome_iff_exists.1 there
  unfold Access.guarded Access.read
  rw [found, Option.getD_some]
  by_cases whole : a.path.isEmpty = true
  · rw [if_pos whole, List.isEmpty_iff.1 whole]
    exact .var found
  · rw [if_neg whole]
    have arguments : Yields (evalItems env (callFunction env depth)
        [.var a.base, .items (a.path.map Expr.str)]) s w
        (.ok [d, .array (a.path.map .text)]) s w :=
      .items_cons (.var found) (.items_cons (.array (yields_texts a.path)) .items_nil)
    have called : Yields (evalExpr env (callFunction env depth) (.call memberFunction.name
        [.var a.base, .items (a.path.map Expr.str)])) s w (.ok (d.member a.path)) s w :=
      .call_provided h.member arguments rfl (comes_member h.typeOf d a.path)
    exact called

/-- What is read at places that are there. -/
theorem yields_guardeds (h : env.Searches) {places : List Access}
    (there : ∀ a ∈ places, Keyed.contains a.base s = true) :
    Yields (evalItems env (callFunction env depth) (places.map Access.guarded)) s w
      (.ok (places.map fun a => a.read s)) s w := by
  induction places with
  | nil => exact .items_nil
  | cons a places ih =>
    exact .items_cons (yields_guarded h (there a List.mem_cons_self))
      (ih fun a m => there a (List.mem_cons_of_mem _ m))

/-- Removing what is at a place, be it a node or nothing. -/
theorem yields_removeNode (h : env.Searches) {a : Access}
    (there : Keyed.contains a.base s = true) (fits : (a.read s).IsNodeOrUnit) :
    ∃ v, Yields (evalExpr env (callFunction env depth)
      (HostModule.scene.call "remove_node" [a.guarded])) s w (.ok v) s (w.remove (a.read s)) := by
  have argument : Yields (evalItems env (callFunction env depth) [a.guarded]) s w
      (.ok [a.read s]) s w :=
    .items_cons (yields_guarded h there) .items_nil
  rcases fits with e | ⟨handle, e⟩
  · rw [e] at argument ⊢
    refine ⟨.bool false, .moduleCall argument ?_⟩
    rw [Environment.callModule, module?_name]
    exact .pure _
  · rw [e] at argument ⊢
    refine ⟨.bool (w.scene.contains handle.id), .moduleCall argument ?_⟩
    rw [Environment.callModule, module?_name]
    have removed := Yields.withWorld (s := s) (w := w) fun w =>
      (Datum.bool (w.scene.contains handle.id),
        { w with scene := w.scene.removeNode handle.id })
    exact removed

/-- Looking for what is at a place tells whether it is a node that is kept. -/
theorem yields_kept (depth : Nat) (w : World) (h : env.Searches) {a : Access} {items : List Datum}
    (there : Keyed.contains a.base s = true)
    (retained : Keyed.lookup "_retained" s = some (.array items)) :
    Yields (evalExpr env (callFunction env depth)
      (.call referencedFunction.name [a.guarded, .var "_retained"])) s w
      (.ok (.bool ((a.read s).isNode (w.scene.keeps (Datum.nodesOfItems items))))) s w :=
  .call_provided h.referenced
    (.items_cons (yields_guarded h there) (.items_cons (.var retained) .items_nil)) rfl
    (comes_referenced h.typeOf h.values h.referenced _ items)

/-- The statement that removes the node at a place releases it. -/
theorem yields_removal (h : env.Searches) {a : Access} {items : List Datum}
    (there : Keyed.contains a.base s = true)
    (retained : Keyed.lookup "_retained" s = some (.array items))
    (fits : (a.read s).IsNodeOrUnit) :
    ∃ v, Yields (evalStmt env (callFunction env depth) (PipelineGraph.removalStmt a)) s w (.ok v) s
      (w.release (Datum.nodesOfItems items) (a.read s)) := by
  have search := yields_kept depth w h there retained
  have condition := search.not
  obtain ⟨v, removed⟩ : ∃ v, Yields (evalExpr env (callFunction env depth)
      (HostModule.scene.call "remove_node" [a.guarded])) s w (.ok v) s (w.remove (a.read s)) :=
    yields_removeNode h there fits
  cases keep : (a.read s).isNode (w.scene.keeps (Datum.nodesOfItems items)) with
  | true =>
    rw [keep] at condition
    rw [World.release_of_keeps keep]
    exact ⟨.unit, .branch_skipped condition⟩
  | false =>
    rw [keep] at condition
    rw [World.release_of_not_keeps keep]
    exact ⟨v, .branch_true condition (.block_single rfl (.run removed)) rfl⟩

/-- The statement that removes what is at a place raises a message, if that is neither a node nor
nothing. -/
theorem yields_removal_stray (h : env.Searches) {a : Access} {items : List Datum} {message : String}
    (there : Keyed.contains a.base s = true)
    (retained : Keyed.lookup "_retained" s = some (.array items))
    (stray : (a.read s).stray? = some message) :
    Yields (evalStmt env (callFunction env depth) (PipelineGraph.removalStmt a)) s w
      (.error (.thrown (.text message))) s w := by
  have search := yields_kept depth w h there retained
  have loose : (a.read s).isNode (w.scene.keeps (Datum.nodesOfItems items)) = false := by
    cases e : a.read s with
    | node handle =>
      rw [e] at stray
      cases stray
    | _ => rfl
  rw [loose] at search
  have argument : Yields (evalItems env (callFunction env depth) [a.guarded]) s w
      (.ok [a.read s]) s w :=
    .items_cons (yields_guarded h there) .items_nil
  have raised : Yields (env.callModule HostModule.scene.name "remove_node" [a.read s]) s w
      (.error (.thrown (.text message))) s w := by
    rw [Environment.callModule, module?_name]
    cases e : a.read s with
    | node handle =>
      rw [e] at stray
      cases stray
    | unit =>
      rw [e] at stray
      cases stray
    | _ =>
      rw [e] at stray
      cases stray
      exact .raise _
  exact .branch_true search.not (.block_halt rfl (.run (.moduleCall argument raised))) rfl

/-- The statements that remove the nodes at some places release them one after another. -/
theorem yields_removals (h : env.Searches) {places : List Access} {items : List Datum}
    (there : ∀ a ∈ places, Keyed.contains a.base s = true)
    (retained : Keyed.lookup "_retained" s = some (.array items))
    (fits : ∀ a ∈ places, (a.read s).IsNodeOrUnit) (v : Datum) :
    ∃ v', Yields (evalBlock env (callFunction env depth) v
      (places.map PipelineGraph.removalStmt)) s w (.ok v') s
      (w.releaseAll (Datum.nodesOfItems items) (nodesAt places s)) := by
  induction places generalizing w v with
  | nil => exact ⟨v, .block_nil v⟩
  | cons a places ih =>
    obtain ⟨v₁, first⟩ : ∃ v₁, Yields (evalStmt env (callFunction env depth)
        (PipelineGraph.removalStmt a)) s w (.ok v₁) s
        (w.release (Datum.nodesOfItems items) (a.read s)) :=
      yields_removal h (there a List.mem_cons_self) retained (fits a List.mem_cons_self)
    obtain ⟨v', rest⟩ := ih (w := w.release (Datum.nodesOfItems items) (a.read s))
      (fun a m => there a (List.mem_cons_of_mem _ m))
      (fun a m => fits a (List.mem_cons_of_mem _ m)) v₁
    have all := Yields.block_cons (v := v) rfl first rest
    refine ⟨v', ?_⟩
    rcases fits a List.mem_cons_self with e | ⟨handle, e⟩
    · rw [e] at all
      simpa [nodesAt, e, Datum.node?, World.release] using all
    · rw [e] at all
      simpa [nodesAt, e, Datum.node?, World.release, World.releaseAll, Scene.releaseAll] using all

/-- The statements that remove the nodes at some places raise a message, if one of the places holds
something that is neither a node nor nothing. -/
theorem yields_removals_stray (h : env.Searches) {places : List Access} {items : List Datum}
    {message : String} (there : ∀ a ∈ places, Keyed.contains a.base s = true)
    (retained : Keyed.lookup "_retained" s = some (.array items))
    (stray : strayAt? places s = some message) (v : Datum) :
    ∃ w', w'.board = w.board ∧ Yields (evalBlock env (callFunction env depth) v
      (places.map PipelineGraph.removalStmt)) s w (.error (.thrown (.text message))) s w' := by
  induction places generalizing w v with
  | nil => cases stray
  | cons a places ih =>
    have there' : Keyed.contains a.base s = true := there a List.mem_cons_self
    unfold strayAt? at stray ih
    rw [List.map_cons, List.findSome?_cons] at stray
    cases e : (a.read s).stray? with
    | some message' =>
      rw [e] at stray
      cases stray
      exact ⟨w, rfl, .block_halt rfl (yields_removal_stray h there' retained e)⟩
    | none =>
      rw [e] at stray
      obtain ⟨v₁, first⟩ : ∃ v₁, Yields (evalStmt env (callFunction env depth)
          (PipelineGraph.removalStmt a)) s w (.ok v₁) s
          (w.release (Datum.nodesOfItems items) (a.read s)) :=
        yields_removal h there' retained (Datum.stray?_eq_none_iff.1 e)
      obtain ⟨w', same, rest⟩ := ih (w := w.release (Datum.nodesOfItems items) (a.read s))
        (fun a m => there a (List.mem_cons_of_mem _ m)) stray v₁
      exact ⟨w', same.trans (World.board_release _ _ _), .block_cons rfl first rest⟩

/-- The removal of nodes releases those at the places that may be removed, except those that are
kept by what is found at the places that are retained. It raises a message if one of the places
holds something that is neither a node nor nothing. -/
theorem yields_cleanup (depth : Nat) (w : World) (h : env.Searches) (g : PipelineGraph)
    {managed returned : List Access} {inputs : List SlotKey}
    (there : ∀ a ∈ PipelineGraph.removable managed returned ++ g.retained returned inputs,
      Keyed.contains a.base s = true ∧ a.base ≠ "_retained") :
    ∃ r inner w', Yields (evalBlock env (callFunction env depth) .unit
        (g.cleanupStmts managed returned inputs)) s w r (inner ++ s) w' ∧
      match strayAt? (PipelineGraph.removable managed returned) s with
      | some message => r = .error (.thrown (.text message)) ∧ w'.board = w.board
      | none => (∃ v, r = .ok v) ∧ w' = w.releaseAll
        (Datum.nodesOfItems ((g.retained returned inputs).map fun a => a.read s))
        (nodesAt (PipelineGraph.removable managed returned) s) := by
  unfold PipelineGraph.cleanupStmts
  simp only
  by_cases none : (PipelineGraph.removable managed returned).isEmpty = true
  · rw [if_pos none, List.isEmpty_iff.1 none]
    exact ⟨.ok .unit, [], w, .block_remark rfl (.block_nil _), ⟨.unit, rfl⟩, rfl⟩
  · rw [if_neg none]
    have kept : Yields (evalExpr env (callFunction env depth)
        (.items ((g.retained returned inputs).map Access.guarded))) s w
        (.ok (.array ((g.retained returned inputs).map fun a => a.read s))) s w :=
      .array (yields_guardeds h fun a m => (there a (List.mem_append_right _ m)).1)
    generalize (g.retained returned inputs).map (fun a => a.read s) = items at kept ⊢
    have retained : Keyed.lookup "_retained" (("_retained", Datum.array items) :: s) =
        some (.array items) := by simp
    have there' : ∀ a ∈ PipelineGraph.removable managed returned, Keyed.contains a.base s = true ∧
        a.base ≠ "_retained" := fun a m => there a (List.mem_append_left _ m)
    generalize PipelineGraph.removable managed returned = places at there' ⊢
    -- the places are read the same behind the declared variable
    have behind : ∀ a ∈ places, ∀ d, Keyed.lookup a.base (("_retained", d) :: s) =
        Keyed.lookup a.base s := by
      intro a m d
      rw [Keyed.lookup_cons, if_neg (there' a m).2]
    have same : ∀ a ∈ places, ∀ d, a.read (("_retained", d) :: s) = a.read s := by
      intro a m d
      unfold Access.read
      rw [behind a m d]
    have there'' : ∀ a ∈ places,
        Keyed.contains a.base (("_retained", .array items) :: s) = true := by
      intro a m
      rw [Keyed.contains, behind a m]
      exact (there' a m).1
    cases stray : strayAt? places s with
    | some message =>
      have stray' : strayAt? places (("_retained", .array items) :: s) = some message := by
        rw [← stray, strayAt?, List.map_congr_left fun a m => same a m _]
        rfl
      obtain ⟨w', same, raised⟩ : ∃ w', w'.board = w.board ∧
          Yields (evalBlock env (callFunction env depth) .unit
            (places.map PipelineGraph.removalStmt)) (("_retained", .array items) :: s) w
            (.error (.thrown (.text message))) (("_retained", .array items) :: s) w' :=
        yields_removals_stray h there'' retained stray' .unit
      exact ⟨_, [("_retained", .array items)], w', .block_cons rfl (.declared kept) raised, rfl,
        same⟩
    | none =>
      have fits : ∀ a ∈ places, (a.read (("_retained", .array items) :: s)).IsNodeOrUnit := by
        intro a m
        rw [same a m]
        exact Datum.stray?_eq_none_iff.1
          (List.findSome?_eq_none_iff.1 stray _ (List.mem_map_of_mem m))
      have nodes : nodesAt places (("_retained", .array items) :: s) = nodesAt places s := by
        refine List.filterMap_congr fun a m => ?_
        rw [same a m]
      obtain ⟨v, removed⟩ : ∃ v, Yields (evalBlock env (callFunction env depth) .unit
          (places.map PipelineGraph.removalStmt)) (("_retained", .array items) :: s) w (.ok v)
          (("_retained", .array items) :: s)
          (w.releaseAll (Datum.nodesOfItems items)
            (nodesAt places (("_retained", .array items) :: s))) :=
        yields_removals h there'' retained fits .unit
      rw [nodes] at removed
      exact ⟨_, [("_retained", .array items)], _, .block_cons rfl (.declared kept) removed,
        ⟨v, rfl⟩, rfl⟩

end Host

end Pipewright
