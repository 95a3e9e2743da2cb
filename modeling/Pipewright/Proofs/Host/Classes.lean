import Pipewright.Host.Basic
import Pipewright.Proofs.Registry.Classes
import Pipewright.Proofs.Script.Data
import Pipewright.Proofs.Unit.Retention

/-! # Classes that the host knows
A host knows the classes of its registry, and can be given more. Programs find a class under its
name in the module of the scene, where of two classes of one name the later one counts. Here it is
shown that the constant of a class of the registry evaluates to that class, as long as its name is
told from those of all others. -/

namespace Pipewright

namespace Script

open Script.Parser

/-- A text is read as a name, and as nothing else. -/
def ReadsName (name : String) : Prop :=
  (Lexer.tokens? name.toList).bind readName = some (name, [])

variable {name : String}

/-- What is read as a name is one word that is not reserved. -/
theorem readsName_iff : ReadsName name ↔
    Lexer.tokens? name.toList = some [.word name] ∧ isReserved name = false := by
  unfold ReadsName
  rw [Option.bind_eq_some_iff]
  constructor
  · rintro ⟨ts, cut, read⟩
    unfold readName at read
    split at read
    · split at read
      · cases read
      · next free =>
        cases read
        exact ⟨cut, by simpa using free⟩
    · cases read
  · rintro ⟨cut, free⟩
    exact ⟨_, cut, if_neg (by simp [free])⟩

/-- The tokens of a constant of a module are read as the constant. -/
theorem readPrimary_constant (m : HostModule) (free : isReserved name = false) (fuel room : Nat) :
    readPrimary (fuel + 1) room [.word m.name, .mark .path, .word name] =
      some (m.constant name, []) := by
  have named : readName [.word name] = some (name, []) := if_neg (by simp [free])
  unfold readPrimary
  cases m with
  | _ => exact Option.bind_eq_some_iff.2 ⟨_, named, rfl⟩

/-- The tokens of a constant of a module are those of a program whose only statement is the
constant. -/
theorem ofTokens?_constant (m : HostModule) (free : isReserved name = false) :
    Program.ofTokens? [.word m.name, .mark .path, .word name] =
      some ⟨[], [.value (m.constant name)]⟩ := by
  have read : readExpr 30 maxNesting [.word m.name, .mark .path, .word name] =
      some (m.constant name, []) :=
    readExpr_of_primary rfl rfl rfl (readPrimary_constant m free 26 maxNesting)
  have starts : StartsExpr [.word m.name, .mark .path, .word name] :=
    ⟨_, _, rfl, by cases m <;> decide⟩
  have statement : readStmt 31 maxNesting [.word m.name, .mark .path, .word name] =
      some (.value (m.constant name), []) := by
    rw [readStmt_simple starts, readSimple_expr starts, read]
  have whole : readProgram 32 .empty [.word m.name, .mark .path, .word name] =
      some ⟨[], [.value (m.constant name)]⟩ := by
    unfold readProgram
    split
    · next same => cases same
    · next same => cases same
    · next same =>
      have plain : m.name ≠ "fn" := by cases m <;> decide
      exact absurd (Token.word.inj (List.cons.inj same).1) plain
    · rw [statement]
      rfl
  unfold Program.ofTokens?
  rw [show 8 * [Token.word m.name, .mark .path, .word name].length + 8 = 32 from rfl, whole]
  rfl

/-- The text of a constant of a module is a program whose only statement is the constant. -/
theorem ofText?_constant (m : HostModule) (reads : ReadsName name) :
    Program.ofText? (m.name ++ "::" ++ name) = some ⟨[], [.value (m.constant name)]⟩ := by
  obtain ⟨cut, free⟩ := readsName_iff.1 reads
  have word : isPlainWord m.name.toList = true := by cases m <;> decide
  have front : Lexes anyChar (m.name ++ "::") [.word m.name, .mark .path] :=
    lexes_word_mark word (m := .path) rfl
  have whole : Lexer.tokens? (m.name ++ "::" ++ name).toList =
      some [.word m.name, .mark .path, .word name] := by
    rw [String.toList_append]
    rcases front name.toList (fun _ _ => rfl) with ⟨-, unnamed⟩ | both
    · have named : [Token.word m.name, .mark .path].all Token.isNamed = true := by
        cases m <;> decide
      rw [named] at unnamed
      cases unnamed
    · rw [both, cut]
      rfl
  unfold Program.ofText?
  rw [whole]
  exact ofTokens?_constant m free

end Script

namespace Host

/-! ## Constants -/

/-- The text of a constant of a module evaluates to what the module has under its name. -/
theorem evaluate_constant (h : Host) (m : HostModule) {name : String} {d : Datum}
    (reads : Script.ReadsName name)
    (known : (h.environment ⟨[], [.value (m.constant name)]⟩).constant? m.name name = some d) :
    (h.evaluate (m.name ++ "::" ++ name)).1 = .ok d := by
  have statements : runStatements (h.environment ⟨[], [.value (m.constant name)]⟩) =
      evalBlock (h.environment ⟨[], [.value (m.constant name)]⟩)
        (callFunction (h.environment ⟨[], [.value (m.constant name)]⟩) maxCalls) .unit
        [.value (m.constant name)] := rfl
  unfold evaluate
  rw [Script.ofText?_constant m reads]
  simp only [statements]
  generalize h.environment ⟨[], [.value (m.constant name)]⟩ = env at known
  have value : evalStmt env (callFunction env maxCalls) (.value (m.constant name)) = pure d := by
    show require (env.constant? m.name name) = _
    rw [known]
    rfl
  rw [evalBlock_cons rfl, value]
  rfl

/-- The last class of a name is found under it, if no other one has the name. -/
theorem Environment.class?_eq_some {env : Environment} {c : NodeClass} (there : c ∈ env.classes)
    (only : ∀ a ∈ env.classes, a.name = c.name → a = c) : env.class? c.name = some c := by
  unfold Environment.class?
  cases found : env.classes.reverse.find? fun a => a.name == c.name with
  | none =>
    have none := List.find?_eq_none.1 found c (List.mem_reverse.2 there)
    simp at none
  | some a =>
    have m := List.mem_reverse.1 (List.mem_of_find?_eq_some found)
    have same : a.name = c.name := by simpa using List.find?_some found
    rw [only a m same]

/-- The classes of a host are those of the registry and those from which its extra classes
descend. -/
theorem mem_classes_new_iff {r : Registry} {extra : List NodeClass} {a : NodeClass} :
    a ∈ (Host.new r extra).classes ↔ a ∈ r.nodeClasses ∨ ∃ e ∈ extra, e.Descends a :=
  Registry.mem_foldl_addLineage_iff

/-- The extra classes of a host do not clash with those of the registry: a class from which one of
them descends has the name of a class of the registry only if it is that class. -/
def Compatible (r : Registry) (extra : List NodeClass) : Prop :=
  ∀ e ∈ extra, ∀ a, e.Descends a → ∀ c ∈ r.nodeClasses, a.name = c.name → a = c

/-- The code of a class of the registry evaluates to the type of its nodes, if the class is told by
its name. -/
theorem evalType_class {r : Registry} {extra : List NodeClass} {c : NodeClass}
    (distinct : (r.nodeClasses.map NodeClass.name).Nodup) (compatible : Compatible r extra)
    (there : c ∈ r.nodeClasses) (reads : Script.ReadsName c.name) :
    ((Host.new r extra).evalType ("scene::" ++ c.name)).1 = .ok (.node c) := by
  have only : ∀ a ∈ (Host.new r extra).classes, a.name = c.name → a = c := by
    intro a m same
    rcases mem_classes_new_iff.1 m with m | ⟨e, m, descends⟩
    · exact List.inj_on_of_nodup_map distinct m there same
    · exact compatible e m a descends c there same
  have known : ((Host.new r extra).environment
      ⟨[], [.value (HostModule.scene.constant c.name)]⟩).constant? HostModule.scene.name c.name =
        some (.type (.node c)) := by
    unfold Environment.constant?
    rw [module?_name]
    show Option.map _ (Environment.class? _ _) = _
    rw [Environment.class?_eq_some (mem_classes_new_iff.2 (.inl there)) only]
    rfl
  have value := evaluate_constant (Host.new r extra) .scene reads known
  have text : "scene::" ++ c.name = HostModule.scene.name ++ "::" ++ c.name := rfl
  unfold evalType
  rw [text]
  generalize (Host.new r extra).evaluate (HostModule.scene.name ++ "::" ++ c.name) = result at value
  obtain ⟨outcome, after⟩ := result
  simp only at value
  subst value
  rfl

/-- The host knows every class that its operations mention. The classes of a registry are those from
which a class descends that occurs in the type of a parameter or of a return value, each once. If
they have different names, then the constant of each of them whose name is read as one evaluates to
that class, whatever classes are given to the host besides that do not clash with them. -/
theorem knows_classes (r : Registry) : r.nodeClasses.Nodup ∧
    (∀ a, a ∈ r.nodeClasses ↔ ∃ entry ∈ r.operations, ∃ c, entry.2.Mentions c ∧ c.Descends a) ∧
    ((r.nodeClasses.map NodeClass.name).Nodup → ∀ extra, Compatible r extra →
      ∀ c ∈ r.nodeClasses, Script.ReadsName c.name →
        ((Host.new r extra).evalType ("scene::" ++ c.name)).1 = .ok (.node c)) :=
  ⟨r.nodup_nodeClasses, fun _ => Registry.mem_nodeClasses_iff, fun distinct _ compatible _ there =>
    evalType_class distinct compatible there⟩

/-- The class of meshes. -/
def mesh : NodeClass := .derived "Mesh" (.named "Shape")

/-- A registry of one operation, which takes a list of meshes and returns a curve in a pack. -/
def meshing : Registry :=
  ⟨[("outline", ⟨"outline", [("of", .list (.annotated (.node mesh) []))],
    .pack "Outline" [("curve", .node (.derived "Curve" (.named "Shape")))], none, [], [],
    fun _ => pure .unit⟩)]⟩

/-- A host that knows solids, too, evaluates the constant of meshes to their class. -/
theorem knows_classes_mesh :
    (meshing.nodeClasses.map NodeClass.name).Nodup ∧
      Compatible meshing [.derived "Solid" mesh] ∧
      mesh ∈ meshing.nodeClasses ∧ Script.ReadsName mesh.name ∧
      ((Host.new meshing [.derived "Solid" mesh]).evalType "scene::Mesh").1 = .ok (.node mesh) := by
  have distinct : (meshing.nodeClasses.map NodeClass.name).Nodup := by decide +kernel
  have compatible : Compatible meshing [.derived "Solid" mesh] := by
    unfold Compatible
    simp only [← NodeClass.mem_lineage_iff]
    decide +kernel
  have there : mesh ∈ meshing.nodeClasses := by decide +kernel
  have reads : Script.ReadsName mesh.name := Script.readsName_iff.2
    ⟨(Script.Lexes.word (s := mesh.name) (by decide)).tokens?_eq_some (by decide), by decide⟩
  exact ⟨distinct, compatible, there, reads,
    (knows_classes meshing).2.2 distinct _ compatible mesh there reads⟩

end Host

end Pipewright
