import Mathlib.Data.List.Sort
import Mathlib.Data.Set.List
import Pipewright.Proofs.Keyed
import Pipewright.Proofs.Text.Lines
import Pipewright.Unit.Piece

/-! # Blocks of import lines
The lines of a block that a piece asks for are the import lines of the modules that it needs, or
empty. So a cleaned block makes exactly the modules known that the pieces need, without the one that
is always known. -/

namespace Pipewright

open Script (importLine)

/-- A text whose lines are the import lines of some modules, or empty. -/
def IsImports (text : String) (modules : List HostModule) : Prop :=
  ∃ lines : List String, lines ≠ [] ∧ Text.joinLines lines = text ∧
    ∀ line ≠ "", line ∈ lines ↔ ∃ m ∈ modules, line = importLine m.name

variable {text : String} {modules : List HostModule}

/-! ## Lines -/

/-- An import line is a line, and there are no blanks around it. -/
theorem trim_importLine (m : HostModule) :
    Text.InLine (importLine m.name).toList ∧
      String.ofList (Text.trim (importLine m.name).toList) = importLine m.name := by
  cases m <;> exact ⟨by decide +kernel, by decide +kernel⟩

/-- An import line is not empty. -/
theorem importLine_ne_empty (m : HostModule) : importLine m.name ≠ "" := by
  cases m <;> decide +kernel

/-- Texts that differ before the first one ends keep their order when they go on. -/
theorem lt_append_of_lt {cs cs' : List Char} (h : cs < cs') (apart : ¬ cs <+: cs')
    (rest rest' : List Char) : cs ++ rest < cs' ++ rest' := by
  induction h with
  | nil => exact absurd List.nil_prefix apart
  | rel below => exact .rel below
  | cons _ ih => exact .cons (ih fun starts => apart (List.cons_prefix_cons.2 ⟨rfl, starts⟩))

/-- The name of a module stands in its import line as it is. -/
theorem toList_importLine (m : HostModule) :
    (importLine m.name).toList = "import \"".toList ++ (m.name.toList ++
      ('"' :: (" as ".toList ++ (m.name.toList ++ [';'])))) := by
  have plain : m.name.toList.flatMap Script.escape = m.name.toList := by cases m <;> decide +kernel
  have start : "import \"".toList = "import ".toList ++ ['"'] := by decide
  rw [start]
  simp [importLine, Script.quoted, Script.quote, plain]

/-- Import lines are in the order of the names of their modules. -/
theorem importLine_lt {m m' : HostModule} (h : m.name < m'.name) :
    importLine m.name < importLine m'.name := by
  have apart : ¬ m.name.toList <+: m'.name.toList := by
    intro starts
    have same : m = m' := by revert starts; cases m <;> cases m' <;> decide +kernel
    exact String.lt_irrefl _ (same ▸ h)
  rw [String.lt_iff, toList_importLine, toList_importLine]
  exact List.append_left_lt (lt_append_of_lt (String.lt_iff.1 h) apart _ _)

/-- An import line is wanted unless its module is always known. -/
theorem isWantedImport_importLine (m : HostModule) :
    isWantedImport (importLine m.name) = true ↔ m ≠ .types := by
  cases m <;> decide +kernel

/-- The modules that some modules' names are those of, each once and in the order of the names. -/
theorem exists_modules (modules : List HostModule) :
    ∃ ordered : List HostModule,
      Keyed.distinct (modules.map HostModule.name) = ordered.map HostModule.name := by
  have named : Keyed.distinct (modules.map HostModule.name) ∈
      Set.range (List.map HostModule.name) := by
    rw [Set.range_list_map]
    intro name m
    obtain ⟨module', -, e⟩ := List.mem_map.1 (Keyed.mem_distinct.1 m)
    exact ⟨module', e⟩
  obtain ⟨ordered, e⟩ := named
  exact ⟨ordered, e.symm⟩

/-- The import lines of modules depend on which modules they are, not on their order. -/
theorem importLines_congr {modules modules' : List HostModule}
    (same : ∀ m, m ∈ modules ↔ m ∈ modules') : importLines modules = importLines modules' := by
  unfold importLines
  congr 2
  refine (Keyed.pairwise_distinct _).eq_of_mem_iff (Keyed.pairwise_distinct _) fun name => ?_
  simp only [Keyed.mem_distinct, List.mem_map, same]

/-- The import lines of modules are one line for each of them. -/
theorem importLines_eq {modules ordered : List HostModule}
    (once : Keyed.distinct (modules.map HostModule.name) = ordered.map HostModule.name) :
    importLines modules = Text.joinLines (ordered.map fun m => importLine m.name) := by
  rw [importLines, once, List.map_map]
  rfl

namespace IsImports

/-- The empty text makes nothing known. -/
theorem empty : IsImports "" [] :=
  ⟨[""], by simp, rfl, fun line content => by simp [content]⟩

/-- The import lines of modules make these known. -/
theorem importLines (modules : List HostModule) : IsImports (importLines modules) modules := by
  have each : ∀ line, line ∈ (Keyed.distinct (modules.map HostModule.name)).map importLine ↔
      ∃ m ∈ modules, line = importLine m.name := by
    intro line
    simp [Keyed.mem_distinct, eq_comm]
  unfold Pipewright.importLines
  cases e : (Keyed.distinct (modules.map HostModule.name)).map importLine with
  | nil =>
    rw [e] at each
    exact ⟨[""], by simp, rfl, fun line content => by simp [content, ← each]⟩
  | cons first others => exact ⟨first :: others, by simp, rfl, fun line _ => e ▸ each line⟩

/-- Blocks below each other make known what each of them makes known. -/
theorem joinLines {texts : List String} {needed : List (List HostModule)}
    (h : List.Forall₂ IsImports texts needed) :
    IsImports (Text.joinLines texts) needed.flatten := by
  induction h with
  | nil => exact empty
  | @cons text modules texts needed first others ih =>
    obtain ⟨lines, some', rfl, each⟩ := first
    cases others with
    | nil =>
      refine ⟨lines, some', ?_, by simpa using each⟩
      rw [Text.joinLines, Text.joinLines, String.intercalate_singleton]
    | cons next others =>
      obtain ⟨lines', some'', joined, each'⟩ := ih
      refine ⟨lines ++ lines', by simp [some'], ?_, fun line content => ?_⟩
      · unfold Text.joinLines at joined ⊢
        rw [String.intercalate_append_of_ne_nil some' some'', joined]
        exact (String.intercalate_cons_of_ne_nil (List.cons_ne_nil _ _)).symm
      · rw [List.mem_append, each line content, each' line content, List.flatten_cons]
        simp [or_and_right, exists_or]

/-- The lines of a block that are wanted are those of its modules, but for the one that is always
known. -/
theorem mem_wanted_iff (h : IsImports text modules) {line : String} :
    line ∈ (trimmedLines text).filter isWantedImport ↔
      ∃ m ∈ modules.filter (· ≠ .types), line = importLine m.name := by
  obtain ⟨lines, -, rfl, each⟩ := h
  have inLine : ∀ line ∈ lines, Text.InLine line.toList := by
    intro line m
    by_cases content : line = ""
    · rw [content]
      exact fun c m => absurd m List.not_mem_nil
    · obtain ⟨m', -, rfl⟩ := (each line content).1 m
      exact (trim_importLine m').1
  simp only [List.mem_filter, decide_eq_true_eq]
  constructor
  · rintro ⟨trimmed, wanted⟩
    obtain ⟨cs, m, rfl⟩ := List.mem_map.1 trimmed
    have content : cs ≠ [] := by
      rintro rfl
      exact absurd wanted (by decide)
    obtain ⟨line, m', rfl⟩ := (Text.mem_lines_joinLines_iff inLine content).1 m
    obtain ⟨m'', needed, rfl⟩ := (each line fun e => content (by rw [e]; rfl)).1 m'
    rw [(trim_importLine m'').2] at wanted ⊢
    exact ⟨m'', ⟨needed, (isWantedImport_importLine m'').1 wanted⟩, rfl⟩
  · rintro ⟨m, ⟨needed, other⟩, rfl⟩
    have content := importLine_ne_empty m
    have some' : (importLine m.name).toList ≠ [] := by simpa using content
    have there := (Text.mem_lines_joinLines_iff inLine some').2
      ⟨_, (each _ content).2 ⟨m, needed, rfl⟩, rfl⟩
    exact ⟨List.mem_map.2 ⟨_, there, (trim_importLine m).2⟩, (isWantedImport_importLine m).2 other⟩

/-- A cleaned block is that of its modules, but for the one that is always known. -/
theorem cleanImports_eq (h : IsImports text modules) :
    Pipewright.cleanImports text = Pipewright.importLines (modules.filter (· ≠ .types)) := by
  have ascending : ((Keyed.distinct ((modules.filter (· ≠ .types)).map HostModule.name)).map
      importLine).Pairwise (· < ·) := by
    refine List.pairwise_map.2 ((Keyed.pairwise_distinct _).imp_of_mem fun named named' below => ?_)
    obtain ⟨m, -, rfl⟩ := List.mem_map.1 (Keyed.mem_distinct.1 named)
    obtain ⟨m', -, rfl⟩ := List.mem_map.1 (Keyed.mem_distinct.1 named')
    exact importLine_lt below
  unfold Pipewright.cleanImports Pipewright.importLines
  congr 1
  refine (Keyed.pairwise_distinct _).eq_of_mem_iff ascending fun line => ?_
  rw [Keyed.mem_distinct, h.mem_wanted_iff]
  simp only [List.mem_map, Keyed.mem_distinct]
  constructor
  · rintro ⟨m, needed, rfl⟩
    exact ⟨m.name, ⟨m, needed, rfl⟩, rfl⟩
  · rintro ⟨name, ⟨m, needed, rfl⟩, rfl⟩
    exact ⟨m, needed, rfl⟩

/-- A cleaned block makes known what the block does, but for the module that is always known. -/
theorem cleanImports (h : IsImports text modules) :
    IsImports (Pipewright.cleanImports text) (modules.filter (· ≠ .types)) := by
  rw [h.cleanImports_eq]
  exact .importLines _

end IsImports

end Pipewright
