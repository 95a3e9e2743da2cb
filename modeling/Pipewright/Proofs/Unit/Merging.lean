import Mathlib.Data.List.Sort
import Pipewright.Proofs.Keyed
import Pipewright.Proofs.Text.Trimmed
import Pipewright.Unit.Source

/-! # Merging blocks of imports
A cleaned block is told by a set of lines, and putting blocks below each other unites their sets. So
it does not matter whether the blocks of a unit's pieces are cleaned before or after they are put
together, nor in which order and in which groups that is done. -/

namespace Pipewright

open Script (importLine)

variable {a b text line : String}

/-! ## Wanted lines -/

/-- The lines of a block that stay when it is cleaned, in the order of the block. -/
def wantedLines (text : String) : List String := (trimmedLines text).filter isWantedImport

/-- A line is wanted if it is a trimmed line of the block, is not empty, and does not import the
module that is always known. -/
theorem mem_wantedLines_iff : line ∈ wantedLines text ↔
    (∃ cs ∈ Text.lines text.toList, line = String.ofList (Text.trim cs)) ∧ line ≠ "" ∧
      line ≠ importLine HostModule.types.name := by
  unfold wantedLines trimmedLines isWantedImport
  rw [List.mem_filter, List.mem_map, Bool.and_eq_true, bne_iff_ne, bne_iff_ne]
  simp only [eq_comm]

/-- The wanted lines of a block above another one are those of both. -/
theorem wantedLines_append (a b : String) :
    wantedLines (a ++ "\n" ++ b) = wantedLines a ++ wantedLines b := by
  obtain ⟨gap, empty, e⟩ := Text.exists_map_trim_lines_append a.toList b.toList
  have cut : trimmedLines (a ++ "\n" ++ b) =
      trimmedLines a ++ (gap.map String.ofList ++ trimmedLines b) := by
    have trimmed : ∀ text : String, trimmedLines text =
        ((Text.lines text.toList).map Text.trim).map String.ofList := fun text => by
      rw [trimmedLines, List.map_map]
      rfl
    have joined : (a ++ "\n" ++ b).toList = a.toList ++ '\n' :: b.toList := by
      rw [String.toList_append, String.toList_append, List.append_assoc]
      rfl
    rw [trimmed, joined, e, List.map_append, List.map_append, ← trimmed, ← trimmed]
  -- an empty line between the two is not wanted
  have nothing : (gap.map String.ofList).filter isWantedImport = [] := by
    rw [List.filter_eq_nil_iff]
    intro line m
    obtain ⟨cs, there, rfl⟩ := List.mem_map.1 m
    rw [empty cs there]
    decide
  rw [wantedLines, cut, List.filter_append, List.filter_append, nothing, List.nil_append]
  rfl

/-- The wanted lines of blocks below each other are those of all of them. -/
theorem wantedLines_joinLines (texts : List String) :
    wantedLines (Text.joinLines texts) = texts.flatMap wantedLines := by
  induction texts with
  | nil => rfl
  | cons text texts ih =>
    cases texts with
    | nil => rw [Text.joinLines, String.intercalate_singleton, List.flatMap_singleton]
    | cons next texts =>
      have joined : Text.joinLines (text :: next :: texts) =
          text ++ "\n" ++ Text.joinLines (next :: texts) :=
        String.intercalate_cons_of_ne_nil (List.cons_ne_nil _ _)
      rw [joined, wantedLines_append, ih]
      rfl

/-- A wanted line has no blanks around it. -/
theorem isTrimmed_of_mem_wantedLines (m : line ∈ wantedLines text) : Text.IsTrimmed line := by
  obtain ⟨⟨cs, there, rfl⟩, content, -⟩ := mem_wantedLines_iff.1 m
  refine ⟨content, ?_, ?_⟩
  · rw [String.toList_ofList]
    exact Text.newline_not_mem_trim there
  · rw [String.toList_ofList, Text.trim_trim]

/-- A wanted line is the only wanted line of the block that it is. -/
theorem wantedLines_line (m : line ∈ wantedLines text) : wantedLines line = [line] := by
  have one := isTrimmed_of_mem_wantedLines m
  have some' : line.toList ≠ [] := by simpa using one.content
  have wanted : isWantedImport line = true := (List.mem_filter.1 m).2
  have alone : trimmedLines line = [line] := by
    rw [trimmedLines, Text.lines_line one.line, if_neg some', List.map_singleton, one.bare,
      String.ofList_toList]
  rw [wantedLines, alone, List.filter_cons_of_pos wanted, List.filter_nil]

/-! ## Cleaned blocks -/

/-- A cleaned block consists of the wanted lines, each once and in ascending order. -/
theorem cleanImports_eq_joinLines (text : String) :
    cleanImports text = Text.joinLines (Keyed.distinct (wantedLines text)) := rfl

/-- The lines of a cleaned block are the wanted lines, each once and in ascending order. -/
theorem lineTexts_cleanImports (text : String) :
    Text.lineTexts (cleanImports text) = Keyed.distinct (wantedLines text) := by
  rw [cleanImports_eq_joinLines]
  apply Text.lineTexts_joinLines
  intro line m
  exact isTrimmed_of_mem_wantedLines (Keyed.mem_distinct.1 m)

/-- The lines of a cleaned block are wanted in the block. -/
theorem mem_lineTexts_cleanImports_iff :
    line ∈ Text.lineTexts (cleanImports text) ↔ line ∈ wantedLines text := by
  rw [lineTexts_cleanImports, Keyed.mem_distinct]

/-- Cleaning keeps what is wanted. -/
theorem wantedLines_cleanImports (text : String) :
    wantedLines (cleanImports text) = Keyed.distinct (wantedLines text) := by
  rw [cleanImports_eq_joinLines, wantedLines_joinLines]
  -- each of the lines wants just itself
  have each : ∀ line ∈ Keyed.distinct (wantedLines text), wantedLines line = [line] := fun line m =>
    wantedLines_line (Keyed.mem_distinct.1 m)
  rw [List.flatMap_congr each, List.flatMap_singleton']

/-- A line is wanted in a cleaned block if it is wanted in the block. -/
theorem mem_wantedLines_cleanImports_iff :
    line ∈ wantedLines (cleanImports text) ↔ line ∈ wantedLines text := by
  rw [wantedLines_cleanImports, Keyed.mem_distinct]

/-- A cleaned block depends on which lines are wanted, not on their order or number. -/
theorem cleanImports_congr (same : ∀ line, line ∈ wantedLines a ↔ line ∈ wantedLines b) :
    cleanImports a = cleanImports b := by
  have kept : Keyed.distinct (wantedLines a) = Keyed.distinct (wantedLines b) := by
    apply (Keyed.pairwise_distinct _).eq_of_mem_iff (Keyed.pairwise_distinct _)
    intro line
    rw [Keyed.mem_distinct, Keyed.mem_distinct, same]
  rw [cleanImports_eq_joinLines, cleanImports_eq_joinLines, kept]

/-- The lines of a block above another one, when it is cleaned, are the union of the lines of
both. -/
theorem mem_lineTexts_cleanImports_append_iff :
    line ∈ Text.lineTexts (cleanImports (a ++ "\n" ++ b)) ↔
      line ∈ Text.lineTexts (cleanImports a) ∨ line ∈ Text.lineTexts (cleanImports b) := by
  simp only [mem_lineTexts_cleanImports_iff, wantedLines_append, List.mem_append]

/-! ## Ways to merge -/

/-- A way in which blocks are merged: they are put below each other in groups, and cleaned at any
time. -/
inductive Merging where
  /-- A block as it is. -/
  | block (text : String)
  /-- Some blocks below each other. -/
  | stacked (parts : List Merging)
  /-- A block that is cleaned. -/
  | cleaned (part : Merging)

namespace Merging

mutual

/-- The block that comes of merging. -/
def result : Merging → String
  | .block text => text
  | .stacked parts => Text.joinLines (results parts)
  | .cleaned part => cleanImports (result part)

/-- The blocks that come of merging several times. -/
def results : List Merging → List String
  | [] => []
  | part :: parts => result part :: results parts

end

mutual

/-- The blocks that are merged, in their order. -/
def blocks : Merging → List String
  | .block text => [text]
  | .stacked parts => blocksOfParts parts
  | .cleaned part => blocks part

/-- The blocks that are merged one time after another, in their order. -/
def blocksOfParts : List Merging → List String
  | [] => []
  | part :: parts => blocks part ++ blocksOfParts parts

end

mutual

/-- However blocks are merged, a line is wanted in what comes of it if it is wanted in one of the
blocks. -/
theorem mem_wantedLines_result_iff :
    (m : Merging) → (line ∈ wantedLines m.result ↔ ∃ block ∈ m.blocks, line ∈ wantedLines block)
  | .block text => by
    unfold result blocks
    simp
  | .stacked parts => by
    unfold result blocks
    rw [wantedLines_joinLines, List.mem_flatMap]
    exact mem_wantedLines_results_iff parts
  | .cleaned part => by
    unfold result blocks
    rw [mem_wantedLines_cleanImports_iff]
    exact mem_wantedLines_result_iff part

/-- The same is true when several blocks come of it. -/
theorem mem_wantedLines_results_iff :
    (parts : List Merging) → ((∃ text ∈ results parts, line ∈ wantedLines text) ↔
      ∃ block ∈ blocksOfParts parts, line ∈ wantedLines block)
  | [] => by
    unfold results blocksOfParts
    simp
  | part :: parts => by
    have first := mem_wantedLines_result_iff part
    have others := mem_wantedLines_results_iff parts
    unfold results blocksOfParts
    simp only [List.exists_mem_cons_iff, List.mem_append, or_and_right, exists_or]
    rw [first, others]

end

end Merging

/-! ## Merging -/

/-- A piece of a unit whose block of imports is cleaned. -/
def Piece.withCleanImports (p : Piece) : Piece := { p with imports := cleanImports p.imports }

/-- The block of a unit whose pieces have clean blocks is the one that it has anyway. -/
theorem assemble_withCleanImports (name : String) (s : Settings) (pieces : List Piece) :
    assemble name s (pieces.map Piece.withCleanImports) = assemble name s pieces := by
  have same : cleanImports (Text.joinLines ((pieces.map Piece.withCleanImports).map Piece.imports)) =
      cleanImports (Text.joinLines (pieces.map Piece.imports)) := by
    apply cleanImports_congr
    intro line
    rw [wantedLines_joinLines, wantedLines_joinLines, List.map_map]
    simp [Piece.withCleanImports, mem_wantedLines_cleanImports_iff]
  have bodies : (pieces.map Piece.withCleanImports).map (fun p => p.body s.tab) =
      pieces.map fun p => p.body s.tab := by
    rw [List.map_map]
    exact List.map_congr_left fun p _ => rfl
  unfold assemble
  rw [same, bodies]

/-- Merging blocks of imports unites sets of lines. A cleaned block has each trimmed line of the
block once and in ascending order, but for empty lines and for the module that is always known, and
nothing else. Cleaning it again changes nothing, and of two blocks that are put below each other
neither the order matters nor whether they were cleaned before. So blocks can be merged in any
order and in any groups, and cleaned at any time: in the end the same block is left. -/
theorem cleanImports_merges (a b : String) :
    ((∀ line, line ∈ Text.lineTexts (cleanImports a) ↔
        (∃ cs ∈ Text.lines a.toList, line = String.ofList (Text.trim cs)) ∧ line ≠ "" ∧
          line ≠ importLine HostModule.types.name) ∧
      (Text.lineTexts (cleanImports a)).Pairwise (· < ·) ∧
      Text.joinLines (Text.lineTexts (cleanImports a)) = cleanImports a) ∧
    cleanImports (cleanImports a) = cleanImports a ∧
    cleanImports (a ++ "\n" ++ b) = cleanImports (b ++ "\n" ++ a) ∧
    cleanImports (a ++ "\n" ++ b) = cleanImports (cleanImports a ++ "\n" ++ cleanImports b) ∧
    (∀ line, line ∈ Text.lineTexts (cleanImports (a ++ "\n" ++ b)) ↔
      line ∈ Text.lineTexts (cleanImports a) ∨ line ∈ Text.lineTexts (cleanImports b)) ∧
    (∀ m m' : Merging, (∀ block, block ∈ m.blocks ↔ block ∈ m'.blocks) →
      cleanImports m.result = cleanImports m'.result) ∧
    ∀ name s pieces, assemble name s (pieces.map Piece.withCleanImports) = assemble name s pieces := by
  refine ⟨⟨fun line => ?_, ?_, ?_⟩, ?_, ?_, ?_, fun line => ?_, fun m m' same => ?_, ?_⟩
  · rw [mem_lineTexts_cleanImports_iff, mem_wantedLines_iff]
  · rw [lineTexts_cleanImports]
    exact Keyed.pairwise_distinct _
  · rw [lineTexts_cleanImports, cleanImports_eq_joinLines]
  · apply cleanImports_congr
    intro line
    exact mem_wantedLines_cleanImports_iff
  · apply cleanImports_congr
    intro line
    rw [wantedLines_append, wantedLines_append, List.mem_append, List.mem_append, or_comm]
  · apply cleanImports_congr
    intro line
    simp only [wantedLines_append, List.mem_append, mem_wantedLines_cleanImports_iff]
  · exact mem_lineTexts_cleanImports_append_iff
  · apply cleanImports_congr
    intro line
    simp only [Merging.mem_wantedLines_result_iff, same]
  · exact assemble_withCleanImports

/-- Two blocks that share a line, one of them with a carriage return and an empty line, are merged
to one block when they are cleaned on the way, in another order, and in other groups. -/
theorem cleanImports_merges_regrouped :
    let upper : Merging := .block "b;\r\n\n  a; "
    let lower : Merging := .block "a;\nimport \"types\" as types;"
    let grouped : Merging := .stacked [.cleaned (.stacked [lower, .cleaned upper]), lower]
    (∀ block, block ∈ grouped.blocks ↔ block ∈ (Merging.stacked [upper, lower]).blocks) ∧
      cleanImports grouped.result = cleanImports (Merging.stacked [upper, lower]).result ∧
      cleanImports grouped.result = "a;\nb;" := by
  intro upper lower grouped
  have same : ∀ block, block ∈ grouped.blocks ↔
      block ∈ (Merging.stacked [upper, lower]).blocks := by
    intro block
    simp only [grouped, upper, lower, Merging.blocks, Merging.blocksOfParts, List.append_nil,
      List.mem_append, List.mem_singleton]
    tauto
  have merged := (cleanImports_merges "" "").2.2.2.2.2.1 grouped (.stacked [upper, lower]) same
  exact ⟨same, merged, merged.trans (by decide +kernel)⟩

end Pipewright
