import Mathlib.Data.List.DropRight
import Pipewright.Proofs.Text.Lines

/-! # Trimmed lines
What becomes of the lines of a text when the blanks around each are dropped. How a line ends does not
matter then, since what ends a line is blank: a text above another one has, but for empty lines, the
trimmed lines of both. -/

namespace Pipewright.Text

variable {cs rest line : List Char} {c : Char} {text : String} {texts : List String}

/-! ## Trimming -/

/-- What is dropped at the end is what is dropped at the start of the text read backwards. -/
theorem trimEnd_eq_rdropWhile (cs : List Char) : trimEnd cs = cs.rdropWhile isBlankChar := rfl

/-- What is left after trimming is a part of the text. -/
theorem mem_of_mem_trim (m : c ∈ trim cs) : c ∈ cs := by
  have within : c ∈ trimStart cs := (List.rdropWhile_prefix isBlankChar _).subset m
  exact (List.dropWhile_suffix isBlankChar).subset within

/-- A blank at the end makes no difference to trimming. -/
theorem trim_concat (blank : isBlankChar c = true) (cs : List Char) :
    trim (cs ++ [c]) = trim cs := by
  unfold trim trimStart
  rw [List.dropWhile_append]
  by_cases all : (cs.dropWhile isBlankChar).isEmpty = true
  · -- nothing but blanks, so nothing is left of either
    rw [if_pos all, List.isEmpty_iff.1 all, List.dropWhile_cons_of_pos blank]
    rfl
  · rw [if_neg all, trimEnd_eq_rdropWhile, trimEnd_eq_rdropWhile]
    exact List.rdropWhile_concat_pos isBlankChar _ c blank

/-- Blanks at the end make no difference to trimming. -/
theorem trim_append_blanks {blanks : List Char} (h : isBlank blanks = true) (cs : List Char) :
    trim (cs ++ blanks) = trim cs := by
  induction blanks generalizing cs with
  | nil => rw [List.append_nil]
  | cons c blanks ih =>
    have both : (isBlankChar c && isBlank blanks) = true := h
    obtain ⟨first, others⟩ := Bool.and_eq_true_iff.1 both
    have moved : cs ++ c :: blanks = (cs ++ [c]) ++ blanks := by simp
    rw [moved, ih others, trim_concat first]

/-- What is left after trimming starts with no blank. -/
theorem trimStart_trim (cs : List Char) : trimStart (trim cs) = trim cs := by
  cases left : trim cs with
  | nil => rfl
  | cons c more =>
    -- the first character left stood first after the blanks at the start
    have starts : c :: more <+: trimStart cs := left ▸ List.rdropWhile_prefix isBlankChar _
    obtain ⟨after, e⟩ := starts
    have visible : isBlankChar c = false := by
      have head := List.head?_dropWhile_not isBlankChar cs
      rwa [show cs.dropWhile isBlankChar = c :: (more ++ after) from e.symm] at head
    exact List.dropWhile_cons_of_neg (by rw [visible]; decide)

/-- Trimming a text again changes nothing. -/
@[simp] theorem trim_trim (cs : List Char) : trim (trim cs) = trim cs := by
  calc trim (trim cs) = trimEnd (trim cs) := by rw [trim, trimStart_trim]
    _ = trim cs := List.rdropWhile_idempotent isBlankChar (trimStart cs)

/-- A text that trimming does not change ends with no blank. -/
theorem isBlankChar_of_trim_concat (h : trim (cs ++ [c]) = cs ++ [c]) : isBlankChar c = false := by
  by_contra visible
  rw [trim_concat (Bool.not_eq_false _ ▸ visible)] at h
  have longer : (trim cs).length ≤ cs.length := by
    have ends : (trim cs).length ≤ (trimStart cs).length :=
      (List.rdropWhile_prefix isBlankChar _).length_le
    exact ends.trans (List.length_dropWhile_le _ _)
  rw [h, List.length_append, List.length_singleton] at longer
  omega

/-! ## Lines -/

/-- What ends a line is blank. -/
theorem exists_dropLineEnd_append (cs : List Char) :
    ∃ ending, isBlank ending = true ∧ cs = dropLineEnd cs ++ ending := by
  fun_induction dropLineEnd cs with
  | case1 => exact ⟨[], rfl, rfl⟩
  | case2 => exact ⟨['\n'], by decide, rfl⟩
  | case3 => exact ⟨['\r', '\n'], by decide, rfl⟩
  | case4 c rest _ _ ih =>
    obtain ⟨ending, blank, e⟩ := ih
    exact ⟨ending, blank, by rw [List.cons_append, ← e]⟩

/-- How a line ends does not matter once it is trimmed. -/
@[simp] theorem trim_dropLineEnd (cs : List Char) : trim (dropLineEnd cs) = trim cs := by
  obtain ⟨ending, blank, e⟩ := exists_dropLineEnd_append cs
  conv_rhs => rw [e, trim_append_blanks blank]

/-- The trimmed lines of a text are its trimmed pieces. -/
theorem map_trim_lines (cs : List Char) : (lines cs).map trim = (linePieces cs).map trim := by
  rw [lines, List.map_map]
  exact List.map_congr_left fun piece _ => trim_dropLineEnd piece

/-- A text above another one has the trimmed lines of both, and perhaps an empty line between
them. -/
theorem exists_map_trim_lines_append (cs rest : List Char) :
    ∃ gap : List (List Char), (∀ line ∈ gap, line = []) ∧
      (lines (cs ++ '\n' :: rest)).map trim =
        (lines cs).map trim ++ (gap ++ (lines rest).map trim) := by
  obtain ⟨closed, start, rfl, open', cut⟩ := exists_linePieces_split cs
  have ended : trim (start ++ ['\n']) = trim start := trim_concat (by decide) start
  have pieces : (lines (closed ++ start ++ '\n' :: rest)).map trim =
      (linePieces closed).map trim ++ (trim start :: (linePieces rest).map trim) := by
    rw [map_trim_lines, List.append_assoc, cut, linePieces_append open', List.map_append,
      List.map_cons, ended]
  rw [pieces, map_trim_lines, map_trim_lines, cut, linePieces_line open', List.map_append]
  by_cases none : start = []
  · -- the upper text ends with its last line, so the line feed leaves an empty one
    subst none
    exact ⟨[[]], by simp, by simp⟩
  · exact ⟨[], by simp, by simp [none]⟩

/-- A piece of a text holds no line feed but the one that ends it. -/
theorem exists_of_mem_linePieces {piece : List Char} (m : piece ∈ linePieces cs) :
    ∃ inside, '\n' ∉ inside ∧ (piece = inside ∨ piece = inside ++ ['\n']) := by
  induction cs generalizing piece with
  | nil => exact absurd m List.not_mem_nil
  | cons c cs ih =>
    unfold linePieces at m
    split at m
    · next newline =>
      rcases List.mem_cons.1 m with rfl | m
      · exact ⟨[], List.not_mem_nil, .inr (by rw [newline]; rfl)⟩
      · exact ih m
    · next other =>
      split at m
      · rw [List.mem_singleton.1 m]
        exact ⟨[c], by simpa using Ne.symm other, .inl rfl⟩
      · next first others e =>
        rcases List.mem_cons.1 m with rfl | m
        · -- the character joins the first of the pieces behind it
          obtain ⟨inside, h, e'⟩ := ih (e ▸ List.mem_cons_self)
          refine ⟨c :: inside, ?_, ?_⟩
          · rw [List.mem_cons, not_or]
            exact ⟨Ne.symm other, h⟩
          · rcases e' with rfl | rfl
            · exact .inl rfl
            · exact .inr rfl
        · exact ih (e ▸ List.mem_cons_of_mem _ m)

/-- A trimmed line holds no line feed. -/
theorem newline_not_mem_trim (m : line ∈ lines cs) : '\n' ∉ trim line := by
  obtain ⟨piece, there, rfl⟩ := List.mem_map.1 m
  rw [trim_dropLineEnd]
  obtain ⟨inside, h, rfl | rfl⟩ := exists_of_mem_linePieces there
  · exact fun within => h (mem_of_mem_trim within)
  · rw [trim_concat (by decide)]
    exact fun within => h (mem_of_mem_trim within)

/-! ## Texts of lines -/

/-- The lines of a text, as texts. -/
def lineTexts (text : String) : List String := (lines text.toList).map String.ofList

/-- A text that is one line, with something on it and no blanks around that. -/
structure IsTrimmed (text : String) : Prop where
  /-- There is something. -/
  content : text ≠ ""
  /-- It is on one line. -/
  line : '\n' ∉ text.toList
  /-- There are no blanks around it. -/
  bare : trim text.toList = text.toList

/-- The lines of joined trimmed lines are these. -/
theorem lineTexts_joinLines (h : ∀ text ∈ texts, IsTrimmed text) :
    lineTexts (joinLines texts) = texts := by
  induction texts with
  | nil => rfl
  | cons text texts ih =>
    obtain ⟨first, others⟩ := List.forall_mem_cons.1 h
    have some' : text.toList ≠ [] := by simpa using first.content
    cases texts with
    | nil =>
      rw [joinLines, String.intercalate_singleton, lineTexts, lines_line first.line, if_neg some',
        List.map_singleton, String.ofList_toList]
    | cons next texts =>
      -- the last character is visible, so it is not taken for a part of the line's end
      have whole : dropLineEnd (text.toList ++ ['\n']) = text.toList := by
        obtain ⟨front, c, e⟩ := (List.eq_nil_or_concat text.toList).resolve_left some'
        rw [List.concat_eq_append] at e
        have visible : isBlankChar c = false := isBlankChar_of_trim_concat (e ▸ first.bare)
        have newline : c ≠ '\n' := fun eq => absurd visible (by rw [eq]; decide)
        have back : c ≠ '\r' := fun eq => absurd visible (by rw [eq]; decide)
        rw [e, List.append_assoc, List.singleton_append, dropLineEnd_around newline back]
        rfl
      rw [lineTexts, joinLines, String.intercalate_cons_of_ne_nil (List.cons_ne_nil _ _),
        String.toList_append, String.toList_append, List.append_assoc]
      show ((lines (text.toList ++ '\n' :: (joinLines (next :: texts)).toList)).map
        String.ofList) = _
      rw [lines, linePieces_append first.line, List.map_cons, List.map_cons, whole,
        String.ofList_toList]
      exact congrArg (text :: ·) (ih others)

end Pipewright.Text
