import Pipewright.Text.Basic

/-! # Lines of joined texts
What stands in front of a line feed is a line of its own, and texts that are joined line by line have
no other lines than they are. -/

namespace Pipewright.Text

/-- Characters that do not break a line. -/
def InLine (cs : List Char) : Prop := ∀ c ∈ cs, c ≠ '\n' ∧ c ≠ '\r'

instance (cs : List Char) : Decidable (InLine cs) :=
  List.decidableBAll (fun c => c ≠ '\n' ∧ c ≠ '\r') cs

/-- Characters that do not break a line hold no line feed. -/
theorem InLine.newline_not_mem {cs : List Char} (h : InLine cs) : '\n' ∉ cs :=
  fun m => (h _ m).1 rfl

variable {cs line : List Char} {text : String} {texts : List String}

/-! ## Cutting -/

/-- Text without a line feed is one piece, if there is any. -/
theorem linePieces_line (h : '\n' ∉ cs) : linePieces cs = if cs = [] then [] else [cs] := by
  induction cs with
  | nil => rfl
  | cons c cs ih =>
    rw [List.mem_cons, not_or] at h
    rw [linePieces, if_neg (Ne.symm h.1), ih h.2]
    cases cs <;> rfl

/-- A line feed ends a piece. -/
theorem linePieces_append (h : '\n' ∉ cs) (rest : List Char) :
    linePieces (cs ++ '\n' :: rest) = (cs ++ ['\n']) :: linePieces rest := by
  induction cs with
  | nil => rfl
  | cons c cs ih =>
    rw [List.mem_cons, not_or] at h
    rw [List.cons_append, linePieces, if_neg (Ne.symm h.1), ih h.2]
    rfl

/-- A text is cut after some of its line feeds in front of what has none, and the same way whatever
stands there. -/
theorem exists_linePieces_split (cs : List Char) : ∃ closed start, cs = closed ++ start ∧
    '\n' ∉ start ∧ ∀ rest, linePieces (closed ++ rest) = linePieces closed ++ linePieces rest := by
  induction cs with
  | nil => exact ⟨[], [], rfl, List.not_mem_nil, fun _ => rfl⟩
  | cons c cs ih =>
    obtain ⟨closed, start, rfl, inside, cut⟩ := ih
    by_cases newline : c = '\n'
    · refine ⟨c :: closed, start, rfl, inside, fun rest => ?_⟩
      rw [List.cons_append, linePieces, if_pos newline, cut, linePieces, if_pos newline]
      rfl
    · cases pieces : linePieces closed with
      | nil =>
        -- nothing is closed yet, so the character joins what has no line feed
        have none : closed = [] := by
          rw [← flatten_linePieces closed, pieces]
          rfl
        subst none
        refine ⟨[], c :: start, rfl, ?_, fun _ => rfl⟩
        rw [List.mem_cons, not_or]
        exact ⟨Ne.symm newline, inside⟩
      | cons piece pieces' =>
        refine ⟨c :: closed, start, rfl, inside, fun rest => ?_⟩
        rw [List.cons_append, linePieces, if_neg newline, cut, linePieces, if_neg newline, pieces]
        rfl

/-- What stands in front of a character that breaks no line is not dropped. -/
theorem dropLineEnd_around {c : Char} (newline : c ≠ '\n') (back : c ≠ '\r') (cs rest : List Char) :
    dropLineEnd (cs ++ c :: rest) = cs ++ c :: dropLineEnd rest := by
  induction cs with
  | nil => exact dropLineEnd.eq_4 _ _ (fun e => absurd e newline) fun e => absurd e back
  | cons d cs ih =>
    have alone : cs ++ c :: rest ≠ ['\n'] := fun e =>
      newline (List.mem_singleton.1 (e ▸ List.mem_append_right cs List.mem_cons_self))
    rw [List.cons_append, dropLineEnd.eq_4 _ _ (by simp) fun _ => alone, ih]
    rfl

/-- Only the end of a line is dropped. -/
theorem dropLineEnd_append (h : InLine cs) {ending : List Char} (none : dropLineEnd ending = []) :
    dropLineEnd (cs ++ ending) = cs := by
  rcases List.eq_nil_or_concat cs with rfl | ⟨front, c, rfl⟩
  · exact none
  · obtain ⟨newline, back⟩ := h c (by simp)
    rw [List.concat_eq_append, List.append_assoc, List.singleton_append,
      dropLineEnd_around newline back, none]

/-- Nothing is dropped of a text without a line feed. -/
theorem dropLineEnd_line (h : '\n' ∉ cs) : dropLineEnd cs = cs := by
  induction cs with
  | nil => rfl
  | cons c cs ih =>
    rw [List.mem_cons, not_or] at h
    have open' : cs ≠ ['\n'] := fun e => h.2 (e ▸ List.mem_cons_self)
    rw [dropLineEnd.eq_4 _ _ (fun e => absurd e.symm h.1) fun _ => open', ih h.2]

/-- There are no lines without a text. -/
@[simp] theorem lines_nil : lines [] = [] := rfl

/-- What stands in front of a line feed is a line. -/
theorem lines_append (h : InLine cs) (rest : List Char) :
    lines (cs ++ '\n' :: rest) = cs :: lines rest := by
  rw [lines, linePieces_append h.newline_not_mem, List.map_cons, dropLineEnd_append h rfl]
  rfl

/-- Text without a line feed is its only line, if there is any. -/
theorem lines_line (h : '\n' ∉ cs) : lines cs = if cs = [] then [] else [cs] := by
  rw [lines, linePieces_line h]
  split
  · rfl
  · rw [List.map_singleton, dropLineEnd_line h]

/-- A text within a line of any other one stands in that line, whatever it is: the lines above and
below and the rest of the line are told by what surrounds it. -/
theorem exists_lines_around (above below : List Char) :
    ∃ before start stop after, ∀ cs, InLine cs → cs ≠ [] →
      lines (above ++ (cs ++ below)) = before ++ (start ++ (cs ++ stop)) :: after := by
  obtain ⟨closed, start, rfl, open', cut⟩ := exists_linePieces_split above
  by_cases ends : '\n' ∈ below
  · obtain ⟨stop, rest, rfl, open''⟩ := List.eq_append_cons_of_mem ends
    refine ⟨lines closed, start, dropLineEnd (stop ++ ['\n']), lines rest, fun cs inLine some' => ?_⟩
    have line : '\n' ∉ start ++ (cs ++ stop) := by
      simp [open', inLine.newline_not_mem, open'']
    have kept : dropLineEnd (start ++ (cs ++ stop) ++ ['\n']) =
        start ++ (cs ++ dropLineEnd (stop ++ ['\n'])) := by
      obtain ⟨front, c, rfl⟩ := (List.eq_nil_or_concat cs).resolve_left some'
      obtain ⟨newline, back⟩ := inLine c (by simp)
      simpa using dropLineEnd_around newline back (start ++ front) (stop ++ ['\n'])
    have pieces := linePieces_append line rest
    simp only [List.append_assoc] at pieces kept ⊢
    rw [lines, cut, pieces, List.map_append, List.map_cons, kept]
    rfl
  · refine ⟨lines closed, start, below, [], fun cs inLine some' => ?_⟩
    have line : '\n' ∉ start ++ (cs ++ below) := by
      simp [open', inLine.newline_not_mem, ends]
    have only := lines_line line
    rw [if_neg (by simp [some'])] at only
    rw [List.append_assoc, lines, cut, List.map_append]
    exact congrArg (lines closed ++ ·) only

/-! ## Joining -/

/-- What stands in front of another line is a line of joined lines. -/
theorem lines_joinLines_cons (h : InLine text.toList) (next : String) (texts : List String) :
    lines (joinLines (text :: next :: texts)).toList =
      text.toList :: lines (joinLines (next :: texts)).toList := by
  rw [joinLines, String.intercalate_cons_of_ne_nil (by simp), String.toList_append,
    String.toList_append, List.append_assoc]
  exact lines_append h (joinLines (next :: texts)).toList

/-- The lines of joined lines are these; only an empty one is not counted at the end. -/
theorem mem_lines_joinLines_iff (h : ∀ text ∈ texts, InLine text.toList) (content : line ≠ []) :
    line ∈ lines (joinLines texts).toList ↔ ∃ text ∈ texts, line = text.toList := by
  induction texts with
  | nil => simp [joinLines]
  | cons text texts ih =>
    obtain ⟨first, others⟩ := List.forall_mem_cons.1 h
    cases texts with
    | nil =>
      rw [joinLines, String.intercalate_singleton, lines_line first.newline_not_mem]
      split
      · next e => simp [e, content]
      · simp
    | cons next texts =>
      rw [lines_joinLines_cons first, List.mem_cons, ih others]
      simp

/-- Joined lines around a part of one of them. -/
theorem joinLines_around (before after : List String) (start part stop : String) :
    joinLines (before ++ (start ++ part ++ stop) :: after) =
      joinLines (before ++ [start]) ++ part ++ joinLines (stop :: after) := by
  unfold joinLines
  induction before with
  | nil =>
    rw [List.nil_append, List.nil_append, String.intercalate_singleton]
    cases after with
    | nil => rw [String.intercalate_singleton, String.intercalate_singleton]
    | cons next after =>
      have some' : next :: after ≠ [] := List.cons_ne_nil _ _
      rw [String.intercalate_cons_of_ne_nil some', String.intercalate_cons_of_ne_nil some']
      simp only [String.append_assoc]
  | cons line before ih =>
    rw [List.cons_append, List.cons_append, String.intercalate_cons_of_ne_nil (by simp),
      String.intercalate_cons_of_ne_nil (by simp), ih]
    simp only [String.append_assoc]

/-! ## Indenting -/

/-- A line with something on it is put behind the lead. -/
theorem indent_line (lead : String) (h : '\n' ∉ text.toList) (content : isBlank text.toList = false) :
    indent lead text = lead ++ text := by
  have some' : text.toList ≠ [] := by
    intro none
    rw [none] at content
    cases content
  rw [indent, lines_line h, if_neg some', List.map_singleton, joinLines,
    String.intercalate_singleton, indentLine, content, String.ofList_toList]
  rfl

/-- A text within a line of any other one stays as it is when that one is indented, whatever it is:
what becomes of the text above it and below it is told by these. -/
theorem exists_indent_around (lead above below : String) :
    ∃ above' below', ∀ text, InLine text.toList → isBlank text.toList = false →
      indent lead (above ++ text ++ below) = above' ++ text ++ below' := by
  obtain ⟨before, start, stop, after, cut⟩ := exists_lines_around above.toList below.toList
  refine ⟨joinLines (before.map (indentLine lead) ++ [lead ++ String.ofList start]),
    joinLines (String.ofList stop :: after.map (indentLine lead)), fun text inLine content => ?_⟩
  have some' : text.toList ≠ [] := by
    intro none
    rw [none] at content
    cases content
  have indented : indentLine lead (start ++ (text.toList ++ stop)) =
      lead ++ String.ofList start ++ text ++ String.ofList stop := by
    have content' : isBlank (start ++ (text.toList ++ stop)) = false := by
      unfold isBlank at content ⊢
      rw [List.all_append, List.all_append, content, Bool.false_and, Bool.and_false]
    rw [indentLine, content', String.ofList_append, String.ofList_append, String.ofList_toList]
    simp [String.append_assoc]
  rw [indent, String.toList_append, String.toList_append, List.append_assoc,
    cut _ inLine some', List.map_append, List.map_cons, indented]
  exact joinLines_around _ _ _ _ _

end Pipewright.Text
