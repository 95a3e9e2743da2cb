import Pipewright.Proofs.Script.Lexing
import Pipewright.Proofs.Text.Lines

/-! # Quoted texts in programs
A quoted text is read as the text and nothing else, whatever the text is and whatever stands behind
it but a quote. It is a part of a line that indenting leaves as it is. -/

namespace Pipewright.Script

open Lexer

/-- A quoted text holds nothing that breaks a line. -/
theorem inLine_quoted (text : String) : Text.InLine (quoted text).toList := by
  intro c m
  rw [quoted, String.toList_ofList] at m
  have plain := isControl_of_mem_quote m
  constructor
  · rintro rfl
    exact absurd plain (by decide)
  · rintro rfl
    exact absurd plain (by decide)

/-- A line with a quoted text on it is not blank. -/
theorem isBlank_around_quoted (before after : List Char) (text : String) :
    Text.isBlank (before ++ ((quoted text).toList ++ after)) = false := by
  have quote : Text.isBlankChar '"' = false := by decide
  rw [toList_quoted]
  simp [Text.isBlank, quote]

/-- A quoted text is read as the text and nothing else: behind it, reading goes on with what stands
there, if that is not a quote. No control character is in it, so it stays as it is when a line that it
stands in is indented, or when any text around it is, which changes the same way around all quoted
texts. -/
theorem quoted_reads_back (text : String) (rest : List Char) (follows : rest.head? ≠ some '"') :
    read? ((quoted text).toList ++ rest) = some (.text text, rest) ∧
    tokens? ((quoted text).toList ++ rest) = (tokens? rest).map (.text text :: ·) ∧
    (∀ c ∈ (quoted text).toList, isControl c = false) ∧
    (∀ lead before after : String, '\n' ∉ before.toList → '\n' ∉ after.toList →
      Text.indent lead (before ++ quoted text ++ after) = lead ++ before ++ quoted text ++ after) ∧
    ∀ lead above below : String, ∃ above' below', ∀ text',
      Text.indent lead (above ++ quoted text' ++ below) = above' ++ quoted text' ++ below' := by
  have behind : ∀ c ∈ rest.head?, (c != '"') = true := by
    intro c m
    rw [bne_iff_ne]
    rintro rfl
    exact follows m
  refine ⟨read?_quoted text behind, ?_, fun c m => ?_, fun lead before after line line' => ?_,
    fun lead above below => ?_⟩
  · -- a text is no word, so nothing can be wrong with it
    rcases Lexes.quoted text rest behind with ⟨-, unnamed⟩ | cut
    · cases unnamed
    · exact cut
  · rw [quoted, String.toList_ofList] at m
    exact isControl_of_mem_quote m
  · have whole : '\n' ∉ (before ++ quoted text ++ after).toList := by
      simp [line, line', (inLine_quoted text).newline_not_mem]
    have content : Text.isBlank (before ++ quoted text ++ after).toList = false := by
      simpa using isBlank_around_quoted before.toList after.toList text
    rw [Text.indent_line lead whole content]
    simp only [String.append_assoc]
  · obtain ⟨above', below', same⟩ := Text.exists_indent_around lead above below
    refine ⟨above', below', fun text' => same _ (inLine_quoted text') ?_⟩
    simpa using isBlank_around_quoted [] [] text'

/-- A text with a quote, a backslash, a control character and a line break is read back in front of a
semicolon. -/
theorem quoted_reads_back_signs :
    let text := "\"\\u0041\x01\n"
    [';'].head? ≠ some '"' ∧
    read? ((quoted text).toList ++ [';']) = some (.text text, [';']) ∧
    tokens? ((quoted text).toList ++ [';']) = (tokens? [';']).map (.text text :: ·) ∧
    (∀ c ∈ (quoted text).toList, isControl c = false) ∧
    ('\n' ∉ "let v = ".toList ∧ '\n' ∉ ";".toList ∧
      Text.indent "  " ("let v = " ++ quoted text ++ ";") = "  " ++ "let v = " ++ quoted text ++ ";") ∧
    ∃ above' below', ∀ text',
      Text.indent "  " ("\x7b\n" ++ quoted text' ++ "\n\x7d") = above' ++ quoted text' ++ below' := by
  intro text
  have apart : [';'].head? ≠ some '"' := by decide
  obtain ⟨read, cut, plain, line, around⟩ := quoted_reads_back text [';'] apart
  exact ⟨apart, read, cut, plain, ⟨by decide, by decide, line _ _ _ (by decide) (by decide)⟩,
    around _ _ _⟩

end Pipewright.Script
