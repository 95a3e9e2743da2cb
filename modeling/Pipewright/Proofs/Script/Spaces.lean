import Pipewright.Proofs.Decimal.Shown
import Pipewright.Proofs.Script.Blocks

/-! # Modules that a text names
The names that stand in front of two colons, outside of quoted texts, are those of the modules that a
text uses. They are found by going through the text once and remembering the word that one stands
behind. In the text of a legible expression these are the modules that its constants and calls name,
whatever its layout. A name need not be one that is read: it may lack a letter before its first
digit. -/

namespace Pipewright.Script

/-! ## Going through a text -/

/-- Where one stands in a text. -/
inductive Reading where
  /-- Outside of quoted texts, behind a word, or behind something else and an empty word. -/
  | code (word : List Char)
  /-- Behind a word and one colon. -/
  | colon (word : List Char)
  /-- In a quoted text. -/
  | quoted
  /-- In a quoted text, behind a backslash. -/
  | escaped

/-- The names in front of two colons in the rest of a text. -/
def spacesFrom : Reading → List Char → List String
  | _, [] => []
  | .code word, c :: rest =>
    if c = '"' then spacesFrom .quoted rest
    else if c = ':' then spacesFrom (.colon word) rest
    else if isWordChar c then spacesFrom (.code (word ++ [c])) rest
    else spacesFrom (.code []) rest
  | .colon word, c :: rest =>
    if c = '"' then spacesFrom .quoted rest
    else if c = ':' then String.ofList word :: spacesFrom (.code []) rest
    else if isWordChar c then spacesFrom (.code [c]) rest
    else spacesFrom (.code []) rest
  | .quoted, c :: rest =>
    if c = '\\' then spacesFrom .escaped rest
    else if c = '"' then spacesFrom (.code []) rest
    else spacesFrom .quoted rest
  | .escaped, _ :: rest => spacesFrom .quoted rest

/-- The names of the modules that a text uses, in the order in which it uses them. -/
def usedSpaces (text : String) : List String := spacesFrom (.code []) text.toList

/-- Whether a character can stand behind a name: it does not go on with it, nor with a colon. -/
def endsName (c : Char) : Bool := !isWordChar c && c != ':'

/-- A text uses some modules wherever it stands, if a text follows whose first character, if there is
one, is of some kind. -/
def Scans (p : Char → Bool) (s : String) (names : List String) : Prop :=
  ∀ rest : List Char, (∀ c ∈ rest.head?, p c = true) →
    spacesFrom (.code []) (s.toList ++ rest) = names ++ spacesFrom (.code []) rest

variable {p q : Char → Bool} {s s' tab opening closing : String} {a b names names' : List String}
  {runs : List (List String)} {named : List (List String)}

/-- Behind a word that is over, it plays no part which word it was. -/
theorem spacesFrom_code {rest : List Char} (ends : ∀ c ∈ rest.head?, endsName c = true)
    (word : List Char) : spacesFrom (.code word) rest = spacesFrom (.code []) rest := by
  cases rest with
  | nil => rfl
  | cons c rest =>
    have end' := ends c rfl
    unfold endsName at end'
    rw [Bool.and_eq_true, Bool.not_eq_true', bne_iff_ne] at end'
    simp only [spacesFrom, end'.1, if_neg end'.2, Bool.false_eq_true, if_false]

/-- A character of a word is neither a quote nor a colon. -/
theorem ne_of_isWordChar {c : Char} (h : isWordChar c = true) : c ≠ '"' ∧ c ≠ ':' := by
  constructor
  · rintro rfl
    exact absurd h (by decide)
  · rintro rfl
    exact absurd h (by decide)

/-- Characters of a word go on with it. -/
theorem spacesFrom_word {cs : List Char} (chars : cs.all isWordChar = true) (word rest : List Char) :
    spacesFrom (.code word) (cs ++ rest) = spacesFrom (.code (word ++ cs)) rest := by
  induction cs generalizing word with
  | nil => rw [List.append_nil, List.nil_append]
  | cons c cs ih =>
    rw [List.all_cons, Bool.and_eq_true] at chars
    obtain ⟨quote, colon⟩ := ne_of_isWordChar chars.1
    rw [List.cons_append, spacesFrom, if_neg quote, if_neg colon, if_pos chars.1, ih chars.2,
      List.append_assoc, List.singleton_append]

/-- A word is made up of characters of words. -/
theorem all_isWordChar {cs : List Char} (h : isPlainWord cs = true) :
    cs.all isWordChar = true := by
  cases cs with
  | nil => rfl
  | cons c cs => exact (Bool.and_eq_true_iff.1 h).2

namespace Scans

/-- What may be followed by more may be followed by less. -/
theorem mono (h : Scans p s names) (sub : ∀ c, q c = true → p c = true) : Scans q s names :=
  fun rest follows => h rest fun c m => sub c (follows c m)

/-- One text behind another that may be followed by anything. -/
theorem append_any (h : Scans anyChar s names) (h' : Scans q s' names') :
    Scans q (s ++ s') (names ++ names') := by
  intro rest follows
  rw [String.toList_append, List.append_assoc, h _ fun _ _ => rfl, h' rest follows,
    List.append_assoc]

/-- One text behind another that may be followed by its first character. -/
theorem append (h : Scans p s names) (h' : Scans q s' names') (leads : Leads p s') :
    Scans q (s ++ s') (names ++ names') := by
  intro rest follows
  obtain ⟨c, cs, e, ok⟩ := leads.exists_cons
  have starts : ∀ c' ∈ (s'.toList ++ rest).head?, p c' = true := by
    intro c' m
    rw [e] at m
    cases m
    exact ok
  rw [String.toList_append, List.append_assoc, h _ starts, h' rest follows, List.append_assoc]

/-- A text uses what it uses, with nothing behind it. -/
theorem usedSpaces_eq (h : Scans p s names) : usedSpaces s = names := by
  have whole := h [] fun c m => by cases m
  rw [List.append_nil] at whole
  exact whole.trans (List.append_nil _)

/-- A text without quotes and colons uses no module. -/
theorem plain (h : ∀ c ∈ s.toList, c ≠ '"' ∧ c ≠ ':') : Scans endsName s [] := by
  have passed : ∀ (cs rest word : List Char), (∀ c ∈ cs, c ≠ '"' ∧ c ≠ ':') →
      ∃ word', spacesFrom (.code word) (cs ++ rest) = spacesFrom (.code word') rest := by
    intro cs rest
    induction cs with
    | nil => exact fun word _ => ⟨word, rfl⟩
    | cons c cs ih =>
      intro word plain
      obtain ⟨first, others⟩ := List.forall_mem_cons.1 plain
      rw [List.cons_append, spacesFrom, if_neg first.1, if_neg first.2]
      split
      · exact ih _ others
      · exact ih _ others
  intro rest follows
  obtain ⟨word, same⟩ := passed s.toList rest [] h
  exact same.trans (spacesFrom_code follows word)

/-- A word uses no module. -/
theorem word (h : isPlainWord s.toList = true) : Scans endsName s [] :=
  plain fun c m => ne_of_isWordChar (List.all_eq_true.1 (all_isWordChar h) c m)

/-- The name of a module in front of two colons. -/
theorem space (h : isPlainWord s.toList = true) : Scans anyChar (s ++ "::") [s] := by
  intro rest _
  have behind : (s ++ "::").toList ++ rest = s.toList ++ (':' :: ':' :: rest) := by simp
  rw [behind, spacesFrom_word (all_isWordChar h), List.nil_append]
  show String.ofList s.toList :: _ = _
  rw [String.ofList_toList]
  rfl

/-- A whole number uses no module. -/
theorem int (n : Int) : Scans endsName (toString n) [] := by
  refine plain fun c m => ?_
  rcases Decimal.of_mem_toString m with rfl | digit
  · decide
  · exact ⟨Decimal.ne_of_isDigit digit (by decide), Decimal.ne_of_isDigit digit (by decide)⟩

/-- A floating-point number uses no module. -/
theorem float {x : Float} (finite : Decimal.Finite x) : Scans endsName (floatText x) [] := by
  obtain ⟨n, sound, text, -⟩ := finite.exists_shown
  refine plain fun c m => ?_
  rw [floatText_eq, String.toList_ofList, text] at m
  have figure := sound.figures_signed _ c m
  constructor
  · rintro rfl
    exact absurd figure (by decide)
  · rintro rfl
    exact absurd figure (by decide)

/-- How a character stands in a quoted text does not end it. -/
theorem spacesFrom_escape (c : Char) (rest : List Char) :
    spacesFrom .quoted (escape c ++ rest) = spacesFrom .quoted rest := by
  have digit : ∀ n, Nat.digitChar (n % 16) ≠ '\\' ∧ Nat.digitChar (n % 16) ≠ '"' := by
    have small : ∀ n, n < 16 → Nat.digitChar n ≠ '\\' ∧ Nat.digitChar n ≠ '"' := by decide
    exact fun n => small _ (Nat.mod_lt _ (by decide))
  unfold escape
  split
  · rfl
  split
  · rfl
  split
  · rfl
  split
  · rfl
  split
  · rfl
  split
  · simp [spacesFrom, Json.fourHexDigits, digit]
  · next backslash quote _ _ _ _ =>
    rw [List.singleton_append, spacesFrom, if_neg backslash, if_neg quote]

/-- A quoted text uses no module. -/
theorem quoted (text : String) : Scans anyChar (quoted text) [] := by
  have inside : ∀ cs rest : List Char,
      spacesFrom .quoted (cs.flatMap escape ++ '"' :: rest) = spacesFrom (.code []) rest := by
    intro cs rest
    induction cs with
    | nil => rfl
    | cons c cs ih => rw [List.flatMap_cons, List.append_assoc, spacesFrom_escape, ih]
  intro rest _
  have opened : (Script.quoted text).toList ++ rest =
      '"' :: (text.toList.flatMap escape ++ '"' :: rest) := by
    simp [Script.quoted, quote]
  rw [opened]
  exact inside _ _

end Scans

/-! ## Lines -/

/-- The lines of a run use some modules; what follows the last of them is of some kind. -/
inductive ScansRun (p : Char → Bool) : List String → List String → Prop where
  /-- The last line. -/
  | last {line : String} {names : List String} (h : Scans p line names) : ScansRun p [line] names
  /-- A line with others behind it. -/
  | more {line : String} {lines names names' : List String} (h : Scans endsLine line names)
    (rest : ScansRun p lines names') : ScansRun p (line :: lines) (names ++ names')

/-- A line feed can stand behind a name. -/
theorem endsName_of_endsLine {c : Char} (h : endsLine c = true) : endsName c = true := by
  have newline : c = '\n' := by simpa [endsLine] using h
  rw [newline]
  rfl

namespace ScansRun

/-- A run has a line. -/
theorem ne_nil (h : ScansRun p a names) : a ≠ [] := by
  cases h <;> exact List.cons_ne_nil _ _

/-- What may be followed by more may be followed by less. -/
theorem mono (h : ScansRun p a names) (sub : ∀ c, q c = true → p c = true) :
    ScansRun q a names := by
  induction h with
  | last h => exact .last (h.mono sub)
  | more h _ ih => exact .more h ih

/-- One run glued behind another that may be followed by its first character. -/
theorem glue (h : ScansRun p a names) (h' : ScansRun q b names') (leads : LeadsRun p b) :
    ScansRun q (glue a b) (names ++ names') := by
  induction h with
  | last h =>
    obtain ⟨next, more, rfl, leads⟩ := leads
    cases h' with
    | last h' => exact .last (h.append h' leads)
    | more h' rest =>
      rw [← List.append_assoc]
      exact .more (h.append h' leads) rest
  | more h rest ih =>
    rw [List.append_assoc]
    cases rest with
    | last => exact .more h ih
    | more => exact .more h ih

/-- One run glued behind another that may be followed by anything. -/
theorem glue_any (h : ScansRun anyChar a names) (h' : ScansRun q b names') :
    ScansRun q (Script.glue a b) (names ++ names') := by
  induction h with
  | last h =>
    cases h' with
    | last h' => exact .last (h.append_any h')
    | more h' rest =>
      rw [← List.append_assoc]
      exact .more (h.append_any h') rest
  | more h rest ih =>
    rw [List.append_assoc]
    cases rest with
    | last => exact .more h ih
    | more => exact .more h ih

/-- A run below another whose last line ends. -/
theorem append (h : ScansRun endsLine a names) (h' : ScansRun q b names') :
    ScansRun q (a ++ b) (names ++ names') := by
  induction h with
  | last h => exact .more h h'
  | more h _ ih =>
    rw [List.append_assoc]
    exact .more h ih

/-- Lines that are changed without a change of what they use. -/
theorem map {f : String → String}
    (keeps : ∀ {p line names}, Scans p line names → Scans p (f line) names)
    (h : ScansRun p a names) : ScansRun p (a.map f) names := by
  induction h with
  | last h => exact .last (keeps h)
  | more h _ ih => exact .more (keeps h) ih

/-- Lines behind a tab use the same modules. -/
theorem indent (blank : Scans anyChar tab []) (h : ScansRun p a names) :
    ScansRun p (a.map (tab ++ ·)) names :=
  h.map fun h => blank.append_any h

/-- The text of a run uses the modules of its lines. -/
theorem joinLines (h : ScansRun p a names) : Scans p (Text.joinLines a) names := by
  induction h with
  | last h =>
    rw [Text.joinLines, String.intercalate_singleton]
    exact h
  | @more line lines names names' h rest ih =>
    have newline : Scans anyChar "\n" [] := fun _ _ => rfl
    have broken : Scans anyChar (line ++ "\n") names := by
      have := h.append newline rfl
      rwa [List.append_nil] at this
    rw [Text.joinLines, String.intercalate_cons_of_ne_nil rest.ne_nil]
    exact broken.append_any ih

end ScansRun

/-! ## Items between brackets -/

/-- Items between commas in front of a closing text. -/
theorem scans_separated (items : List.Forall₂ (ScansRun endsName) runs named)
    (close : Scans q closing []) (leads : Leads endsName closing) :
    ScansRun q (glueAll (separate ", " runs ++ [[closing]])) named.flatten := by
  have comma : ScansRun anyChar [", "] [] := .last fun _ _ => rfl
  have separator : LeadsRun endsName [", "] := ⟨", ", [], rfl, rfl⟩
  have closing' : LeadsRun endsName [closing] := ⟨closing, [], rfl, leads⟩
  induction items with
  | nil => exact .last close
  | @cons run names runs named first rest ih =>
    cases rest with
    | nil =>
      show ScansRun q (glue run (glue [closing] [])) (names ++ [])
      rw [glue_nil]
      exact first.glue (.last close) closing'
    | @cons run' names' runs named second rest =>
      exact first.glue (comma.glue_any ih) (separator.glue _)

/-- Items on lines of their own with commas behind all but the last. -/
theorem scans_spreadOut (blank : Scans anyChar tab [])
    (items : List.Forall₂ (ScansRun endsName) runs named) (some' : runs ≠ []) :
    ScansRun endsLine (spreadOut tab runs) named.flatten := by
  induction items with
  | nil => exact absurd rfl some'
  | @cons run names runs named first rest ih =>
    cases rest with
    | nil =>
      show ScansRun endsLine _ (names ++ [])
      rw [List.append_nil]
      exact (first.mono fun _ => endsName_of_endsLine).indent blank
    | @cons run' names' runs named second rest =>
      have comma : ScansRun endsLine [","] [] := .last fun _ _ => rfl
      have head := (first.glue comma ⟨",", [], rfl, rfl⟩).indent blank
      rw [List.append_nil] at head
      exact head.append (ih (by simp))

/-- Items between brackets, in either layout. -/
theorem scans_bracketed (blank : Scans anyChar tab [])
    (items : List.Forall₂ (ScansRun endsName) runs named) (layout : Layout)
    (open' : Scans anyChar opening names) (close : Scans anyChar closing [])
    (leads : Leads endsName closing) :
    ScansRun endsName (bracketed tab opening closing layout runs) (names ++ named.flatten) := by
  refine ScansRun.mono (p := anyChar) ?_ fun _ _ => rfl
  cases layout with
  | inline => exact (ScansRun.last open').glue_any (scans_separated items close leads)
  | spread =>
    refine .more (open'.mono fun _ _ => rfl) ?_
    by_cases none : runs = []
    · subst none
      cases items
      exact .last close
    · have all := (scans_spreadOut blank items none).append (.last close)
      rwa [List.append_nil] at all

/-! ## Expressions -/

mutual

/-- The modules that an expression names. -/
def Expr.spaces : Expr → List String
  | .constant space _ => [space]
  | .array _ items => Expr.spacesOfItems items
  | .object _ entries => Expr.spacesOfEntries entries
  | .call _ arguments => Expr.spacesOfItems arguments
  | .moduleCall space _ arguments => space :: Expr.spacesOfItems arguments
  | .method receiver _ arguments => receiver.spaces ++ Expr.spacesOfItems arguments
  | .field target _ => target.spaces
  | .index target key => target.spaces ++ key.spaces
  | .not operand => operand.spaces
  | .negate operand => operand.spaces
  | .binary _ left right => left.spaces ++ right.spaces
  | .paren inner => inner.spaces
  | _ => []

/-- The modules that some expressions name. -/
def Expr.spacesOfItems : List Expr → List String
  | [] => []
  | item :: items => item.spaces ++ Expr.spacesOfItems items

/-- The modules that the values of some entries name. -/
def Expr.spacesOfEntries : List (String × Expr) → List String
  | [] => []
  | (_, e) :: entries => e.spaces ++ Expr.spacesOfEntries entries

end

/-- The modules that expressions name are those that each of them names. -/
theorem Expr.spacesOfItems_eq (items : List Expr) :
    Expr.spacesOfItems items = items.flatMap Expr.spaces := by
  induction items with
  | nil => rfl
  | cons item items ih => rw [Expr.spacesOfItems, List.flatMap_cons, ih]

/-- A name in a module. -/
theorem scans_path {space name : String} (word : isPlainWord space.toList = true)
    (word' : isPlainWord name.toList = true) :
    Scans endsName (space ++ "::" ++ name) [space] :=
  (Scans.space word).append_any (.word word')

/-- A function with the bracket behind its name. -/
theorem scans_function {function : String} (word : isPlainWord function.toList = true) :
    Scans anyChar (function ++ "(") [] := by
  have bracket : Scans anyChar "(" [] := fun _ _ => rfl
  exact (Scans.word word).append bracket rfl

/-- A key in front of a value. -/
theorem scans_key (key : String) : Scans anyChar (keyText key ++ ": ") [] := by
  intro rest _
  unfold keyText
  split
  · next identifier =>
    have word := isPlainWord_of_isIdentifier identifier
    rw [String.toList_append, List.append_assoc, spacesFrom_word (all_isWordChar word)]
    rfl
  · rw [String.toList_append, List.append_assoc, Scans.quoted key _ fun _ _ => rfl]
    rfl

mutual

/-- The lines of a legible expression use the modules that it names. -/
theorem Expr.scans (blank : Scans anyChar tab []) :
    (e : Expr) → e.isLegible = true → ScansRun endsName (e.lines tab) e.spaces
  | .unit, _ => .last fun _ _ => rfl
  | .bool b, _ => by
    cases b with
    | true => exact .last (.word (s := "true") (by decide))
    | false => exact .last (.word (s := "false") (by decide))
  | .int n, _ => .last (.int n.toInt)
  | .float x, h => by
    unfold Expr.isLegible at h
    rw [Bool.and_eq_true, Bool.not_eq_true', Bool.not_eq_true'] at h
    exact .last (.float ⟨h.1, h.2⟩)
  | .str text, _ => .last ((Scans.quoted text).mono fun _ _ => rfl)
  | .var name, h => .last (.word (isPlainWord_of_isNameWord h))
  | .constant space name, h => by
    unfold Expr.isLegible at h
    rw [Bool.and_eq_true] at h
    exact .last (scans_path (isPlainWord_of_isNameWord h.1) h.2)
  | .array layout items, h => by
    unfold Expr.isLegible at h
    obtain ⟨named, each, all⟩ := Expr.scans_items blank items h
    have bracket : Scans anyChar "[" [] := fun _ _ => rfl
    rw [Expr.spaces, ← all]
    exact scans_bracketed blank each layout bracket (fun _ _ => rfl) rfl
  | .object layout entries, h => by
    unfold Expr.isLegible at h
    obtain ⟨named, each, all⟩ := Expr.scans_entries blank entries h
    rw [Expr.spaces, ← all]
    cases layout with
    | spread =>
      have brace : Scans anyChar "#\x7b" [] := fun _ _ => rfl
      exact scans_bracketed blank each .spread brace (fun _ _ => rfl) rfl
    | inline =>
      have lines : Expr.lines tab (.object .inline entries) =
          if (Expr.linesOfEntries tab entries).isEmpty then ["#\x7b\x7d"]
          else bracketed tab "#\x7b " " \x7d" .inline (Expr.linesOfEntries tab entries) := rfl
      rw [lines]
      -- an empty map on one line has no blanks between its braces
      split
      · next none =>
        rw [List.isEmpty_iff.1 none] at each
        cases each
        exact .last fun _ _ => rfl
      · have brace : Scans anyChar "#\x7b " [] := fun _ _ => rfl
        exact scans_bracketed blank each .inline brace (fun _ _ => rfl) rfl
  | .call function arguments, h => by
    unfold Expr.isLegible at h
    rw [Bool.and_eq_true] at h
    obtain ⟨named, each, all⟩ := Expr.scans_items blank arguments h.2
    rw [Expr.spaces, ← all]
    exact scans_bracketed blank each .inline (scans_function (isPlainWord_of_isNameWord h.1))
      (fun _ _ => rfl) rfl
  | .moduleCall space function arguments, h => by
    unfold Expr.isLegible at h
    rw [Bool.and_eq_true, Bool.and_eq_true] at h
    obtain ⟨named, each, all⟩ := Expr.scans_items blank arguments h.2
    have path : Scans anyChar (space ++ "::" ++ function ++ "(") [space] := by
      rw [String.append_assoc]
      exact (Scans.space (isPlainWord_of_isNameWord h.1.1)).append_any (scans_function h.1.2)
    rw [Expr.spaces, ← all]
    exact scans_bracketed blank each .inline path (fun _ _ => rfl) rfl
  | .method receiver function arguments, h => by
    unfold Expr.isLegible at h
    simp only [Bool.and_eq_true] at h
    obtain ⟨⟨⟨-, legible⟩, word⟩, arguments'⟩ := h
    obtain ⟨named, each, all⟩ := Expr.scans_items blank arguments arguments'
    have text : "." ++ function ++ "(" = "." ++ (function ++ "(") := String.append_assoc ..
    have point : Scans anyChar "." [] := fun _ _ => rfl
    have member : Scans anyChar ("." ++ function ++ "(") [] := by
      rw [text]
      exact point.append_any (scans_function word)
    rw [Expr.spaces, ← all]
    have call : ScansRun endsName (bracketed tab ("." ++ function ++ "(") ")" .inline
        (Expr.linesOfItems tab arguments)) ([] ++ named.flatten) :=
      scans_bracketed blank each .inline member (fun _ _ => rfl) rfl
    refine (Expr.scans blank receiver legible).glue call (leads_bracketed .inline _ ?_)
    rw [text]
    exact Leads.append (s := ".") (by rfl) _
  | .field target name, h => by
    unfold Expr.isLegible at h
    simp only [Bool.and_eq_true] at h
    have point : Scans anyChar "." [] := fun _ _ => rfl
    have member := ScansRun.last (point.append_any (.word h.2))
    have all := (Expr.scans blank target h.1.2).glue member
      ⟨_, [], rfl, Leads.append (s := ".") (by rfl) _⟩
    rwa [List.append_nil, List.append_nil] at all
  | .index target key, h => by
    unfold Expr.isLegible at h
    simp only [Bool.and_eq_true] at h
    have open' : ScansRun anyChar ["["] [] := .last fun _ _ => rfl
    have close : ScansRun endsName ["]"] [] := .last fun _ _ => rfl
    have behind := open'.glue_any
      ((Expr.scans blank key h.2).glue close ⟨"]", [], rfl, rfl⟩)
    have opened : LeadsRun endsName ["["] := ⟨"[", [], rfl, rfl⟩
    have all := (Expr.scans blank target h.1.2).glue behind (opened.glue _)
    show ScansRun endsName (glue _ (glue ["["] (glue _ (glue ["]"] [])))) _
    rw [glue_nil]
    rwa [List.append_nil] at all
  | .not operand, h => by
    unfold Expr.isLegible at h
    rw [Bool.and_eq_true] at h
    have sign : ScansRun anyChar ["!"] [] := .last fun _ _ => rfl
    exact sign.glue_any (Expr.scans blank operand h.2)
  | .negate _, h => by
    unfold Expr.isLegible at h
    exact absurd h Bool.false_ne_true
  | .binary operator left right, h => by
    unfold Expr.isLegible at h
    simp only [Bool.and_eq_true] at h
    have signs : ScansRun anyChar [" " ++ operator.text ++ " "] [] :=
      .last fun _ _ => by cases operator <;> rfl
    have behind := signs.glue_any (Expr.scans blank right h.2)
    have lead : LeadsRun endsName [" " ++ operator.text ++ " "] :=
      ⟨_, [], rfl, Leads.append (Leads.append (s := " ") (by rfl) _) _⟩
    have all := (Expr.scans blank left h.1.2).glue behind (lead.glue _)
    show ScansRun endsName (glue _ (glue _ (glue _ []))) _
    rw [glue_nil]
    exact all
  | .paren inner, h => by
    unfold Expr.isLegible at h
    have open' : ScansRun anyChar ["("] [] := .last fun _ _ => rfl
    have close : ScansRun endsName [")"] [] := .last fun _ _ => rfl
    have all := open'.glue_any ((Expr.scans blank inner h).glue close ⟨")", [], rfl, rfl⟩)
    show ScansRun endsName (glue ["("] (glue _ (glue [")"] []))) _
    rw [glue_nil]
    rwa [List.append_nil] at all

/-- The lines of legible expressions use the modules that these name. -/
theorem Expr.scans_items (blank : Scans anyChar tab []) :
    (items : List Expr) → Expr.areLegible items = true →
      ∃ named, List.Forall₂ (ScansRun endsName) (Expr.linesOfItems tab items) named ∧
        named.flatten = Expr.spacesOfItems items
  | [], _ => ⟨[], .nil, rfl⟩
  | item :: items, h => by
    unfold Expr.areLegible at h
    rw [Bool.and_eq_true] at h
    obtain ⟨named, each, all⟩ := Expr.scans_items blank items h.2
    refine ⟨item.spaces :: named, .cons (Expr.scans blank item h.1) each, ?_⟩
    rw [List.flatten_cons, all, Expr.spacesOfItems]

/-- The lines of legible entries use the modules that these name. -/
theorem Expr.scans_entries (blank : Scans anyChar tab []) :
    (entries : List (String × Expr)) → Expr.areLegibleEntries entries = true →
      ∃ named, List.Forall₂ (ScansRun endsName) (Expr.linesOfEntries tab entries) named ∧
        named.flatten = Expr.spacesOfEntries entries
  | [], _ => ⟨[], .nil, rfl⟩
  | (key, e) :: entries, h => by
    unfold Expr.areLegibleEntries at h
    rw [Bool.and_eq_true] at h
    obtain ⟨named, each, all⟩ := Expr.scans_entries blank entries h.2
    have value := (ScansRun.last (scans_key key)).glue_any (Expr.scans blank e h.1)
    refine ⟨e.spaces :: named, .cons value each, ?_⟩
    rw [List.flatten_cons, all, Expr.spacesOfEntries]

end

/-- The text of a legible expression uses the modules that it names. -/
theorem Expr.usedSpaces_text (blank : Scans anyChar tab []) {e : Expr} (h : e.isLegible = true) :
    usedSpaces (e.text tab) = e.spaces :=
  (e.scans blank h).joinLines.usedSpaces_eq

example : usedSpaces "types::list(scene::Box, \"blob::x\")" = ["types", "scene"] := by
  decide +kernel

/-! ## Functions -/

/-- An indentation of spaces uses no module. -/
theorem scans_spaces (width : Nat) :
    Scans anyChar (String.ofList (List.replicate width ' ')) [] := by
  intro rest _
  rw [String.toList_ofList]
  induction width with
  | zero => rfl
  | succ width ih => exact ih

/-- The lines of the statement that is the value of a block. -/
theorem lines_value {e : Expr} (some' : e.lines tab ≠ []) :
    Stmt.linesOfBlock tab [.value e] = (e.lines tab).map .code := by
  have opened : glue [""] (e.lines tab) = e.lines tab := by
    cases lines : e.lines tab with
    | nil => exact absurd lines some'
    | cons line rest =>
      show ("" ++ line) :: rest = line :: rest
      rw [String.empty_append]
  show (glue [""] (glue (e.lines tab) (glue [""] []))).map Line.code ++ [] = _
  rw [glue_nil, glue_empty some', opened, List.append_nil]

/-- A block of lines of code, indented behind a head. -/
theorem blockLines_code (tab head : String) (lines : List String) :
    (blockLines tab head (lines.map .code)).map Line.text =
      head :: lines.map fun line => if line.isEmpty then line else tab ++ line := by
  unfold blockLines
  rw [List.map_cons, List.flatMap_map]
  congr 1
  induction lines with
  | nil => rfl
  | cons line lines ih =>
    rw [List.flatMap_cons, List.map_append, ih]
    rfl

/-- The text of a legible function that takes nothing and returns the value of an expression uses the
modules that the expression names. -/
theorem scans_constantFunction (blank : Scans anyChar tab []) {name : String} {e : Expr}
    (h : (Function.mk name [] [.value e]).isLegible = true) :
    Scans endsLine ((Function.mk name [] [.value e]).text tab) e.spaces := by
  obtain ⟨word, legible⟩ : isPlainWord name.toList = true ∧ e.isLegible = true := by
    unfold Function.isLegible Stmt.areLegible Stmt.isLegible at h
    simp only [Bool.and_eq_true] at h
    exact ⟨h.1.1, h.2.1.1⟩
  have run := (e.scans blank legible).mono fun _ => endsName_of_endsLine
  have start : Scans anyChar "fn " [] := fun _ _ => rfl
  have brace : Scans endsLine ") \x7b" [] := fun rest _ => by
    cases rest with
    | nil => rfl
    | cons c rest => rfl
  have head : Scans endsLine ("fn " ++ name ++ "(" ++ ", ".intercalate [] ++ ") \x7b") [] := by
    have opened : "fn " ++ name ++ "(" = "fn " ++ (name ++ "(") := String.append_assoc ..
    rw [String.intercalate_nil, String.append_empty, opened]
    exact (start.append_any (scans_function word)).append_any brace
  have indented : ScansRun endsLine ((e.lines tab).map fun line =>
      if line.isEmpty then line else tab ++ line) e.spaces := by
    refine run.map fun {p line names} h => ?_
    split
    · exact h
    · exact blank.append_any h
  have close : ScansRun endsLine ["\x7d"] [] := .last fun rest _ => rfl
  have all := (ScansRun.more head (indented.append close)).joinLines
  rw [List.append_nil, List.nil_append] at all
  unfold Function.text
  simp only [lines_value run.ne_nil, List.map_append, blockLines_code]
  exact all

end Pipewright.Script
