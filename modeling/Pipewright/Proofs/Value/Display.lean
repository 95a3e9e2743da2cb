import Pipewright.Proofs.DataType.Numeric
import Pipewright.Proofs.Decimal.Shown
import Pipewright.Proofs.Text.Delimited
import Pipewright.Proofs.Text.Quoted

/-! # What is shown of a literal
The text that is shown for a literal tells which literal it is, as long as all floating-point numbers
in it are numbers: whole numbers, floating-point numbers and truth values are shown with figures and
told apart by them, and everything else starts with a sign of its own and is closed again. -/

namespace Pipewright.Value

open Text (Apart Ends isDelimiter showItems showMore)
open Decimal (isFigure)

/-! ## Texts by their characters -/

/-- The characters that are shown for a literal. -/
def chars (v : Value) : List Char := v.display.toList

/-- The characters that are shown for a pair. -/
def pairChars (pair : Value × Value) : List Char := chars pair.1 ++ ':' :: ' ' :: chars pair.2

/-- What closes a tuple: one item alone has a comma behind it. -/
def tupleEnd : List Value → List Char
  | [_] => [',', ')']
  | _ => [')']

/-- Texts that are joined by commas are shown one behind the other. -/
theorem toList_intercalate_map {α : Type} (f : α → String) (items : List α) :
    (", ".intercalate (items.map f)).toList = showItems (fun a => (f a).toList) items := by
  induction items with
  | nil => rfl
  | cons item items ih =>
    cases items with
    | nil => simp [showItems, showMore]
    | cons next items =>
      rw [List.map_cons, List.map_cons, String.intercalate_cons_cons, String.toList_append,
        String.toList_append, ← List.map_cons, ih]
      simp [showItems, showMore]

/-- The texts of a list of pairs. -/
theorem displayPairs_eq_map (pairs : List (Value × Value)) : displayPairs pairs =
    pairs.map fun pair => pair.1.display ++ ": " ++ pair.2.display := by
  induction pairs with
  | nil => rfl
  | cons pair pairs ih =>
    obtain ⟨k, v⟩ := pair
    rw [displayPairs, List.map_cons, ih]

/-- What is shown of a list. -/
theorem chars_list (items : List Value) :
    chars (.list items) = '[' :: (showItems chars items ++ [']']) := by
  unfold chars
  rw [display, displayItems_eq_map, String.toList_append, String.toList_append,
    toList_intercalate_map]
  rfl

/-- What is shown of a tuple. -/
theorem chars_tuple (items : List Value) :
    chars (.tuple items) = '(' :: (showItems chars items ++ tupleEnd items) := by
  unfold chars
  match items with
  | [] => rfl
  | [item] =>
    rw [display, String.toList_append, String.toList_append]
    simp [showItems, showMore, tupleEnd]
  | a :: b :: items =>
    rw [display, displayItems_eq_map, String.toList_append, String.toList_append,
      toList_intercalate_map]
    · rfl
    · simp

/-- What is shown of a dictionary. -/
theorem chars_dict (pairs : List (Value × Value)) :
    chars (.dict pairs) = '\x7b' :: (showItems pairChars pairs ++ ['\x7d']) := by
  have same : (fun pair : Value × Value => (pair.1.display ++ ": " ++ pair.2.display).toList) =
      pairChars := by
    funext pair
    simp [pairChars, chars]
  unfold chars
  rw [display, displayPairs_eq_map, String.toList_append, String.toList_append,
    toList_intercalate_map, same]
  rfl

/-- What is shown of a text. -/
theorem chars_str (text : String) : chars (.str text) = Text.quotedChars text.toList := by
  unfold chars
  rw [display, Text.quoted, String.toList_ofList]

/-! ## First characters -/

/-- The sign that a literal starts with, if it is not shown with figures. -/
def opening : Value → Option Char
  | .str _ => some '"'
  | .list _ => some '['
  | .tuple _ => some '('
  | .dict _ => some '\x7b'
  | _ => none

/-- A character that may start a literal, if it is not a figure. -/
def openingOf (c : Char) : Option Char := if isFigure c then none else some c

/-- No figure is a delimiter. -/
theorem isDelimiter_of_isFigure {c : Char} (h : isFigure c = true) : isDelimiter c = false := by
  rw [← Bool.not_eq_true]
  intro delimiter
  unfold isDelimiter at delimiter
  simp only [Bool.or_eq_true, beq_iff_eq] at delimiter
  rcases delimiter with (((rfl | rfl) | rfl) | rfl) | rfl <;> exact absurd h (by decide)

/-- A literal that does not start with a sign is shown with figures, and with at least one. -/
theorem figures {v : Value} (plain : v.opening = none) :
    chars v ≠ [] ∧ ∀ c ∈ chars v, isFigure c = true := by
  cases v with
  | int n =>
    refine ⟨?_, fun c m => ?_⟩
    · obtain ⟨digits, -, some', ⟨-, text, -⟩ | ⟨-, text, -⟩⟩ := Decimal.toString_power n.toInt
      · show (toString n.toInt).toList ≠ []
        rwa [text]
      · show (toString n.toInt).toList ≠ []
        rw [text]
        exact List.cons_ne_nil _ _
    · rcases Decimal.of_mem_toString m with rfl | digit
      · decide
      · exact Decimal.isFigure_of_isDigit digit
  | float x => exact Decimal.shown_figures x
  | bool b =>
    cases b
    · exact ⟨by decide, List.all_eq_true.1 rfl⟩
    · exact ⟨by decide, List.all_eq_true.1 rfl⟩
  | str text => cases plain
  | list items => cases plain
  | tuple items => cases plain
  | dict pairs => cases plain

/-- The first character of a literal tells the sign that it starts with. -/
theorem exists_chars (v : Value) : ∃ c cs, chars v = c :: cs ∧ openingOf c = v.opening := by
  cases plain : v.opening with
  | none =>
    obtain ⟨some', all⟩ := figures plain
    obtain ⟨c, cs, e⟩ := List.exists_cons_of_ne_nil some'
    refine ⟨c, cs, e, ?_⟩
    unfold openingOf
    rw [if_pos (all c (e ▸ List.mem_cons_self))]
  | some sign =>
    cases v with
    | str text => exact ⟨'"', _, chars_str text, plain⟩
    | list items => exact ⟨'[', _, chars_list items, plain⟩
    | tuple items => exact ⟨'(', _, chars_tuple items, plain⟩
    | dict pairs => exact ⟨'\x7b', _, chars_dict pairs, plain⟩
    | int n => cases plain
    | float x => cases plain
    | bool b => cases plain

/-- Literals that are shown alike start with the same sign. -/
theorem opening_eq {v w : Value} {rest rest' : List Char} (h : chars v ++ rest = chars w ++ rest') :
    v.opening = w.opening := by
  obtain ⟨c, cs, e, sign⟩ := exists_chars v
  obtain ⟨d, ds, e', sign'⟩ := exists_chars w
  rw [e, e'] at h
  rw [← sign, ← sign', (List.cons.inj h).1]

/-- No literal starts with a delimiter. -/
theorem chars_append_ne {close : Char} (delimiter : isDelimiter close = true) (v : Value)
    (behind rest : List Char) : chars v ++ behind ≠ close :: rest := by
  obtain ⟨c, cs, e, sign⟩ := exists_chars v
  intro h
  rw [e] at h
  obtain ⟨rfl, -⟩ := List.cons.inj h
  have other : isFigure c = false := by
    rw [← Bool.not_eq_true]
    intro figure
    rw [isDelimiter_of_isFigure figure] at delimiter
    cases delimiter
  unfold openingOf at sign
  rw [other, if_neg Bool.false_ne_true] at sign
  cases v <;> simp only [opening, Option.some.injEq, reduceCtorEq] at sign <;>
    exact absurd (sign ▸ delimiter) (by decide)

/-! ## Literals that are shown with figures -/

/-- A floating-point number is not shown like a truth value. -/
theorem shown_ne_showBool (x : Float) (b : Bool) : Decimal.shown x ≠ showBool b := by
  intro same
  have head := Decimal.head_withPoint_shown x
  rw [same] at head
  cases b
  · exact absurd (head 'f' rfl) (by decide)
  · exact absurd (head 't' rfl) (by decide)

/-- A whole number is not shown like a truth value. -/
theorem showInt_ne_showBool (n : Int64) (b : Bool) : showInt n ≠ showBool b := by
  intro same
  have signs : ∀ c ∈ (showInt n).toList, c = '-' ∨ c.isDigit = true :=
    fun c m => Decimal.of_mem_toString m
  rw [same] at signs
  cases b
  · exact absurd (signs 'f' (by decide)) (by decide)
  · exact absurd (signs 't' (by decide)) (by decide)

/-- A whole number is told by what is shown of it. -/
theorem eq_of_showInt {n m : Int64} (same : showInt n = showInt m) : n = m := by
  have read := Decimal.readExponent?_toString n.toInt
  have same' : toString n.toInt = toString m.toInt := same
  rw [same', Decimal.readExponent?_toString, Option.some.injEq] at read
  exact Int64.toInt_inj.1 read.symm

/-- Literals that are shown with figures are told by what is shown of them. -/
theorem eq_of_display {v w : Value} (plain : v.opening = none) (plain' : w.opening = none)
    (numeric : v.Numeric) (numeric' : w.Numeric) (same : v.display = w.display) : v = w := by
  cases v with
  | int n =>
    cases w with
    | int m => rw [eq_of_showInt same]
    | float y => exact absurd same.symm (Decimal.shown_ne_toString y _)
    | bool b => exact absurd same (showInt_ne_showBool n b)
    | _ => cases plain'
  | float x =>
    have number := numeric x (List.mem_singleton_self x)
    cases w with
    | int m => exact absurd same (Decimal.shown_ne_toString x _)
    | float y =>
      have number' := numeric' y (List.mem_singleton_self y)
      rw [Decimal.eq_of_shown number number' same]
    | bool b => exact absurd same (shown_ne_showBool x b)
    | _ => cases plain'
  | bool b =>
    cases w with
    | int m => exact absurd same.symm (showInt_ne_showBool m b)
    | float y => exact absurd same.symm (shown_ne_showBool y b)
    | bool b' =>
      cases b <;> cases b' <;> first | rfl | exact absurd same (by decide)
    | _ => cases plain'
  | _ => cases plain

/-! ## All literals -/

/-- Behind the first item of a tuple is a comma or the closing bracket. -/
theorem ends_showMore_tupleEnd (item : Value) (items : List Value) (rest : List Char) :
    Ends (showMore chars items ++ (tupleEnd (item :: items) ++ rest)) := by
  cases items with
  | nil => exact Text.ends_cons (by decide) _
  | cons next items => exact Text.ends_cons (by decide) _

/-- Tuples that are shown alike are the same, and so is what follows them. -/
theorem showTuple_inj {items items' : List Value} {rest rest' : List Char}
    (apart : ∀ a ∈ items, ∀ b ∈ items', Apart chars a b)
    (h : showItems chars items ++ (tupleEnd items ++ rest) =
      showItems chars items' ++ (tupleEnd items' ++ rest')) : items = items' ∧ rest = rest' := by
  have close : isDelimiter ')' = true := by decide
  cases items with
  | nil =>
    cases items' with
    | nil => exact ⟨rfl, (List.cons.inj h).2⟩
    | cons b items' =>
      rw [showItems, showItems, List.append_assoc] at h
      exact absurd h.symm (chars_append_ne close b _ _)
  | cons a items =>
    cases items' with
    | nil =>
      rw [showItems, showItems, List.append_assoc] at h
      exact absurd h (chars_append_ne close a _ _)
    | cons b items' =>
      rw [showItems, showItems, List.append_assoc, List.append_assoc] at h
      obtain ⟨rfl, more⟩ := apart a List.mem_cons_self b List.mem_cons_self _ _
        (ends_showMore_tupleEnd a items rest) (ends_showMore_tupleEnd b items' rest') h
      cases items with
      | nil =>
        cases items' with
        | nil => exact ⟨rfl, (List.cons.inj (List.cons.inj more).2).2⟩
        | cons d items' => exact absurd (List.cons.inj (List.cons.inj more).2).1 (by decide)
      | cons c items =>
        cases items' with
        | nil => exact absurd (List.cons.inj (List.cons.inj more).2).1 (by decide)
        | cons d items' =>
          obtain ⟨same, same'⟩ := Text.showMore_inj close (by decide) (fun a m b m' =>
            apart a (List.mem_cons_of_mem _ m) b (List.mem_cons_of_mem _ m')) more
          exact ⟨congrArg _ same, same'⟩

/-- Pairs are told apart if their keys and their values are. -/
theorem apart_pair {pair pair' : Value × Value} (key : Apart chars pair.1 pair'.1)
    (value : Apart chars pair.2 pair'.2) : Apart pairChars pair pair' := by
  intro rest rest' ends ends' h
  unfold pairChars at h
  rw [List.append_assoc, List.append_assoc] at h
  obtain ⟨same, behind⟩ :=
    key _ _ (Text.ends_cons (by decide) _) (Text.ends_cons (by decide) _) h
  obtain ⟨same', rest⟩ := value _ _ ends ends' (List.cons.inj (List.cons.inj behind).2).2
  exact ⟨Prod.ext same same', rest⟩

/-- The keys and values of a numeric dictionary are numeric. -/
theorem numeric_of_mem_pairs {pairs : List (Value × Value)} {pair : Value × Value}
    (h : ∀ x ∈ floatsOfPairs pairs, x.isNaN = false) (m : pair ∈ pairs) :
    pair.1.Numeric ∧ pair.2.Numeric := by
  induction pairs with
  | nil => cases m
  | cons first pairs ih =>
    obtain ⟨k, v⟩ := first
    rw [floatsOfPairs, List.forall_mem_append, List.forall_mem_append] at h
    rcases List.mem_cons.1 m with rfl | m
    · exact h.1
    · exact ih h.2 m

/-- The items of a numeric list or tuple are numeric. -/
theorem numeric_of_mem_items {items : List Value} {item : Value}
    (h : ∀ x ∈ floatsOfItems items, x.isNaN = false) (m : item ∈ items) : item.Numeric := by
  induction items with
  | nil => cases m
  | cons first items ih =>
    rw [floatsOfItems, List.forall_mem_append] at h
    rcases List.mem_cons.1 m with rfl | m
    · exact h.1
    · exact ih h.2 m

/-- Literals that are shown with figures are told apart. -/
theorem apart_of_plain {v w : Value} (plain : v.opening = none) (numeric : v.Numeric)
    (numeric' : w.Numeric) : Apart chars v w := by
  intro rest rest' ends ends' h
  have plain' : w.opening = none := by rw [← opening_eq h, plain]
  obtain ⟨text, same⟩ := Text.append_inj_of_plain
    (fun c m => isDelimiter_of_isFigure ((figures plain).2 c m))
    (fun c m => isDelimiter_of_isFigure ((figures plain').2 c m)) ends ends' h
  exact ⟨eq_of_display plain plain' numeric numeric' (String.toList_inj.1 text), same⟩

mutual

/-- Numeric literals are told apart by what is shown of them. -/
theorem apart : (v : Value) → v.Numeric → ∀ w : Value, w.Numeric → Apart chars v w
  | .int _, h, _, h' => apart_of_plain rfl h h'
  | .float _, h, _, h' => apart_of_plain rfl h h'
  | .bool _, h, _, h' => apart_of_plain rfl h h'
  | .str text, _, w, _ => by
    intro rest rest' _ _ same
    have sign := opening_eq same
    cases w with
    | str text' =>
      rw [chars_str, chars_str] at same
      obtain ⟨e, rest⟩ := Text.quotedChars_append_inj same
      exact ⟨congrArg _ (String.toList_inj.1 e), rest⟩
    | _ => simp [opening] at sign
  | .list items, h, w, h' => by
    intro rest rest' _ _ same
    have sign := opening_eq same
    cases w with
    | list items' =>
      rw [chars_list, chars_list, List.cons_append, List.cons_append, List.append_assoc,
        List.append_assoc] at same
      have behind := (List.cons.inj same).2
      obtain ⟨e, rest⟩ := Text.showItems_inj (by decide) (by decide)
        (fun a m b m' => apartItems items h a m b (numeric_of_mem_items h' m'))
        (chars_append_ne (by decide)) behind
      exact ⟨congrArg _ e, rest⟩
    | _ => simp [opening] at sign
  | .tuple items, h, w, h' => by
    intro rest rest' _ _ same
    have sign := opening_eq same
    cases w with
    | tuple items' =>
      rw [chars_tuple, chars_tuple, List.cons_append, List.cons_append, List.append_assoc,
        List.append_assoc] at same
      have behind := (List.cons.inj same).2
      obtain ⟨e, rest⟩ := showTuple_inj
        (fun a m b m' => apartItems items h a m b (numeric_of_mem_items h' m')) behind
      exact ⟨congrArg _ e, rest⟩
    | _ => simp [opening] at sign
  | .dict pairs, h, w, h' => by
    intro rest rest' _ _ same
    have sign := opening_eq same
    cases w with
    | dict pairs' =>
      rw [chars_dict, chars_dict, List.cons_append, List.cons_append, List.append_assoc,
        List.append_assoc] at same
      have behind := (List.cons.inj same).2
      -- a pair starts with its key
      have opens : ∀ pair behind rest, pairChars pair ++ behind ≠ '\x7d' :: rest := by
        intro pair behind rest
        unfold pairChars
        rw [List.append_assoc]
        exact chars_append_ne (by decide) pair.1 _ _
      obtain ⟨e, rest⟩ := Text.showItems_inj (by decide) (by decide)
        (fun a m b m' => apartPairs pairs h a m b (numeric_of_mem_pairs h' m')) opens behind
      exact ⟨congrArg _ e, rest⟩
    | _ => simp [opening] at sign

/-- So is every item of a numeric list. -/
theorem apartItems : (items : List Value) → (∀ x ∈ floatsOfItems items, x.isNaN = false) →
    ∀ item ∈ items, ∀ w : Value, w.Numeric → Apart chars item w
  | [], _, _, m, _, _ => absurd m List.not_mem_nil
  | first :: items, h, item, m, w, h' => by
    rw [floatsOfItems, List.forall_mem_append] at h
    rcases List.mem_cons.1 m with e | m
    · rw [e]
      exact apart first h.1 w h'
    · exact apartItems items h.2 item m w h'

/-- So is every pair of a numeric dictionary. -/
theorem apartPairs : (pairs : List (Value × Value)) →
    (∀ x ∈ floatsOfPairs pairs, x.isNaN = false) → ∀ pair ∈ pairs, ∀ pair' : Value × Value,
      pair'.1.Numeric ∧ pair'.2.Numeric → Apart pairChars pair pair'
  | [], _, _, m, _, _ => absurd m List.not_mem_nil
  | (k, v) :: pairs, h, pair, m, pair', h' => by
    rw [floatsOfPairs, List.forall_mem_append, List.forall_mem_append] at h
    rcases List.mem_cons.1 m with e | m
    · rw [e]
      exact apart_pair (apart k h.1.1 pair'.1 h'.1) (apart v h.1.2 pair'.2 h'.2)
    · exact apartPairs pairs h.2 pair m pair' h'

end

/-- A literal whose floating-point numbers are all numbers is told by what is shown of it. -/
theorem display_inj {v w : Value} (h : v.Numeric) (h' : w.Numeric) :
    v.display = w.display ↔ v = w := by
  refine ⟨fun same => ?_, congrArg display⟩
  have same' : chars v ++ [] = chars w ++ [] := by rw [chars, chars, same]
  exact (apart v h w h' [] [] Text.ends_nil Text.ends_nil same').1

end Pipewright.Value
