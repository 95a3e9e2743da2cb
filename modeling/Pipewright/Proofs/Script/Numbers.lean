import Mathlib
import Pipewright.Proofs.Decimal.Shown
import Pipewright.Proofs.Script.Legible

/-! # The tokens of floating-point numbers
A finite floating-point number in a program is cut into its sign and one token for the number
without it, which is read as exactly that number. -/

namespace Pipewright.Script

open Lexer
open Decimal (Numeral AllDigits powerText nearestFloat withPoint Finite)

/-- A power of ten behind a fraction is split off. -/
theorem splitPower_powerText {power : Option Int} {rest : List Char}
    (follows : ∀ c ∈ rest.head?, endsExpr c = true) :
    splitPower (powerText power ++ rest) = (powerText power, rest) := by
  have stop : ∀ c ∈ rest.head?, (c.isDigit || c == '_') = false :=
    fun c m => (not_number_of_endsExpr (follows c m)).1
  cases power with
  | none =>
    cases rest with
    | nil => rfl
    | cons c rest =>
      have exponent := (not_number_of_endsExpr (follows c rfl)).2.2
      show splitPower (c :: rest) = ([], c :: rest)
      unfold splitPower
      simp [exponent]
  | some p =>
    -- a power is written with its digits, or with a sign in front of them
    obtain ⟨digits, all, some', ⟨-, text, -⟩ | ⟨-, text, -⟩⟩ := Decimal.toString_power p
    · cases digits with
      | nil => exact absurd rfl some'
      | cons c cs =>
        have digit : c.isDigit = true := all c List.mem_cons_self
        have split : splitNumber (c :: (cs ++ rest)) = (c :: cs, rest) :=
          splitNumber_append all stop
        have opened : powerText (some p) ++ rest = 'e' :: c :: (cs ++ rest) := by
          rw [powerText, text]
          rfl
        rw [opened, splitPower]
        simp only
        rw [if_pos digit, split, powerText, text]
    · have split : splitNumber (digits ++ rest) = (digits, rest) := splitNumber_append all stop
      have opened : powerText (some p) ++ rest = 'e' :: '-' :: (digits ++ rest) := by
        rw [powerText, text]
        rfl
      rw [opened, splitPower]
      simp only
      rw [if_neg (by decide), if_pos (by decide), split, powerText, text]
      cases digits with
      | nil => exact absurd rfl some'
      | cons c cs => rfl

/-- A numeral is one token. -/
theorem Lexes.numeral {n : Numeral} (h : n.Sound) :
    Lexes endsExpr (String.ofList n.text) [.decimal (nearestFloat false n.coefficient n.exponent)] := by
  obtain ⟨c, cs, start⟩ := List.exists_cons_of_ne_nil h.whole_ne
  have digit : c.isDigit = true := h.whole c (start ▸ List.mem_cons_self)
  obtain ⟨plain, slash, quote⟩ := isDigit_spec digit
  have text : (String.ofList n.text).toList =
      c :: (cs ++ '.' :: (n.fraction ++ powerText n.power)) := by
    rw [String.toList_ofList, Numeral.text, start]
    rfl
  refine .of_read text plain slash fun rest follows => .inr ?_
  -- the digits in front of the point, those behind it, and the power are split off one by one
  have whole : splitNumber (n.whole ++ '.' :: (n.fraction ++ (powerText n.power ++ rest))) =
      (n.whole, '.' :: (n.fraction ++ (powerText n.power ++ rest))) :=
    splitNumber_append h.whole (by
      intro c m
      cases m
      decide)
  have behind : splitNumber (n.fraction ++ (powerText n.power ++ rest)) =
      (n.fraction, powerText n.power ++ rest) := by
    refine splitNumber_append h.fraction ?_
    cases n.power with
    | none => exact fun c m => (not_number_of_endsExpr (follows c m)).1
    | some p =>
      intro c m
      cases m
      decide
  have fraction : splitFraction ('.' :: (n.fraction ++ (powerText n.power ++ rest))) =
      ('.' :: n.fraction, powerText n.power ++ rest) := by
    obtain ⟨d, ds, e⟩ := List.exists_cons_of_ne_nil h.fraction_ne
    have digit' : d.isDigit = true := h.fraction d (e ▸ List.mem_cons_self)
    rw [e, List.cons_append] at behind
    rw [e, List.cons_append, splitFraction]
    simp only
    rw [if_pos digit', behind]
  have joined : n.whole ++ '.' :: n.fraction ++ powerText n.power = n.text := by
    rw [Numeral.text, List.append_assoc, List.cons_append]
  have number : readNumber (n.whole ++ '.' :: (n.fraction ++ (powerText n.power ++ rest))) =
      (.decimal (nearestFloat false n.coefficient n.exponent), rest) := by
    unfold readNumber
    simp only [whole, fraction, splitPower_powerText follows]
    rw [if_neg (by simp), joined, h.readUnsigned?, Option.getD_some]
  have opened : c :: (cs ++ '.' :: (n.fraction ++ powerText n.power)) ++ rest =
      n.whole ++ '.' :: (n.fraction ++ (powerText n.power ++ rest)) := by
    rw [start, List.cons_append, List.cons_append, List.append_assoc, List.cons_append,
      List.append_assoc]
  rw [← opened] at number
  rw [text]
  show (if c = '"' then _ else _) = _
  rw [if_neg quote, if_pos digit]
  exact congrArg some number

/-- A numeral starts with a digit. -/
theorem leads_numeral {p : Char → Bool} (digits : ∀ c : Char, c.isDigit = true → p c = true)
    {n : Numeral} (h : n.Sound) : Leads p (String.ofList n.text) := by
  obtain ⟨c, cs, text, digit⟩ := h.exists_text
  exact .of_cons (by rw [String.toList_ofList, text]) (digits c digit)

/-- The text of a floating-point number is its shown form with a point. -/
theorem floatText_eq (x : Float) : floatText x = String.ofList (withPoint (Decimal.shown x).toList) :=
  rfl

/-- A finite floating-point number is written with its sign and a numeral that is read as the number
without it. -/
theorem exists_floatText {x : Float} (finite : Finite x) :
    ∃ n : Numeral, n.Sound ∧
      floatText x = (if Decimal.isNegative x then "-" else "") ++ String.ofList n.text ∧
      nearestFloat false n.coefficient n.exponent = if Decimal.isNegative x then -x else x := by
  obtain ⟨n, sound, text, value⟩ := finite.exists_shown
  refine ⟨n, sound, ?_, value⟩
  rw [floatText_eq, text, Decimal.signed]
  split
  · rw [String.ofList_cons]
    rfl
  · rw [String.empty_append]

end Pipewright.Script
