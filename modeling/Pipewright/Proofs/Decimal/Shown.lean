import Mathlib
import Pipewright.Proofs.Decimal.Written

/-! # Shown numbers
What is shown of a floating-point number tells which number it is, the sign of zero included; only
the number that is none is left out. It consists of figures only, and it is never the text of a whole
number. -/

namespace Pipewright.Decimal

/-! ## Figures -/

/-- What numbers are shown with: letters, digits, points and signs. -/
def isFigure (c : Char) : Bool := c.isAlphanum || c == '.' || c == '-'

/-- A digit is a figure. -/
theorem isFigure_of_isDigit {c : Char} (h : c.isDigit = true) : isFigure c = true := by
  simp [isFigure, Char.isAlphanum, h]

/-- A whole number is written with digits and a sign. -/
theorem of_mem_toString {p : Int} {c : Char} (m : c ∈ (toString p).toList) :
    c = '-' ∨ c.isDigit = true := by
  obtain ⟨digits, all, -, ⟨-, text, -⟩ | ⟨-, text, -⟩⟩ := toString_power p
  · rw [text] at m
    exact .inr (all c m)
  · rw [text] at m
    exact (List.mem_cons.1 m).imp_right (all c)

/-- A numeral is written with figures. -/
theorem Numeral.Sound.figures {n : Numeral} (h : n.Sound) : ∀ c ∈ n.text, isFigure c = true := by
  intro c m
  rcases List.mem_append.1 m with m | m
  · exact isFigure_of_isDigit (h.whole c m)
  rcases List.mem_cons.1 m with rfl | m
  · decide
  rcases List.mem_append.1 m with m | m
  · exact isFigure_of_isDigit (h.fraction c m)
  cases power : n.power with
  | none =>
    rw [power] at m
    exact absurd m List.not_mem_nil
  | some p =>
    rw [power] at m
    rcases List.mem_cons.1 m with rfl | m
    · decide
    · rcases of_mem_toString m with rfl | digit
      · decide
      · exact isFigure_of_isDigit digit

/-- A numeral starts with a digit. -/
theorem Numeral.Sound.exists_text {n : Numeral} (h : n.Sound) :
    ∃ c cs, n.text = c :: cs ∧ c.isDigit = true := by
  obtain ⟨c, cs, start⟩ := List.exists_cons_of_ne_nil h.whole_ne
  refine ⟨c, cs ++ '.' :: (n.fraction ++ powerText n.power), ?_, ?_⟩
  · rw [Numeral.text, start, List.cons_append]
  · exact h.whole c (start ▸ List.mem_cons_self)

/-- A point is added to what is there. -/
theorem mem_withPoint {c : Char} {cs : List Char} (m : c ∈ cs) : c ∈ withPoint cs := by
  have both := List.takeWhile_append_dropWhile (p := fun c : Char => decide (c ≠ 'e')) (l := cs)
  unfold withPoint
  rw [List.span_eq_takeWhile_dropWhile]
  simp only
  split
  · rwa [both]
  · rw [← both] at m
    rcases List.mem_append.1 m with m | m
    · exact List.mem_append_left _ (List.mem_append_left _ m)
    · exact List.mem_append_right _ m

/-! ## Finite numbers -/

/-- A sign in front of a text, if it is a negative one. -/
def signed (negative : Bool) (cs : List Char) : List Char := if negative then '-' :: cs else cs

/-- What is shown of a finite number, with a point, is its sign and a numeral that is read as the number
without it. -/
theorem Finite.exists_shown {x : Float} (finite : Finite x) :
    ∃ n : Numeral, n.Sound ∧
      withPoint (shown x).toList = signed (isNegative x) n.text ∧
      nearestFloat false n.coefficient n.exponent = if isNegative x then -x else x := by
  obtain ⟨n, sound, text, value⟩ :=
    exists_numeral ((Magnitude.ofFloat x).shortest Layout.shown.tie)
  refine ⟨n, sound, ?_, finite.nearestFloat_shortest _ value⟩
  have opened : shown x = String.ofList (Layout.shown.writeFinite x) := by
    unfold shown
    rw [if_neg (by rw [finite.number]; decide), if_neg (by rw [finite.bounded]; decide)]
  rw [opened, String.toList_ofList, Layout.writeFinite, signed]
  split
  · rw [withPoint_minus, text]
  · exact text

/-- Signed numerals that are alike have the same sign, and their numerals are alike. -/
theorem signed_inj {n m : Numeral} (h : n.Sound) (h' : m.Sound) {negative negative' : Bool}
    (same : signed negative n.text = signed negative' m.text) :
    negative = negative' ∧ n.text = m.text := by
  obtain ⟨c, cs, text, digit⟩ := h.exists_text
  obtain ⟨d, ds, text', digit'⟩ := h'.exists_text
  have minus : ('-' : Char).isDigit = false := by decide
  unfold signed at same
  cases negative <;> cases negative'
  · exact ⟨rfl, same⟩
  · rw [text] at same
    exact absurd (List.cons.inj same).1 (ne_of_isDigit digit minus)
  · rw [text'] at same
    exact absurd (List.cons.inj same).1.symm (ne_of_isDigit digit' minus)
  · exact ⟨rfl, (List.cons.inj same).2⟩

/-- A finite number is told by what is shown of it. -/
theorem Finite.eq_of_shown {x y : Float} (h : Finite x) (h' : Finite y) (same : shown x = shown y) :
    x = y := by
  obtain ⟨n, sound, text, value⟩ := h.exists_shown
  obtain ⟨m, sound', text', value'⟩ := h'.exists_shown
  rw [same, text'] at text
  obtain ⟨sign, numeral⟩ := signed_inj sound' sound text
  -- numerals that are alike are read alike
  have read := sound.readUnsigned? false
  rw [← numeral, sound'.readUnsigned?, Option.some.injEq, value, value', sign] at read
  split at read
  · rw [← neg_neg x, ← neg_neg y, read]
  · exact read.symm

/-! ## All numbers -/

/-- An infinite number is told by its sign. -/
theorem eq_infinity_of_isNegative {x : Float} (h : x.isInf = true) :
    x = if isNegative x then -(1 / 0) else 1 / 0 := by
  have signs : isNegative (1 / 0) = false ∧ isNegative (-(1 / 0)) = true := by decide +kernel
  rcases eq_infinity h with e
  split at e
  · rw [e, signs.1, if_neg Bool.false_ne_true]
  · rw [e, signs.2, if_pos rfl]

/-- What is shown of an infinite number. -/
theorem shown_infinity {x : Float} (number : x.isNaN = false) (h : x.isInf = true) :
    shown x = if isNegative x then "-inf" else "inf" := by
  unfold shown
  rw [if_neg (by rw [number]; exact Bool.false_ne_true), if_pos h]

/-- A finite number is not shown like an infinite one. -/
theorem Finite.shown_ne {x y : Float} (h : Finite x) (number : y.isNaN = false)
    (infinite : y.isInf = true) : shown x ≠ shown y := by
  intro same
  obtain ⟨n, sound, text, -⟩ := h.exists_shown
  obtain ⟨c, cs, start, digit⟩ := sound.exists_text
  have apart : c ≠ 'i' ∧ c ≠ '-' :=
    ⟨ne_of_isDigit digit (by decide), ne_of_isDigit digit (by decide)⟩
  have names : withPoint "inf".toList = ['i', 'n', 'f'] ∧
      withPoint "-inf".toList = ['-', 'i', 'n', 'f'] := by decide
  rw [same, shown_infinity number infinite, start] at text
  cases negative : isNegative y <;> cases negative' : isNegative x <;>
    simp only [negative, negative', if_true, Bool.false_eq_true, if_false, signed, names.1, names.2,
      List.cons.injEq] at text
  · exact apart.1 text.1.symm
  · exact absurd text.1 (by decide)
  · exact apart.2 text.1.symm
  · exact apart.1 text.2.1.symm

/-- A floating-point number is told by what is shown of it. -/
theorem eq_of_shown {x y : Float} (number : x.isNaN = false) (number' : y.isNaN = false)
    (same : shown x = shown y) : x = y := by
  cases infinite : x.isInf with
  | false =>
    cases infinite' : y.isInf with
    | false => exact Finite.eq_of_shown ⟨number, infinite⟩ ⟨number', infinite'⟩ same
    | true => exact absurd same (Finite.shown_ne ⟨number, infinite⟩ number' infinite')
  | true =>
    cases infinite' : y.isInf with
    | false => exact absurd same.symm (Finite.shown_ne ⟨number', infinite'⟩ number infinite)
    | true =>
      rw [shown_infinity number infinite, shown_infinity number' infinite'] at same
      rw [eq_infinity_of_isNegative infinite, eq_infinity_of_isNegative infinite']
      cases negative : isNegative x <;> cases negative' : isNegative y
      · rfl
      · rw [negative, negative'] at same
        exact absurd same (by decide)
      · rw [negative, negative'] at same
        exact absurd same (by decide)
      · rfl

/-- What is shown of a floating-point number is one of three names, or, with a point, its sign and a
numeral. -/
theorem shown_cases (x : Float) :
    (shown x = "NaN" ∨ shown x = "inf" ∨ shown x = "-inf") ∨
      ∃ n : Numeral, n.Sound ∧ withPoint (shown x).toList = signed (isNegative x) n.text := by
  cases number : x.isNaN with
  | true =>
    have text : shown x = "NaN" := by
      unfold shown
      rw [if_pos number]
    exact .inl (.inl text)
  | false =>
    cases infinite : x.isInf with
    | true =>
      rw [shown_infinity number infinite]
      split
      · exact .inl (.inr (.inr rfl))
      · exact .inl (.inr (.inl rfl))
    | false =>
      obtain ⟨n, sound, text, -⟩ := Finite.exists_shown ⟨number, infinite⟩
      exact .inr ⟨n, sound, text⟩

/-- A numeral with a sign is written with figures. -/
theorem Numeral.Sound.figures_signed {n : Numeral} (h : n.Sound) (negative : Bool) :
    ∀ c ∈ signed negative n.text, isFigure c = true := by
  intro c m
  unfold signed at m
  split at m
  · rcases List.mem_cons.1 m with rfl | m
    · decide
    · exact h.figures c m
  · exact h.figures c m

/-- A numeral with a sign starts with a digit or the sign. -/
theorem Numeral.Sound.exists_signed {n : Numeral} (h : n.Sound) (negative : Bool) :
    ∃ c cs, signed negative n.text = c :: cs ∧ (c = '-' ∨ c.isDigit = true) := by
  obtain ⟨c, cs, text, digit⟩ := h.exists_text
  unfold signed
  split
  · exact ⟨'-', n.text, rfl, .inl rfl⟩
  · exact ⟨c, cs, text, .inr digit⟩

/-- A floating-point number is shown with figures, and with at least one. -/
theorem shown_figures (x : Float) :
    (shown x).toList ≠ [] ∧ ∀ c ∈ (shown x).toList, isFigure c = true := by
  rcases shown_cases x with (named | named | named) | ⟨n, sound, text⟩
  · rw [named]
    exact ⟨by decide, List.all_eq_true.1 rfl⟩
  · rw [named]
    exact ⟨by decide, List.all_eq_true.1 rfl⟩
  · rw [named]
    exact ⟨by decide, List.all_eq_true.1 rfl⟩
  · obtain ⟨c, cs, start, -⟩ := sound.exists_signed (isNegative x)
    refine ⟨fun none => ?_, fun c m => ?_⟩
    · rw [none, start] at text
      cases text
    · have m' := mem_withPoint m
      rw [text] at m'
      exact sound.figures_signed _ c m'

/-- What is shown of a floating-point number starts, with a point or without, with a digit, a sign or one of
two letters. -/
theorem head_withPoint_shown (x : Float) :
    ∀ c ∈ (withPoint (shown x).toList).head?, c = '-' ∨ c = 'i' ∨ c = 'N' ∨ c.isDigit = true := by
  rcases shown_cases x with (named | named | named) | ⟨n, sound, text⟩
  · rw [named]
    rintro c ⟨⟩
    exact .inr (.inr (.inl rfl))
  · rw [named]
    rintro c ⟨⟩
    exact .inr (.inl rfl)
  · rw [named]
    rintro c ⟨⟩
    exact .inl rfl
  · obtain ⟨c, cs, start, first⟩ := sound.exists_signed (isNegative x)
    rw [text, start]
    rintro c' ⟨⟩
    exact first.imp_right fun digit => .inr (.inr digit)

/-- What is shown of a floating-point number is never the text of a whole number. -/
theorem shown_ne_toString (x : Float) (p : Int) : shown x ≠ toString p := by
  intro same
  have signs : ∀ c ∈ (shown x).toList, c = '-' ∨ c.isDigit = true := by
    intro c m
    rw [same] at m
    exact of_mem_toString m
  rcases shown_cases x with (named | named | named) | ⟨n, sound, text⟩
  · rw [named] at signs
    exact absurd (signs 'N' (by decide)) (by decide)
  · rw [named] at signs
    exact absurd (signs 'i' (by decide)) (by decide)
  · rw [named] at signs
    exact absurd (signs 'i' (by decide)) (by decide)
  · -- without a power of ten nothing is added, so the point is among digits and signs
    have plain : ∀ c ∈ (shown x).toList, c ≠ 'e' := by
      rintro c m rfl
      exact absurd (signs _ m) (by decide)
    rw [withPoint_plain plain] at text
    have point : '.' ∈ (shown x).toList := by
      have within : '.' ∈ n.text := List.mem_append_right _ List.mem_cons_self
      rw [text, signed]
      split
      · exact List.mem_cons_of_mem _ within
      · exact within
    exact absurd (signs _ point) (by decide)

end Pipewright.Decimal
