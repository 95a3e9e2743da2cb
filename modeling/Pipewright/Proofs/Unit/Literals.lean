import Pipewright.Proofs.Decimal.Bits
import Pipewright.Proofs.Host.Statements
import Pipewright.Proofs.Unit.Retention

/-! # Literals in generated programs
What the code of a literal evaluates to. Numbers, texts, truth values and lists are themselves;
tuples and dictionaries are read back from the document that is written for them, which may lose
something. -/

namespace Pipewright

open Host (Environment Yields evalExpr evalItems)
open Script (Expr)

namespace Value

mutual

/-- The script value that the code of a literal evaluates to; none, if a document in it cannot be
read. -/
def reading : Value → Option Datum
  | .list items => (readings items).map .array
  | .tuple items => (ofText? (toText (.tuple items))).map toDatum
  | .dict pairs => (ofText? (toText (.dict pairs))).map toDatum
  | v => some v.toDatum

/-- The script values that the codes of a list of literals evaluate to. -/
def readings : List Value → Option (List Datum)
  | [] => some []
  | item :: items => do
    let d ← reading item
    let ds ← readings items
    return d :: ds

end

/-- The code of a literal evaluates to the script value of the literal. -/
def ReadsBack (v : Value) : Prop := v.reading = some v.toDatum

end Value

namespace Host

variable {env : Environment} {call : Caller} {s : Entries} {w : World}

/-- The code of a floating-point number evaluates to the number. -/
theorem yields_float (x : Float) (lacks : env.Lacks "parse_float") :
    Yields (evalExpr env call (Value.float x).spelling) s w (.ok (.float x)) s w := by
  have parsed : ∀ text y, Decimal.readFloat? (String.ofList (Text.trim text.toList)) = some y →
      Yields (evalExpr env call (.call "parse_float" [.str text])) s w (.ok (.float y)) s w := by
    intro text y read
    exact .call_native (.items_cons (.str text) .items_nil) (lacks _) ((Yields.require read).map _)
  unfold Value.spelling
  by_cases none : x.isNaN = true
  · rw [if_pos none, Decimal.eq_nan none]
    exact parsed _ _ (by decide +kernel)
  · rw [if_neg none]
    by_cases infinite : x.isInf = true
    · have e := Decimal.eq_infinity infinite
      rw [if_pos infinite]
      by_cases positive : 0 < x
      · rw [if_pos positive] at e ⊢
        rw [e]
        exact parsed _ _ (by decide +kernel)
      · rw [if_neg positive] at e ⊢
        rw [e]
        exact parsed _ _ (by decide +kernel)
    · rw [if_neg infinite]
      exact .float x

/-- The code of a whole number evaluates to the number. -/
theorem yields_int (n : Int64) :
    Yields (evalExpr env call (Value.int n).spelling) s w (.ok (.int n)) s w := by
  unfold Value.spelling
  by_cases least : n = Int64.minValue
  · rw [if_pos least, least]
    have minus : Yields (evalExpr env call
        (.binary .minus (.int (Int64.minValue + 1)) (.int 1))) s w (.ok (.int Int64.minValue)) s
        w :=
      (Yields.int _).bind ((Yields.int _).bind (.require rfl))
    exact minus
  · rw [if_neg least]
    exact .int n

/-- What is come to by a literal that is read as an option says. -/
def literalResult {α : Type} : Option α → Except Halt α
  | some a => .ok a
  | none => .error (.thrown (.text "value_from_json"))

/-- The document of a literal evaluates to what is read from it, or raises that it cannot be
read. -/
theorem yields_document (text : String) :
    Yields (evalExpr env call (HostModule.blob.call "value_from_json" [.str text])) s w
      (literalResult ((Value.ofText? text).map Value.toDatum)) s w := by
  refine .moduleCall (.items_cons (.str text) .items_nil) ?_
  rw [Environment.callModule, module?_name]
  show Yields (Host.demand _ _) _ _ _ _ _
  cases (Value.ofText? text).map Value.toDatum with
  | some d => exact .demand _ rfl
  | none => exact .raise _

mutual

/-- The code of a literal evaluates to what is read, or raises that it cannot be read. -/
theorem yields_literal (v : Value) (lacks : env.Lacks "parse_float") :
    Yields (evalExpr env call v.spelling) s w (literalResult v.reading) s w := by
  match v with
  | .int n => exact yields_int n
  | .float x => exact yields_float x lacks
  | .str text => exact .str text
  | .bool b => exact .bool b
  | .list items =>
    have read := yields_literals items lacks
    rw [Value.spelling, Value.reading]
    cases e : Value.readings items with
    | some ds =>
      rw [e] at read
      exact .array read
    | none =>
      rw [e] at read
      exact read.bind_error
  | .tuple items =>
    rw [Value.spelling, Value.reading]
    exact yields_document _
  | .dict pairs =>
    rw [Value.spelling, Value.reading]
    exact yields_document _

/-- The codes of a list of literals evaluate to what is read, or raise that one cannot be read. -/
theorem yields_literals (items : List Value) (lacks : env.Lacks "parse_float") :
    Yields (evalItems env call (Value.spellings items)) s w (literalResult (Value.readings items))
      s w := by
  match items with
  | [] => exact .items_nil
  | item :: items =>
    have first := yields_literal item lacks
    have rest := yields_literals items lacks
    rw [Value.spellings, Value.readings]
    cases e : item.reading with
    | none =>
      rw [e] at first
      exact .items_halt first
    | some d =>
      rw [e] at first
      cases e' : Value.readings items with
      | none =>
        rw [e'] at rest
        exact first.bind rest.bind_error
      | some ds =>
        rw [e'] at rest
        exact .items_cons first rest

end

end Host

end Pipewright
