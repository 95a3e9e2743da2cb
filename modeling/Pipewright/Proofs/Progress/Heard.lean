import Mathlib.Data.List.Basic
import Pipewright.Progress

/-! # What callbacks hear
A report to a callback is heard by that callback, and by all to which it passes reports on. What a
callback hears of a course of moves is told from the moves alone; what gets into its outlet is just
that. -/

namespace Pipewright.Progress

universe u v

variable {α : Type u} {β : Type v}

/-! ## Where reports go -/

namespace Callback

/-- What is reported to another callback reaches a callback: it is the same, or the other one passes
its reports on to it. -/
inductive Reaches (c : Callback) : Callback → Prop where
  /-- A report to the callback itself. -/
  | refl : Reaches c c
  /-- A report to a callback for a piece of another one's work. -/
  | sub {cell : Nat} {parent : Callback} {piece pieces : Int} (passed : Reaches c parent) :
    Reaches c (.sub cell parent piece pieces)

/-- The callback at which reports come to an end. -/
def root : Callback → Callback
  | .plain cell outlet => .plain cell outlet
  | .sub _ parent _ _ => parent.root

/-- What is reported to another callback is none of a callback's business: it does not reach it, and
it does not get into its outlet either. -/
structure Apart (c d : Callback) : Prop where
  /-- Reports are not passed on to it. -/
  unreached : ¬ Reaches c d
  /-- Reports get into another outlet, or into none. -/
  outlet : ∀ o, c.outlet? = some o → d.root.outlet? ≠ some o

variable {c d : Callback} {cell : Nat} {piece pieces : Int}

/-- A callback is not within the ones to which it passes reports on. -/
theorem Reaches.sizeOf_le (h : Reaches c d) : sizeOf c ≤ sizeOf d := by
  induction h with
  | refl => exact Nat.le_refl _
  | sub _ ih =>
    rw [sub.sizeOf_spec]
    omega

/-- What reaches a callback for a piece reaches the one whose piece it is. -/
theorem Reaches.of_sub (h : Reaches (.sub cell c piece pieces) d) : Reaches c d := by
  induction h with
  | refl => exact .sub .refl
  | sub _ ih => exact .sub ih

/-- A callback differs from those that pass reports on to it. -/
theorem Reaches.ne_sub (h : Reaches c d) : c ≠ .sub cell d piece pieces := by
  rintro rfl
  have smaller := h.sizeOf_le
  rw [sub.sizeOf_spec] at smaller
  omega

section Hears

variable [Add α] [Mul α] [Div α] [OfNat α 1] [IntCast α]

/-- What a callback hears of a report to another one: the report, or what becomes of it on its
way. -/
def hears (c : Callback) : Callback → String → α → Int → Int → Option (Report α)
  | .plain cell outlet, pieceName, fraction, piece, pieces =>
    if c = .plain cell outlet then some (.of pieceName fraction piece pieces) else none
  | .sub cell parent ofParent pieceCount, pieceName, fraction, piece, pieces =>
    if c = .sub cell parent ofParent pieceCount then some (.of pieceName fraction piece pieces)
    else c.hears parent pieceName (overall fraction piece pieces) ofParent pieceCount

variable {pieceName : String} {fraction : α}

/-- A callback hears what is reported to itself. -/
@[simp] theorem hears_self :
    c.hears c pieceName fraction piece pieces = some (.of pieceName fraction piece pieces) := by
  cases c <;> simp [hears]

/-- A callback hears nothing of a report that does not reach it. -/
theorem hears_eq_none (h : ¬ Reaches c d) : c.hears d pieceName fraction piece pieces = none := by
  induction d generalizing fraction piece pieces with
  | plain cell outlet =>
    rw [hears, if_neg]
    rintro rfl
    exact h .refl
  | sub cell parent ofParent pieceCount ih =>
    rw [hears, if_neg]
    · exact ih fun passed => h (.sub passed)
    · rintro rfl
      exact h .refl

/-- What reaches a callback for a piece of another one's work is heard by that one as progress of the
piece. -/
theorem Reaches.hears_eq {ofParent pieceCount : Int}
    (h : Reaches (.sub cell c ofParent pieceCount) d) :
    c.hears d pieceName fraction piece pieces =
      ((Callback.sub cell c ofParent pieceCount).hears d pieceName fraction piece pieces).map fun ρ =>
        .of ρ.pieceName ρ.total ofParent pieceCount := by
  induction h generalizing fraction piece pieces with
  | refl =>
    rw [hears_self, hears, if_neg Reaches.refl.ne_sub, hears_self]
    rfl
  | sub passed ih =>
    rw [hears, if_neg passed.of_sub.ne_sub, hears, if_neg passed.ne_sub, ih]

end Hears

end Callback

/-! ## Moves -/

/-- What is done to a board while something is worked on: callbacks are made, and reports to them. -/
inductive Move (α : Type u) where
  /-- A callback is made that only keeps the latest report. -/
  | plain
  /-- A callback with an outlet is made. -/
  | outlet
  /-- A callback for one piece of another one's work is made. -/
  | sub (parent : Callback) (piece pieces : Int)
  /-- A fraction of a piece is reported to a callback. -/
  | report (callback : Callback) (pieceName : String) (fraction : α) (piece pieces : Int)

namespace Move

/-- The same move with another number in the place of the fraction. -/
def map (f : α → β) : Move α → Move β
  | .plain => .plain
  | .outlet => .outlet
  | .sub parent piece pieces => .sub parent piece pieces
  | .report callback pieceName fraction piece pieces =>
    .report callback pieceName (f fraction) piece pieces

/-- A report goes only to callbacks of some kind. -/
def ReportsTo (kind : Callback → Prop) : Move α → Prop
  | .report callback _ _ _ _ => kind callback
  | _ => True

/-- What goes only to callbacks of one kind goes only to those of a wider one. -/
theorem ReportsTo.imp {kind kind' : Callback → Prop} {m : Move α} (h : m.ReportsTo kind)
    (wider : ∀ d, kind d → kind' d) : m.ReportsTo kind' := by
  cases m with
  | report callback => exact wider _ h
  | _ => trivial

/-- Another number in the place of the fraction does not matter to where a report goes. -/
@[simp] theorem reportsTo_map (f : α → β) (kind : Callback → Prop) (m : Move α) :
    (m.map f).ReportsTo kind ↔ m.ReportsTo kind := by
  cases m <;> exact Iff.rfl

end Move

section Heard

variable [Add α] [Mul α] [Div α] [OfNat α 1] [IntCast α]

namespace Callback

/-- What a callback hears of a move. -/
def hearsOf (c : Callback) : Move α → Option (Report α)
  | .report callback pieceName fraction piece pieces =>
    c.hears callback pieceName fraction piece pieces
  | _ => none

/-- What a callback hears of one move after another. -/
def heard (c : Callback) (moves : List (Move α)) : List (Report α) := moves.filterMap c.hearsOf

variable {c d : Callback} {moves moves' : List (Move α)} {cell : Nat} {ofParent pieceCount : Int}

/-- What is heard of some moves and others after them. -/
@[simp] theorem heard_append : c.heard (moves ++ moves') = c.heard moves ++ c.heard moves' :=
  List.filterMap_append

/-- A callback hears nothing of moves that do not reach it. -/
theorem heard_eq_nil (h : ∀ m ∈ moves, m.ReportsTo fun d => ¬ Reaches c d) : c.heard moves = [] := by
  refine List.filterMap_eq_nil_iff.2 fun m there => ?_
  cases m with
  | report d pieceName fraction piece pieces => exact hears_eq_none (h _ there)
  | _ => rfl

/-- A callback hears of moves what a callback for one of its pieces hears of them, as progress of the
piece, if it hears of no others. -/
theorem heard_eq_map (h : ∀ m ∈ moves, m.ReportsTo fun d =>
      Reaches (.sub cell c ofParent pieceCount) d ∨ ¬ Reaches c d) :
    c.heard moves = ((Callback.sub cell c ofParent pieceCount).heard moves).map fun ρ =>
      .of ρ.pieceName ρ.total ofParent pieceCount := by
  unfold heard
  rw [List.map_filterMap]
  refine List.filterMap_congr fun m there => ?_
  cases m with
  | report d pieceName fraction piece pieces =>
    rcases h _ there with through | unreached
    · exact through.hears_eq
    · have unreached' : ¬ Reaches (.sub cell c ofParent pieceCount) d := fun through =>
        unreached through.of_sub
      rw [hearsOf, hearsOf, hears_eq_none unreached, hears_eq_none unreached']
      rfl
  | _ => rfl

end Callback

end Heard

/-! ## Boards -/

namespace Board

variable [Add α] [Mul α] [Div α] [OfNat α 1] [IntCast α]
variable {b : Board α} {d : Callback} {cell o : Nat} {waiting : List (Report α)}

/-- A report gets into the outlet of a callback as the callback hears it, if it gets there through
the callback or not at all. -/
theorem outlets_report {pieceName : String} {fraction : α} {piece pieces : Int}
    (there : b.outlets[o]? = some ⟨true, waiting⟩)
    (h : Callback.Reaches (.plain cell (some o)) d ∨ Callback.Apart (.plain cell (some o)) d) :
    (b.report d pieceName fraction piece pieces).outlets[o]? = some ⟨true, waiting ++
      ((Callback.plain cell (some o)).hears d pieceName fraction piece pieces).toList⟩ := by
  induction d generalizing b fraction piece pieces with
  | plain cell' outlet =>
    rcases h with reached | apart
    · cases reached
      simp [report, emit, note, there, Array.getElem?_modify]
    · have other : outlet ≠ some o := apart.outlet o rfl
      rw [Callback.hears_eq_none apart.unreached]
      cases outlet with
      | none => simpa [report, note] using there
      | some o' =>
        have other' : o' ≠ o := fun e => other (congrArg some e)
        simp [report, emit, note, there, Array.getElem?_modify, other']
  | sub cell' parent ofParent pieceCount ih =>
    rw [Callback.hears, if_neg (by simp)]
    refine ih there ?_
    rcases h with reached | apart
    · cases reached with
      | sub passed => exact .inl passed
    · exact .inr ⟨fun passed => apart.unreached (.sub passed), apart.outlet⟩

variable [OfNat α 0]

/-- Do something to a board. -/
def perform (b : Board α) : Move α → Board α
  | .plain => b.addPlain.2
  | .outlet => b.addOutlet.2
  | .sub parent piece pieces => (b.addSub parent piece pieces).2
  | .report callback pieceName fraction piece pieces =>
    b.report callback pieceName fraction piece pieces

/-- Do one thing after another to a board. -/
def performAll (b : Board α) (moves : List (Move α)) : Board α := moves.foldl perform b

/-- Doing something, and other things after that. -/
@[simp] theorem performAll_cons (b : Board α) (m : Move α) (moves : List (Move α)) :
    b.performAll (m :: moves) = (b.perform m).performAll moves := rfl

/-- Doing some things, and others after them. -/
theorem performAll_append (b : Board α) (moves moves' : List (Move α)) :
    b.performAll (moves ++ moves') = (b.performAll moves).performAll moves' :=
  List.foldl_append

/-- What gets into the outlet of a callback is what the callback hears. -/
theorem outlets_performAll {moves : List (Move α)}
    (there : b.outlets[o]? = some ⟨true, waiting⟩)
    (h : ∀ m ∈ moves, m.ReportsTo fun d =>
      Callback.Reaches (.plain cell (some o)) d ∨ Callback.Apart (.plain cell (some o)) d) :
    (b.performAll moves).outlets[o]? =
      some ⟨true, waiting ++ (Callback.plain cell (some o)).heard moves⟩ := by
  induction moves generalizing b waiting with
  | nil => simpa [performAll, Callback.heard] using there
  | cons m moves ih =>
    obtain ⟨first, others⟩ := List.forall_mem_cons.1 h
    have one : (b.perform m).outlets[o]? = some ⟨true, waiting ++
        ((Callback.plain cell (some o)).hearsOf m).toList⟩ := by
      cases m with
      | report d pieceName fraction piece pieces => exact outlets_report there first
      | outlet =>
        -- an outlet that is made stands behind those that are there
        have within : o < b.outlets.size := (Array.getElem?_eq_some_iff.1 there).1
        simpa [perform, addOutlet, Callback.hearsOf, Array.getElem?_push, Nat.ne_of_lt within]
          using there
      | _ => simpa [perform, addPlain, addSub, Callback.hearsOf] using there
    rw [performAll_cons, ih one others, List.append_assoc]
    cases e : (Callback.plain cell (some o)).hearsOf m <;> simp [Callback.heard, e]

end Board

end Pipewright.Progress
