import Mathlib.Data.List.Nodup
import Pipewright.Proofs.Progress.Heard

/-! # Deliveries of reports
A report to a callback is delivered to one callback after another: to itself, to the one for a piece
of whose work it stands, and so on. On a board that comes about by making callbacks and using them no
two callbacks have a cell or an outlet in common, so all that a report changes is what can be read of
those to which it is delivered. -/

namespace Pipewright.Progress

universe u

variable {α : Type u}

/-! ## Chains -/

namespace Callback

variable {c d e : Callback}

/-- A callback and those to which it passes reports on, one after another. -/
def chain : Callback → List Callback
  | .plain cell outlet => [.plain cell outlet]
  | .sub cell parent piece pieces => .sub cell parent piece pieces :: parent.chain

/-- Reports to a callback reach those of its chain. -/
theorem mem_chain_iff : d ∈ c.chain ↔ Reaches d c := by
  induction c with
  | plain cell outlet =>
    rw [chain, List.mem_singleton]
    constructor
    · rintro rfl
      exact .refl
    · intro h
      cases h
      rfl
  | sub cell parent piece pieces ih =>
    rw [chain, List.mem_cons, ih]
    constructor
    · rintro (rfl | passed)
      · exact .refl
      · exact .sub passed
    · intro h
      cases h with
      | refl => exact .inl rfl
      | sub passed => exact .inr passed

/-- A callback for a piece is not among those to which it passes reports on. -/
theorem ne_of_mem_chain {cell : Nat} {piece pieces : Int} (m : d ∈ c.chain) :
    d ≠ .sub cell c piece pieces :=
  (mem_chain_iff.1 m).ne_sub

/-- No callback stands twice in a chain. -/
theorem nodup_chain (c : Callback) : c.chain.Nodup := by
  induction c with
  | plain cell outlet => exact List.nodup_singleton _
  | sub cell parent piece pieces ih =>
    exact List.nodup_cons.2 ⟨fun m => ne_of_mem_chain m rfl, ih⟩

/-- Two callbacks have something in common: the cell in which the latest report stands, or the outlet
into which they put their reports. -/
def Shares (c d : Callback) : Prop :=
  c.cell = d.cell ∨ ∃ o, c.outlet? = some o ∧ d.outlet? = some o

section Deliveries

variable [Add α] [Mul α] [Div α] [OfNat α 1] [IntCast α]
variable {pieceName : String} {fraction : α} {piece pieces : Int} {ρ : Report α}

/-- What a report to a callback is delivered to, and as which report. -/
def deliveries (c : Callback) (pieceName : String) (fraction : α) (piece pieces : Int) :
    List (Callback × Report α) :=
  c.chain.filterMap fun d => (d.hears c pieceName fraction piece pieces).map (Prod.mk d)

/-- A report to a callback without parent is delivered to it. -/
theorem deliveries_plain {cell : Nat} {outlet : Option Nat} :
    (Callback.plain cell outlet).deliveries pieceName fraction piece pieces =
      [(.plain cell outlet, .of pieceName fraction piece pieces)] := by
  simp [deliveries, chain]

/-- A report to a callback for a piece is delivered to it, and then as its overall progress to its
parent. -/
theorem deliveries_sub {cell : Nat} {parent : Callback} {ofParent pieceCount : Int} :
    (Callback.sub cell parent ofParent pieceCount).deliveries pieceName fraction piece pieces =
      (.sub cell parent ofParent pieceCount, .of pieceName fraction piece pieces) ::
        parent.deliveries pieceName (overall fraction piece pieces) ofParent pieceCount := by
  have passed : ∀ d ∈ parent.chain,
      (d.hears (.sub cell parent ofParent pieceCount) pieceName fraction piece pieces).map
          (Prod.mk d) =
        (d.hears parent pieceName (overall fraction piece pieces) ofParent pieceCount).map
          (Prod.mk d) := by
    intro d m
    rw [hears, if_neg (ne_of_mem_chain m)]
  rw [deliveries, chain, List.filterMap_cons, hears_self, Option.map_some,
    List.filterMap_congr passed]
  rfl

/-- A report is delivered to the callbacks of the chain, once each. -/
theorem map_fst_deliveries (c : Callback) (pieceName : String) (fraction : α)
    (piece pieces : Int) :
    (c.deliveries pieceName fraction piece pieces).map Prod.fst = c.chain := by
  induction c generalizing fraction piece pieces with
  | plain cell outlet =>
    rw [deliveries_plain]
    rfl
  | sub cell parent ofParent pieceCount ih =>
    rw [deliveries_sub, List.map_cons, ih]
    rfl

/-- A report is delivered to callbacks of the chain only. -/
theorem fst_mem_chain {x : Callback × Report α}
    (m : x ∈ c.deliveries pieceName fraction piece pieces) : x.1 ∈ c.chain := by
  rw [← c.map_fst_deliveries pieceName fraction piece pieces]
  exact List.mem_map_of_mem m

/-- What is delivered to a callback is what it hears. -/
theorem hears_of_mem_deliveries (m : (d, ρ) ∈ c.deliveries pieceName fraction piece pieces) :
    d.hears c pieceName fraction piece pieces = some ρ := by
  obtain ⟨other, -, e⟩ := List.mem_filterMap.1 m
  obtain ⟨ρ', heard, same⟩ := Option.map_eq_some_iff.1 e
  cases same
  exact heard

end Deliveries

end Callback

namespace Board

variable {b b' : Board α} {c d e : Callback} {ρ : Report α} {made : List Callback}

/-! ## Delivering -/

/-- Deliver a report to one callback: it is noted as the latest one, and put into the outlet. -/
def deliver (b : Board α) (news : Callback × Report α) : Board α :=
  match news.1.outlet? with
  | none => b.note news.1.cell news.2
  | some o => (b.note news.1.cell news.2).emit o news.2

/-- Deliver one report after another. -/
def deliverAll (b : Board α) (news : List (Callback × Report α)) : Board α := news.foldl deliver b

/-- A report to a callback is delivered to those of its chain, and nothing else happens. -/
theorem report_eq_deliverAll [Add α] [Mul α] [Div α] [OfNat α 1] [IntCast α] (b : Board α)
    (c : Callback) (pieceName : String) (fraction : α) (piece pieces : Int) :
    b.report c pieceName fraction piece pieces =
      b.deliverAll (c.deliveries pieceName fraction piece pieces) := by
  induction c generalizing b fraction piece pieces with
  | plain cell outlet =>
    rw [Callback.deliveries_plain]
    cases outlet with
    | none => rfl
    | some o => rfl
  | sub cell parent ofParent pieceCount ih =>
    rw [Callback.deliveries_sub, report]
    exact ih _ _ _ _

/-- A delivered report is noted. -/
theorem cells_deliver (b : Board α) (news : Callback × Report α) :
    (b.deliver news).cells = b.cells.modify news.1.cell fun _ => news.2 := by
  unfold deliver
  split
  · rfl
  · rfl

/-- A delivered report is put into the outlet of the callback, if it has one and somebody takes
it. -/
theorem getElem?_outlets_deliver (b : Board α) (news : Callback × Report α) (o : Nat) :
    (b.deliver news).outlets[o]? =
      if news.1.outlet? = some o then
        b.outlets[o]?.map fun found =>
          if found.attended then { found with waiting := found.waiting ++ [news.2] } else found
      else b.outlets[o]? := by
  unfold deliver
  split
  · next none =>
    rw [none, if_neg nofun]
    rfl
  · next o' some' =>
    rw [some', emit, Array.getElem?_modify]
    by_cases same : o' = o
    · rw [if_pos same, if_pos (congrArg some same)]
      rfl
    · rw [if_neg same, if_neg (by simpa using same)]
      rfl

/-- Delivering a report makes no cell and no outlet. -/
theorem size_deliver (b : Board α) (news : Callback × Report α) :
    (b.deliver news).cells.size = b.cells.size ∧
      (b.deliver news).outlets.size = b.outlets.size := by
  unfold deliver
  split
  · exact ⟨Array.size_modify, rfl⟩
  · exact ⟨Array.size_modify, Array.size_modify⟩

/-- Delivering reports makes no cell and no outlet. -/
theorem size_deliverAll (b : Board α) (news : List (Callback × Report α)) :
    (b.deliverAll news).cells.size = b.cells.size ∧
      (b.deliverAll news).outlets.size = b.outlets.size := by
  induction news generalizing b with
  | nil => exact ⟨rfl, rfl⟩
  | cons first rest ih =>
    have others := ih (b.deliver first)
    have one := b.size_deliver first
    exact ⟨others.1.trans one.1, others.2.trans one.2⟩

section Seen

variable [OfNat α 0]

/-- What can be read of a callback: its latest report, and what waits in its outlet. -/
def seen (b : Board α) (c : Callback) : Report α × Option (Nat × Outlet α) :=
  (b.latest c, b.attended? c)

/-- A report that is delivered to a callback does not show at those that have nothing in common with
it. -/
theorem seen_deliver_of_not_shares (h : ¬ d.Shares e) : (b.deliver (d, ρ)).seen e = b.seen e := by
  obtain ⟨cell, outlet⟩ := not_or.1 h
  have noted : (b.deliver (d, ρ)).latest e = b.latest e := by
    rw [latest, latest, cells_deliver, Array.getElem?_modify, if_neg cell]
  have put : (b.deliver (d, ρ)).attended? e = b.attended? e := by
    unfold attended?
    cases own : e.outlet? with
    | none => rfl
    | some o =>
      have other : d.outlet? ≠ some o := fun same => outlet ⟨o, same, own⟩
      simp only [getElem?_outlets_deliver, if_neg other]
  rw [seen, seen, noted, put]

/-- A report that is delivered to a callback is its latest one, and waits in its outlet. -/
theorem seen_deliver_self (within : d.cell < b.cells.size) : (b.deliver (d, ρ)).seen d =
    (ρ, (b.attended? d).map fun found =>
      (found.1, { found.2 with waiting := found.2.waiting ++ [ρ] })) := by
  have noted : (b.deliver (d, ρ)).latest d = ρ := by
    rw [latest, cells_deliver, Array.getElem?_modify, if_pos rfl, Array.getElem?_eq_getElem within]
    rfl
  have put : (b.deliver (d, ρ)).attended? d = (b.attended? d).map fun found =>
      (found.1, { found.2 with waiting := found.2.waiting ++ [ρ] }) := by
    unfold attended?
    cases own : d.outlet? with
    | none => rfl
    | some o =>
      simp only [getElem?_outlets_deliver, own, if_true]
      cases b.outlets[o]? with
      | none => rfl
      | some found =>
        by_cases attended : found.attended = true
        · simp [attended]
        · simp [attended]
  rw [seen, noted, put]

/-- Reports that are delivered to callbacks do not show at those that have nothing in common with
them. -/
theorem seen_deliverAll_of_not_shares {news : List (Callback × Report α)}
    (h : ∀ x ∈ news, ¬ x.1.Shares e) : (b.deliverAll news).seen e = b.seen e := by
  induction news generalizing b with
  | nil => rfl
  | cons first rest ih =>
    obtain ⟨one, others⟩ := List.forall_mem_cons.1 h
    exact (ih others).trans (seen_deliver_of_not_shares one)

/-! ## Boards that arise -/

variable [Add α] [Mul α] [Div α] [OfNat α 1] [IntCast α]

/-- The boards that arise, with the callbacks that were made on the way. -/
inductive Arises : Board α → List Callback → Prop where
  /-- The board before there is any callback. -/
  | empty : Arises empty []
  /-- A callback is made that only keeps the latest report. -/
  | plain {b : Board α} {made : List Callback} (h : Arises b made) :
    Arises b.addPlain.2 (b.addPlain.1 :: made)
  /-- A callback with an outlet is made. -/
  | outlet {b : Board α} {made : List Callback} (h : Arises b made) :
    Arises b.addOutlet.2 (b.addOutlet.1 :: made)
  /-- A callback for one piece of another one's work is made. -/
  | sub {b : Board α} {made : List Callback} {parent : Callback} (piece pieces : Int)
    (h : Arises b made) (known : parent ∈ made) :
    Arises (b.addSub parent piece pieces).2 ((b.addSub parent piece pieces).1 :: made)
  /-- A fraction of a piece is reported to a callback. -/
  | report {b : Board α} {made : List Callback} {c : Callback} (pieceName : String) (fraction : α)
    (piece pieces : Int) (h : Arises b made) (known : c ∈ made) :
    Arises (b.report c pieceName fraction piece pieces) made
  /-- The reports that wait in the outlet of a callback are taken. -/
  | take {b : Board α} {made : List Callback} {c : Callback} (h : Arises b made)
    (known : c ∈ made) : Arises (b.take c).2 made
  /-- Nobody takes the reports of a callback any more. -/
  | hangUp {b : Board α} {made : List Callback} {c : Callback} (h : Arises b made)
    (known : c ∈ made) : Arises (b.hangUp c).2 made

end Seen

/-- Some callbacks keep apart on a board. -/
structure Holds (b : Board α) (made : List Callback) : Prop where
  /-- The board has the cells of all of them. -/
  cells : ∀ c ∈ made, c.cell < b.cells.size
  /-- The board has the outlets of all of them. -/
  outlets : ∀ c ∈ made, ∀ o, c.outlet? = some o → o < b.outlets.size
  /-- With a callback for a piece of another one's work there is the other one. -/
  parents : ∀ {cell parent piece pieces}, .sub cell parent piece pieces ∈ made → parent ∈ made
  /-- No two of them have a cell or an outlet in common. -/
  apart : ∀ c ∈ made, ∀ d ∈ made, c.Shares d → c = d

namespace Holds

/-- The same callbacks keep apart on a board with the same cells and outlets. -/
theorem congr (h : Holds b made) (cells : b'.cells.size = b.cells.size)
    (outlets : b'.outlets.size = b.outlets.size) : Holds b' made where
  cells c m := cells ▸ h.cells c m
  outlets c m o own := outlets ▸ h.outlets c m o own
  parents := h.parents
  apart := h.apart

/-- A callback that is made keeps apart from the others: its cell is the next one, and so is its
outlet. -/
theorem cons (h : Holds b made) (cell : c.cell = b.cells.size)
    (outlet : ∀ o, c.outlet? = some o → o = b.outlets.size)
    (cells : b'.cells.size = b.cells.size + 1)
    (outlets : b'.outlets.size = b.outlets.size + c.outlet?.toList.length)
    (parent : ∀ {cell parent piece pieces}, c = .sub cell parent piece pieces → parent ∈ made) :
    Holds b' (c :: made) := by
  -- what is made shares nothing with what was there
  have new : ∀ d ∈ made, ¬ c.Shares d ∧ ¬ d.Shares c := by
    intro d m
    have before := h.cells d m
    refine ⟨?_, ?_⟩
    · rintro (same | ⟨o, own, other⟩)
      · omega
      · have := h.outlets d m o other
        have := outlet o own
        omega
    · rintro (same | ⟨o, other, own⟩)
      · omega
      · have := h.outlets d m o other
        have := outlet o own
        omega
  refine ⟨fun d m => ?_, fun d m o own => ?_, fun m => ?_, fun d m e m' shares => ?_⟩
  · rcases List.mem_cons.1 m with rfl | m
    · omega
    · have := h.cells d m
      omega
  · rcases List.mem_cons.1 m with rfl | m
    · rw [own] at outlets
      have := outlet o own
      simp only [Option.toList_some, List.length_singleton] at outlets
      omega
    · have := h.outlets d m o own
      omega
  · rcases List.mem_cons.1 m with e | m
    · exact List.mem_cons_of_mem _ (parent e.symm)
    · exact List.mem_cons_of_mem _ (h.parents m)
  · rcases List.mem_cons.1 m with isNew | m
    · rcases List.mem_cons.1 m' with isNew' | m'
      · exact isNew.trans isNew'.symm
      · exact absurd (isNew ▸ shares) (new e m').1
    · rcases List.mem_cons.1 m' with isNew' | m'
      · exact absurd (isNew' ▸ shares) (new d m).2
      · exact h.apart d m e m' shares

/-- With a callback there are all those to which it passes reports on. -/
theorem chain_subset (h : Holds b made) (m : c ∈ made) : ∀ d ∈ c.chain, d ∈ made := by
  induction c with
  | plain cell outlet =>
    intro d m'
    rw [List.mem_singleton.1 m']
    exact m
  | sub cell parent piece pieces ih =>
    intro d m'
    rcases List.mem_cons.1 m' with rfl | m'
    · exact m
    · exact ih (h.parents m) d m'

section Reports

variable [Add α] [Mul α] [Div α] [OfNat α 1] [IntCast α]
variable {pieceName : String} {fraction : α} {piece pieces : Int}

/-- The deliveries before and after the one to a callback are to callbacks that have nothing in common
with it. -/
theorem not_shares_of_split (h : Holds b made) (m : c ∈ made)
    {before after : List (Callback × Report α)}
    (split : c.deliveries pieceName fraction piece pieces = before ++ (d, ρ) :: after) :
    ∀ x ∈ before ++ after, ¬ x.1.Shares d := by
  have known : ∀ x ∈ before ++ (d, ρ) :: after, x.1 ∈ made := by
    intro x there
    rw [← split] at there
    exact h.chain_subset m x.1 (Callback.fst_mem_chain there)
  have once : ((before ++ (d, ρ) :: after).map Prod.fst).Nodup := by
    rw [← split, Callback.map_fst_deliveries]
    exact c.nodup_chain
  rw [List.map_append, List.map_cons, List.nodup_middle, List.nodup_cons, ← List.map_append] at once
  intro x there shares
  have among : x ∈ before ++ (d, ρ) :: after := by
    rcases List.mem_append.1 there with there | there
    · exact List.mem_append_left _ there
    · exact List.mem_append_right _ (List.mem_cons_of_mem _ there)
  have mine := known (d, ρ) (List.mem_append_right _ List.mem_cons_self)
  have same := h.apart x.1 (known x among) d mine shares
  have again : x.1 ∈ (before ++ after).map Prod.fst := List.mem_map_of_mem there
  rw [same] at again
  exact once.1 again

variable [OfNat α 0]

/-- A report that is delivered is the latest one of the callback, and waits once in its outlet. -/
theorem seen_report (h : Holds b made) (m : c ∈ made)
    (delivered : (d, ρ) ∈ c.deliveries pieceName fraction piece pieces) :
    (b.report c pieceName fraction piece pieces).seen d =
      (ρ, (b.attended? d).map fun found =>
        (found.1, { found.2 with waiting := found.2.waiting ++ [ρ] })) := by
  obtain ⟨before, after, split⟩ := List.append_of_mem delivered
  have others := h.not_shares_of_split m split
  have earlier : (b.deliverAll before).seen d = b.seen d :=
    seen_deliverAll_of_not_shares fun x there => others x (List.mem_append_left _ there)
  have attended : (b.deliverAll before).attended? d = b.attended? d := congrArg Prod.snd earlier
  have within : d.cell < (b.deliverAll before).cells.size := by
    rw [(b.size_deliverAll before).1]
    exact h.cells d (h.chain_subset m d (Callback.fst_mem_chain delivered))
  calc (b.report c pieceName fraction piece pieces).seen d
      = (((b.deliverAll before).deliver (d, ρ)).deliverAll after).seen d := by
        rw [report_eq_deliverAll, split, deliverAll, List.foldl_append, List.foldl_cons]
        rfl
    _ = ((b.deliverAll before).deliver (d, ρ)).seen d :=
        seen_deliverAll_of_not_shares fun x there => others x (List.mem_append_right _ there)
    _ = _ := by rw [seen_deliver_self within, attended]

/-- A report does not show at callbacks to which it is not passed on. -/
theorem seen_report_of_not_mem (h : Holds b made) (m : c ∈ made) (m' : e ∈ made)
    (other : e ∉ c.chain) (pieceName : String) (fraction : α) (piece pieces : Int) :
    (b.report c pieceName fraction piece pieces).seen e = b.seen e := by
  rw [report_eq_deliverAll]
  apply seen_deliverAll_of_not_shares
  intro x there shares
  have inChain : x.1 ∈ c.chain := Callback.fst_mem_chain there
  have same := h.apart x.1 (h.chain_subset m x.1 inChain) e m' shares
  exact other (same ▸ inChain)

end Reports

end Holds

/-- Taking what waits in an outlet makes no cell and no outlet. -/
theorem size_take (b : Board α) (c : Callback) :
    (b.take c).2.cells.size = b.cells.size ∧ (b.take c).2.outlets.size = b.outlets.size := by
  unfold take
  split
  · exact ⟨rfl, rfl⟩
  · exact ⟨rfl, Array.size_modify⟩

/-- Leaving an outlet makes no cell and no outlet. -/
theorem size_hangUp (b : Board α) (c : Callback) :
    (b.hangUp c).2.cells.size = b.cells.size ∧ (b.hangUp c).2.outlets.size = b.outlets.size := by
  unfold hangUp
  split
  · exact ⟨rfl, rfl⟩
  · exact ⟨rfl, Array.size_modify⟩

/-- The callbacks that were made keep apart on every board that arises. -/
theorem Arises.holds [OfNat α 0] [Add α] [Mul α] [Div α] [OfNat α 1] [IntCast α]
    (h : Arises b made) : Holds b made := by
  induction h with
  | empty => exact ⟨nofun, nofun, nofun, nofun⟩
  | plain _ ih => exact ih.cons rfl nofun (Array.size_push _) rfl nofun
  | outlet _ ih =>
    refine ih.cons rfl (fun o own => ?_) (Array.size_push _) (Array.size_push _) nofun
    exact (Option.some.inj own).symm
  | sub piece pieces _ known ih =>
    refine ih.cons rfl nofun (Array.size_push _) rfl fun made => ?_
    cases made
    exact known
  | report pieceName fraction piece pieces _ _ ih =>
    rw [report_eq_deliverAll]
    exact ih.congr (size_deliverAll _ _).1 (size_deliverAll _ _).2
  | take _ _ ih => exact ih.congr (size_take _ _).1 (size_take _ _).2
  | hangUp _ _ ih => exact ih.congr (size_hangUp _ _).1 (size_hangUp _ _).2

end Board

end Pipewright.Progress
