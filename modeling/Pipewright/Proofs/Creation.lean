import Pipewright.Creation
import Pipewright.Proofs.Keyed

/-! # What the writing of a unit leaves behind
Until the source of a unit is put in its place, no file changes. The icon comes after it: if it
cannot be copied, the source stays, and then the place of the unit is taken for every later
attempt. Apart from the source and the icon no file changes at all. Whether the place of the source
is free is seen only if it can be reached before directories are made. -/

namespace Pipewright

namespace FileTree

variable {t t' t'' : FileTree} {p q : Place} {path text : String}

/-- A path leads where it led if all directories are still there. -/
theorem place?_mono (led : t.place? path = some p)
    (kept : ∀ p, t.hasDirectory p = true → t'.hasDirectory p = true) :
    t'.place? path = some p := by
  have walk : ∀ {segments : List String} {start : Place}, t.walk start segments = some p →
      t'.walk start segments = some p := by
    intro segments
    induction segments with
    | nil => exact id
    | cons segment segments ih =>
      intro start walked
      unfold FileTree.walk at walked ⊢
      split at walked
      · next there =>
        rw [if_pos (kept start there)]
        exact ih walked
      · cases walked
  unfold place? at led ⊢
  split at led
  · next spelled =>
    rw [if_pos spelled]
    exact walk led
  · cases led

/-- A tree has the files of another one, and at least its directories. -/
structure Grows (t t' : FileTree) : Prop where
  /-- The files are the same. -/
  files : t'.files = t.files
  /-- The directories are still there. -/
  directories : ∀ p, t.hasDirectory p = true → t'.hasDirectory p = true

namespace Grows

/-- A tree in which nothing is made. -/
theorem refl (t : FileTree) : t.Grows t := ⟨rfl, fun _ there => there⟩

/-- Directories are made, and then more of them. -/
theorem trans (h : t.Grows t') (h' : t'.Grows t'') : t.Grows t'' :=
  ⟨h'.files.trans h.files, fun p there => h'.directories p (h.directories p there)⟩

/-- Making one directory. -/
theorem directory (t : FileTree) (p : Place) :
    t.Grows { t with directories := p :: t.directories } where
  files := rfl
  directories q there := by
    unfold hasDirectory at there ⊢
    rw [Bool.or_eq_true] at there ⊢
    exact there.imp_right fun m =>
      List.contains_iff_mem.2 (List.mem_cons_of_mem _ (List.contains_iff_mem.1 m))

end Grows

/-- Making directories on the way changes no file, also if a file stands in the way. -/
theorem grows_makeAlong (t : FileTree) (p : Place) (segments : List String) :
    t.Grows (t.makeAlong p segments).2 := by
  induction segments generalizing t p with
  | nil => exact .refl t
  | cons segment segments ih =>
    unfold makeAlong
    dsimp only
    split
    · exact ih t _
    · split
      · exact .refl t
      · exact (Grows.directory t _).trans (ih _ _)

/-- Making the directory of a path changes no file. -/
theorem grows_makeDirectories (t : FileTree) (path : String) :
    t.Grows (t.makeDirectories path).2 := by
  unfold makeDirectories
  split
  · exact .refl t
  · split
    · exact .refl t
    · split
      · exact grows_makeAlong t [] _
      · exact grows_makeAlong t [] _

/-- A text is put into a place, the tree being otherwise the same but for directories that are
made. -/
structure Puts (t : FileTree) (path text : String) (t' : FileTree) (p : Place) : Prop where
  /-- The place is that of the path. -/
  place : t'.place? path = some p
  /-- The file at that place is the only one that changes. -/
  files : t'.files = Keyed.insert p text t.files
  /-- The directories are still there. -/
  directories : ∀ q, t.hasDirectory q = true → t'.hasDirectory q = true

/-- Where a text is put it is found, and all other files are what they were. -/
theorem Puts.file? (h : t.Puts path text t' p) (q : Place) :
    t'.file? q = if q = p then some text else t.file? q := by
  unfold FileTree.file?
  rw [h.files]
  split
  · next e => rw [e, Keyed.lookup_insert_self]
  · next other => exact Keyed.lookup_insert_of_ne other _ _

/-- What is written is put into its place. -/
theorem exists_puts_of_write? (done : t.write? path text = some t') : ∃ p, t.Puts path text t' p := by
  unfold write? at done
  obtain ⟨name, -, done⟩ := Option.bind_eq_some_iff.1 done
  obtain ⟨p, led, done⟩ := Option.bind_eq_some_iff.1 done
  split at done
  · cases done
  · cases done
    exact ⟨p, place?_mono led fun _ there => there, rfl, fun _ there => there⟩

/-- What is copied is put into its place. -/
theorem exists_puts_of_copy? {source : String} (done : t.copy? source path = some t') :
    ∃ p text, t.Puts path text t' p := by
  unfold copy? at done
  obtain ⟨text, -, done⟩ := Option.bind_eq_some_iff.1 done
  obtain ⟨p, puts⟩ := exists_puts_of_write? done
  exact ⟨p, _, puts⟩

/-- Directories are made after a text was put into its place. -/
theorem Puts.grows (puts : t.Puts path text t' p) (h : t'.Grows t'') : t.Puts path text t'' p where
  place := place?_mono puts.place h.directories
  files := h.files.trans puts.files
  directories q there := h.directories q (puts.directories q there)

/-- Directories are made before a text is put into its place. -/
theorem Grows.puts (h : t.Grows t') (puts : t'.Puts path text t'' p) : t.Puts path text t'' p where
  place := puts.place
  files := puts.files.trans (by rw [h.files])
  directories q there := puts.directories q (h.directories q there)

end FileTree

namespace UnitOrder

variable {o : UnitOrder} {r : Registry} {t t' : FileTree} {text : String}

/-- What was prepared is the source of the unit, its place is not taken, and the icon is there. -/
theorem of_prepare (done : o.prepare r t = .ok text) :
    o.source r = .ok text ∧ t.contains o.sourcePath = false ∧
      ∀ icon, o.icon? = some icon → t.isFile icon = true := by
  unfold prepare at done
  cases made : o.source r with
  | error f =>
    rw [made] at done
    cases done
  | ok text' =>
    rw [made] at done
    dsimp only [bind, Except.bind] at done
    split at done
    · cases done
    · next there =>
      split at done
      · cases done
      · next free =>
        cases done
        refine ⟨rfl, Bool.not_eq_true _ ▸ free, fun icon given => ?_⟩
        rw [given, Option.filter_some] at there
        simpa using there

/-- The source is put into its place, or no file changes. -/
theorem writeSource_spec (o : UnitOrder) (text : String) (t : FileTree) :
    (∃ f, (o.writeSource text t).1 = .error f ∧ t.Grows (o.writeSource text t).2) ∨
      (o.writeSource text t).1 = .ok () ∧
        ∃ p, t.Puts o.sourcePath text (o.writeSource text t).2 p := by
  have grows := t.grows_makeDirectories o.directory
  unfold writeSource
  generalize t.makeDirectories o.directory = making at grows ⊢
  obtain ⟨made, t'⟩ := making
  dsimp only at grows ⊢
  split
  · cases written : t'.write? o.sourcePath text with
    | none => exact .inl ⟨_, rfl, grows⟩
    | some t'' =>
      obtain ⟨p, puts⟩ := FileTree.exists_puts_of_write? written
      exact .inr ⟨rfl, p, grows.puts puts⟩
  · exact .inl ⟨_, rfl, grows⟩

/-- The icon is put into its place, or no file changes. -/
theorem copyIcon_spec (o : UnitOrder) (icon : String) (t : FileTree) :
    ((o.copyIcon icon t).1 = .error (refusal "Failed to copy icon" icon) ∧
        t.Grows (o.copyIcon icon t).2) ∨
      (o.copyIcon icon t).1 = .ok () ∧
        ∃ p text, t.Puts o.iconPath text (o.copyIcon icon t).2 p := by
  have grows := t.grows_makeDirectories o.iconDirectory
  unfold copyIcon
  generalize t.makeDirectories o.iconDirectory = making at grows ⊢
  obtain ⟨made, t'⟩ := making
  dsimp only at grows ⊢
  cases copied : if made then t'.copy? icon o.iconPath else none with
  | none => exact .inl ⟨rfl, grows⟩
  | some t'' =>
    split at copied
    · obtain ⟨p, text, puts⟩ := FileTree.exists_puts_of_copy? copied
      exact .inr ⟨rfl, p, text, grows.puts puts⟩
    · cases copied

/-- What can come of an order, with the tree that is left. -/
inductive Creates (o : UnitOrder) (r : Registry) (t : FileTree) :
    Except Failure CreatedUnit → FileTree → Prop where
  /-- No file is written. -/
  | refused {t' : FileTree} (f : Failure) (grows : t.Grows t') : Creates o r t (.error f) t'
  /-- The source is written, and there is no icon. -/
  | bare {t' : FileTree} {text : String} {p : Place} (prepared : o.prepare r t = .ok text)
    (puts : t.Puts o.sourcePath text t' p) (none : o.icon? = none) :
    Creates o r t (.ok ⟨o.sourcePath, .none⟩) t'
  /-- The source is written, and the icon is not. -/
  | left {t' : FileTree} {text icon : String} {p : Place} (prepared : o.prepare r t = .ok text)
    (puts : t.Puts o.sourcePath text t' p) (given : o.icon? = some icon) :
    Creates o r t (.error (refusal "Failed to copy icon" icon)) t'
  /-- The source and the icon are written. -/
  | adorned {t₁ t' : FileTree} {text icon copy : String} {p q : Place}
    (prepared : o.prepare r t = .ok text) (puts : t.Puts o.sourcePath text t₁ p)
    (given : o.icon? = some icon) (copied : t₁.Puts o.iconPath copy t' q) :
    Creates o r t (.ok ⟨o.sourcePath, some o.iconPath⟩) t'

/-- Something of this comes of every order. -/
theorem creates_create (o : UnitOrder) (r : Registry) (t : FileTree) :
    o.Creates r t (o.create r t).1 (o.create r t).2 := by
  unfold create
  cases prepared : o.prepare r t with
  | error f => exact .refused f (.refl t)
  | ok text =>
    have written := o.writeSource_spec text t
    dsimp only
    generalize o.writeSource text t = writing at written ⊢
    obtain ⟨outcome, t₁⟩ := writing
    dsimp only at written
    obtain ⟨f, rfl, grows⟩ | ⟨rfl, p, puts⟩ := written
    · exact .refused f grows
    -- the source is in its place, and only the icon is left
    unfold writeIcon
    cases given : o.icon? with
    | none => exact .bare prepared puts given
    | some icon =>
      have copied := o.copyIcon_spec icon t₁
      dsimp only
      generalize o.copyIcon icon t₁ = copying at copied ⊢
      obtain ⟨outcome, t₂⟩ := copying
      dsimp only at copied
      obtain ⟨rfl, grows⟩ | ⟨rfl, q, copy, puts'⟩ := copied
      · exact .left prepared (puts.grows grows) given
      · exact .adorned prepared puts given puts'

/-- When a unit cannot be written, all files are what they were, unless it is the icon that could
not be copied. Then the source of the unit has been put into its place, and nothing else is new. -/
theorem create_error {f : Failure} (done : o.create r t = (.error f, t')) :
    t'.files = t.files ∨ ∃ icon text p, o.icon? = some icon ∧
      f = refusal "Failed to copy icon" icon ∧ o.source r = .ok text ∧
        t.Puts o.sourcePath text t' p := by
  have creates := creates_create o r t
  rw [done] at creates
  cases creates with
  | refused f grows => exact .inl grows.files
  | left prepared puts given =>
    exact .inr ⟨_, _, _, given, rfl, (of_prepare prepared).1, puts⟩

/-- Where a unit has been left without its icon, none can be written again. -/
theorem exists_prepare_error {text : String} {p : Place} (puts : t.Puts o.sourcePath text t' p)
    (again : UnitOrder) (same : again.sourcePath = o.sourcePath) (r' : Registry) :
    ∃ f, again.prepare r' t' = .error f := by
  cases prepared : again.prepare r' t' with
  | error f => exact ⟨f, rfl⟩
  | ok text' =>
    have free := (of_prepare prepared).2.1
    have taken : t'.isFile o.sourcePath = true := by
      unfold FileTree.isFile FileTree.read?
      rw [puts.place, Option.bind_some, puts.file?, if_pos rfl]
      rfl
    unfold FileTree.contains at free
    rw [same, taken] at free
    cases free

/-- When a unit is written, its source is put into its place, which was free if it could be reached
before, and then the icon into its own. Nothing else changes. -/
theorem create_ok {u : CreatedUnit} (done : o.create r t = (.ok u, t')) :
    u = ⟨o.sourcePath, o.icon?.map fun _ => o.iconPath⟩ ∧
      ∃ text p, o.source r = .ok text ∧ t'.place? o.sourcePath = some p ∧
        (t.place? o.sourcePath = some p → t.file? p = none) ∧
        ∀ q, q ≠ p → (∀ path, u.iconPath? = some path → t'.place? path ≠ some q) →
          t'.file? q = t.file? q := by
  have creates := creates_create o r t
  rw [done] at creates
  have untaken : ∀ {text p}, o.prepare r t = .ok text → t.place? o.sourcePath = some p →
      t.file? p = none := by
    intro text p prepared led
    have free := (of_prepare prepared).2.1
    unfold FileTree.contains FileTree.isFile FileTree.read? at free
    rw [led, Option.bind_some, Bool.or_eq_false_iff] at free
    simpa using free.1
  cases creates with
  | bare prepared puts none =>
    refine ⟨by rw [none]; rfl, _, _, (of_prepare prepared).1, puts.place, untaken prepared, ?_⟩
    intro q other _
    rw [puts.file?, if_neg other]
  | adorned prepared puts given copied =>
    refine ⟨by rw [given]; rfl, _, _, (of_prepare prepared).1,
      FileTree.place?_mono puts.place copied.directories, untaken prepared, ?_⟩
    intro q other apart
    have away : q ≠ _ := fun e => apart _ rfl (e ▸ copied.place)
    rw [copied.file?, if_neg away, puts.file?, if_neg other]

end UnitOrder

end Pipewright
