import Pipewright.Proofs.DataType.Document
import Pipewright.Proofs.Unit.Literals

/-! # Types in generated programs
What the code of a type evaluates to. It need not be the type itself: a layer without annotations is
left out, a class is the one that the host knows by its name, and the values in annotations are read
back from script values, in which tuples are lists and the keys of dictionaries are texts. Fresh
slots of both types hold the same. -/

namespace Pipewright

open Host (Environment Eval Yields evalExpr evalItems)
open Script (Expr)

/-! ## Plain data -/

/-- A literal is read from a script value, and the script value is that of the literal. -/
def Datum.IsPlain (d : Datum) : Prop := ∃ v, Value.ofDatum? d = some v ∧ v.toDatum = d

namespace Value

/-- Literals are read from plain items. -/
theorem exists_ofDatumItems? {ds : List Datum} (h : ∀ d ∈ ds, d.IsPlain) :
    ∃ vs, ofDatumItems? ds = some vs ∧ toDatumItems vs = ds := by
  induction ds with
  | nil => exact ⟨[], rfl, rfl⟩
  | cons d ds ih =>
    obtain ⟨⟨v, read, same⟩, others⟩ := List.forall_mem_cons.1 h
    obtain ⟨vs, read', same'⟩ := ih others
    refine ⟨v :: vs, ?_, ?_⟩
    · rw [ofDatumItems?, read, read']
      rfl
    · rw [toDatumItems, same, same']

/-- Pairs are read from plain entries, with texts as keys. -/
theorem exists_ofDatumEntries? {entries : Entries} (h : ∀ entry ∈ entries, entry.2.IsPlain) :
    ∃ pairs, ofDatumEntries? entries = some pairs ∧ toDatumPairs pairs = entries := by
  induction entries with
  | nil => exact ⟨[], rfl, rfl⟩
  | cons entry entries ih =>
    obtain ⟨key, d⟩ := entry
    obtain ⟨⟨v, read, same⟩, others⟩ := List.forall_mem_cons.1 h
    obtain ⟨pairs, read', same'⟩ := ih others
    refine ⟨(.str key, v) :: pairs, ?_, ?_⟩
    · rw [ofDatumEntries?, read, read']
      rfl
    · rw [toDatumPairs, same, same', keyText]

/-- An array of plain items is plain. -/
theorem isPlain_array {ds : List Datum} (h : ∀ d ∈ ds, d.IsPlain) :
    (Datum.array ds).IsPlain := by
  obtain ⟨vs, read, same⟩ := exists_ofDatumItems? h
  refine ⟨.list vs, ?_, ?_⟩
  · rw [ofDatum?, read]
    rfl
  · rw [toDatum, same]

mutual

/-- The script value of a literal is plain. -/
theorem isPlain_toDatum : (v : Value) → v.toDatum.IsPlain
  | .int n => ⟨.int n, rfl, rfl⟩
  | .float x => ⟨.float x, rfl, rfl⟩
  | .str text => ⟨.str text, rfl, rfl⟩
  | .bool b => ⟨.bool b, rfl, rfl⟩
  | .list items => isPlain_array (isPlain_toDatumItems items)
  | .tuple items => isPlain_array (isPlain_toDatumItems items)
  | .dict pairs => by
    have plain : ∀ entry ∈ Keyed.ofList (toDatumPairs pairs), entry.2.IsPlain := fun entry m =>
      isPlain_toDatumPairs pairs entry (Keyed.mem_of_mem_ofList m)
    obtain ⟨pairs', read, same⟩ := exists_ofDatumEntries? plain
    refine ⟨.dict pairs', ?_, ?_⟩
    · rw [toDatum, ofDatum?, read]
      rfl
    -- the entries that are read are in order, so that putting them in order again changes nothing
    · rw [toDatum, toDatum, same, Keyed.ofList_of_sorted (Keyed.sorted_ofList _)]

/-- The script values of literals are plain. -/
theorem isPlain_toDatumItems : (items : List Value) → ∀ d ∈ toDatumItems items, d.IsPlain
  | [], _, m => absurd m List.not_mem_nil
  | item :: items, d, m => by
    rcases List.mem_cons.1 m with rfl | m
    · exact isPlain_toDatum item
    · exact isPlain_toDatumItems items d m

/-- The entries of pairs are plain. -/
theorem isPlain_toDatumPairs :
    (pairs : List (Value × Value)) → ∀ entry ∈ toDatumPairs pairs, entry.2.IsPlain
  | [], _, m => absurd m List.not_mem_nil
  | (_, v) :: pairs, entry, m => by
    rcases List.mem_cons.1 m with rfl | m
    · exact isPlain_toDatum v
    · exact isPlain_toDatumPairs pairs entry m

end

end Value

/-! ## What fresh slots hold -/

/-- What a fresh slot holds because of an annotation. -/
def Annotation.initial? (a : Annotation) : Option Datum := a.default?.map Value.toDatum

namespace DataType

/-- A fresh slot of an annotated type holds what the first annotation with a default says, or else
what a slot of the type below holds. -/
theorem initial_annotated (t : DataType) (as : List Annotation) :
    (annotated t as).initial = (as.findSome? Annotation.initial?).getD t.initial := by
  have mapped : as.findSome? Annotation.initial? =
      (as.findSome? Annotation.default?).map Value.toDatum := by
    rw [List.map_findSome?]
    rfl
  rw [mapped, initial]
  cases as.findSome? Annotation.default? <;> rfl

end DataType

/-! ## What the host has to offer -/

/-- A host can evaluate the codes of types with some layers: it reads back the values in their
annotations, and knows the classes that are named. -/
structure Host.Environment.Supports (env : Environment) (layers : List DataType) : Prop where
  /-- The values in annotations are read back. -/
  reads : ∀ t ∈ layers, ∀ a ∈ t.annotations, ∀ v ∈ a.arguments, v.ReadsBack
  /-- A class is known by its name, if programs can write the name. -/
  knows : ∀ c, .node c ∈ layers → Script.isIdentifier c.name = true →
    (env.class? c.name).isSome = true

namespace Host

variable {env : Environment} {call : Caller} {s : Entries} {w : World}

/-- What supports some layers supports fewer ones. -/
theorem Environment.Supports.mono {layers layers' : List DataType} (h : env.Supports layers')
    (sub : layers ⊆ layers') : env.Supports layers :=
  ⟨fun t m => h.reads t (sub m), fun c m => h.knows c (sub m)⟩

/-- One step for each of some items, of which none changes anything. -/
theorem Yields.mapM {α β : Type} {f : α → Eval β} (g : β → α)
    (each : ∀ b, Yields (f (g b)) s w (.ok b) s w) (bs : List β) :
    Yields ((bs.map g).mapM f) s w (.ok bs) s w := by
  induction bs with
  | nil =>
    rw [List.map_nil, List.mapM_nil]
    exact .pure []
  | cons b bs ih =>
    rw [List.map_cons, List.mapM_cons]
    exact (each b).bind (ih.map _)

/-! ## Annotations -/

/-- The codes of literals that are read back evaluate to their script values. -/
theorem yields_arguments {vs : List Value} (reads : ∀ v ∈ vs, v.ReadsBack)
    (lacks : env.Lacks "parse_float") :
    Yields (evalItems env call (vs.map Value.spelling)) s w (.ok (vs.map Value.toDatum)) s w := by
  induction vs with
  | nil => exact .items_nil
  | cons v vs ih =>
    obtain ⟨first, others⟩ := List.forall_mem_cons.1 reads
    have read : Yields (evalExpr env call v.spelling) s w (literalResult v.reading) s w :=
      yields_literal v lacks
    rw [first] at read
    exact .items_cons read (ih others)

/-- The code of an annotation evaluates to an annotation that says the same about fresh slots. -/
theorem exists_annotation {a : Annotation} (reads : ∀ v ∈ a.arguments, v.ReadsBack)
    (lacks : env.Lacks "parse_float") :
    ∃ a' : Annotation, a'.initial? = a.initial? ∧ ∀ (call : Caller) (s : Entries) (w : World),
      Yields (evalExpr env call a.spelling) s w (.ok (.hint a')) s w := by
  have plain (v : Value) : ∃ v' : Value, v'.toDatum = v.toDatum ∧ ∀ context s w,
      Yields (plainValue context v.toDatum) s w (.ok v') s w := by
    obtain ⟨v', read, same⟩ := v.isPlain_toDatum
    exact ⟨v', same, fun context s w => .demand _ read⟩
  -- the arguments are evaluated alike; the cases tell what the module makes of them
  have spelled (a' : Annotation) (made : ∀ s w, Yields (env.callModule HostModule.annotations.name
      a.constructorName (a.arguments.map Value.toDatum)) s w (.ok (.hint a')) s w)
      (call : Caller) (s : Entries) (w : World) :
      Yields (evalExpr env call a.spelling) s w (.ok (.hint a')) s w :=
    .moduleCall (yields_arguments reads lacks) (made s w)
  simp only [Environment.callModule, module?_name] at spelled
  cases a with
  | minimum v =>
    obtain ⟨v', -, read⟩ := plain v
    exact ⟨.minimum v', rfl, spelled _ fun s w => (read _ s w).map _⟩
  | maximum v =>
    obtain ⟨v', -, read⟩ := plain v
    exact ⟨.maximum v', rfl, spelled _ fun s w => (read _ s w).map _⟩
  | default v =>
    obtain ⟨v', same, read⟩ := plain v
    exact ⟨.default v', congrArg some same, spelled _ fun s w => (read _ s w).map _⟩
  | decimals places => exact ⟨.decimals places, rfl, spelled _ fun s w => .pure _⟩
  | singleStep v =>
    obtain ⟨v', -, read⟩ := plain v
    exact ⟨.singleStep v', rfl, spelled _ fun s w => (read _ s w).map _⟩
  | withinRange low high =>
    obtain ⟨low', -, read⟩ := plain low
    obtain ⟨high', -, read'⟩ := plain high
    exact ⟨.withinRange low' high', rfl, spelled _ fun s w =>
      (read _ s w).bind ((read' _ s w).map _)⟩

/-- The codes of annotations evaluate to annotations that say the same about fresh slots. -/
theorem exists_annotations {as : List Annotation}
    (reads : ∀ a ∈ as, ∀ v ∈ a.arguments, v.ReadsBack) (lacks : env.Lacks "parse_float") :
    ∃ as' : List Annotation,
      as'.findSome? Annotation.initial? = as.findSome? Annotation.initial? ∧
        ∀ (call : Caller) (s : Entries) (w : World),
          Yields (evalItems env call (as.map Annotation.spelling)) s w
            (.ok (as'.map Datum.hint)) s w := by
  induction as with
  | nil => exact ⟨[], rfl, fun call s w => .items_nil⟩
  | cons a as ih =>
    obtain ⟨first, others⟩ := List.forall_mem_cons.1 reads
    obtain ⟨a', same, yields⟩ := exists_annotation first lacks
    obtain ⟨as', same', yields'⟩ := ih others
    refine ⟨a' :: as', ?_, fun call s w => .items_cons (yields call s w) (yields' call s w)⟩
    rw [List.findSome?_cons, List.findSome?_cons, same, same']

/-! ## Types -/

/-- A type is an argument that is expected to be one. -/
theorem yields_argumentType (context : String) (t : DataType) :
    Yields (argumentType context (.type t)) s w (.ok t) s w := .demand _ rfl

/-- A field of a pack, as programs write it. -/
def fieldDatum (field : String × DataType) : Datum := .array [.text field.1, .type field.2]

/-- A field of a pack is read as programs write it. -/
theorem yields_packField (field : String × DataType) :
    Yields (packField (fieldDatum field)) s w (.ok field) s w :=
  Yields.bind (.demand _ rfl) ((yields_argumentType _ field.2).map _)

/-- A constant of the module of types is the type. -/
theorem yields_typesConstant {name : String} {t : DataType} (known : typesConstant? name = some t) :
    Yields (evalExpr env call (HostModule.types.constant name)) s w (.ok (.type t)) s w := by
  refine .require ?_
  rw [Environment.constant?, module?_name]
  show (typesConstant? name).map Datum.type = _
  rw [known]
  rfl

/-- A call of the module of types. -/
theorem yields_typesCall {function : String} {arguments : List Expr} {values : List Datum}
    {r : Except Halt Datum} (h : Yields (evalItems env call arguments) s w (.ok values) s w)
    (h' : Yields (typesFunction function values) s w r s w) :
    Yields (evalExpr env call (HostModule.types.call function arguments)) s w r s w := by
  refine .moduleCall h ?_
  rw [Environment.callModule, module?_name]
  exact h'

/-- The document of a type evaluates to what is read from it. -/
theorem yields_typeDocument {text : String} {t : DataType} (read : DataType.ofText? text = some t) :
    Yields (evalExpr env call (HostModule.blob.call "type_from_json" [.str text])) s w
      (.ok (.type t)) s w := by
  refine .moduleCall (.items_cons (.str text) .items_nil) ?_
  rw [Environment.callModule, module?_name]
  show Yields (demand _ _) _ _ _ _ _
  refine .demand _ ?_
  rw [read]
  rfl

/-- The code of a node type evaluates to a node type. -/
theorem exists_nodeType (c : NodeClass)
    (known : Script.isIdentifier c.name = true → (env.class? c.name).isSome = true) :
    ∃ c' : NodeClass, ∀ (call : Caller) (s : Entries) (w : World),
      Yields (evalExpr env call (DataType.node c).spelling) s w (.ok (.type (.node c'))) s w := by
  unfold DataType.spelling
  by_cases named : Script.isIdentifier c.name = true
  · obtain ⟨c', found⟩ := Option.isSome_iff_exists.1 (known named)
    refine ⟨c', fun call s w => ?_⟩
    rw [if_pos named]
    refine .require ?_
    rw [Environment.constant?, module?_name]
    show (env.class? c.name).map (fun c => Datum.type (.node c)) = _
    rw [found]
    rfl
  · refine ⟨c, fun call s w => ?_⟩
    rw [if_neg named]
    exact yields_typeDocument (DataType.ofText?_node c)

mutual

/-- The code of a type evaluates to a type whose fresh slots hold the same. -/
theorem exists_type (t : DataType) (supports : env.Supports t.nested)
    (lacks : env.Lacks "parse_float") :
    ∃ t' : DataType, t'.initial = t.initial ∧ ∀ (call : Caller) (s : Entries) (w : World),
      Yields (evalExpr env call t.spelling) s w (.ok (.type t')) s w := by
  match t with
  | .unit => exact ⟨.unit, rfl, fun _ _ _ => yields_typesConstant rfl⟩
  | .int => exact ⟨.int, rfl, fun _ _ _ => yields_typesConstant rfl⟩
  | .float => exact ⟨.float, rfl, fun _ _ _ => yields_typesConstant rfl⟩
  | .str => exact ⟨.str, rfl, fun _ _ _ => yields_typesConstant rfl⟩
  | .bool => exact ⟨.bool, rfl, fun _ _ _ => yields_typesConstant rfl⟩
  | .progress => exact ⟨.progress, rfl, fun _ _ _ => yields_typesConstant rfl⟩
  | .list item =>
    obtain ⟨item', -, yields⟩ :=
      exists_type item (supports.mono (List.subset_cons_self _ _)) lacks
    refine ⟨.list item', rfl, fun call s w => ?_⟩
    exact yields_typesCall (.items_cons (yields call s w) .items_nil)
      ((yields_argumentType _ _).map _)
  | .dict key value =>
    have inner := supports.mono (List.subset_cons_self _ _)
    obtain ⟨key', -, yields⟩ := exists_type key (inner.mono (List.subset_append_left _ _)) lacks
    obtain ⟨value', -, yields'⟩ :=
      exists_type value (inner.mono (List.subset_append_right _ _)) lacks
    refine ⟨.dict key' value', rfl, fun call s w => ?_⟩
    exact yields_typesCall
      (.items_cons (yields call s w) (.items_cons (yields' call s w) .items_nil))
      ((yields_argumentType _ _).bind ((yields_argumentType _ _).map _))
  | .tuple items =>
    obtain ⟨items', same, yields⟩ :=
      exists_types items (supports.mono (List.subset_cons_self _ _)) lacks
    refine ⟨.tuple items', by rw [DataType.initial, DataType.initial, same], fun call s w => ?_⟩
    exact yields_typesCall (.items_cons (.array (yields call s w)) .items_nil)
      ((Yields.mapM Datum.type (yields_argumentType _) items').map _)
  | .node c =>
    obtain ⟨c', yields⟩ := exists_nodeType c (supports.knows c (List.mem_singleton_self _))
    exact ⟨.node c', rfl, yields⟩
  | .pack name fields =>
    obtain ⟨fields', same, yields⟩ :=
      exists_fields fields (supports.mono (List.subset_cons_self _ _)) lacks
    refine ⟨.pack name fields', ?_, fun call s w => ?_⟩
    · rw [DataType.initial, DataType.initial, same]
    · exact yields_typesCall
        (.items_cons (.str name) (.items_cons (.array (yields call s w)) .items_nil))
        ((Yields.mapM fieldDatum yields_packField fields').map _)
  | .annotated inner as =>
    obtain ⟨inner', same, yields⟩ :=
      exists_type inner (supports.mono (List.subset_cons_self _ _)) lacks
    match as with
    -- a layer without annotations is left out of the code
    | [] => exact ⟨inner', same, yields⟩
    | a :: as =>
      obtain ⟨as', same', yields'⟩ :=
        exists_annotations (supports.reads _ List.mem_cons_self) lacks
      refine ⟨.annotated inner' as', ?_, fun call s w => ?_⟩
      · rw [DataType.initial_annotated, DataType.initial_annotated, same, same']
        rfl
      · exact yields_typesCall
          (.items_cons (yields call s w) (.items_cons (.array (yields' call s w)) .items_nil))
          ((Yields.mapM Datum.hint (fun a => .demand _ rfl) as').bind
            ((yields_argumentType _ _).map _))
  | .external name =>
    exact ⟨.external name, rfl, fun _ _ _ => yields_typeDocument (DataType.ofText?_external name)⟩

/-- The codes of types evaluate to types whose fresh slots hold the same. -/
theorem exists_types (items : List DataType)
    (supports : env.Supports (DataType.nestedItems items)) (lacks : env.Lacks "parse_float") :
    ∃ items' : List DataType, DataType.initialItems items' = DataType.initialItems items ∧
      ∀ (call : Caller) (s : Entries) (w : World),
        Yields (evalItems env call (DataType.spellings items)) s w
          (.ok (items'.map Datum.type)) s w := by
  match items with
  | [] => exact ⟨[], rfl, fun _ _ _ => .items_nil⟩
  | item :: items =>
    obtain ⟨item', same, yields⟩ :=
      exists_type item (supports.mono (List.subset_append_left _ _)) lacks
    obtain ⟨items', same', yields'⟩ :=
      exists_types items (supports.mono (List.subset_append_right _ _)) lacks
    refine ⟨item' :: items', ?_, fun call s w =>
      .items_cons (yields call s w) (yields' call s w)⟩
    rw [DataType.initialItems, DataType.initialItems, same, same']

/-- The codes of fields evaluate to fields that hold the same when they are fresh. -/
theorem exists_fields (fields : List (String × DataType))
    (supports : env.Supports (DataType.nestedFields fields)) (lacks : env.Lacks "parse_float") :
    ∃ fields' : List (String × DataType),
      DataType.initialFields fields' = DataType.initialFields fields ∧
        ∀ (call : Caller) (s : Entries) (w : World),
          Yields (evalItems env call (DataType.spellingFields fields)) s w
            (.ok (fields'.map fieldDatum)) s w := by
  match fields with
  | [] => exact ⟨[], rfl, fun _ _ _ => .items_nil⟩
  | (name, t) :: fields =>
    obtain ⟨t', same, yields⟩ :=
      exists_type t (supports.mono (List.subset_append_left _ _)) lacks
    obtain ⟨fields', same', yields'⟩ :=
      exists_fields fields (supports.mono (List.subset_append_right _ _)) lacks
    refine ⟨(name, t') :: fields', ?_, fun call s w => .items_cons
      (.array (.items_cons (.str name) (.items_cons (yields call s w) .items_nil)))
      (yields' call s w)⟩
    rw [DataType.initialFields, DataType.initialFields, same, same']

end

end Host

end Pipewright
