import Pipewright.Proofs.Script.Spaces
import Pipewright.Proofs.Unit.Loaded
import Pipewright.Proofs.Unit.Source

/-! # Imports match the code that they serve
The modules whose names stand in the code of a type or a literal are those that its imports make
known, but for the module of types, which is always known. A layer without annotations is left out of
the code of a type; its imports are asked for all the same. A unit makes the modules known that its
parameter packs and its literals use. -/

namespace Pipewright

open Script (Expr Function Scans anyChar endsLine endsName importLine isIdentifier isPlainWord
  isPlainWord_of_isIdentifier usedSpaces)

variable {block text : String} {modules known : List HostModule}

/-! ## Blocks -/

/-- Modules are told apart by their names. -/
theorem HostModule.name_injective : Function.Injective HostModule.name := by
  intro m m' same
  have found := Host.module?_name m
  rw [same, Host.module?_name] at found
  exact (Option.some.inj found).symm

/-- A block makes some modules known: it has one line for each of them, in ascending order. -/
structure ImportBlock (block : String) (known : List HostModule) : Prop where
  /-- The lines of the block. -/
  lines : block = Text.joinLines (known.map fun m => importLine m.name)
  /-- They ascend, so no two of them are the same. -/
  ascending : (known.map fun m => importLine m.name).Pairwise (· < ·)

/-- Each module that a text uses is known, be it because that of types always is. -/
def Covers (known : List HostModule) (text : String) : Prop :=
  ∀ name ∈ usedSpaces text, name = HostModule.types.name ∨ name ∈ known.map HostModule.name

/-- What is known stays so when more is known. -/
theorem Covers.mono (h : Covers modules text) (more : ∀ m ∈ modules, m ≠ .types → m ∈ known) :
    Covers known text := by
  intro name used
  rcases h name used with types | there
  · exact .inl types
  · obtain ⟨m, needed, rfl⟩ := List.mem_map.1 there
    by_cases types : m = .types
    · exact .inl (by rw [types])
    · exact .inr (List.mem_map_of_mem (more m needed types))

/-- The block of some modules but for that of types. -/
theorem exists_importBlock (cleaned : block = importLines (modules.filter (· ≠ .types))) :
    ∃ known, ImportBlock block known ∧ ∀ m, m ∈ known ↔ m ∈ modules ∧ m ≠ .types := by
  obtain ⟨known, once⟩ := exists_modules (modules.filter (· ≠ .types))
  have ordered : (known.map HostModule.name).Pairwise (· < ·) := by
    rw [← once]
    exact Keyed.pairwise_distinct _
  have ascending := (List.pairwise_map.1 ordered).imp fun below => importLine_lt below
  refine ⟨known, ⟨cleaned.trans (importLines_eq once), List.pairwise_map.2 ascending⟩, fun m => ?_⟩
  rw [← List.mem_map_of_injective HostModule.name_injective, ← once, Keyed.mem_distinct,
    List.mem_map_of_injective HostModule.name_injective, List.mem_filter, decide_eq_true_eq]

/-! ## Spellings -/

namespace Value

mutual

/-- The spelling of a literal names the modules that the literal needs. -/
theorem spaces_spelling : (v : Value) → v.spelling.spaces = v.modules.map HostModule.name
  | .int n => by
    unfold spelling
    split <;> rfl
  | .float x => by
    unfold spelling
    split
    · rfl
    split
    · rfl
    · rfl
  | .str _ => rfl
  | .bool _ => rfl
  | .list items => spaces_spellings items
  | .tuple _ => rfl
  | .dict _ => rfl

/-- The spellings of literals name the modules that these need. -/
theorem spaces_spellings : (vs : List Value) →
    Expr.spacesOfItems (spellings vs) = (modulesOfItems vs).map HostModule.name
  | [] => rfl
  | v :: vs => by
    rw [spellings, modulesOfItems, Expr.spacesOfItems, List.map_append, spaces_spelling v,
      spaces_spellings vs]

end

/-- The code of a literal uses the modules that the literal needs. -/
theorem usedSpaces_code (v : Value) : usedSpaces v.code = v.modules.map HostModule.name := by
  rw [code, Expr.usedSpaces_text (fun _ _ => rfl) v.isLegible_spelling, spaces_spelling]

/-- The modules that a literal needs cover its code. -/
theorem covers_code (v : Value) : Covers v.modules v.code :=
  fun _ used => .inr (v.usedSpaces_code ▸ used)

end Value

/-- The spelling of an annotation names the module of annotations and those of its arguments. -/
theorem Annotation.spaces_spelling (a : Annotation) :
    a.spelling.spaces = (HostModule.annotations :: a.modules).map HostModule.name := by
  have arguments : Expr.spacesOfItems (a.arguments.map Value.spelling) =
      a.modules.map HostModule.name := by
    rw [Expr.spacesOfItems_eq, List.flatMap_map, modules, List.map_flatMap]
    simp only [Value.spaces_spelling]
  show HostModule.annotations.name :: Expr.spacesOfItems _ = _
  rw [arguments, List.map_cons]

namespace DataType

/-- The modules that the code of one layer of a type uses. -/
def layerSpaces : DataType → List HostModule
  | .annotated _ [] => []
  | .annotated _ as => .types :: as.flatMap fun a => .annotations :: a.modules
  | t => t.layerModules

/-- The names of the modules that the code of some layers uses. -/
def spacesOfLayers (layers : List DataType) : List String :=
  (layers.flatMap layerSpaces).map HostModule.name

@[simp] theorem spacesOfLayers_cons (layer : DataType) (layers : List DataType) :
    spacesOfLayers (layer :: layers) =
      layer.layerSpaces.map HostModule.name ++ spacesOfLayers layers := by
  rw [spacesOfLayers, List.flatMap_cons, List.map_append, spacesOfLayers]

@[simp] theorem spacesOfLayers_append (layers layers' : List DataType) :
    spacesOfLayers (layers ++ layers') = spacesOfLayers layers ++ spacesOfLayers layers' := by
  rw [spacesOfLayers, List.flatMap_append, List.map_append, spacesOfLayers, spacesOfLayers]

/-- The spellings of annotations name the modules that a layer with them uses besides that of
types. -/
theorem spaces_annotations (as : List Annotation) :
    Expr.spacesOfItems (as.map Annotation.spelling) =
      (as.flatMap fun a => HostModule.annotations :: a.modules).map HostModule.name := by
  rw [Expr.spacesOfItems_eq, List.flatMap_map, List.map_flatMap]
  exact List.flatMap_congr fun a _ => a.spaces_spelling

mutual

/-- The spelling of a type names the modules of its layers, those of annotations behind what is
annotated. -/
theorem perm_spaces : (t : DataType) → t.spelling.spaces.Perm (spacesOfLayers t.nested)
  | .unit => .refl _
  | .int => .refl _
  | .float => .refl _
  | .str => .refl _
  | .bool => .refl _
  | .progress => .refl _
  | .list item => by
    have inner := perm_spaces item
    show (HostModule.types.name :: (item.spelling.spaces ++ [])).Perm _
    rw [List.append_nil, nested, spacesOfLayers_cons]
    exact inner.cons _
  | .dict key value => by
    have inner := (perm_spaces key).append (perm_spaces value)
    show (HostModule.types.name :: (key.spelling.spaces ++ (value.spelling.spaces ++ []))).Perm _
    rw [List.append_nil, nested, spacesOfLayers_cons, spacesOfLayers_append]
    exact inner.cons _
  | .tuple items => by
    have inner := perm_spaces_items items
    show (HostModule.types.name :: (Expr.spacesOfItems (spellings items) ++ [])).Perm _
    rw [List.append_nil, nested, spacesOfLayers_cons]
    exact inner.cons _
  | .node c => by
    have layers : spacesOfLayers (nested (.node c)) =
        (if Script.isIdentifier c.name then [HostModule.scene] else [.blob]).map HostModule.name :=
      (spacesOfLayers_cons (.node c) []).trans (List.append_nil _)
    rw [spelling, layers]
    split
    · exact .refl _
    · exact .refl _
  | .pack name fields => by
    have inner := perm_spaces_fields fields
    show (HostModule.types.name :: ([] ++ (Expr.spacesOfItems (spellingFields fields) ++ []))).Perm _
    rw [List.nil_append, List.append_nil, nested, spacesOfLayers_cons]
    exact inner.cons _
  | .annotated inner [] => by
    rw [spelling, nested, spacesOfLayers_cons]
    exact perm_spaces inner
  | .annotated inner (a :: as) => by
    have layer : (layerSpaces (.annotated inner (a :: as))).map HostModule.name =
        HostModule.types.name :: Expr.spacesOfItems ((a :: as).map Annotation.spelling) := by
      rw [spaces_annotations]
      rfl
    have behind := (perm_spaces inner).append_right
      (Expr.spacesOfItems ((a :: as).map Annotation.spelling))
    show (HostModule.types.name :: (inner.spelling.spaces ++
      (Expr.spacesOfItems ((a :: as).map Annotation.spelling) ++ []))).Perm _
    rw [List.append_nil, nested, spacesOfLayers_cons, layer]
    exact (behind.trans List.perm_append_comm).cons _
  | .external _ => .refl _

/-- The spellings of types name the modules of their layers. -/
theorem perm_spaces_items : (items : List DataType) →
    (Expr.spacesOfItems (spellings items)).Perm (spacesOfLayers (nestedItems items))
  | [] => .refl _
  | item :: items => by
    rw [spellings, nestedItems, Expr.spacesOfItems, spacesOfLayers_append]
    exact (perm_spaces item).append (perm_spaces_items items)

/-- The spellings of fields name the modules of the layers of their types. -/
theorem perm_spaces_fields : (fields : List (String × DataType)) →
    (Expr.spacesOfItems (spellingFields fields)).Perm (spacesOfLayers (nestedFields fields))
  | [] => .refl _
  | (name, t) :: fields => by
    rw [spellingFields, nestedFields, Expr.spacesOfItems, spacesOfLayers_append]
    show (([] ++ (t.spelling.spaces ++ [])) ++ _).Perm _
    rw [List.nil_append, List.append_nil]
    exact (perm_spaces t).append (perm_spaces_fields fields)

end

/-- The spelling of a type names the modules of its layers. -/
theorem mem_spaces_iff {t : DataType} {name : String} :
    name ∈ t.spelling.spaces ↔ ∃ layer ∈ t.nested, ∃ m ∈ layer.layerSpaces, m.name = name := by
  rw [(perm_spaces t).mem_iff, spacesOfLayers, List.mem_map]
  simp only [List.mem_flatMap]
  exact ⟨fun ⟨m, ⟨layer, there, used⟩, e⟩ => ⟨layer, there, m, used, e⟩,
    fun ⟨layer, there, m, used, e⟩ => ⟨m, ⟨layer, there, used⟩, e⟩⟩

/-- The code of a type uses the modules that its spelling names. -/
theorem usedSpaces_code (t : DataType) : usedSpaces t.code = t.spelling.spaces := by
  rw [code, Expr.usedSpaces_text (fun _ _ => rfl) t.isLegible_spelling]

/-- A layer uses no module but that of types and those that it needs. -/
theorem needs_of_mem_layerSpaces {layer : DataType} {m : HostModule} (h : m ∈ layer.layerSpaces) :
    m = .types ∨ m ∈ layer.layerModules := by
  cases layer with
  | annotated inner as =>
    cases as with
    | nil => cases h
    | cons a as =>
      rcases List.mem_cons.1 h with rfl | h
      · exact .inl rfl
      · obtain ⟨a', there, h⟩ := List.mem_flatMap.1 h
        rcases List.mem_cons.1 h with rfl | h
        · exact .inr List.mem_cons_self
        · exact .inr (List.mem_cons_of_mem _ (List.mem_flatMap.2 ⟨a', there, h⟩))
  | _ => exact .inr h

/-- A layer uses the modules that it needs, unless it is one without annotations. -/
theorem mem_layerSpaces_of_needs {layer : DataType} {m : HostModule}
    (some' : ∀ inner, layer ≠ .annotated inner []) (h : m ∈ layer.layerModules) :
    m ∈ layer.layerSpaces := by
  cases layer with
  | annotated inner as =>
    cases as with
    | nil => exact absurd rfl (some' inner)
    | cons a as =>
      refine List.mem_cons_of_mem _ (List.mem_flatMap.2 ?_)
      rcases List.mem_cons.1 h with rfl | h
      · exact ⟨a, List.mem_cons_self, List.mem_cons_self⟩
      · obtain ⟨a', there, h⟩ := List.mem_flatMap.1 h
        exact ⟨a', there, List.mem_cons_of_mem _ h⟩
  | _ => exact h

/-- The modules that a type needs cover its code. -/
theorem covers_code (t : DataType) : Covers t.modules t.code := by
  intro name spelled
  rw [usedSpaces_code] at spelled
  obtain ⟨layer, there, m, used, rfl⟩ := mem_spaces_iff.1 spelled
  refine (needs_of_mem_layerSpaces used).imp (congrArg HostModule.name) fun needed => ?_
  exact List.mem_map_of_mem (List.mem_flatMap.2 ⟨layer, there, needed⟩)

/-- The code of a type uses each module that the type needs, if all layers have annotations. -/
theorem mem_usedSpaces_of_mem_modules {t : DataType} {m : HostModule}
    (some' : ∀ inner, .annotated inner [] ∉ t.nested) (h : m ∈ t.modules) :
    m.name ∈ usedSpaces t.code := by
  obtain ⟨layer, there, needed⟩ := List.mem_flatMap.1 h
  rw [usedSpaces_code]
  refine mem_spaces_iff.2 ⟨layer, there, m, mem_layerSpaces_of_needs ?_ needed, rfl⟩
  rintro inner rfl
  exact some' inner there

end DataType

/-! ## Parameter packs -/

/-- A text uses no module but that of types and some others, if a line break follows. -/
def UsesOnly (modules : List HostModule) (text : String) : Prop :=
  ∃ names, Scans endsLine text names ∧
    ∀ name ∈ names, name = HostModule.types.name ∨ name ∈ modules.map HostModule.name

namespace UsesOnly

/-- The modules that a text may use cover it. -/
theorem covers (h : UsesOnly modules text) : Covers modules text := by
  obtain ⟨names, scans, only⟩ := h
  rw [Covers, scans.usedSpaces_eq]
  exact only

/-- Texts with empty lines between them use what each of them uses. -/
theorem separate {texts : List String} (h : ∀ text ∈ texts, UsesOnly modules text) :
    UsesOnly modules ("\n\n".intercalate texts) := by
  induction texts with
  | nil => exact ⟨[], fun _ _ => rfl, fun name m => absurd m List.not_mem_nil⟩
  | cons text texts ih =>
    obtain ⟨first, others⟩ := List.forall_mem_cons.1 h
    by_cases none : texts = []
    · rw [none, String.intercalate_singleton]
      exact first
    · obtain ⟨names, scans, only⟩ := first
      obtain ⟨names', scans', only'⟩ := ih others
      have gap : Scans anyChar "\n\n" [] := fun _ _ => rfl
      have broken : Scans anyChar (text ++ "\n\n") (names ++ []) := scans.append gap rfl
      rw [String.intercalate_cons_of_ne_nil none]
      exact ⟨_, broken.append_any scans',
        List.forall_mem_append.2 ⟨by rwa [List.append_nil], only'⟩⟩

end UsesOnly

section Packs

variable {name tab : String} {fields : List Expr} {g : PipelineGraph} {keys : List SlotKey}

/-- A heading uses no module. -/
theorem usesOnly_heading (word : isPlainWord name.toList = true) :
    UsesOnly modules (Item.text tab (.heading name)) := by
  refine ⟨[], (Scans.plain fun c m => ?_).mono fun _ => Script.endsName_of_endsLine,
    fun name m => absurd m List.not_mem_nil⟩
  have opened : ∀ c ∈ "//\n// ".toList, c ≠ '"' ∧ c ≠ ':' := by simp
  have closed : ∀ c ∈ "\n//".toList, c ≠ '"' ∧ c ≠ ':' := by simp
  rw [Item.text, String.toList_append, String.toList_append, List.mem_append, List.mem_append] at m
  rcases m with (m | m) | m
  · exact opened c m
  · exact Script.ne_of_isWordChar (List.all_eq_true.1 (Script.all_isWordChar word) c m)
  · exact closed c m

/-- The function of a pack uses the module of types and those that its fields name. -/
theorem usesOnly_packFunction (blank : Scans anyChar tab [])
    (h : (packFunction name fields).isLegible = true)
    (only : ∀ space ∈ fields.flatMap Expr.spaces,
      space = HostModule.types.name ∨ space ∈ modules.map HostModule.name) :
    UsesOnly modules (Item.text tab (.function (packFunction name fields))) := by
  have spaces : (HostModule.types.call "pack" [.str name,
      .array (if fields.isEmpty then .inline else .spread) fields]).spaces =
      HostModule.types.name :: fields.flatMap Expr.spaces := by
    show _ :: ([] ++ (Expr.spacesOfItems fields ++ [])) = _
    rw [List.nil_append, List.append_nil, Expr.spacesOfItems_eq]
  have scans := Script.scans_constantFunction blank h
  rw [spaces] at scans
  exact ⟨_, scans, List.forall_mem_cons.2 ⟨.inl rfl, only⟩⟩

/-- The modules that the fields for some nodes name are among those that the types of these and other
nodes need, but for that of types. -/
theorem needs_of_mem_packFields {boundary : List SlotKey} {space : String}
    (sub : ∀ key ∈ keys, key ∈ boundary) (h : space ∈ (g.packFields keys).flatMap Expr.spaces) :
    space = HostModule.types.name ∨
      space ∈ ((boundary.filterMap g.datatype?).flatMap DataType.modules).map HostModule.name := by
  obtain ⟨e, there, used⟩ := List.mem_flatMap.1 h
  obtain ⟨key, m, rfl⟩ := List.mem_map.1 there
  have used' : space ∈ usedSpaces (g.slotType key).code := by
    rw [DataType.usedSpaces_code]
    have field : space ∈ [] ++ ((g.slotType key).spelling.spaces ++ []) := used
    rwa [List.nil_append, List.append_nil] at field
  unfold PipelineGraph.slotType at used'
  cases typed : g.datatype? key with
  | none =>
    rw [typed] at used'
    have unit : usedSpaces DataType.unit.code = [HostModule.types.name] := DataType.usedSpaces_code _
    exact .inl (List.mem_singleton.1 (unit ▸ used'))
  | some t =>
    rw [typed] at used'
    refine (t.covers_code space used').imp_right fun needed => ?_
    obtain ⟨space', needed', rfl⟩ := List.mem_map.1 needed
    exact List.mem_map_of_mem
      (List.mem_flatMap.2 ⟨t, List.mem_filterMap.2 ⟨key, sub key m, typed⟩, needed'⟩)

/-- The modules that the types of the overall inputs and outputs need cover the parameter packs. -/
theorem covers_parameterPiece {p : ValidatedPipeline} {piece : Piece} {inputs outputs : List SlotKey}
    (blank : Scans anyChar tab []) (named : isIdentifier name = true)
    (ordered : p.graph.orderedInputs = .ok inputs) (ordered' : p.graph.orderedOutputs = .ok outputs)
    (h : parameterPiece name p = .ok piece) :
    Covers (((inputs ++ outputs).filterMap p.graph.datatype?).flatMap DataType.modules)
      (piece.body tab) := by
  have legible := isLegible_parameterPiece named h
  obtain ⟨inputs', outputs', known, known', rfl⟩ := exists_parameterPiece h
  cases ordered.symm.trans known
  cases ordered'.symm.trans known'
  have words : ∀ suffix ∈ packEndings, isPlainWord (name ++ suffix).toList = true :=
    fun suffix m => Script.isPlainWord_of_isNameWord (isNameWord_pack named m)
  refine UsesOnly.covers (UsesOnly.separate ?_)
  simp only [List.forall_mem_cons, List.map_cons, List.map_nil] at legible ⊢
  obtain ⟨-, inputs', -, outputs', -, both, -⟩ := legible
  refine ⟨usesOnly_heading (words "Inputs" (by decide)), usesOnly_packFunction blank inputs' ?_,
    usesOnly_heading (words "Outputs" (by decide)), usesOnly_packFunction blank outputs' ?_,
    usesOnly_heading (words "ParameterNode" (by decide)), usesOnly_packFunction blank both ?_,
    fun text m => absurd m List.not_mem_nil⟩
  · exact fun space => needs_of_mem_packFields fun key => List.mem_append_left _
  · exact fun space => needs_of_mem_packFields fun key => List.mem_append_right _
  · exact fun space m => absurd m List.not_mem_nil

end Packs

/-! ## All imports -/

/-- The imports of a unit stand between the remark that it starts with and its functions. -/
theorem assemble_eq (name : String) (s : Settings) (pieces : List Piece) :
    assemble name s pieces =
      ("// " ++ name ++ "." ++ s.fileExtension ++ "\n// Generated by " ++ s.generatorName ++
        ". Edit the pipeline, not this file.\n\n") ++
      cleanImports (Text.joinLines (pieces.map Piece.imports)) ++
      ("\n\n" ++ "\n\n".intercalate (pieces.map fun piece => piece.body s.tab) ++ "\n") := by
  unfold assemble
  simp only [String.append_assoc]

/-- The imports of types, literals and units match the code that they serve. The imports of a type
make known what its code uses, and nothing else if each layer has annotations; those of a literal
make known what its code uses and nothing else; those of a unit, which stand between the remark that
it starts with and its functions, make known what its parameter packs and the literals of its
pipeline use. -/
theorem imports_match :
    (∀ t : DataType, ∃ known, ImportBlock (cleanImports t.imports) known ∧ Covers known t.code ∧
      ((∀ inner, .annotated inner [] ∉ t.nested) →
        ∀ m ∈ known, m ≠ .types ∧ m.name ∈ usedSpaces t.code)) ∧
    (∀ v : Value, ∃ known, ImportBlock (cleanImports v.imports) known ∧ Covers known v.code ∧
      ∀ m ∈ known, m ≠ .types ∧ m.name ∈ usedSpaces v.code) ∧
    ∀ (name : String) (p : ValidatedPipeline) (r : Registry) (s : Settings) (hasIcon : Bool)
      (text : String), unitSource name p r s hasIcon = .ok text →
        ∃ pieces parameters known, unitPieces name p r s hasIcon = .ok pieces ∧
          text =
            ("// " ++ name ++ "." ++ s.fileExtension ++ "\n// Generated by " ++ s.generatorName ++
              ". Edit the pipeline, not this file.\n\n") ++
            cleanImports (Text.joinLines (pieces.map Piece.imports)) ++
            ("\n\n" ++ "\n\n".intercalate (pieces.map fun piece => piece.body s.tab) ++ "\n") ∧
          ImportBlock (cleanImports (Text.joinLines (pieces.map Piece.imports))) known ∧
          parameterPiece name p = .ok parameters ∧ parameters ∈ pieces ∧
          Covers known (parameters.body s.tab) ∧
          ∀ node ∈ p.graph.nodes, ∀ v, node.2.fixed? = some v → Covers known v.code := by
  refine ⟨fun t => ?_, fun v => ?_, fun name p r s hasIcon text h => ?_⟩
  · obtain ⟨known, imports, each⟩ :=
      exists_importBlock (IsImports.importLines t.modules).cleanImports_eq
    refine ⟨known, imports, t.covers_code.mono fun m needed other => (each m).2 ⟨needed, other⟩,
      fun some' m there => ?_⟩
    obtain ⟨needed, other⟩ := (each m).1 there
    exact ⟨other, DataType.mem_usedSpaces_of_mem_modules some' needed⟩
  · obtain ⟨known, imports, each⟩ :=
      exists_importBlock (IsImports.importLines v.modules).cleanImports_eq
    refine ⟨known, imports, v.covers_code.mono fun m needed other => (each m).2 ⟨needed, other⟩,
      fun m there => ?_⟩
    obtain ⟨needed, other⟩ := (each m).1 there
    rw [v.usedSpaces_code]
    exact ⟨other, List.mem_map_of_mem needed⟩
  · unfold unitSource at h
    cases made : unitPieces name p r s hasIcon with
    | error fault =>
      rw [made] at h
      cases h
    | ok pieces =>
      rw [made] at h
      cases h
      obtain ⟨named, parameters, run, widget, first, second, third, rfl⟩ := exists_unitPieces made
      obtain ⟨inputs, outputs, ordered, ordered', -⟩ := exists_parameterPiece first
      obtain ⟨known, imports, each⟩ :=
        exists_importBlock (cleanImports_unitPieces ordered ordered' made)
      have packs := covers_parameterPiece (Script.scans_spaces s.indentWidth) named ordered ordered'
        first
      refine ⟨_, parameters, known, rfl, assemble_eq _ _ _, imports, first,
        List.mem_cons_of_mem _ List.mem_cons_self, packs.mono fun m needed other =>
          (each m).2 ⟨List.mem_append_right _ needed, other⟩, fun node there v fixed => ?_⟩
      refine v.covers_code.mono fun m needed other => (each m).2 ⟨?_, other⟩
      exact List.mem_append_left _ (List.mem_append_right _ (List.mem_flatMap.2
        ⟨v, List.mem_filterMap.2 ⟨node, there, fixed⟩, needed⟩))

/-- A list of boxes with a default value that has no readable spelling. -/
def boxList : DataType := .list (.annotated (.node PipelineGraph.box) [.default (.tuple [])])

namespace PipelineGraph

/-- Putting a box at a place that has two coordinates. -/
def placing : Operation where
  name := "place"
  parameters := [("at", .tuple [.int, .int])]
  returns := .node box
  progress? := none
  dependencies := []
  categories := []
  implementation c := Recipe.follow c (.create box "placed" none [])

/-- The registry with that operation. -/
def places : Registry := ⟨[("place", placing)]⟩

/-- The place, which is fixed. -/
def origin : Value := .tuple [.int 0, .int 0]

/-- A box is put at a fixed place and goes out. -/
def placedOnce : PipelineGraph :=
  let slots := (((empty.addInput "n" .int 0).addFixed 1 "place" "at" origin).addReturn 1
    "place").addOutput 2 "out" (.node box) 0
  slots.addEdge (.returnValue 1 "place") (.output 2 "out")

/-- That pipeline, validated. -/
def placed : ValidatedPipeline := (placedOnce.validate places).toOption.getD ⟨empty⟩

/-- The pieces of its unit. -/
def placedPieces : List Piece :=
  (unitPieces "placing" placed places .standard false).toOption.getD []

end PipelineGraph

open PipelineGraph (origin placed placedOnce placedPieces places validate_eq_ok_iff) in
/-- The type of a list, and the unit in which a box is put at a fixed place. -/
theorem imports_match_placed :
    (∃ known, ImportBlock (cleanImports boxList.imports) known ∧
      ∀ m ∈ known, m ≠ .types ∧ m.name ∈ usedSpaces boxList.code) ∧
    unitSource "placing" placed places .standard false =
      .ok (assemble "placing" .standard placedPieces) ∧
    ∃ parameters known,
      ImportBlock (cleanImports (Text.joinLines (placedPieces.map Piece.imports))) known ∧
      parameterPiece "placing" placed = .ok parameters ∧
      Covers known (parameters.body Settings.standard.tab) ∧
      placed.graph.fixed? (.parameter 1 "place" "at") = some origin ∧ Covers known origin.code := by
  have layers : ∀ inner, .annotated inner [] ∉ boxList.nested := by
    intro inner
    simp [boxList, DataType.nested]
  have valid : placedOnce.validate places = .ok placed := eq_ok_of_isOk (by decide +kernel) _
  have fixed : placed.graph.fixed? (.parameter 1 "place" "at") = some origin :=
    ((validate_eq_ok_iff.1 valid).2.1.fixed?_eq _).trans rfl
  have pieces : unitPieces "placing" placed places .standard false = .ok placedPieces :=
    eq_ok_of_isOk (by decide +kernel) _
  have made : unitSource "placing" placed places .standard false =
      .ok (assemble "placing" .standard placedPieces) := by
    rw [unitSource, pieces]
    rfl
  obtain ⟨known, imports, -, exact⟩ := imports_match.1 boxList
  obtain ⟨pieces', parameters, known', made', -, imports', first, -, packs, literals⟩ :=
    imports_match.2.2 "placing" placed places .standard false _ made
  cases pieces.symm.trans made'
  obtain ⟨attrs, there, literal⟩ := Option.bind_eq_some_iff.1 fixed
  exact ⟨⟨known, imports, exact layers⟩, made, parameters, known', imports', first, packs, fixed,
    literals (_, attrs) (Keyed.mem_of_lookup there) origin literal⟩

end Pipewright
