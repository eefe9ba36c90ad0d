/-
What a refresh of all indexes does to a file: every reference by index receives the current index
of its item, and those that are written into 16 bits fit.
-/

import DexArsc.Dex.File.Layout
import DexArsc.Proofs.Dex.Code.Refresh
import DexArsc.Proofs.Dex.Section.Steps
import DexArsc.Proofs.Step

namespace DexArsc.Dex.DexFile

variable {β : Type} {file final : DexFile} {value : β}

theorem onTypes_eq_ok {step : Step (Section TypeItem) β} :
    onTypes step file = .ok value final ↔ ∃ items, step file.types.items = .ok value items ∧
      { file with types := { file.types with items } } = final := by
  unfold onTypes onItems
  exact Step.onPart_eq_ok

theorem onProtos_eq_ok {step : Step (Section ProtoItem) β} :
    onProtos step file = .ok value final ↔ ∃ items, step file.protos.items = .ok value items ∧
      { file with protos := { file.protos with items } } = final := by
  unfold onProtos onItems
  exact Step.onPart_eq_ok

theorem onFields_eq_ok {step : Step (Section FieldItem) β} :
    onFields step file = .ok value final ↔ ∃ items, step file.fields.items = .ok value items ∧
      { file with fields := { file.fields with items } } = final := by
  unfold onFields onItems
  exact Step.onPart_eq_ok

theorem onMethods_eq_ok {step : Step (Section MethodItem) β} :
    onMethods step file = .ok value final ↔ ∃ items, step file.methods.items = .ok value items ∧
      { file with methods := { file.methods with items } } = final := by
  unfold onMethods onItems
  exact Step.onPart_eq_ok

theorem onClassDefs_eq_ok {step : Step (Section ClassDef) β} :
    onClassDefs step file = .ok value final ↔ ∃ classDefs, step file.classDefs = .ok value classDefs ∧
      { file with classDefs } = final :=
  Step.onPart_eq_ok

theorem onTypeLists_eq_ok {step : Step (Section TypeList) β} :
    onTypeLists step file = .ok value final ↔ ∃ typeLists, step file.typeLists = .ok value typeLists ∧
      { file with typeLists } = final :=
  Step.onPart_eq_ok

theorem onClassData_eq_ok {step : Step (Section ClassData) β} :
    onClassData step file = .ok value final ↔ ∃ classData, step file.classData = .ok value classData ∧
      { file with classData } = final :=
  Step.onPart_eq_ok

theorem onCodes_eq_ok {step : Step (Section CodeItem) β} :
    onCodes step file = .ok value final ↔ ∃ codes, step file.codes = .ok value codes ∧
      { file with codes } = final :=
  Step.onPart_eq_ok

theorem onDebugInfos_eq_ok {step : Step (Section DebugInfo) β} :
    onDebugInfos step file = .ok value final ↔
      ∃ debugInfos, step file.debugInfos = .ok value debugInfos ∧ { file with debugInfos } = final :=
  Step.onPart_eq_ok

theorem onRaws_eq_ok {step : Step (List RawSection) β} :
    onRaws step file = .ok value final ↔ ∃ raws, step file.raws = .ok value raws ∧
      { file with raws } = final :=
  Step.onPart_eq_ok

end DexArsc.Dex.DexFile

namespace DexArsc.Dex

/-- The images that a refresh gives to references by index. -/
def RefMap.indexes (ids : IdSections) : RefMap where
  string ref := ref.refresh ids.strings
  type ref := ref.refresh ids.types
  proto ref := ref.refresh ids.protos
  field ref := ref.refresh ids.fields
  method ref := ref.refresh ids.methods

/-- Only the indexes of the items count for a refresh. -/
theorem RefMap.indexes_congr {ids other : IdSections} (same : ids.SameIndexes other) :
    indexes other = indexes ids := by
  unfold indexes
  simp only [RefMap.mk.injEq, and_true]
  exact ⟨funext (IndexRef.refresh_congr same.strings), funext (IndexRef.refresh_congr same.types),
    funext (IndexRef.refresh_congr same.protos), funext (IndexRef.refresh_congr same.fields),
    funext (IndexRef.refresh_congr same.methods)⟩

theorem TypeList.refresh_eq_ok {types : Section TypeItem} {list final : TypeList} :
    TypeList.refresh types list = .ok () final ↔
      final = { types := list.types.map (·.refresh types) } ∧ ∀ ref ∈ final.types, ref.IsShort := by
  have one (ref image : IndexRef TypeItem) : refreshListEntry types ref = .ok () image ↔
      image = ref.refresh types ∧ image.IsShort := by
    change (modify (·.refresh types) >>= fun _ => get >>= fun ref =>
      monadLift (checkShortIndex "type list entry" ref) : Step _ _) ref = _ ↔ _
    rw [Step.bind_ok (Step.modify_apply _ ref), Step.bind_ok (Step.get_apply _),
      Step.monadLift_eq_ok, checkShortIndex_eq_ok]
    constructor
    · rintro ⟨short, rfl⟩
      exact ⟨rfl, short⟩
    · rintro ⟨rfl, short⟩
      exact ⟨short, rfl⟩
  unfold refresh
  rw [Step.onPart_eq_ok]
  constructor
  · rintro ⟨refs, run, rfl⟩
    obtain ⟨length, each⟩ := Step.onEach_eq_ok.1 run
    have same : refs = list.types.map (·.refresh types) := by
      apply List.ext_getElem?
      intro place
      rw [List.getElem?_map]
      cases here : list.types[place]? with
      | none =>
          rw [List.getElem?_eq_none_iff] at here
          rw [Option.map_none, List.getElem?_eq_none_iff]
          omega
      | some ref =>
          have inside := (List.getElem?_eq_some_iff.1 here).1
          have there : refs[place]? = some refs[place] := List.getElem?_eq_getElem (by omega)
          rw [there, ((one _ _).1 (each place ref _ here there)).1]
          rfl
    refine ⟨congrArg TypeList.mk same, fun ref listed => ?_⟩
    obtain ⟨place, inside, rfl⟩ := List.mem_iff_getElem.1 listed
    have shorter : place < list.types.length := by
      rw [← length]
      exact inside
    have here : list.types[place]? = some list.types[place] := List.getElem?_eq_getElem shorter
    exact ((one _ _).1 (each place _ _ here (List.getElem?_eq_getElem inside))).2
  · rintro ⟨rfl, short⟩
    refine ⟨_, Step.onEach_eq_ok.2 ⟨List.length_map _, fun place ref image here there => ?_⟩, rfl⟩
    rw [List.getElem?_map, here, Option.map_some, Option.some.injEq] at there
    subst there
    exact (one _ _).2 ⟨rfl, short _ (List.mem_map_of_mem (List.mem_of_getElem? here))⟩

theorem FieldItem.refreshChecked_eq_ok {ids : IdSections} {item final : FieldItem} :
    FieldItem.refreshChecked ids item = .ok () final ↔
      final = item.withRefs (.indexes ids) ∧ final.owner.IsShort ∧ final.type.IsShort := by
  change (modify (·.refresh ids.strings ids.types) >>= fun _ => get >>= fun item : FieldItem =>
    monadLift (checkShortIndex "field class index" item.owner) >>= fun _ =>
      monadLift (checkShortIndex "field type index" item.type) : Step FieldItem Unit) item = _ ↔ _
  rw [Step.bind_ok (Step.modify_apply _ item), Step.bind_ok (Step.get_apply _), Step.bind_eq_ok]
  simp only [Step.monadLift_eq_ok, checkShortIndex_eq_ok]
  constructor
  · rintro ⟨_, _, ⟨owner, rfl⟩, type, rfl⟩
    exact ⟨rfl, owner, type⟩
  · rintro ⟨rfl, owner, type⟩
    exact ⟨(), _, ⟨owner, rfl⟩, type, rfl⟩

theorem MethodItem.refreshChecked_eq_ok {ids : IdSections} {item final : MethodItem} :
    MethodItem.refreshChecked ids item = .ok () final ↔
      final = item.withRefs (.indexes ids) ∧ final.owner.IsShort ∧ final.proto.IsShort := by
  change (modify (·.refresh ids.strings ids.types ids.protos) >>= fun _ => get >>=
    fun item : MethodItem => monadLift (checkShortIndex "method class index" item.owner) >>= fun _ =>
      monadLift (checkShortIndex "method proto index" item.proto) : Step MethodItem Unit) item = _ ↔ _
  rw [Step.bind_ok (Step.modify_apply _ item), Step.bind_ok (Step.get_apply _), Step.bind_eq_ok]
  simp only [Step.monadLift_eq_ok, checkShortIndex_eq_ok]
  constructor
  · rintro ⟨_, _, ⟨owner, rfl⟩, proto, rfl⟩
    exact ⟨rfl, owner, proto⟩
  · rintro ⟨rfl, owner, proto⟩
    exact ⟨(), _, ⟨owner, rfl⟩, proto, rfl⟩

/-- The data with its members in the order of their indexes. -/
def ClassData.sorted (data : ClassData) : ClassData where
  staticFields := sortFields data.staticFields
  instanceFields := sortFields data.instanceFields
  directMethods := sortMethods data.directMethods
  virtualMethods := sortMethods data.virtualMethods

theorem ClassData.refreshIndexes_eq (ids : IdSections) (data : ClassData) :
    data.refreshIndexes ids = (data.withRefs (.indexes ids)).sorted := rfl

namespace DexFile

/-- The file with its references by index refreshed, and its sections kept as bytes as they were. -/
def indexed (file : DexFile) : DexFile :=
  { file with
    types.items := file.types.items.map (·.withRefs (.indexes file.ids))
    typeLists := file.typeLists.map (·.withRefs (.indexes file.ids))
    protos.items := file.protos.items.map (·.withRefs (.indexes file.ids))
    fields.items := file.fields.items.map (·.withRefs (.indexes file.ids))
    methods.items := file.methods.items.map (·.withRefs (.indexes file.ids))
    debugInfos := file.debugInfos.map (·.withRefs (.indexes file.ids))
    classData := file.classData.map fun data => (data.withRefs (.indexes file.ids)).sorted
    classDefs := file.classDefs.map (·.withRefs (.indexes file.ids)) }

/-- The references that are written into 16 bits fit. -/
structure ShortIndexes (file : DexFile) : Prop where
  typeLists : file.typeLists.All fun list => ∀ ref ∈ list.types, ref.IsShort
  fields : file.fields.items.All fun item => item.owner.IsShort ∧ item.type.IsShort
  methods : file.methods.items.All fun item => item.owner.IsShort ∧ item.proto.IsShort

/-- The indexes of the sections that references address stay through a refresh. -/
theorem sameIndexes_indexed (file : DexFile) : file.ids.SameIndexes file.indexed.ids where
  strings _ := rfl
  types _ := Section.indexOf?_map ..
  protos _ := Section.indexOf?_map ..
  fields _ := Section.indexOf?_map ..
  methods _ := Section.indexOf?_map ..

/-- The file with its types refreshed. -/
def indexedTypes (file : DexFile) : DexFile :=
  { file with types.items := file.types.items.map (·.withRefs (.indexes file.ids)) }

theorem sameIndexes_indexedTypes (file : DexFile) : file.ids.SameIndexes file.indexedTypes.ids :=
  ⟨fun _ => rfl, fun _ => Section.indexOf?_map .., fun _ => rfl, fun _ => rfl, fun _ => rfl⟩

/-- The file with its items up to the fields refreshed. -/
def indexedFields (file : DexFile) : DexFile :=
  { file.indexedTypes with
    typeLists := file.typeLists.map (·.withRefs (.indexes file.indexedTypes.ids))
    protos.items := file.protos.items.map (·.withRefs (.indexes file.indexedTypes.ids))
    fields.items := file.fields.items.map (·.withRefs (.indexes file.indexedTypes.ids)) }

theorem sameIndexes_indexedFields (file : DexFile) : file.ids.SameIndexes file.indexedFields.ids :=
  ⟨fun _ => rfl, fun _ => Section.indexOf?_map .., fun _ => Section.indexOf?_map ..,
    fun _ => Section.indexOf?_map .., fun _ => rfl⟩

/-- The file with its items up to the methods refreshed. -/
def indexedMethods (file : DexFile) : DexFile :=
  { file.indexedFields with
    methods.items := file.methods.items.map (·.withRefs (.indexes file.indexedFields.ids)) }

theorem sameIndexes_indexedMethods (file : DexFile) : file.ids.SameIndexes file.indexedMethods.ids :=
  ⟨fun _ => rfl, fun _ => Section.indexOf?_map .., fun _ => Section.indexOf?_map ..,
    fun _ => Section.indexOf?_map .., fun _ => Section.indexOf?_map ..⟩

/-- A refresh that takes the items in turn finds the indexes of the file all along. -/
theorem indexed_eq (file : DexFile) : file.indexed =
    { file.indexedMethods with
      debugInfos := file.debugInfos.map (·.withRefs (.indexes file.indexedMethods.ids))
      classData := file.classData.map (·.refreshIndexes file.indexedMethods.ids)
      classDefs := file.classDefs.map (·.withRefs (.indexes file.indexedMethods.ids)) } := by
  simp only [ClassData.refreshIndexes_eq, RefMap.indexes_congr file.sameIndexes_indexedMethods]
  unfold indexedMethods
  simp only [RefMap.indexes_congr file.sameIndexes_indexedFields]
  unfold indexedFields
  simp only [RefMap.indexes_congr file.sameIndexes_indexedTypes]
  rfl

/-- A refresh of all indexes that succeeds. -/
theorem refreshIndexes_eq_ok {file final : DexFile} :
    refreshIndexes file = .ok () final ↔ final = { file.indexed with raws := final.raws } ∧
      final.ShortIndexes ∧
      Step.onEach (RawSection.refreshIndexes final.ids) file.raws = .ok () final.raws := by
  have lists (ids : IdSections) (items final : Section TypeList) :
      Section.onItems (fun _ => TypeList.refresh ids.types) items = .ok () final ↔
        final = items.map (·.withRefs (.indexes ids)) ∧
          final.All fun list => ∀ ref ∈ list.types, ref.IsShort :=
    Section.onItems_guarded fun _ _ _ => TypeList.refresh_eq_ok
  have fields (ids : IdSections) (items final : Section FieldItem) :
      Section.onItems (fun _ => FieldItem.refreshChecked ids) items = .ok () final ↔
        final = items.map (·.withRefs (.indexes ids)) ∧
          final.All fun item => item.owner.IsShort ∧ item.type.IsShort :=
    Section.onItems_guarded fun _ _ _ => FieldItem.refreshChecked_eq_ok
  have methods (ids : IdSections) (items final : Section MethodItem) :
      Section.onItems (fun _ => MethodItem.refreshChecked ids) items = .ok () final ↔
        final = items.map (·.withRefs (.indexes ids)) ∧
          final.All fun item => item.owner.IsShort ∧ item.proto.IsShort :=
    Section.onItems_guarded fun _ _ _ => MethodItem.refreshChecked_eq_ok
  unfold refreshIndexes
  simp only [Step.bind_eq_ok, Step.get_apply, EStateM.Result.ok.injEq, onTypes_eq_ok,
    onTypeLists_eq_ok, onProtos_eq_ok, onFields_eq_ok, onMethods_eq_ok, onDebugInfos_eq_ok,
    onClassData_eq_ok, onClassDefs_eq_ok, onRaws_eq_ok, Step.modify_apply, true_and, exists_eq_left',
    and_assoc, exists_and_left]
  rw [indexed_eq]
  constructor
  · rintro ⟨_, _, _, ⟨_, listsRun, rfl⟩, _, _, _, ⟨_, fieldsRun, rfl⟩, _, _, ⟨_, methodsRun, rfl⟩,
      _, _, _, raws, rawsRun, rfl⟩
    obtain ⟨rfl, shortLists⟩ := (lists file.indexedTypes.ids _ _).1 listsRun
    obtain ⟨rfl, shortFields⟩ := (fields file.indexedTypes.ids _ _).1 fieldsRun
    obtain ⟨rfl, shortMethods⟩ := (methods file.indexedFields.ids _ _).1 methodsRun
    exact ⟨rfl, ⟨shortLists, shortFields, shortMethods⟩, rawsRun⟩
  · rintro ⟨whole, short, raws⟩
    obtain ⟨shortLists, shortFields, shortMethods⟩ := short
    rw [whole] at shortLists shortFields shortMethods
    refine ⟨(), (), _, ⟨_, (lists file.indexedTypes.ids _ _).2 ⟨rfl, shortLists⟩, rfl⟩, (), (), _,
      ⟨_, (fields file.indexedTypes.ids _ _).2 ⟨rfl, shortFields⟩, rfl⟩, (), _,
      ⟨_, (methods file.indexedFields.ids _ _).2 ⟨rfl, shortMethods⟩, rfl⟩, (), (), (), final.raws,
      ?_, ?_⟩
    · rw [whole] at raws
      exact raws
    · exact whole.symm

end DexFile
end DexArsc.Dex
