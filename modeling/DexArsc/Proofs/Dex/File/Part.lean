/-
The sections of a file whose items are placed, written and read one by one in their byte form.
The strings, the header and the map list have rules of their own.
-/

import DexArsc.Dex.File.Reading
import DexArsc.Dex.File.Writing
import DexArsc.Proofs.Dex.ByteSize
import DexArsc.Proofs.Dex.Refs
import DexArsc.Proofs.Dex.Section.Place

namespace DexArsc.Dex

/-- A section whose items are written one by one. -/
inductive Part
  | typeId
  | protoId
  | fieldId
  | methodId
  | classDef
  | typeList
  | classData
  | codeItem
  | debugInfo
  deriving DecidableEq

namespace Part

/-- The kind of a section. -/
def kind : Part → SectionKind
  | typeId => .typeId
  | protoId => .protoId
  | fieldId => .fieldId
  | methodId => .methodId
  | classDef => .classDef
  | typeList => .typeList
  | classData => .classData
  | codeItem => .codeItem
  | debugInfo => .debugInfo

/-- The items of a section. -/
def Item : Part → Type
  | typeId => TypeItem
  | protoId => ProtoItem
  | fieldId => FieldItem
  | methodId => MethodItem
  | classDef => ClassDef
  | typeList => TypeList
  | classData => ClassData
  | codeItem => CodeItem
  | debugInfo => DebugInfo

instance (part : Part) : Codec part.Item :=
  match part with
  | typeId => inferInstanceAs (Codec TypeItem)
  | protoId => inferInstanceAs (Codec ProtoItem)
  | fieldId => inferInstanceAs (Codec FieldItem)
  | methodId => inferInstanceAs (Codec MethodItem)
  | classDef => inferInstanceAs (Codec ClassDef)
  | typeList => inferInstanceAs (Codec TypeList)
  | classData => inferInstanceAs (Codec ClassData)
  | codeItem => inferInstanceAs (Codec CodeItem)
  | debugInfo => inferInstanceAs (Codec DebugInfo)

instance (part : Part) : LawfulCodec part.Item :=
  match part with
  | typeId => inferInstanceAs (LawfulCodec TypeItem)
  | protoId => inferInstanceAs (LawfulCodec ProtoItem)
  | fieldId => inferInstanceAs (LawfulCodec FieldItem)
  | methodId => inferInstanceAs (LawfulCodec MethodItem)
  | classDef => inferInstanceAs (LawfulCodec ClassDef)
  | typeList => inferInstanceAs (LawfulCodec TypeList)
  | classData => inferInstanceAs (LawfulCodec ClassData)
  | codeItem => inferInstanceAs (LawfulCodec CodeItem)
  | debugInfo => inferInstanceAs (LawfulCodec DebugInfo)

/-- The section in a file. -/
def items (file : DexFile) : (part : Part) → Section part.Item
  | typeId => file.types.items
  | protoId => file.protos.items
  | fieldId => file.fields.items
  | methodId => file.methods.items
  | classDef => file.classDefs
  | typeList => file.typeLists
  | classData => file.classData
  | codeItem => file.codes
  | debugInfo => file.debugInfos

/-- The file with another section. -/
def put (file : DexFile) : (part : Part) → Section part.Item → DexFile
  | typeId, items => { file with types.items := items }
  | protoId, items => { file with protos.items := items }
  | fieldId, items => { file with fields.items := items }
  | methodId, items => { file with methods.items := items }
  | classDef, items => { file with classDefs := items }
  | typeList, items => { file with typeLists := items }
  | classData, items => { file with classData := items }
  | codeItem, items => { file with codes := items }
  | debugInfo, items => { file with debugInfos := items }

/-- The section of a kind. -/
def ofKind? : SectionKind → Option Part
  | .typeId => some typeId
  | .protoId => some protoId
  | .fieldId => some fieldId
  | .methodId => some methodId
  | .classDef => some classDef
  | .typeList => some typeList
  | .classData => some classData
  | .codeItem => some codeItem
  | .debugInfo => some debugInfo
  | _ => none

theorem ofKind?_eq_some {part : Part} {kind : SectionKind} :
    ofKind? kind = some part ↔ kind = part.kind := by
  cases kind <;> cases part <;> simp [ofKind?, Part.kind]

@[simp] theorem ofKind?_kind (part : Part) : ofKind? part.kind = some part := by
  cases part <;> rfl

theorem kind_injective {first second : Part} (same : first.kind = second.kind) : first = second := by
  rw [← Option.some_inj, ← ofKind?_kind, same, ofKind?_kind]

theorem isModelled_kind (part : Part) : part.kind.isModelled = true := by
  cases part <;> rfl

variable {file : DexFile}

@[simp] theorem items_put (part : Part) (items : Section part.Item) :
    part.items (part.put file items) = items := by
  cases part <;> rfl

@[simp] theorem put_items (part : Part) : part.put file (part.items file) = file := by
  cases part <;> rfl

theorem items_put_of_ne {part other : Part} (different : other ≠ part) (items : Section part.Item) :
    other.items (part.put file items) = other.items file := by
  cases part <;> cases other <;> first | rfl | exact absurd rfl different

@[simp] theorem strings_put (part : Part) (items : Section part.Item) :
    (part.put file items).strings = file.strings := by
  cases part <;> rfl

@[simp] theorem raws_put (part : Part) (items : Section part.Item) :
    (part.put file items).raws = file.raws := by
  cases part <;> rfl

@[simp] theorem layout_put (part : Part) (items : Section part.Item) :
    (part.put file items).layout = file.layout := by
  cases part <;> rfl

@[simp] theorem header_put (part : Part) (items : Section part.Item) :
    (part.put file items).header = file.header := by
  cases part <;> rfl

theorem countOf_kind (part : Part) :
    file.countOf (.modelled part.kind) = (part.items file).size := by
  cases part <;> rfl

theorem placeSection_kind (part : Part) (entries : Nat) (placed : Placement) :
    DexFile.placeSection entries part.kind placed =
      Step.onPart (fun file => part.items file) (fun items file => part.put file items)
        (placeWithItems placed) := by
  cases part <;> rfl

theorem writeSection_kind (part : Part) (fill : UInt8) (out : Bytes) :
    file.writeSection fill part.kind out = (part.items file).write fill out := by
  cases part <;> rfl

end Part
end DexArsc.Dex

namespace DexArsc.Dex

/-- A property that all references have holds of those of an item. -/
structure RefTest.Always (test : RefTest) : Prop where
  string : ∀ ref, test.string ref
  type : ∀ ref, test.type ref
  proto : ∀ ref, test.proto ref
  field : ∀ ref, test.field ref
  method : ∀ ref, test.method ref
  typeList : ∀ ref, test.typeList ref
  classData : ∀ ref, test.classData ref
  code : ∀ ref, test.code ref
  debugInfo : ∀ ref, test.debugInfo ref

theorem RefTest.Always.item {test : RefTest} (always : test.Always) (ref : ItemRef) : test.item ref := by
  cases ref with
  | string ref => exact always.string ref
  | type ref => exact always.type ref
  | proto ref => exact always.proto ref
  | field ref => exact always.field ref
  | method ref => exact always.method ref

theorem ElementData.Refs.of_always {test : RefTest} (always : test.Always) (data : ElementData) :
    data.Refs test := by
  cases data with
  | startLocal register name type signature =>
      exact ⟨always.string _, always.type _, fun _ _ => always.string _⟩
  | setFile name => exact always.string _
  | _ => trivial

namespace Part

/-- The item with its references replaced by their images. -/
def withRefs (change : RefMap) : (part : Part) → part.Item → part.Item
  | typeId => TypeItem.withRefs change
  | protoId => ProtoItem.withRefs change
  | fieldId => FieldItem.withRefs change
  | methodId => MethodItem.withRefs change
  | classDef => ClassDef.withRefs change
  | typeList => TypeList.withRefs change
  | classData => ClassData.withRefs change
  | codeItem => CodeItem.withRefs change
  | debugInfo => DebugInfo.withRefs change

/-- Every reference of the item has the property. -/
def Refs (test : RefTest) : (part : Part) → part.Item → Prop
  | typeId => TypeItem.Refs test
  | protoId => ProtoItem.Refs test
  | fieldId => FieldItem.Refs test
  | methodId => MethodItem.Refs test
  | classDef => ClassDef.Refs test
  | typeList => TypeList.Refs test
  | classData => ClassData.Refs test
  | codeItem => CodeItem.Refs test
  | debugInfo => DebugInfo.Refs test

variable {change first second : RefMap} {test other : RefTest} {part : Part} {item : part.Item}

theorem refs_withRefs : part.Refs test (part.withRefs change item) ↔
    part.Refs (test.on change) item := by
  cases part with
  | typeList => exact TypeList.refs_withRefs
  | classData => exact ClassData.refs_withRefs
  | codeItem => exact CodeItem.refs_withRefs
  | debugInfo => exact DebugInfo.refs_withRefs
  | _ => exact Iff.rfl

theorem withRefs_after : part.withRefs (second.after first) item =
    part.withRefs second (part.withRefs first item) := by
  cases part with
  | typeId => exact TypeItem.withRefs_after second first item
  | protoId => exact ProtoItem.withRefs_after second first item
  | fieldId => exact FieldItem.withRefs_after second first item
  | methodId => exact MethodItem.withRefs_after second first item
  | classDef => exact ClassDef.withRefs_after second first item
  | typeList => exact TypeList.withRefs_after second first item
  | classData => exact ClassData.withRefs_after second first item
  | codeItem => exact CodeItem.withRefs_after second first item
  | debugInfo => exact DebugInfo.withRefs_after second first item

theorem withRefs_congr (same : part.Refs (first.agree second) item) :
    part.withRefs first item = part.withRefs second item := by
  cases part with
  | typeId => exact TypeItem.withRefs_congr same
  | protoId => exact ProtoItem.withRefs_congr same
  | fieldId => exact FieldItem.withRefs_congr same
  | methodId => exact MethodItem.withRefs_congr same
  | classDef => exact ClassDef.withRefs_congr same
  | typeList => exact TypeList.withRefs_congr same
  | classData => exact ClassData.withRefs_congr same
  | codeItem => exact CodeItem.withRefs_congr same
  | debugInfo => exact DebugInfo.withRefs_congr same

theorem Refs.imp (refs : part.Refs test item) (implies : test.Implies other) :
    part.Refs other item := by
  cases part with
  | typeId => exact TypeItem.Refs.imp refs implies
  | protoId => exact ProtoItem.Refs.imp refs implies
  | fieldId => exact FieldItem.Refs.imp refs implies
  | methodId => exact MethodItem.Refs.imp refs implies
  | classDef => exact ClassDef.Refs.imp refs implies
  | typeList => exact TypeList.Refs.imp refs implies
  | classData => exact ClassData.Refs.imp refs implies
  | codeItem => exact CodeItem.Refs.imp refs implies
  | debugInfo => exact DebugInfo.Refs.imp refs implies

theorem Refs.both (first : part.Refs test item) (second : part.Refs other item) :
    part.Refs (test.both other) item := by
  cases part with
  | typeId => exact ⟨first, second⟩
  | protoId => exact ProtoItem.Refs.both first second
  | fieldId => exact FieldItem.Refs.both first second
  | methodId => exact MethodItem.Refs.both first second
  | classDef => exact ClassDef.Refs.both first second
  | typeList => exact TypeList.Refs.both first second
  | classData => exact ClassData.Refs.both first second
  | codeItem => exact CodeItem.Refs.both first second
  | debugInfo => exact DebugInfo.Refs.both first second

theorem Refs.of_always (always : test.Always) : part.Refs test item := by
  cases part with
  | typeId => exact always.string _
  | protoId => exact ⟨always.string _, always.type _, always.typeList _⟩
  | fieldId => exact ⟨always.type _, always.type _, always.string _⟩
  | methodId => exact ⟨always.type _, always.proto _, always.string _⟩
  | classDef =>
      exact ⟨always.type _, always.type _, always.typeList _, always.string _, always.classData _⟩
  | typeList => exact fun _ _ => always.type _
  | classData => exact ⟨fun _ _ => always.field _, fun _ _ => ⟨always.method _, always.code _⟩⟩
  | codeItem =>
      exact ⟨always.debugInfo _, fun _ _ => always.item _, fun _ _ _ _ => always.type _⟩
  | debugInfo =>
      exact ⟨fun _ _ => always.string _, fun _ _ => ElementData.Refs.of_always always _⟩

theorem withRefs_id (part : Part) (item : part.Item) : part.withRefs {} item = item := by
  have element (data : ElementData) : data.mapRefs id id = data := by
    cases data with
    | startLocal register name type signature => cases signature <;> rfl
    | _ => rfl
  have target (ref : ItemRef) : RefMap.item {} ref = ref := by cases ref <;> rfl
  cases part with
  | typeList => exact congrArg TypeList.mk (List.map_id _)
  | classData =>
      obtain ⟨statics, instances, directs, virtuals⟩ := item
      change ClassData.mk (statics.map id) (instances.map id) (directs.map id) (virtuals.map id) = _
      simp only [List.map_id]
  | codeItem =>
      obtain ⟨registers, ins, outs, debugInfo, units, references, tries, handlers⟩ := item
      change CodeItem.mk registers ins outs debugInfo units
        (references.map fun ref => { ref with target := RefMap.item {} ref.target }) tries
        (handlers.map (CatchHandler.mapTypes id)) = _
      have handler : CatchHandler.mapTypes id = id := by
        funext handler
        exact congrArg (CatchHandler.mk · handler.catchAll) (List.map_id _)
      simp only [target, handler, List.map_id]
      congr 1
      exact List.map_id _
  | debugInfo =>
      obtain ⟨names, start, elements, dirty⟩ := item
      change DebugInfo.mk (names.map id) ⟨start, elements.map fun element =>
        { element with data := element.data.mapRefs id id }, dirty⟩ = _
      simp only [element, List.map_id]
      congr 2
      exact List.map_id _
  | _ => rfl

/-- An item whose references all stay as they are stays as it is. -/
theorem withRefs_eq_self (part : Part) {item : part.Item}
    (same : part.Refs (first.agree {}) item) : part.withRefs first item = item :=
  (withRefs_congr same).trans (part.withRefs_id item)

end Part
end DexArsc.Dex
