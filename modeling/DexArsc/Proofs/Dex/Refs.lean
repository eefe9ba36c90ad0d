/-
The references of items as a whole. Linking, refreshing and reading replace every reference of an
item by its image, so their laws follow from laws of single references.
-/

import DexArsc.Dex.File.Basic
import DexArsc.Proofs.Dex.Debug.Info
import DexArsc.Proofs.Dex.Code.Item
import DexArsc.Proofs.Dex.Reference

namespace DexArsc.Dex

/-- An image for the references of each kind. -/
structure RefMap where
  string : IndexRef StringItem → IndexRef StringItem := id
  type : IndexRef TypeItem → IndexRef TypeItem := id
  proto : IndexRef ProtoItem → IndexRef ProtoItem := id
  field : IndexRef FieldItem → IndexRef FieldItem := id
  method : IndexRef MethodItem → IndexRef MethodItem := id
  typeList : OffsetRef TypeList → OffsetRef TypeList := id
  classData : OffsetRef ClassData → OffsetRef ClassData := id
  code : OffsetRef CodeItem → OffsetRef CodeItem := id
  debugInfo : OffsetRef DebugInfo → OffsetRef DebugInfo := id

/-- A property of the references of each kind. -/
structure RefTest where
  string : IndexRef StringItem → Prop
  type : IndexRef TypeItem → Prop
  proto : IndexRef ProtoItem → Prop
  field : IndexRef FieldItem → Prop
  method : IndexRef MethodItem → Prop
  typeList : OffsetRef TypeList → Prop
  classData : OffsetRef ClassData → Prop
  code : OffsetRef CodeItem → Prop
  debugInfo : OffsetRef DebugInfo → Prop

namespace RefMap

/-- An image of an image. -/
def after (second first : RefMap) : RefMap where
  string := second.string ∘ first.string
  type := second.type ∘ first.type
  proto := second.proto ∘ first.proto
  field := second.field ∘ first.field
  method := second.method ∘ first.method
  typeList := second.typeList ∘ first.typeList
  classData := second.classData ∘ first.classData
  code := second.code ∘ first.code
  debugInfo := second.debugInfo ∘ first.debugInfo

/-- Two images agree on a reference. -/
def agree (first second : RefMap) : RefTest where
  string ref := first.string ref = second.string ref
  type ref := first.type ref = second.type ref
  proto ref := first.proto ref = second.proto ref
  field ref := first.field ref = second.field ref
  method ref := first.method ref = second.method ref
  typeList ref := first.typeList ref = second.typeList ref
  classData ref := first.classData ref = second.classData ref
  code ref := first.code ref = second.code ref
  debugInfo ref := first.debugInfo ref = second.debugInfo ref

/-- The image of a reference of any pool. -/
def item (change : RefMap) : ItemRef → ItemRef
  | .string ref => .string (change.string ref)
  | .type ref => .type (change.type ref)
  | .proto ref => .proto (change.proto ref)
  | .field ref => .field (change.field ref)
  | .method ref => .method (change.method ref)

end RefMap

namespace RefTest

/-- The image of a reference has the property. -/
def on (test : RefTest) (change : RefMap) : RefTest where
  string ref := test.string (change.string ref)
  type ref := test.type (change.type ref)
  proto ref := test.proto (change.proto ref)
  field ref := test.field (change.field ref)
  method ref := test.method (change.method ref)
  typeList ref := test.typeList (change.typeList ref)
  classData ref := test.classData (change.classData ref)
  code ref := test.code (change.code ref)
  debugInfo ref := test.debugInfo (change.debugInfo ref)

/-- Every reference with one property has another one. -/
structure Implies (first second : RefTest) : Prop where
  string : ∀ ref, first.string ref → second.string ref
  type : ∀ ref, first.type ref → second.type ref
  proto : ∀ ref, first.proto ref → second.proto ref
  field : ∀ ref, first.field ref → second.field ref
  method : ∀ ref, first.method ref → second.method ref
  typeList : ∀ ref, first.typeList ref → second.typeList ref
  classData : ∀ ref, first.classData ref → second.classData ref
  code : ∀ ref, first.code ref → second.code ref
  debugInfo : ∀ ref, first.debugInfo ref → second.debugInfo ref

/-- Both properties. -/
def both (first second : RefTest) : RefTest where
  string ref := first.string ref ∧ second.string ref
  type ref := first.type ref ∧ second.type ref
  proto ref := first.proto ref ∧ second.proto ref
  field ref := first.field ref ∧ second.field ref
  method ref := first.method ref ∧ second.method ref
  typeList ref := first.typeList ref ∧ second.typeList ref
  classData ref := first.classData ref ∧ second.classData ref
  code ref := first.code ref ∧ second.code ref
  debugInfo ref := first.debugInfo ref ∧ second.debugInfo ref

/-- A reference of any pool has the property. -/
def item (test : RefTest) : ItemRef → Prop
  | .string ref => test.string ref
  | .type ref => test.type ref
  | .proto ref => test.proto ref
  | .field ref => test.field ref
  | .method ref => test.method ref

end RefTest

section Items

variable (change second first : RefMap) (test : RefTest)

namespace TypeItem

/-- The type with its references replaced by their images. -/
def withRefs (item : TypeItem) : TypeItem := { descriptor := change.string item.descriptor }

/-- Every reference of the type has the property. -/
def Refs (item : TypeItem) : Prop := test.string item.descriptor

end TypeItem

namespace TypeList

/-- The list with its references replaced by their images. -/
def withRefs (list : TypeList) : TypeList := { types := list.types.map change.type }

/-- Every reference of the list has the property. -/
def Refs (list : TypeList) : Prop := ∀ ref ∈ list.types, test.type ref

end TypeList

namespace ProtoItem

/-- The prototype with its references replaced by their images. -/
def withRefs (item : ProtoItem) : ProtoItem where
  shorty := change.string item.shorty
  returnType := change.type item.returnType
  parameters := change.typeList item.parameters

/-- Every reference of the prototype has the property. -/
def Refs (item : ProtoItem) : Prop :=
  test.string item.shorty ∧ test.type item.returnType ∧ test.typeList item.parameters

end ProtoItem

namespace FieldItem

/-- The field with its references replaced by their images. -/
def withRefs (item : FieldItem) : FieldItem where
  owner := change.type item.owner
  type := change.type item.type
  name := change.string item.name

/-- Every reference of the field has the property. -/
def Refs (item : FieldItem) : Prop :=
  test.type item.owner ∧ test.type item.type ∧ test.string item.name

end FieldItem

namespace MethodItem

/-- The method with its references replaced by their images. -/
def withRefs (item : MethodItem) : MethodItem where
  owner := change.type item.owner
  proto := change.proto item.proto
  name := change.string item.name

/-- Every reference of the method has the property. -/
def Refs (item : MethodItem) : Prop :=
  test.type item.owner ∧ test.proto item.proto ∧ test.string item.name

end MethodItem

namespace ClassDef

/-- The class with its references replaced by their images. -/
def withRefs (item : ClassDef) : ClassDef :=
  { item with
    type := change.type item.type
    superclass := change.type item.superclass
    interfaces := change.typeList item.interfaces
    sourceFile := change.string item.sourceFile
    classData := change.classData item.classData }

/-- Every reference of the class has the property. -/
def Refs (item : ClassDef) : Prop :=
  test.type item.type ∧ test.type item.superclass ∧ test.typeList item.interfaces ∧
    test.string item.sourceFile ∧ test.classData item.classData

end ClassDef

/-- The field with its reference replaced by its image. -/
def EncodedField.withRefs (member : EncodedField) : EncodedField :=
  { member with field := change.field member.field }

/-- The method with its references replaced by their images. -/
def EncodedMethod.withRefs (member : EncodedMethod) : EncodedMethod :=
  { member with method := change.method member.method, code := change.code member.code }

namespace ClassData

/-- The data with its references replaced by their images. -/
def withRefs : ClassData → ClassData :=
  mapMembers (EncodedField.withRefs change) (EncodedMethod.withRefs change)

/-- Every reference of the data has the property. -/
def Refs (data : ClassData) : Prop :=
  (∀ member ∈ data.fields, test.field member.field) ∧
    ∀ member ∈ data.methods, test.method member.method ∧ test.code member.code

end ClassData

/-- The image of what an element does. -/
def ElementData.Refs : ElementData → Prop
  | .startLocal _ name type signature =>
    test.string name ∧ test.type type ∧ ∀ ref ∈ signature, test.string ref
  | .setFile name => test.string name
  | _ => True

namespace DebugInfo

/-- The information with its references replaced by their images. -/
def withRefs (info : DebugInfo) : DebugInfo := info.mapRefs change.string change.type

/-- Every reference of the information has the property. -/
def Refs (info : DebugInfo) : Prop :=
  (∀ ref ∈ info.parameterNames, test.string ref) ∧
    ∀ element ∈ info.sequence.elements, element.data.Refs test

end DebugInfo

namespace CodeItem

/-- The code with its references replaced by their images. Its units stay. -/
def withRefs (code : CodeItem) : CodeItem :=
  { code with
    debugInfo := change.debugInfo code.debugInfo
    references := code.references.map fun ref => { ref with target := change.item ref.target }
    handlers := code.handlers.map (CatchHandler.mapTypes change.type) }

/-- Every reference of the code has the property. -/
def Refs (code : CodeItem) : Prop :=
  test.debugInfo code.debugInfo ∧ (∀ ref ∈ code.references, test.item ref.target) ∧
    ∀ handler ∈ code.handlers, ∀ entry ∈ handler.catches, test.type entry.1

end CodeItem

theorem RefMap.item_after (ref : ItemRef) :
    (second.after first).item ref = second.item (first.item ref) := by
  cases ref <;> rfl

theorem TypeItem.withRefs_after (item : TypeItem) :
    item.withRefs (second.after first) = (item.withRefs first).withRefs second := rfl

theorem TypeList.withRefs_after (list : TypeList) :
    list.withRefs (second.after first) = (list.withRefs first).withRefs second := by
  simp [withRefs, RefMap.after]

theorem ProtoItem.withRefs_after (item : ProtoItem) :
    item.withRefs (second.after first) = (item.withRefs first).withRefs second := rfl

theorem FieldItem.withRefs_after (item : FieldItem) :
    item.withRefs (second.after first) = (item.withRefs first).withRefs second := rfl

theorem MethodItem.withRefs_after (item : MethodItem) :
    item.withRefs (second.after first) = (item.withRefs first).withRefs second := rfl

theorem ClassDef.withRefs_after (item : ClassDef) :
    item.withRefs (second.after first) = (item.withRefs first).withRefs second := rfl

theorem ClassData.withRefs_after (data : ClassData) :
    data.withRefs (second.after first) = (data.withRefs first).withRefs second := by
  simp only [withRefs, mapMembers, List.map_map]
  rfl

theorem ElementData.mapRefs_mapRefs (string string' : IndexRef StringItem → IndexRef StringItem)
    (type type' : IndexRef TypeItem → IndexRef TypeItem) (data : ElementData) :
    (data.mapRefs string type).mapRefs string' type' =
      data.mapRefs (string' ∘ string) (type' ∘ type) := by
  cases data <;> simp [mapRefs]

theorem DebugInfo.withRefs_after (info : DebugInfo) :
    info.withRefs (second.after first) = (info.withRefs first).withRefs second := by
  simp only [withRefs, mapRefs, DebugSequence.mapRefs, List.map_map, Function.comp_def,
    ElementData.mapRefs_mapRefs]
  rfl

theorem CodeItem.withRefs_after (code : CodeItem) :
    code.withRefs (second.after first) = (code.withRefs first).withRefs second := by
  simp only [withRefs, List.map_map, Function.comp_def, CatchHandler.mapTypes, RefMap.item_after]
  rfl

variable {second first test}

theorem RefMap.item_congr {ref : ItemRef} (same : (first.agree second).item ref) :
    first.item ref = second.item ref := by
  cases ref <;> exact congrArg _ same

theorem TypeItem.withRefs_congr {item : TypeItem} (same : item.Refs (first.agree second)) :
    item.withRefs first = item.withRefs second :=
  congrArg TypeItem.mk same

theorem TypeList.withRefs_congr {list : TypeList} (same : list.Refs (first.agree second)) :
    list.withRefs first = list.withRefs second :=
  congrArg TypeList.mk (List.map_congr_left same)

theorem ProtoItem.withRefs_congr {item : ProtoItem} (same : item.Refs (first.agree second)) :
    item.withRefs first = item.withRefs second := by
  obtain ⟨shorty, returnType, parameters⟩ := same
  simp only [RefMap.agree] at shorty returnType parameters
  simp [withRefs, shorty, returnType, parameters]

theorem FieldItem.withRefs_congr {item : FieldItem} (same : item.Refs (first.agree second)) :
    item.withRefs first = item.withRefs second := by
  obtain ⟨owner, type, name⟩ := same
  simp only [RefMap.agree] at owner type name
  simp [withRefs, owner, type, name]

theorem MethodItem.withRefs_congr {item : MethodItem} (same : item.Refs (first.agree second)) :
    item.withRefs first = item.withRefs second := by
  obtain ⟨owner, proto, name⟩ := same
  simp only [RefMap.agree] at owner proto name
  simp [withRefs, owner, proto, name]

theorem ClassDef.withRefs_congr {item : ClassDef} (same : item.Refs (first.agree second)) :
    item.withRefs first = item.withRefs second := by
  obtain ⟨type, superclass, interfaces, sourceFile, classData⟩ := same
  simp only [RefMap.agree] at type superclass interfaces sourceFile classData
  simp [withRefs, type, superclass, interfaces, sourceFile, classData]

theorem ClassData.withRefs_congr {data : ClassData} (same : data.Refs (first.agree second)) :
    data.withRefs first = data.withRefs second := by
  obtain ⟨fields, methods⟩ := same
  have field (member : EncodedField) (inside : member ∈ data.fields) :
      member.withRefs first = member.withRefs second := by
    unfold EncodedField.withRefs
    rw [show first.field member.field = second.field member.field from fields member inside]
  have method (member : EncodedMethod) (inside : member ∈ data.methods) :
      member.withRefs first = member.withRefs second := by
    unfold EncodedMethod.withRefs
    rw [show first.method member.method = second.method member.method from (methods member inside).1,
      show first.code member.code = second.code member.code from (methods member inside).2]
  unfold withRefs mapMembers
  congr 1
  · exact List.map_congr_left fun member inside => field member (List.mem_append_left _ inside)
  · exact List.map_congr_left fun member inside => field member (List.mem_append_right _ inside)
  · exact List.map_congr_left fun member inside => method member (List.mem_append_left _ inside)
  · exact List.map_congr_left fun member inside => method member (List.mem_append_right _ inside)

theorem ElementData.mapRefs_congr {data : ElementData} (same : data.Refs (first.agree second)) :
    data.mapRefs first.string first.type = data.mapRefs second.string second.type := by
  cases data with
  | startLocal register name type signature =>
      obtain ⟨name, type, signature⟩ := same
      simp only [RefMap.agree] at name type signature
      simp only [mapRefs, name, type]
      congr 1
      exact Option.map_congr signature
  | setFile name => exact congrArg setFile same
  | _ => rfl

theorem DebugInfo.withRefs_congr {info : DebugInfo} (same : info.Refs (first.agree second)) :
    info.withRefs first = info.withRefs second := by
  obtain ⟨names, elements⟩ := same
  unfold withRefs mapRefs DebugSequence.mapRefs
  congr 1
  · exact List.map_congr_left names
  · congr 1
    refine List.map_congr_left fun element inside => ?_
    rw [ElementData.mapRefs_congr (elements element inside)]

theorem CodeItem.withRefs_congr {code : CodeItem} (same : code.Refs (first.agree second)) :
    code.withRefs first = code.withRefs second := by
  obtain ⟨debugInfo, references, handlers⟩ := same
  unfold withRefs
  congr 1
  · refine List.map_congr_left fun ref inside => ?_
    rw [RefMap.item_congr (references ref inside)]
  · refine List.map_congr_left fun handler inside => ?_
    unfold CatchHandler.mapTypes
    congr 1
    refine List.map_congr_left fun entry listed => ?_
    exact congrArg (·, entry.2) (handlers handler inside entry listed)

end Items

section Properties

variable {change : RefMap} {test other : RefTest}

theorem RefTest.item_on {ref : ItemRef} : test.item (change.item ref) ↔ (test.on change).item ref := by
  cases ref <;> rfl

theorem TypeList.refs_withRefs {list : TypeList} :
    (list.withRefs change).Refs test ↔ list.Refs (test.on change) := by
  simp [Refs, withRefs, RefTest.on]

theorem ClassData.refs_withRefs {data : ClassData} :
    (data.withRefs change).Refs test ↔ data.Refs (test.on change) := by
  simp only [Refs, withRefs, fields, methods, mapMembers, ← List.map_append, List.forall_mem_map]
  rfl

theorem ElementData.refs_mapRefs {data : ElementData} :
    (data.mapRefs change.string change.type).Refs test ↔ data.Refs (test.on change) := by
  cases data with
  | startLocal register name type signature => cases signature <;> simp [Refs, mapRefs, RefTest.on]
  | _ => rfl

theorem DebugInfo.refs_withRefs {info : DebugInfo} :
    (info.withRefs change).Refs test ↔ info.Refs (test.on change) := by
  simp only [Refs, withRefs, mapRefs, DebugSequence.mapRefs, List.forall_mem_map,
    ElementData.refs_mapRefs]
  rfl

theorem CodeItem.refs_withRefs {code : CodeItem} :
    (code.withRefs change).Refs test ↔ code.Refs (test.on change) := by
  simp only [Refs, withRefs, CatchHandler.mapTypes, List.forall_mem_map, RefTest.item_on]
  rfl

theorem RefTest.Implies.item {ref : ItemRef} (implies : test.Implies other) (holds : test.item ref) :
    other.item ref := by
  cases ref with
  | string ref => exact implies.string ref holds
  | type ref => exact implies.type ref holds
  | proto ref => exact implies.proto ref holds
  | field ref => exact implies.field ref holds
  | method ref => exact implies.method ref holds

theorem TypeItem.Refs.imp {item : TypeItem} (refs : item.Refs test) (implies : test.Implies other) :
    item.Refs other :=
  implies.string _ refs

theorem TypeList.Refs.imp {list : TypeList} (refs : list.Refs test) (implies : test.Implies other) :
    list.Refs other :=
  fun ref inside => implies.type ref (refs ref inside)

theorem ProtoItem.Refs.imp {item : ProtoItem} (refs : item.Refs test)
    (implies : test.Implies other) : item.Refs other :=
  ⟨implies.string _ refs.1, implies.type _ refs.2.1, implies.typeList _ refs.2.2⟩

theorem FieldItem.Refs.imp {item : FieldItem} (refs : item.Refs test)
    (implies : test.Implies other) : item.Refs other :=
  ⟨implies.type _ refs.1, implies.type _ refs.2.1, implies.string _ refs.2.2⟩

theorem MethodItem.Refs.imp {item : MethodItem} (refs : item.Refs test)
    (implies : test.Implies other) : item.Refs other :=
  ⟨implies.type _ refs.1, implies.proto _ refs.2.1, implies.string _ refs.2.2⟩

theorem ClassDef.Refs.imp {item : ClassDef} (refs : item.Refs test) (implies : test.Implies other) :
    item.Refs other :=
  ⟨implies.type _ refs.1, implies.type _ refs.2.1, implies.typeList _ refs.2.2.1,
    implies.string _ refs.2.2.2.1, implies.classData _ refs.2.2.2.2⟩

theorem ClassData.Refs.imp {data : ClassData} (refs : data.Refs test)
    (implies : test.Implies other) : data.Refs other :=
  ⟨fun member inside => implies.field _ (refs.1 member inside),
    fun member inside => ⟨implies.method _ (refs.2 member inside).1,
      implies.code _ (refs.2 member inside).2⟩⟩

theorem ElementData.Refs.imp {data : ElementData} (refs : data.Refs test)
    (implies : test.Implies other) : data.Refs other := by
  cases data with
  | startLocal register name type signature =>
      exact ⟨implies.string _ refs.1, implies.type _ refs.2.1,
        fun ref inside => implies.string _ (refs.2.2 ref inside)⟩
  | setFile name => exact implies.string _ refs
  | _ => trivial

theorem DebugInfo.Refs.imp {info : DebugInfo} (refs : info.Refs test)
    (implies : test.Implies other) : info.Refs other :=
  ⟨fun ref inside => implies.string _ (refs.1 ref inside),
    fun element inside => (refs.2 element inside).imp implies⟩

theorem CodeItem.Refs.imp {code : CodeItem} (refs : code.Refs test)
    (implies : test.Implies other) : code.Refs other :=
  ⟨implies.debugInfo _ refs.1, fun ref inside => implies.item (refs.2.1 ref inside),
    fun handler inside entry listed => implies.type _ (refs.2.2 handler inside entry listed)⟩

theorem RefTest.item_both {ref : ItemRef} (first : test.item ref) (second : other.item ref) :
    (test.both other).item ref := by
  cases ref <;> exact ⟨first, second⟩

theorem ElementData.Refs.both {data : ElementData} (first : data.Refs test)
    (second : data.Refs other) : data.Refs (test.both other) := by
  cases data with
  | startLocal register name type signature =>
      exact ⟨⟨first.1, second.1⟩, ⟨first.2.1, second.2.1⟩,
        fun ref inside => ⟨first.2.2 ref inside, second.2.2 ref inside⟩⟩
  | setFile name => exact ⟨first, second⟩
  | _ => trivial

theorem TypeList.Refs.both {list : TypeList} (first : list.Refs test) (second : list.Refs other) :
    list.Refs (test.both other) :=
  fun ref inside => ⟨first ref inside, second ref inside⟩

theorem ProtoItem.Refs.both {item : ProtoItem} (first : item.Refs test) (second : item.Refs other) :
    item.Refs (test.both other) :=
  ⟨⟨first.1, second.1⟩, ⟨first.2.1, second.2.1⟩, first.2.2, second.2.2⟩

theorem FieldItem.Refs.both {item : FieldItem} (first : item.Refs test) (second : item.Refs other) :
    item.Refs (test.both other) :=
  ⟨⟨first.1, second.1⟩, ⟨first.2.1, second.2.1⟩, first.2.2, second.2.2⟩

theorem MethodItem.Refs.both {item : MethodItem} (first : item.Refs test)
    (second : item.Refs other) : item.Refs (test.both other) :=
  ⟨⟨first.1, second.1⟩, ⟨first.2.1, second.2.1⟩, first.2.2, second.2.2⟩

theorem ClassDef.Refs.both {item : ClassDef} (first : item.Refs test) (second : item.Refs other) :
    item.Refs (test.both other) :=
  ⟨⟨first.1, second.1⟩, ⟨first.2.1, second.2.1⟩, ⟨first.2.2.1, second.2.2.1⟩,
    ⟨first.2.2.2.1, second.2.2.2.1⟩, first.2.2.2.2, second.2.2.2.2⟩

theorem ClassData.Refs.both {data : ClassData} (first : data.Refs test) (second : data.Refs other) :
    data.Refs (test.both other) :=
  ⟨fun member inside => ⟨first.1 member inside, second.1 member inside⟩,
    fun member inside => ⟨⟨(first.2 member inside).1, (second.2 member inside).1⟩,
      (first.2 member inside).2, (second.2 member inside).2⟩⟩

theorem DebugInfo.Refs.both {info : DebugInfo} (first : info.Refs test) (second : info.Refs other) :
    info.Refs (test.both other) :=
  ⟨fun ref inside => ⟨first.1 ref inside, second.1 ref inside⟩,
    fun element inside => (first.2 element inside).both (second.2 element inside)⟩

theorem CodeItem.Refs.both {code : CodeItem} (first : code.Refs test) (second : code.Refs other) :
    code.Refs (test.both other) :=
  ⟨⟨first.1, second.1⟩,
    fun ref inside => RefTest.item_both (first.2.1 ref inside) (second.2.1 ref inside),
    fun handler inside entry listed =>
      ⟨first.2.2 handler inside entry listed, second.2.2 handler inside entry listed⟩⟩

end Properties
end DexArsc.Dex
