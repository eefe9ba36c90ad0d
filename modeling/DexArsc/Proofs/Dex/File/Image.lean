/-
A file that was read from a written one is as settled as the written one: the bytes of an item hold the slots of
its references, and the references hold the indexes and the offsets of the items that they name. Both say the
same, in the order of their items: texts and keys for the ids, and every item with the places of the items that
it names.
-/

import DexArsc.Proofs.Dex.File.Read
import DexArsc.Proofs.Dex.File.Settled

namespace DexArsc.Dex

/-- Every slot is kept. -/
structure RefMap.KeepsSlots (change : RefMap) : Prop where
  string : ∀ ref, (change.string ref).raw = ref.raw
  type : ∀ ref, (change.type ref).raw = ref.raw
  proto : ∀ ref, (change.proto ref).raw = ref.raw
  field : ∀ ref, (change.field ref).raw = ref.raw
  method : ∀ ref, (change.method ref).raw = ref.raw
  typeList : ∀ ref, (change.typeList ref).raw = ref.raw
  classData : ∀ ref, (change.classData ref).raw = ref.raw
  code : ∀ ref, (change.code ref).raw = ref.raw
  debugInfo : ∀ ref, (change.debugInfo ref).raw = ref.raw

theorem RefMap.keepsSlots_placed (file : DexFile) : (RefMap.placed file).KeepsSlots where
  string _ := rfl
  type _ := rfl
  proto _ := rfl
  field _ := rfl
  method _ := rfl
  typeList _ := rfl
  classData _ := rfl
  code _ := rfl
  debugInfo _ := rfl

section Encode

variable {change : RefMap} (keeps : change.KeepsSlots)

include keeps

theorem TypeItem.encode_withRefs (item : TypeItem) : encode (item.withRefs change) = encode item :=
  congrArg Bytes.ofWord32 (keeps.string _)

theorem TypeList.encode_withRefs (list : TypeList) :
    encode (list.withRefs change) = encode list := by
  have slots : (list.types.map change.type).flatMap IndexRef.shortBytes =
      list.types.flatMap IndexRef.shortBytes := by
    rw [List.flatMap_map]
    congr 1
    funext ref
    exact congrArg (fun raw : UInt32 => Bytes.ofWord16 raw.toUInt16) (keeps.type ref)
  change Bytes.ofWord32 (UInt32.ofNat (list.types.map change.type).length) ++
    (list.types.map change.type).flatMap IndexRef.shortBytes = _
  rw [List.length_map, slots]
  rfl

theorem ProtoItem.encode_withRefs (item : ProtoItem) :
    encode (item.withRefs change) = encode item := by
  change Bytes.ofWord32 (change.string item.shorty).raw ++
    Bytes.ofWord32 (change.type item.returnType).raw ++
    Bytes.ofWord32 (change.typeList item.parameters).raw = _
  rw [keeps.string, keeps.type, keeps.typeList]
  rfl

theorem FieldItem.encode_withRefs (item : FieldItem) :
    encode (item.withRefs change) = encode item := by
  change Bytes.ofWord16 (change.type item.owner).raw.toUInt16 ++
    Bytes.ofWord16 (change.type item.type).raw.toUInt16 ++
    Bytes.ofWord32 (change.string item.name).raw = _
  rw [keeps.type, keeps.type, keeps.string]
  rfl

theorem MethodItem.encode_withRefs (item : MethodItem) :
    encode (item.withRefs change) = encode item := by
  change Bytes.ofWord16 (change.type item.owner).raw.toUInt16 ++
    Bytes.ofWord16 (change.proto item.proto).raw.toUInt16 ++
    Bytes.ofWord32 (change.string item.name).raw = _
  rw [keeps.type, keeps.proto, keeps.string]
  rfl

theorem ClassDef.encode_withRefs (item : ClassDef) :
    encode (item.withRefs change) = encode item := by
  change Bytes.ofWord32 (change.type item.type).raw ++ Bytes.ofWord32 item.flags ++
    Bytes.ofWord32 (change.type item.superclass).raw ++
    Bytes.ofWord32 (change.typeList item.interfaces).raw ++
    Bytes.ofWord32 (change.string item.sourceFile).raw ++
    Bytes.ofWord32 item.annotations.current ++
    Bytes.ofWord32 (change.classData item.classData).raw ++
    Bytes.ofWord32 item.staticValues.current = _
  rw [keeps.type, keeps.type, keeps.typeList, keeps.string, keeps.classData]
  rfl

theorem fieldBytes_withRefs (fields : List EncodedField) (before : UInt32) :
    fieldBytes before (fields.map (EncodedField.withRefs change)) = fieldBytes before fields := by
  induction fields generalizing before with
  | nil => rfl
  | cons first rest ih =>
      change Leb.encode ((change.field first.field).raw - before) ++ Leb.encode first.flags ++
        fieldBytes (change.field first.field).raw _ = _
      rw [keeps.field, ih]
      rfl

theorem methodBytes_withRefs (methods : List EncodedMethod) (before : UInt32) :
    methodBytes before (methods.map (EncodedMethod.withRefs change)) =
      methodBytes before methods := by
  induction methods generalizing before with
  | nil => rfl
  | cons first rest ih =>
      change Leb.encode ((change.method first.method).raw - before) ++ Leb.encode first.flags ++
        Leb.encode (change.code first.code).raw ++
          methodBytes (change.method first.method).raw _ = _
      rw [keeps.method, keeps.code, ih]
      rfl

theorem ClassData.encode_withRefs (data : ClassData) :
    encode (data.withRefs change) = encode data := by
  change Leb.encode (UInt32.ofNat (data.staticFields.map _).length) ++
    Leb.encode (UInt32.ofNat (data.instanceFields.map _).length) ++
    Leb.encode (UInt32.ofNat (data.directMethods.map _).length) ++
    Leb.encode (UInt32.ofNat (data.virtualMethods.map _).length) ++
    fieldBytes 0 (data.staticFields.map _) ++ fieldBytes 0 (data.instanceFields.map _) ++
    methodBytes 0 (data.directMethods.map _) ++ methodBytes 0 (data.virtualMethods.map _) = _
  simp only [List.length_map, fieldBytes_withRefs keeps, methodBytes_withRefs keeps]
  rfl

theorem CodeItem.encode_withRefs (code : CodeItem) :
    encode (code.withRefs change) = encode code := by
  have tries : (code.withRefs change).tryBytes = code.tryBytes := by
    unfold CodeItem.tryBytes
    change (if code.tries.isEmpty then _ else _) = _
    simp only [CodeItem.withRefs, List.length_map, CodeItem.encodeHandlers_mapTypes keeps.type]
    rfl
  change _ ++ Bytes.ofWord32 (change.debugInfo code.debugInfo).raw ++ _ ++ _ ++
    (code.withRefs change).tryBytes = _
  rw [keeps.debugInfo, tries]
  rfl

theorem ElementData.bytes_mapRefs (data : ElementData) :
    (data.mapRefs change.string change.type).bytes = data.bytes := by
  cases data with
  | startLocal register name type signature =>
      cases signature with
      | none => simp [mapRefs, bytes, IndexRef.optionalBytes, keeps.string, keeps.type]
      | some signature => simp [mapRefs, bytes, IndexRef.optionalBytes, keeps.string, keeps.type]
  | setFile name => simp [mapRefs, bytes, IndexRef.optionalBytes, keeps.string]
  | _ => rfl

theorem DebugInfo.encode_withRefs (info : DebugInfo) :
    encode (info.withRefs change) = encode info := by
  have names : (info.parameterNames.map change.string).flatMap IndexRef.optionalBytes =
      info.parameterNames.flatMap IndexRef.optionalBytes := by
    rw [List.flatMap_map]
    congr 1
    funext ref
    exact congrArg (fun raw : UInt32 => Leb.encode (raw + 1)) (keeps.string ref)
  have bytes : (info.sequence.mapRefs change.string change.type).bytes = info.sequence.bytes := by
    rw [DebugSequence.bytes_eq, DebugSequence.bytes_eq, DebugSequence.contents_mapRefs,
      List.flatMap_map]
    congr 2
    funext data
    exact data.bytes_mapRefs keeps
  change Leb.encode (info.sequence.mapRefs change.string change.type).lineStart ++
    Leb.encode (UInt32.ofNat (info.parameterNames.map change.string).length) ++
    (info.parameterNames.map change.string).flatMap IndexRef.optionalBytes ++
    (info.sequence.mapRefs change.string change.type).bytes = _
  rw [DebugSequence.lineStart_mapRefs, List.length_map, names, bytes]
  rfl

/-- References to other items in the same slots are written as the same bytes. -/
theorem Part.encode_withRefs (part : Part) (item : part.Item) :
    encode (part.withRefs change item) = encode item := by
  cases part with
  | typeId => exact TypeItem.encode_withRefs keeps item
  | protoId => exact ProtoItem.encode_withRefs keeps item
  | fieldId => exact FieldItem.encode_withRefs keeps item
  | methodId => exact MethodItem.encode_withRefs keeps item
  | classDef => exact ClassDef.encode_withRefs keeps item
  | typeList => exact TypeList.encode_withRefs keeps item
  | classData => exact ClassData.encode_withRefs keeps item
  | codeItem => exact CodeItem.encode_withRefs keeps item
  | debugInfo => exact DebugInfo.encode_withRefs keeps item

end Encode

/-- Debug information is written as it is read back. -/
theorem Part.encode_plain (part : Part) (item : part.Item) :
    encode (part.plain item) = encode item := by
  cases part with
  | debugInfo =>
      have contents : (DebugInfo.plain item).sequence.contents =
          DebugSequence.contents (DebugInfo.sequence item) := map_data_replay _ _ _
      change Leb.encode (DebugInfo.plain item).sequence.lineStart ++ _ ++ _ ++
        (DebugInfo.plain item).sequence.bytes = _
      rw [DebugSequence.bytes_eq, contents, ← DebugSequence.bytes_eq]
      rfl
  | _ => rfl

variable {α : Type}

/-- A settled reference is settled at the place of its item. -/
theorem IndexRef.settled_placed {items : Section α} (valid : items.Valid)
    (few : items.size < UInt32.size) {kind : SectionKind} {place : UInt32}
    {read : List (UInt32 × α)} (size : read.length = items.size) {ref : IndexRef α}
    (settled : ref.Settled items) : (ref.placed items).Settled (Section.fresh kind place read) := by
  rw [settled_iff] at settled ⊢
  intro other named
  obtain ⟨index, found, rfl⟩ := Option.map_eq_some_iff.1 named
  obtain ⟨id, item, indexed⟩ := Option.bind_eq_some_iff.1 found
  have same : index = ref.raw := Option.some.inj (indexed.symm.trans (settled id item))
  subst same
  have bound : ref.raw.toNat < read.length := by
    rw [size]
    exact valid.indexOf?_lt (Nat.le_of_lt few) indexed
  rw [Section.indexOf?_fresh, List.getElem?_eq_getElem bound]
  exact congrArg some UInt32.ofNat_toNat

theorem OffsetRef.settled_placed {items : Section α} (valid : items.Valid)
    (few : items.size < UInt32.size) {kind : SectionKind} {place : UInt32}
    {read : List (UInt32 × α)} (same : read.map Prod.fst = items.rows.map Prod.fst)
    {ref : OffsetRef α} (settled : ref.Settled items) :
    (ref.placed items).Settled (Section.fresh kind place read) := by
  rw [settled_iff] at settled ⊢
  intro other named
  obtain ⟨index, found, rfl⟩ := Option.map_eq_some_iff.1 named
  obtain ⟨id, item, indexed⟩ := Option.bind_eq_some_iff.1 found
  have offset := settled id item
  have live := Section.isSome_offsetOf? items id
  rw [offset] at live
  obtain ⟨value, content⟩ := Option.isSome_iff_exists.1 live.symm
  have row : items.rows[index.toNat]? = some (ref.raw, value) :=
    valid.getElem?_rows_eq_some.2
      ⟨id, valid.getElem?_indexOf? (Nat.le_of_lt few) indexed, offset, content⟩
  have starts := congrArg (fun offsets : List UInt32 => offsets[index.toNat]?) same
  simp only [List.getElem?_map, row, Option.map_some] at starts
  rw [Section.offsetOf?_fresh]
  exact starts

namespace DexFile

variable {file again : DexFile}

namespace Relinked

/-- What holds for the image of each written item holds for each item that was read. -/
theorem all (relinked : Relinked file again) (part : Part) {property : part.Item → Prop}
    (each : (part.items file).All fun item =>
      property (part.withRefs (.placed file) (part.plain item))) :
    (part.items again).All property := by
  obtain ⟨place, same⟩ := relinked.parts part
  rw [same]
  intro id item found
  rw [Section.item?_fresh, List.getElem?_map, Option.map_map, Option.map_eq_some_iff] at found
  obtain ⟨row, listed, rfl⟩ := found
  exact each.of_mem_rows (List.mem_of_getElem? listed)

theorem settled_on (relinked : Relinked file again) (stable : file.Stable) :
    (RefTest.settled file).Implies ((RefTest.settled again).on (.placed file)) := by
  have index (part : Part) {ref : IndexRef part.Item} (settled : ref.Settled (part.items file)) :
      (ref.placed (part.items file)).Settled (part.items again) := by
    obtain ⟨place, same⟩ := relinked.parts part
    rw [same]
    exact IndexRef.settled_placed (stable.orderly.valid part) (stable.apart.few part)
      ((List.length_map _).trans (stable.orderly.valid part).length_rows) settled
  have offset (part : Part) {ref : OffsetRef part.Item} (settled : ref.Settled (part.items file)) :
      (ref.placed (part.items file)).Settled (part.items again) := by
    obtain ⟨place, same⟩ := relinked.parts part
    rw [same]
    refine OffsetRef.settled_placed (stable.orderly.valid part) (stable.apart.few part) ?_ settled
    rw [List.map_map]
    rfl
  exact {
    string := fun ref settled => by
      obtain ⟨place, same⟩ := relinked.strings
      change (ref.placed file.strings.items).Settled again.strings.items
      rw [same]
      exact IndexRef.settled_placed stable.orderly.strings stable.apart.strings
        stable.orderly.strings.length_rows settled
    type := fun _ settled => index .typeId settled
    proto := fun _ settled => index .protoId settled
    field := fun _ settled => index .fieldId settled
    method := fun _ settled => index .methodId settled
    typeList := fun _ settled => offset .typeList settled
    classData := fun _ settled => offset .classData settled
    code := fun _ settled => offset .codeItem settled
    debugInfo := fun _ settled => offset .debugInfo settled }

/-- Every reference that was read is settled. -/
theorem settled (relinked : Relinked file again) (stable : file.Stable) (part : Part) :
    (part.items again).All (part.Refs (.settled again)) :=
  relinked.all part fun id item found => Part.refs_withRefs.2
    ((stable.settled part id item found).plain.imp (relinked.settled_on stable))

theorem rows (relinked : Relinked file again) (part : Part) : (part.items again).rows =
    (part.items file).rows.map fun row =>
      (row.1, part.withRefs (.placed file) (part.plain row.2)) := by
  obtain ⟨place, same⟩ := relinked.parts part
  rw [same, Section.rows_fresh]

theorem rows_strings (relinked : Relinked file again) :
    again.strings.items.rows = file.strings.items.rows := by
  obtain ⟨place, same⟩ := relinked.strings
  rw [same, Section.rows_fresh]

theorem size_strings (relinked : Relinked file again) (stable : file.Stable) :
    again.strings.size = file.strings.size := by
  obtain ⟨place, same⟩ := relinked.strings
  change again.strings.items.size = file.strings.items.size
  rw [same, Section.size_fresh, stable.orderly.strings.length_rows]

theorem size (relinked : Relinked file again) (stable : file.Stable) (part : Part) :
    (part.items again).size = (part.items file).size := by
  obtain ⟨place, same⟩ := relinked.parts part
  rw [same, Section.size_fresh, List.length_map, (stable.orderly.valid part).length_rows]

/-- The bytes of the items that were read are those of the written ones. -/
theorem encoded (relinked : Relinked file again) (part : Part) :
    ((part.items again).rows.map fun row => (row.1, encode row.2)) =
      (part.items file).rows.map fun row => (row.1, encode row.2) := by
  rw [relinked.rows, List.map_map]
  congr 1
  funext row
  change (row.1, encode (part.withRefs (.placed file) (part.plain row.2))) = _
  rw [part.encode_withRefs (RefMap.keepsSlots_placed file), part.encode_plain]

end Relinked
end DexFile

/-- What an item says: the events of debug information, and offsets as they are written. -/
def Part.said : (part : Part) → part.Item → part.Item
  | classDef => ClassDef.plain
  | debugInfo => DebugInfo.said
  | typeId => id
  | protoId => id
  | fieldId => id
  | methodId => id
  | typeList => id
  | classData => id
  | codeItem => id

/-- What a file says. -/
structure Listing where
  strings : List StringData
  descriptors : List (Option String)
  prototypes : List (Option Prototype)
  fieldKeys : List (Option FieldKey)
  methodKeys : List (Option MethodKey)
  /-- The items of each section, whose references name the places of other items. -/
  items : (part : Part) → List part.Item

/-- A place that was read is the place of an item. -/
theorem IndexRef.placed_placed {items : Section α} (valid : items.Valid)
    (few : items.size < UInt32.size) {kind : SectionKind} {place : UInt32}
    {read : List (UInt32 × α)} (size : read.length = items.size) (ref : IndexRef α) :
    (ref.placed items).placed (Section.fresh kind place read) = ref.placed items := by
  unfold placed
  congr 1
  cases found : ref.item.bind items.indexOf? with
  | none => rfl
  | some index =>
      obtain ⟨id, _, indexed⟩ := Option.bind_eq_some_iff.1 found
      have bound : index.toNat < read.length := by
        rw [size]
        exact valid.indexOf?_lt (Nat.le_of_lt few) indexed
      simp [List.getElem?_eq_getElem bound]

theorem OffsetRef.placed_placed {items : Section α} (valid : items.Valid)
    (few : items.size < UInt32.size) {kind : SectionKind} {place : UInt32}
    {read : List (UInt32 × α)} (size : read.length = items.size) (ref : OffsetRef α) :
    (ref.placed items).placed (Section.fresh kind place read) = ref.placed items := by
  unfold placed
  congr 1
  cases found : ref.item.bind items.indexOf? with
  | none => rfl
  | some index =>
      obtain ⟨id, _, indexed⟩ := Option.bind_eq_some_iff.1 found
      have bound : index.toNat < read.length := by
        rw [size]
        exact valid.indexOf?_lt (Nat.le_of_lt few) indexed
      simp [List.getElem?_eq_getElem bound]

/-- References and what an item says do not depend on each other. -/
theorem Part.said_withRefs (part : Part) (change : RefMap) (item : part.Item) :
    part.said (part.withRefs change item) = part.withRefs change (part.said item) := by
  cases part with
  | debugInfo =>
      exact congrArg (DebugInfo.mk _) (DebugSequence.said_mapRefs _ _ _)
  | _ => rfl

/-- What is read back says the same. -/
theorem Part.said_plain (part : Part) {item : part.Item} (writable : part.Writable item) :
    part.said (part.plain item) = part.said item := by
  cases part with
  | debugInfo => exact congrArg (DebugInfo.mk _) (DebugSequence.said_plain writable)
  | _ => rfl

namespace DexFile

variable {file again : DexFile}

/-- What a file says. -/
def listing (file : DexFile) : Listing where
  strings := file.strings.items.rows.map fun row => row.2.value
  descriptors := file.types.items.rows.map fun row => file.typeKey? row.2
  prototypes := file.protos.items.rows.map fun row => file.protoKey? row.2
  fieldKeys := file.fields.items.rows.map fun row => file.fieldKey? row.2
  methodKeys := file.methods.items.rows.map fun row => file.methodKey? row.2
  items part := (part.items file).rows.map fun row =>
    part.withRefs (.placed file) (part.said row.2)

theorem Relinked.placed_after (relinked : Relinked file again) (stable : file.Stable) :
    (RefMap.placed again).after (.placed file) = .placed file := by
  have index (part : Part) (ref : IndexRef part.Item) :
      (ref.placed (part.items file)).placed (part.items again) = ref.placed (part.items file) := by
    obtain ⟨place, same⟩ := relinked.parts part
    rw [same]
    exact IndexRef.placed_placed (stable.orderly.valid part) (stable.apart.few part)
      ((List.length_map _).trans (stable.orderly.valid part).length_rows) ref
  have offset (part : Part) (ref : OffsetRef part.Item) :
      (ref.placed (part.items file)).placed (part.items again) = ref.placed (part.items file) := by
    obtain ⟨place, same⟩ := relinked.parts part
    rw [same]
    exact OffsetRef.placed_placed (stable.orderly.valid part) (stable.apart.few part)
      ((List.length_map _).trans (stable.orderly.valid part).length_rows) ref
  have string (ref : IndexRef StringItem) :
      (ref.placed file.strings.items).placed again.strings.items = ref.placed file.strings.items := by
    obtain ⟨place, same⟩ := relinked.strings
    rw [same]
    exact IndexRef.placed_placed stable.orderly.strings stable.apart.strings
      stable.orderly.strings.length_rows ref
  unfold RefMap.placed RefMap.after
  simp only [RefMap.mk.injEq]
  exact ⟨funext string, funext (index .typeId), funext (index .protoId), funext (index .fieldId),
    funext (index .methodId), funext (offset .typeList), funext (offset .classData),
    funext (offset .codeItem), funext (offset .debugInfo)⟩

/-- What was read says what was written. -/
theorem Relinked.listing (relinked : Relinked file again) (stable : file.Stable)
    (writable : ∀ part : Part, (part.items file).All part.Writable) :
    again.listing = file.listing := by
  have keys {κ : Type} (part : Part) {key? key?' : part.Item → Option κ}
      (same : (part.items file).All fun item =>
        key?' (part.withRefs (.placed file) (part.plain item)) = key? item) :
      ((part.items again).rows.map fun row => key?' row.2) =
        (part.items file).rows.map fun row => key? row.2 := by
    rw [relinked.rows, List.map_map]
    exact List.map_congr_left fun row inside => same.of_mem_rows inside
  unfold DexFile.listing
  rw [Listing.mk.injEq]
  refine ⟨by rw [relinked.rows_strings], keys .typeId fun _ item _ => relinked.typeKey? stable item,
    keys .protoId fun id item found => relinked.protoKey? stable (stable.settled .protoId id item found),
    keys .fieldId fun _ item _ => relinked.fieldKey? stable item,
    keys .methodId fun _ item _ => relinked.methodKey? stable item, ?_⟩
  funext part
  rw [relinked.rows, List.map_map]
  refine List.map_congr_left fun row inside => ?_
  change part.withRefs (.placed again) (part.said (part.withRefs (.placed file) (part.plain row.2))) = _
  rw [part.said_withRefs, ← Part.withRefs_after, relinked.placed_after stable,
    part.said_plain ((writable part).of_mem_rows inside)]

end DexFile
end DexArsc.Dex
