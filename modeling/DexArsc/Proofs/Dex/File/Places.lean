/-
A file whose items were read from a written one, before and after its references are linked. The
item that was written as the n-th of its section has the n-th slot.
-/

import DexArsc.Proofs.Dex.File.Apart
import DexArsc.Proofs.Dex.File.Keys
import DexArsc.Proofs.Dex.File.Settled

namespace DexArsc.Dex
namespace DexFile

/-- A file was loaded with an item for each one that was written, at the same offset. -/
structure Mirrors (file loaded : DexFile) : Prop where
  strings : ∃ place, loaded.strings.items = .fresh .stringId place file.strings.items.rows
  parts : ∀ part : Part, ∃ place, part.items loaded =
    .fresh part.kind place ((part.items file).rows.map fun row => (row.1, part.bare row.2))

/-- A file has an item for each one that was written, with its references. -/
structure Relinked (file again : DexFile) : Prop where
  strings : ∃ place, again.strings.items = .fresh .stringId place file.strings.items.rows
  parts : ∀ part : Part, ∃ place, part.items again = .fresh part.kind place
    ((part.items file).rows.map fun row => (row.1, part.withRefs (.placed file) (part.plain row.2)))

variable {file loaded final : DexFile}

/-- References are linked to the places of their items. -/
theorem Mirrors.linkMap_bare (mirrors : Mirrors file loaded) (orderly : file.Orderly)
    (apart : file.Apart) : ((RefTest.settled file).both (.faithful file)).Implies
      ((loaded.linkMap.after .bare).agree (.placed file)) := by
  have index (part : Part) {ref : IndexRef part.Item} (settled : ref.Settled (part.items file))
      (faithful : ref.Faithful (part.items file)) :
      ref.bare.link (part.items loaded) = ref.placed (part.items file) := by
    obtain ⟨place, same⟩ := mirrors.parts part
    rw [same]
    exact IndexRef.link_bare (orderly.valid part) (apart.few part)
      ((List.length_map _).trans (orderly.valid part).length_rows) settled faithful
  have offset (part : Part) {ref : OffsetRef part.Item} (settled : ref.Settled (part.items file))
      (faithful : ref.Faithful (part.items file)) :
      ref.bare.link (part.items loaded) = ref.placed (part.items file) := by
    obtain ⟨place, same⟩ := mirrors.parts part
    have starts : ((part.items file).rows.map fun row => (row.1, part.bare row.2)).map Prod.fst =
        (part.items file).rows.map Prod.fst := by
      rw [List.map_map]
      rfl
    rw [same]
    refine OffsetRef.link_bare (orderly.valid part) (apart.few part) starts ?_ ?_ settled faithful
    · rw [starts]
      exact apart.distinct part
    · rw [starts]
      exact apart.positive part
  exact {
    string := fun ref test => by
      obtain ⟨place, same⟩ := mirrors.strings
      change ref.bare.link loaded.strings.items = _
      rw [same]
      exact IndexRef.link_bare orderly.strings apart.strings orderly.strings.length_rows test.1 test.2
    type := fun ref test => index .typeId test.1 test.2
    proto := fun ref test => index .protoId test.1 test.2
    field := fun ref test => index .fieldId test.1 test.2
    method := fun ref test => index .methodId test.1 test.2
    typeList := fun ref test => offset .typeList test.1 test.2
    classData := fun ref test => offset .classData test.1 test.2
    code := fun ref test => offset .codeItem test.1 test.2
    debugInfo := fun ref test => offset .debugInfo test.1 test.2 }

theorem Mirrors.withRefs_linkMap (mirrors : Mirrors file loaded) (orderly : file.Orderly)
    (apart : file.Apart) {part : Part} (other : part ≠ .codeItem) {item : part.Item}
    (settled : part.Refs (.settled file) item) (faithful : part.Refs (.faithful file) item) :
    part.withRefs loaded.linkMap (part.bare item) =
      part.withRefs (.placed file) (part.plain item) := by
  rw [Part.bare_eq other, ← Part.withRefs_after]
  exact Part.withRefs_congr ((settled.plain.both faithful.plain).imp
    (mirrors.linkMap_bare orderly apart))

/-- Code is linked to the places of the items that it names. -/
theorem Mirrors.linkCode_bare (mirrors : Mirrors file loaded) (orderly : file.Orderly)
    (apart : file.Apart) {code : CodeItem} (settled : code.Refs (.settled file))
    (faithful : code.Refs (.faithful file)) (scanned : code.Scanned) (stored : code.Stored)
    (offset : UInt32) : linkCode loaded.ids loaded.debugInfos offset code.bare =
      .ok () (code.withRefs (.placed file)) := by
  obtain ⟨found, scan, same⟩ := scanned
  have whole : ∀ operand ∈ found, (operand.index? code.units).isSome := fun operand inside =>
    Operand.isSome_index? ((CodeItem.operands_eq_ok scan).1 operand inside)
  have places := CodeItem.withRefs_congr ((CodeItem.Refs.both settled faithful).imp
    (mirrors.linkMap_bare orderly apart))
  have linked : CodeItem.link loaded.ids code.bare = .ok { code.bare with
      references := code.references.map fun ref =>
        { ref with target := (loaded.linkMap.after .bare).item ref.target }
      handlers := code.bare.handlers.map (CatchHandler.mapTypes (·.link loaded.types.items)) } :=
    CodeItem.link_eq_ok scan (CodeItem.linkOperands_eq whole same stored)
  have handlers : code.bare.handlers.map (CatchHandler.mapTypes (·.link loaded.types.items)) =
      code.handlers.map (CatchHandler.mapTypes fun ref => ref.bare.link loaded.types.items) := by
    unfold CodeItem.bare CatchHandler.bare CatchHandler.mapTypes
    simp only [List.map_map, Function.comp_def]
  unfold linkCode
  rw [Step.bind_ok (Step.get_apply _), linked]
  change EStateM.Result.ok _ _ = _
  rw [← places, handlers]
  rfl

/-- Linking what was loaded gives the items and the references that were written. -/
theorem Mirrors.link (mirrors : Mirrors file loaded) (orderly : file.Orderly) (apart : file.Apart)
    (settled : ∀ part : Part, (part.items file).All (part.Refs (.settled file)))
    (faithful : ∀ part : Part, (part.items file).All (part.Refs (.faithful file)))
    (scanned : file.codes.All CodeItem.Scanned) (stored : file.codes.All CodeItem.Stored) :
    ∃ again, DexFile.link loaded = .ok () again ∧ again = loaded.linked again.codes ∧
      Relinked file again := by
  obtain ⟨place, codes⟩ := mirrors.parts .codeItem
  have run : Section.onItems (linkCode loaded.ids loaded.debugInfos) loaded.codes = .ok ()
      (.fresh .codeItem place (file.codes.rows.map fun row =>
        (row.1, row.2.withRefs (.placed file)))) := by
    change loaded.codes = _ at codes
    rw [codes]
    refine Section.onItems_fresh fun row inside => ?_
    exact mirrors.linkCode_bare orderly apart ((settled .codeItem).of_mem_rows inside)
      ((faithful .codeItem).of_mem_rows inside) (scanned.of_mem_rows inside)
      (stored.of_mem_rows inside) row.1
  have others (part : Part) (other : part ≠ .codeItem) : ∃ place,
      (part.items loaded).map (part.withRefs loaded.linkMap) = .fresh part.kind place
        ((part.items file).rows.map fun row =>
          (row.1, part.withRefs (.placed file) (part.plain row.2))) := by
    obtain ⟨place, same⟩ := mirrors.parts part
    refine ⟨place, ?_⟩
    rw [same, Section.map_fresh, List.map_map]
    congr 1
    refine List.map_congr_left fun row inside => ?_
    exact congrArg (Prod.mk row.1) (mirrors.withRefs_linkMap orderly apart other
      ((settled part).of_mem_rows inside) ((faithful part).of_mem_rows inside))
  refine ⟨loaded.linked (.fresh .codeItem place (file.codes.rows.map
    fun row : UInt32 × CodeItem => (row.1, row.2.withRefs (.placed file)))),
    link_eq_ok.2 ⟨rfl, run⟩, rfl, mirrors.strings, fun part => ?_⟩
  cases part with
  | codeItem => exact ⟨place, rfl⟩
  | typeId => exact others .typeId (by decide)
  | protoId => exact others .protoId (by decide)
  | fieldId => exact others .fieldId (by decide)
  | methodId => exact others .methodId (by decide)
  | classDef => exact others .classDef (by decide)
  | typeList => exact others .typeList (by decide)
  | classData => exact others .classData (by decide)
  | debugInfo => exact others .debugInfo (by decide)

end DexFile
end DexArsc.Dex

namespace DexArsc.Dex

variable {α κ : Type}

/-- The id that names the place of an item. -/
def Section.placeOf (items : Section α) (id : Option (Id α)) : Option (Id α) :=
  (id.bind items.indexOf?).map fun index => ⟨index.toNat⟩

/-- The item at the place of an item is its image. -/
theorem Section.Valid.item?_placeOf {items : Section α} (valid : items.Valid)
    (few : items.size < UInt32.size) (kind : SectionKind) (place : UInt32) (image : α → α)
    (id : Option (Id α)) : (items.placeOf id).bind
      (Section.fresh kind place (items.rows.map fun row => (row.1, image row.2))).item? =
      (id.bind items.item?).map image := by
  cases id with
  | none => rfl
  | some id =>
      unfold placeOf
      rw [Option.bind_some, Option.bind_some]
      cases here : items.indexOf? id with
      | none =>
          have dead := isSome_indexOf? items id
          rw [here] at dead
          cases item : items.item? id with
          | none => rfl
          | some item =>
              rw [item] at dead
              cases dead
      | some index =>
          have listed := valid.getElem?_indexOf? (Nat.le_of_lt few) here
          obtain ⟨item, found⟩ := Option.isSome_iff_exists.1 (valid.item?_getElem listed)
          obtain ⟨offset, start⟩ : ∃ offset, items.offsetOf? id = some offset := by
            rw [← Option.isSome_iff_exists, isSome_offsetOf?, found]
            rfl
          have row : items.rows[index.toNat]? = some (offset, item) :=
            valid.getElem?_rows_eq_some.2 ⟨id, listed, start, found⟩
          rw [Option.map_some, Option.bind_some, item?_fresh, List.getElem?_map, row, found]
          rfl

/-- The items of a section that was read are those that were read. -/
theorem Section.rows_fresh (kind : SectionKind) (place : UInt32) (read : List (UInt32 × α)) :
    (fresh kind place read).rows = read := by
  apply List.ext_getElem?
  intro slot
  rw [valid_fresh.getElem?_rows, order_fresh, List.getElem?_toArray, List.getElem?_mapIdx]
  cases row : read[slot]? with
  | none => rfl
  | some row =>
      rw [Option.map_some, Option.bind_some, live?_fresh, row]
      rfl

theorem Section.map_fst_keyed (items : Section α) (key? : α → Option κ) :
    (items.keyed key?).map Prod.fst = (items.rows.map fun row => key? row.2).filterMap id := by
  unfold keyed entries rows
  rw [List.filterMap_map, List.filterMap_filterMap, List.map_filterMap, List.filterMap_filterMap]
  congr 1
  funext id
  rw [item?_eq]
  cases items.live? id with
  | none => rfl
  | some cell =>
      cases content : cell.item with
      | none => simp [content]
      | some item => cases key : key? item <;> simp [content, key]

namespace DexFile

variable {file again : DexFile}

/-- The items of a file are valid, few and up to date. -/
structure Stable (file : DexFile) : Prop where
  orderly : file.Orderly
  apart : file.Apart
  settled : ∀ part : Part, (part.items file).All (part.Refs (.settled file))

theorem stringOf?_eq (file : DexFile) (ref : IndexRef StringItem) : file.stringOf? ref =
    (ref.item.bind file.strings.items.item?).map fun item => item.value.lossyText := by
  unfold stringOf?
  cases ref.item with
  | none => rfl
  | some id => cases found : file.strings.items.item? id <;> simp [found]

theorem descriptorOf?_eq (file : DexFile) (ref : IndexRef TypeItem) : file.descriptorOf? ref =
    (ref.item.bind file.types.items.item?).bind fun item => file.stringOf? item.descriptor := by
  unfold descriptorOf?
  cases ref.item with
  | none => rfl
  | some id => cases found : file.types.items.item? id <;> simp [found]

/-- The parameter types of a prototype. -/
def parametersOf? (file : DexFile) (id : Option (Id TypeList)) : Option (List String) :=
  id.elim (some []) fun id =>
    (file.typeLists.item? id).bind fun list => list.types.mapM file.descriptorOf?

theorem protoKey?_eq (file : DexFile) (item : ProtoItem) : file.protoKey? item =
    (file.descriptorOf? item.returnType).bind fun returnType =>
      (file.parametersOf? item.parameters.item).map fun parameters =>
        { returnType, parameters } := by
  unfold protoKey? parametersOf?
  congr 1
  funext returnType
  cases item.parameters.item with
  | none => rfl
  | some id =>
      cases found : file.typeLists.item? id with
      | none => simp [found]
      | some list => cases types : list.types.mapM file.descriptorOf? <;> simp [found, types]

theorem methodKey?_eq (file : DexFile) (item : MethodItem) : file.methodKey? item =
    (item.proto.item.bind file.protos.items.item?).bind fun proto =>
      (file.descriptorOf? item.owner).bind fun owner => (file.stringOf? item.name).bind fun name =>
        (file.protoKey? proto).map fun prototype => { owner, name, prototype } := by
  unfold methodKey?
  cases item.proto.item with
  | none => rfl
  | some id =>
      cases found : file.protos.items.item? id with
      | none => simp [found]
      | some proto =>
          simp only [Option.bind_eq_bind, Option.bind_some, found, Option.map_eq_bind]
          rfl

namespace Relinked

theorem item? (relinked : Relinked file again) (stable : file.Stable) (part : Part)
    (id : Option (Id part.Item)) : ((part.items file).placeOf id).bind (part.items again).item? =
      (id.bind (part.items file).item?).map fun item =>
        part.withRefs (.placed file) (part.plain item) := by
  obtain ⟨place, same⟩ := relinked.parts part
  rw [same]
  exact (stable.orderly.valid part).item?_placeOf (stable.apart.few part) part.kind place
    (fun item => part.withRefs (.placed file) (part.plain item)) id

theorem stringOf? (relinked : Relinked file again) (stable : file.Stable)
    (ref : IndexRef StringItem) :
    again.stringOf? (ref.placed file.strings.items) = file.stringOf? ref := by
  obtain ⟨place, same⟩ := relinked.strings
  have item := stable.orderly.strings.item?_placeOf stable.apart.strings .stringId place id ref.item
  have rows : (file.strings.items.rows.map fun row => (row.1, id row.2)) =
    file.strings.items.rows := List.map_id _
  rw [rows, Option.map_id, id] at item
  rw [stringOf?_eq, stringOf?_eq, same]
  exact congrArg (Option.map fun item : StringItem => item.value.lossyText) item

theorem descriptorOf? (relinked : Relinked file again) (stable : file.Stable)
    (ref : IndexRef TypeItem) :
    again.descriptorOf? (ref.placed file.types.items) = file.descriptorOf? ref := by
  have item : (file.types.items.placeOf ref.item).bind again.types.items.item? =
      (ref.item.bind file.types.items.item?).map (TypeItem.withRefs (.placed file)) :=
    relinked.item? stable .typeId ref.item
  rw [descriptorOf?_eq, descriptorOf?_eq]
  change ((file.types.items.placeOf ref.item).bind again.types.items.item?).bind _ = _
  rw [item]
  cases ref.item.bind file.types.items.item? with
  | none => rfl
  | some item => exact relinked.stringOf? stable item.descriptor

theorem typeKey? (relinked : Relinked file again) (stable : file.Stable) (item : TypeItem) :
    again.typeKey? (item.withRefs (.placed file)) = file.typeKey? item :=
  relinked.stringOf? stable item.descriptor

theorem fieldKey? (relinked : Relinked file again) (stable : file.Stable) (item : FieldItem) :
    again.fieldKey? (item.withRefs (.placed file)) = file.fieldKey? item := by
  unfold DexFile.fieldKey?
  change (do return {
    owner := ← again.descriptorOf? (item.owner.placed file.types.items)
    name := ← again.stringOf? (item.name.placed file.strings.items)
    type := ← again.descriptorOf? (item.type.placed file.types.items) } : Option FieldKey) = _
  rw [relinked.descriptorOf? stable, relinked.descriptorOf? stable, relinked.stringOf? stable]

/-- The parameters of a prototype count only while they are live, which a settled slot tells. -/
theorem parametersOf? (relinked : Relinked file again) (stable : file.Stable)
    {ref : OffsetRef TypeList} (settled : ref.Settled file.typeLists) :
    again.parametersOf? (ref.placed file.typeLists).item = file.parametersOf? ref.item := by
  have list : (file.typeLists.placeOf ref.item).bind again.typeLists.item? =
      (ref.item.bind file.typeLists.item?).map (TypeList.withRefs (.placed file)) :=
    relinked.item? stable .typeList ref.item
  change again.parametersOf? (file.typeLists.placeOf ref.item) = _
  cases item : ref.item with
  | none => rfl
  | some id =>
      have live := Section.isSome_offsetOf? file.typeLists id
      rw [OffsetRef.settled_iff.1 settled id item] at live
      obtain ⟨types, found⟩ := Option.isSome_iff_exists.1 live.symm
      rw [item, Option.bind_some, found, Option.map_some] at list
      obtain ⟨place, here, there⟩ := Option.bind_eq_some_iff.1 list
      unfold DexFile.parametersOf?
      rw [here, Option.elim_some, Option.elim_some, there, found, Option.bind_some, Option.bind_some]
      change (types.types.map fun ref => ref.placed file.types.items).mapM again.descriptorOf? = _
      rw [List.mapM_map]
      congr 1
      funext ref
      exact relinked.descriptorOf? stable ref

theorem protoKey? (relinked : Relinked file again) (stable : file.Stable) {item : ProtoItem}
    (settled : item.Refs (.settled file)) :
    again.protoKey? (item.withRefs (.placed file)) = file.protoKey? item := by
  rw [protoKey?_eq, protoKey?_eq]
  change (again.descriptorOf? (item.returnType.placed file.types.items)).bind (fun returnType =>
    (again.parametersOf? (item.parameters.placed file.typeLists).item).map _) = _
  rw [relinked.descriptorOf? stable, relinked.parametersOf? stable settled.2.2]

theorem methodKey? (relinked : Relinked file again) (stable : file.Stable) (item : MethodItem) :
    again.methodKey? (item.withRefs (.placed file)) = file.methodKey? item := by
  have proto : (file.protos.items.placeOf item.proto.item).bind again.protos.items.item? =
      (item.proto.item.bind file.protos.items.item?).map (ProtoItem.withRefs (.placed file)) :=
    relinked.item? stable .protoId item.proto.item
  rw [methodKey?_eq, methodKey?_eq]
  change ((file.protos.items.placeOf item.proto.item).bind again.protos.items.item?).bind
    (fun proto => (again.descriptorOf? (item.owner.placed file.types.items)).bind fun owner =>
      (again.stringOf? (item.name.placed file.strings.items)).bind fun name => _) = _
  rw [proto, relinked.descriptorOf? stable, relinked.stringOf? stable]
  cases found : item.proto.item.bind file.protos.items.item? with
  | none => rfl
  | some proto =>
      obtain ⟨id, _, live⟩ := Option.bind_eq_some_iff.1 found
      rw [Option.map_some, Option.bind_some, Option.bind_some,
        relinked.protoKey? stable (stable.settled .protoId id proto live)]

/-- The keys of a file that was read are those of the written one. -/
theorem map_fst_keyed (relinked : Relinked file again) (part : Part)
    {key? key?' : part.Item → Option κ}
    (same : ∀ row ∈ (part.items file).rows,
      key?' (part.withRefs (.placed file) (part.plain row.2)) = key? row.2) :
    ((part.items again).keyed key?').map Prod.fst = ((part.items file).keyed key?).map Prod.fst := by
  obtain ⟨place, items⟩ := relinked.parts part
  rw [Section.map_fst_keyed, Section.map_fst_keyed, items, Section.rows_fresh, List.map_map]
  exact congrArg (List.filterMap id) (List.map_congr_left same)

theorem keysDistinct (relinked : Relinked file again) (stable : file.Stable)
    (distinct : file.KeysDistinct) : again.KeysDistinct where
  strings := by
    obtain ⟨place, same⟩ := relinked.strings
    have keys := distinct.strings
    rw [Section.map_fst_keyed] at keys ⊢
    rwa [same, Section.rows_fresh]
  types := (relinked.map_fst_keyed .typeId
    fun row _ => relinked.typeKey? stable row.2) ▸ distinct.types
  protos := (relinked.map_fst_keyed .protoId fun row inside =>
    relinked.protoKey? stable ((stable.settled .protoId).of_mem_rows inside)) ▸ distinct.protos
  fields := (relinked.map_fst_keyed .fieldId
    fun row _ => relinked.fieldKey? stable row.2) ▸ distinct.fields
  methods := (relinked.map_fst_keyed .methodId
    fun row _ => relinked.methodKey? stable row.2) ▸ distinct.methods

end Relinked
end DexFile
end DexArsc.Dex
