/-
The outline of a file, from which all its keys are read. A file is sound when every item has an
outline, the outline is sound and no fresh key map lies.
-/

import DexArsc.Proofs.Dex.Edit.Growth
import DexArsc.Proofs.Dex.File.Places
import Mathlib.Data.List.Nodup

namespace DexArsc.Dex

variable {κ α : Type}

/-- The types of a list whose references are all linked. -/
def TypeList.ids? (list : TypeList) : Option (List (Id TypeItem)) :=
  list.types.mapM IndexRef.item

theorem TypeList.ids?_eq_some {list : TypeList} {types : List (Id TypeItem)} :
    list.ids? = some types ↔ list.types.map IndexRef.item = types.map some := by
  unfold ids?
  generalize list.types = refs
  induction refs generalizing types with
  | nil => cases types <;> simp
  | cons ref rest ih =>
      rw [List.mapM_cons]
      cases types with
      | nil =>
          simp only [Option.bind_eq_bind, Option.bind_eq_some_iff, Option.pure_def, Option.some.injEq,
            reduceCtorEq, and_false, exists_false, List.map_cons, List.map_nil]
      | cons type types =>
          simp only [Option.bind_eq_bind, Option.bind_eq_some_iff, Option.pure_def, Option.some.injEq,
            List.cons.injEq, List.map_cons, ← ih]
          constructor
          · rintro ⟨_, here, _, there, rfl, rfl⟩
            exact ⟨here, there⟩
          · rintro ⟨here, there⟩
            exact ⟨type, here, types, there, rfl, rfl⟩

/-- What a prototype is built on, in a file with the given lists. -/
def ProtoItem.outline? (lists : Id TypeList → Option (List (Id TypeItem))) (item : ProtoItem) :
    Option ProtoOutline :=
  item.shorty.item.bind fun shorty => item.returnType.item.bind fun returnType =>
    (item.parameters.item.elim (some []) lists).map fun parameters =>
      { shorty, returnType, parameters }

/-- What a field is built on. -/
def FieldItem.outline? (item : FieldItem) : Option FieldOutline :=
  item.owner.item.bind fun owner => item.type.item.bind fun type =>
    item.name.item.map fun name => { owner, type, name }

/-- What a method is built on. -/
def MethodItem.outline? (item : MethodItem) : Option MethodOutline :=
  item.owner.item.bind fun owner => item.proto.item.bind fun proto =>
    item.name.item.map fun name => { owner, proto, name }

theorem FieldItem.outline?_eq_some {item : FieldItem} {field : FieldOutline} :
    item.outline? = some field ↔ item.owner.item = some field.owner ∧
      item.type.item = some field.type ∧ item.name.item = some field.name := by
  obtain ⟨owner, type, name⟩ := field
  simp only [outline?, Option.bind_eq_some_iff, Option.map_eq_some_iff, FieldOutline.mk.injEq]
  constructor
  · rintro ⟨_, here, _, there, _, named, rfl, rfl, rfl⟩
    exact ⟨here, there, named⟩
  · rintro ⟨here, there, named⟩
    exact ⟨owner, here, type, there, name, named, rfl, rfl, rfl⟩

theorem MethodItem.outline?_eq_some {item : MethodItem} {method : MethodOutline} :
    item.outline? = some method ↔ item.owner.item = some method.owner ∧
      item.proto.item = some method.proto ∧ item.name.item = some method.name := by
  obtain ⟨owner, proto, name⟩ := method
  simp only [outline?, Option.bind_eq_some_iff, Option.map_eq_some_iff, MethodOutline.mk.injEq]
  constructor
  · rintro ⟨_, here, _, there, _, named, rfl, rfl, rfl⟩
    exact ⟨here, there, named⟩
  · rintro ⟨here, there, named⟩
    exact ⟨owner, here, proto, there, name, named, rfl, rfl, rfl⟩

/-- The key of the item with an id. -/
def Section.keyOf? (items : Section α) (key? : α → Option κ) (id : Id α) : Option κ :=
  (items.item? id).bind key?

theorem Section.keyOf?_eq_some {items : Section α} {key? : α → Option κ} {id : Id α} {key : κ} :
    items.keyOf? key? id = some key ↔ ∃ item, items.item? id = some item ∧ key? item = some key :=
  Option.bind_eq_some_iff

theorem Section.keyOf?_of_item? {items : Section α} {id : Id α} {item : α}
    (found : items.item? id = some item) (key? : α → Option κ) : items.keyOf? key? id = key? item := by
  rw [keyOf?, found, Option.bind_some]

/-- Keys that differ make a key map without repetitions. -/
theorem Section.Valid.nodup_keyed {items : Section α} (valid : items.Valid) {key? : α → Option κ}
    (separates : Separates (items.keyOf? key?)) : ((items.keyed key?).map Prod.fst).Nodup := by
  unfold keyed entries
  rw [List.filterMap_filterMap, List.map_filterMap]
  refine List.Nodup.filterMap (fun first second key here there => ?_) valid.nodup
  have found (id : Id α) (given : key ∈ ((((items.item? id).map fun item => (id, item)).bind
      fun entry => (key? entry.2).map fun key => (key, entry.1)).map Prod.fst)) :
      items.keyOf? key? id = some key := by
    rw [keyOf?_eq_some]
    cases live : items.item? id with
    | none => simp [live] at given
    | some item => simpa [live] using given
  exact separates first second key (found first here) (found second there)

namespace DexFile

/-- The outline of a file. -/
def outline (file : DexFile) : Outline where
  string := file.strings.items.keyOf? fun item => item.value.text?
  type := file.types.items.keyOf? fun item => item.descriptor.item
  list := file.typeLists.keyOf? TypeList.ids?
  proto := file.protos.items.keyOf? (ProtoItem.outline? (file.typeLists.keyOf? TypeList.ids?))
  field := file.fields.items.keyOf? FieldItem.outline?
  method := file.methods.items.keyOf? MethodItem.outline?
  defined := file.classDefs.keyOf? fun item => item.type.item

/-- Every item has an outline. -/
structure Complete (file : DexFile) : Prop where
  strings : file.strings.items.All fun item => item.value.text?.isSome
  types : file.types.items.All fun item => item.descriptor.item.isSome
  lists : file.typeLists.All fun list => list.ids?.isSome
  protos : file.protos.items.All fun item => (item.outline? file.outline.list).isSome
  fields : file.fields.items.All fun item => item.outline?.isSome
  methods : file.methods.items.All fun item => item.outline?.isSome
  classes : file.classDefs.All fun item => item.type.item.isSome

variable {file final : DexFile}

namespace Complete

variable (complete : file.Complete)
include complete

theorem decoded {id : Id StringItem} {item : StringItem} (found : file.strings.items.item? id = some item) :
    ∃ text, item.value = .decoded text := by
  have decoded : item.value.text?.isSome := complete.strings id item found
  cases value : item.value with
  | decoded text => exact ⟨text, rfl⟩
  | raw size bytes =>
      rw [value] at decoded
      cases decoded

theorem stringOf? (ref : IndexRef StringItem) :
    file.stringOf? ref = ref.item.bind file.outline.string := by
  rw [stringOf?_eq]
  cases ref.item with
  | none => rfl
  | some id =>
      rw [Option.bind_some, Option.bind_some]
      cases found : file.strings.items.item? id with
      | none => simp [outline, Section.keyOf?, found]
      | some item =>
          obtain ⟨text, value⟩ := complete.decoded found
          simp [outline, Section.keyOf?, found, value, StringData.lossyText, StringData.text?]

theorem descriptorOf? (ref : IndexRef TypeItem) :
    file.descriptorOf? ref = ref.item.bind file.outline.descriptor? := by
  rw [descriptorOf?_eq]
  cases ref.item with
  | none => rfl
  | some id =>
      simp only [Option.bind_some, complete.stringOf?, Outline.descriptor?]
      rw [← Option.bind_assoc]
      rfl

theorem keyOf?_types : file.types.items.keyOf? file.typeKey? = file.outline.descriptor? := by
  funext id
  change (file.types.items.item? id).bind _ = ((file.types.items.item? id).bind _).bind _
  rw [Option.bind_assoc]
  congr 1
  funext item
  exact complete.stringOf? item.descriptor

theorem parametersOf? (id : Option (Id TypeList)) : file.parametersOf? id =
    (id.elim (some []) file.outline.list).bind fun types =>
      types.mapM file.outline.descriptor? := by
  cases id with
  | none => rfl
  | some id =>
      unfold DexFile.parametersOf?
      rw [Option.elim_some, Option.elim_some]
      cases found : file.typeLists.item? id with
      | none => simp [outline, Section.keyOf?, found]
      | some list =>
          obtain ⟨types, ids⟩ := Option.isSome_iff_exists.1 (complete.lists id list found)
          have named : file.outline.list id = some types := by simp [outline, Section.keyOf?, found, ids]
          rw [named, Option.bind_some, Option.bind_some]
          unfold TypeList.ids? at ids
          clear found named
          generalize list.types = refs at ids
          induction refs generalizing types with
          | nil => cases ids; rfl
          | cons ref rest ih =>
              simp only [List.mapM_cons, Option.bind_eq_bind, Option.bind_eq_some_iff,
                Option.pure_def, Option.some.injEq] at ids
              obtain ⟨type, here, types, there, rfl⟩ := ids
              rw [List.mapM_cons, List.mapM_cons, complete.descriptorOf?, here, ih types there]
              rfl

theorem protoKey? (item : ProtoItem) {proto : ProtoOutline}
    (outlined : item.outline? file.outline.list = some proto) :
    file.protoKey? item = file.outline.prototype? proto.types := by
  simp only [ProtoItem.outline?, Option.bind_eq_some_iff, Option.map_eq_some_iff] at outlined
  obtain ⟨shorty, _, returnType, here, parameters, there, rfl⟩ := outlined
  rw [protoKey?_eq, complete.descriptorOf?, complete.parametersOf?, here, there]
  rfl

theorem keyOf?_protos : file.protos.items.keyOf? file.protoKey? = file.outline.protoKey? := by
  funext id
  rw [Outline.protoKey?]
  cases found : file.protos.items.item? id with
  | none => simp [outline, Section.keyOf?, found]
  | some item =>
      obtain ⟨proto, shape⟩ := Option.isSome_iff_exists.1 (complete.protos id item found)
      have outlined : file.outline.proto id = some proto := by
        simpa [outline, Section.keyOf?, found] using shape
      rw [outlined, Section.keyOf?, found, Option.bind_some, Option.bind_some,
        complete.protoKey? item shape]

theorem keyOf?_fields : file.fields.items.keyOf? file.fieldKey? = file.outline.fieldKey? := by
  funext id
  rw [Outline.fieldKey?]
  cases found : file.fields.items.item? id with
  | none => simp [outline, Section.keyOf?, found]
  | some item =>
      obtain ⟨field, shape⟩ := Option.isSome_iff_exists.1 (complete.fields id item found)
      have outlined : file.outline.field id = some field := by
        simpa [outline, Section.keyOf?, found] using shape
      obtain ⟨hereOwner, hereType, hereName⟩ := FieldItem.outline?_eq_some.1 shape
      rw [outlined, Section.keyOf?, found, Option.bind_some, Option.bind_some]
      simp only [fieldKey?, complete.descriptorOf?, complete.stringOf?, hereOwner, hereType, hereName,
        Outline.memberField?, Option.bind_some, Option.bind_eq_bind, Option.map_eq_bind]
      rfl

theorem keyOf?_methods : file.methods.items.keyOf? file.methodKey? = file.outline.methodKey? := by
  funext id
  rw [Outline.methodKey?]
  cases found : file.methods.items.item? id with
  | none => simp [outline, Section.keyOf?, found]
  | some item =>
      obtain ⟨method, shape⟩ := Option.isSome_iff_exists.1 (complete.methods id item found)
      have outlined : file.outline.method id = some method := by
        simpa [outline, Section.keyOf?, found] using shape
      obtain ⟨hereOwner, hereProto, hereName⟩ := MethodItem.outline?_eq_some.1 shape
      have key := congrFun complete.keyOf?_protos method.proto
      rw [outlined, Section.keyOf?, found, Option.bind_some, Option.bind_some, methodKey?_eq,
        complete.descriptorOf?, complete.stringOf?, hereOwner, hereProto, hereName, Option.bind_some,
        Option.bind_some, Option.bind_some, Outline.memberMethod?, ← key, Section.keyOf?]
      cases file.protos.items.item? method.proto with
      | none =>
          cases file.outline.descriptor? method.owner with
          | none => rfl
          | some _ => cases file.outline.string method.name <;> rfl
      | some item => rfl

end Complete

/-- The strings of a file by their values. -/
theorem Complete.keyOf?_strings (complete : file.Complete) :
    file.strings.items.keyOf? (fun item => some item.value) = file.outline.value? := by
  funext id
  rw [Outline.value?]
  cases found : file.strings.items.item? id with
  | none => simp [outline, Section.keyOf?, found]
  | some item =>
      obtain ⟨text, value⟩ := complete.decoded found
      simp [outline, Section.keyOf?, found, value, StringData.text?]

end DexFile

/-- A key map that is not stale finds exactly the given keys. -/
def Pool.Reflects [BEq κ] [Hashable κ] (pool : Pool κ α) (keyOf? : Id α → Option κ) : Prop :=
  pool.stale = false → ∀ (key : κ) (id : Id α), pool.keys[key]? = some id ↔ keyOf? id = some key

theorem Pool.reflects_keyOf? [BEq κ] [Hashable κ] {pool : Pool κ α} {key? : α → Option κ} :
    pool.Reflects (pool.items.keyOf? key?) ↔ pool.Trusted key? := by
  constructor
  · exact fun reflects fresh => ⟨fresh, fun key id => (reflects fresh key id).trans Section.keyOf?_eq_some⟩
  · exact fun trusted fresh key id => ((trusted fresh).keys key id).trans Section.keyOf?_eq_some.symm

namespace DexFile

/-- Every item has an outline, the outline is sound and no fresh key map lies. -/
structure Sound (file : DexFile) : Prop where
  valid : ∀ part : Part, (part.items file).Valid
  strings : file.strings.items.Valid
  complete : file.Complete
  outline : file.outline.Sound
  /-- A prototype without a list has no offset either. -/
  parameters : file.protos.items.All fun item => item.parameters.Linked
  stringKeys : file.strings.Reflects file.outline.value?
  typeKeys : file.types.Reflects file.outline.descriptor?
  protoKeys : file.protos.Reflects file.outline.protoKey?
  fieldKeys : file.fields.Reflects file.outline.fieldKey?
  methodKeys : file.methods.Reflects file.outline.methodKey?

variable {file final : DexFile}

/-- Different items of a sound file have different keys. -/
theorem Sound.keysDistinct (sound : file.Sound) : file.KeysDistinct where
  strings := sound.strings.nodup_keyed
    (sound.complete.keyOf?_strings ▸ sound.outline.distinct.separates_value?)
  types := (sound.valid .typeId).nodup_keyed (by
    exact sound.complete.keyOf?_types ▸ sound.outline.distinct.separates_descriptor?)
  protos := (sound.valid .protoId).nodup_keyed (by
    exact sound.complete.keyOf?_protos ▸ sound.outline.distinct.separates_protoKey?)
  fields := (sound.valid .fieldId).nodup_keyed (by
    exact sound.complete.keyOf?_fields ▸ sound.outline.distinct.separates_fieldKey?)
  methods := (sound.valid .methodId).nodup_keyed (by
    exact sound.complete.keyOf?_methods ▸ sound.outline.distinct.separates_methodKey?)

theorem Sound.keysTrusted (sound : file.Sound) : file.KeysTrusted where
  strings := Pool.reflects_keyOf?.1 (sound.complete.keyOf?_strings ▸ sound.stringKeys)
  types := Pool.reflects_keyOf?.1 (sound.complete.keyOf?_types ▸ sound.typeKeys)
  protos := Pool.reflects_keyOf?.1 (sound.complete.keyOf?_protos ▸ sound.protoKeys)
  fields := Pool.reflects_keyOf?.1 (sound.complete.keyOf?_fields ▸ sound.fieldKeys)
  methods := Pool.reflects_keyOf?.1 (sound.complete.keyOf?_methods ▸ sound.methodKeys)

/-- No key map is stale. -/
structure Fresh (file : DexFile) : Prop where
  strings : file.strings.stale = false
  types : file.types.stale = false
  protos : file.protos.stale = false
  fields : file.fields.stale = false
  methods : file.methods.stale = false

theorem SameItems.outline (same : file.SameItems final) : final.outline = file.outline := by
  have lists : final.typeLists = file.typeLists := same.items .typeList
  have classes : final.classDefs = file.classDefs := same.items .classDef
  simp only [DexFile.outline, same.strings, same.types, same.protos, same.fields, same.methods, lists,
    classes]

/-- Key maps do not count for what the items are built on. -/
theorem SameItems.complete (same : file.SameItems final) (complete : file.Complete) : final.Complete where
  strings := by rw [same.strings]; exact complete.strings
  types := by rw [same.types]; exact complete.types
  lists := by
    rw [show final.typeLists = file.typeLists from same.items .typeList]
    exact complete.lists
  protos := by rw [same.protos, same.outline]; exact complete.protos
  fields := by rw [same.fields]; exact complete.fields
  methods := by rw [same.methods]; exact complete.methods
  classes := by
    rw [show final.classDefs = file.classDefs from same.items .classDef]
    exact complete.classes

/-- Known key maps are fresh. -/
theorem KeysKnown.fresh (known : file.KeysKnown) : file.Fresh :=
  ⟨known.strings.fresh, known.types.fresh, known.protos.fresh, known.fields.fresh, known.methods.fresh⟩

/-- A rebuild of the keys of a sound file succeeds and changes key maps only. -/
theorem Sound.rebuildKeys (sound : file.Sound) : ∃ final, rebuildKeys file = .ok () final ∧
    file.SameItems final ∧ final.Fresh ∧ final.Sound := by
  obtain ⟨final, run, same, knows⟩ := rebuildKeys_of_distinct sound.valid sound.strings
    sound.keysDistinct sound.keysTrusted
  have outline := same.outline
  have complete := same.complete sound.complete
  refine ⟨final, run, same, knows.fresh, ?_⟩
  exact {
    valid := fun part => by rw [same.items]; exact sound.valid part
    strings := by rw [same.strings]; exact sound.strings
    complete
    outline := by rw [outline]; exact sound.outline
    parameters := by rw [same.protos]; exact sound.parameters
    stringKeys := complete.keyOf?_strings ▸ Pool.reflects_keyOf?.2 fun _ => knows.strings
    typeKeys := complete.keyOf?_types ▸ Pool.reflects_keyOf?.2 fun _ => knows.types
    protoKeys := complete.keyOf?_protos ▸ Pool.reflects_keyOf?.2 fun _ => knows.protos
    fieldKeys := complete.keyOf?_fields ▸ Pool.reflects_keyOf?.2 fun _ => knows.fields
    methodKeys := complete.keyOf?_methods ▸ Pool.reflects_keyOf?.2 fun _ => knows.methods }

end DexFile
end DexArsc.Dex
