/-
The keys of a file that was brought up to date. The references that keys are built on name live
items, so wherever sorting, a refresh or writing ends the outline is the one before.
-/

import DexArsc.Proofs.Dex.Edit.Names
import DexArsc.Proofs.Dex.Edit.UpToDate

namespace DexArsc.Dex

variable {α κ : Type}

/-- Items that follow items with the same keys have the same keys. -/
theorem Section.Follows.keyOf? {follows : α → α → Prop} {items final : Section α}
    (before : items.Follows follows final) {key? : α → Option κ}
    (same : ∀ id item image, items.item? id = some item → follows item image →
      key? image = key? item) : final.keyOf? key? = items.keyOf? key? := by
  funext id
  cases here : items.item? id with
  | none =>
      have live := before.live id
      rw [here, Option.isSome_none, Option.isSome_eq_false_iff, Option.isNone_iff_eq_none] at live
      unfold Section.keyOf?
      rw [here, live]
  | some item =>
      obtain ⟨image, there⟩ := Option.isSome_iff_exists.1 ((before.live id).trans (by rw [here]; rfl))
      rw [keyOf?_of_item? here, keyOf?_of_item? there]
      exact same id item image here (before.items id item image here there)

/-- Items that follow items with keys have keys. -/
theorem Section.Follows.all_keyed {follows : α → α → Prop} {items final : Section α}
    (before : items.Follows follows final) {key? : α → Option κ}
    (same : final.keyOf? key? = items.keyOf? key?) (all : items.All fun item => (key? item).isSome) :
    final.All fun item => (key? item).isSome := fun id image found => by
  obtain ⟨item, here, _⟩ := before.exists_item found
  rw [← keyOf?_of_item? found key?, same, keyOf?_of_item? here]
  exact all id item here

/-- An item with a key is live. -/
theorem Section.isSome_of_keyOf? {items : Section α} {key? : α → Option κ} {id : Id α}
    (keyed : (items.keyOf? key? id).isSome) : (items.item? id).isSome := by
  unfold keyOf? at keyed
  exact Option.isSome_of_isSome_bind keyed

theorem Pool.SameKeys.reflects [BEq κ] [Hashable κ] {pool final : Pool κ α} {keyOf? : Id α → Option κ}
    (same : pool.SameKeys final) (reflects : pool.Reflects keyOf?) : final.Reflects keyOf? := by
  unfold Reflects
  rw [same.keys, same.stale]
  exact reflects

/-- The reference names a live item. -/
def IndexRef.Names (items : Section α) (ref : IndexRef α) : Prop :=
  ∃ id, ref.item = some id ∧ (items.item? id).isSome

/-- A reference with the same trace as one that names a live item names the same item. -/
theorem IndexRef.Names.item_eq {items : Section α} {ref image : IndexRef α} (names : ref.Names items)
    (same : image.traced items = ref.traced items) : image.item = ref.item := by
  obtain ⟨id, named, live⟩ := names
  rw [named]
  exact item_of_traced same named live

theorem IndexRef.Names.live {items : Section α} {ref : IndexRef α} (names : ref.Names items) :
    ref.Live items := by
  obtain ⟨id, named, live⟩ := names
  exact ⟨fun none => by simp [named] at none, fun other same => by
    rw [named] at same
    cases same
    exact live⟩

/-- References with the same traces as ones that name live items name the same items. -/
theorem IndexRef.map_item_of_traced {items : Section α} {refs images : List (IndexRef α)}
    (same : images.map (traced items) = refs.map (traced items)) (names : ∀ ref ∈ refs, ref.Names items) :
    images.map IndexRef.item = refs.map IndexRef.item := by
  induction refs generalizing images with
  | nil =>
      rw [List.map_nil, List.map_eq_nil_iff] at same
      rw [same]
  | cons ref rest ih =>
      cases images with
      | nil => cases same
      | cons image others =>
          rw [List.map_cons, List.map_cons, List.cons.injEq] at same
          rw [List.map_cons, List.map_cons, (names ref List.mem_cons_self).item_eq same.1,
            ih same.2 fun other inside => names other (List.mem_cons_of_mem _ inside)]

theorem TypeList.ids?_congr {list image : TypeList}
    (same : image.types.map IndexRef.item = list.types.map IndexRef.item) : image.ids? = list.ids? := by
  apply Option.ext
  intro types
  rw [ids?_eq_some, ids?_eq_some, same]

namespace DexFile

variable {file final : DexFile}

theorem names_string {ref : IndexRef StringItem} {id : Id StringItem} (named : ref.item = some id)
    (found : (file.outline.string id).isSome) : ref.Names file.strings.items :=
  ⟨id, named, Section.isSome_of_keyOf? found⟩

theorem names_type {ref : IndexRef TypeItem} {id : Id TypeItem} (named : ref.item = some id)
    (found : (file.outline.descriptor? id).isSome) : ref.Names file.types.items :=
  ⟨id, named, Section.isSome_of_keyOf? (Option.isSome_of_isSome_bind found)⟩

namespace Sound

variable (sound : file.Sound)
include sound

theorem names_of_type {id : Id TypeItem} {item : TypeItem}
    (found : file.types.items.item? id = some item) : item.descriptor.Names file.strings.items := by
  obtain ⟨name, named⟩ := Option.isSome_iff_exists.1 (sound.complete.types id item found)
  have outlined : file.outline.type id = some name := (Section.keyOf?_of_item? found _).trans named
  obtain ⟨text, here, _⟩ := sound.outline.types id name outlined
  exact names_string named (by rw [here]; rfl)

theorem names_of_list {id : Id TypeList} {list : TypeList}
    (found : file.typeLists.item? id = some list) {ref : IndexRef TypeItem}
    (inside : ref ∈ list.types) : ref.Names file.types.items := by
  obtain ⟨types, ids⟩ := Option.isSome_iff_exists.1 (sound.complete.lists id list found)
  have outlined : file.outline.list id = some types := (Section.keyOf?_of_item? found _).trans ids
  have named : ref.item ∈ types.map some :=
    TypeList.ids?_eq_some.1 ids ▸ List.mem_map_of_mem inside
  obtain ⟨type, listed, named⟩ := List.mem_map.1 named
  exact names_type named.symm (sound.outline.lists id types outlined type listed)

/-- What a prototype of a sound file names. -/
theorem names_of_proto {id : Id ProtoItem} {item : ProtoItem}
    (found : file.protos.items.item? id = some item) : item.shorty.Names file.strings.items ∧
      item.returnType.Names file.types.items ∧ item.parameters.Live file.typeLists := by
  obtain ⟨proto, shape⟩ := Option.isSome_iff_exists.1 (sound.complete.protos id item found)
  have outlined : file.outline.proto id = some proto := (Section.keyOf?_of_item? found _).trans shape
  have fits := sound.outline.protos id proto outlined
  simp only [ProtoItem.outline?, Option.bind_eq_some_iff, Option.map_eq_some_iff] at shape
  obtain ⟨shorty, first, returnType, second, parameters, third, rfl⟩ := shape
  refine ⟨names_string first fits.shorty, names_type second fits.returnType,
    sound.parameters id item found, fun list named => ?_⟩
  rw [named, Option.elim_some] at third
  exact Section.isSome_of_keyOf? (Option.isSome_iff_exists.2 ⟨parameters, third⟩)

/-- What a field of a sound file names. -/
theorem names_of_field {id : Id FieldItem} {item : FieldItem}
    (found : file.fields.items.item? id = some item) : item.owner.Names file.types.items ∧
      item.type.Names file.types.items ∧ item.name.Names file.strings.items := by
  obtain ⟨field, shape⟩ := Option.isSome_iff_exists.1 (sound.complete.fields id item found)
  have outlined : file.outline.field id = some field := (Section.keyOf?_of_item? found _).trans shape
  have fits := sound.outline.fields id field outlined
  obtain ⟨owner, type, name⟩ := FieldItem.outline?_eq_some.1 shape
  obtain ⟨descriptor, typed, _⟩ := fits.type
  obtain ⟨text, named, _⟩ := fits.name
  exact ⟨names_type owner fits.owner, names_type type (by rw [typed]; rfl),
    names_string name (by rw [named]; rfl)⟩

/-- What a method of a sound file names. -/
theorem names_of_method {id : Id MethodItem} {item : MethodItem}
    (found : file.methods.items.item? id = some item) : item.owner.Names file.types.items ∧
      item.proto.Names file.protos.items ∧ item.name.Names file.strings.items := by
  obtain ⟨method, shape⟩ := Option.isSome_iff_exists.1 (sound.complete.methods id item found)
  have outlined : file.outline.method id = some method :=
    (Section.keyOf?_of_item? found _).trans shape
  have fits := sound.outline.methods id method outlined
  obtain ⟨owner, proto, name⟩ := MethodItem.outline?_eq_some.1 shape
  obtain ⟨text, named, _⟩ := fits.name
  exact ⟨names_type owner fits.owner, ⟨_, proto, Section.isSome_of_keyOf? fits.proto⟩,
    names_string name (by rw [named]; rfl)⟩

theorem names_of_class {id : Id ClassDef} {item : ClassDef}
    (found : file.classDefs.item? id = some item) : item.type.Names file.types.items := by
  obtain ⟨type, named⟩ := Option.isSome_iff_exists.1 (sound.complete.classes id item found)
  have outlined : file.outline.defined id = some type := (Section.keyOf?_of_item? found _).trans named
  exact names_type named (sound.outline.classes id type outlined)

/-- The keys of a file that follows are built on the same items. -/
theorem outline_follow (follows : file.Follows final) : final.outline = file.outline := by
  have strings : final.outline.string = file.outline.string :=
    follows.strings.keyOf? fun id item image _ same => congrArg StringData.text? same
  have types : final.outline.type = file.outline.type :=
    (follows.parts .typeId).keyOf? fun id item image found same =>
      (sound.names_of_type found).item_eq (congrArg TypeItem.descriptor same.traced)
  have lists : final.outline.list = file.outline.list := by
    refine (follows.parts .typeList).keyOf? fun id item image found same => ?_
    have traced := congrArg TypeList.types same.traced
    exact TypeList.ids?_congr
      (IndexRef.map_item_of_traced traced fun ref => sound.names_of_list found)
  have protos : final.outline.proto = file.outline.proto := by
    change final.protos.items.keyOf? (ProtoItem.outline? final.outline.list) = _
    rw [lists]
    refine (follows.parts .protoId).keyOf? fun id item image found same => ?_
    obtain ⟨shorty, returnType, parameters⟩ := sound.names_of_proto found
    obtain ⟨_, _, after⟩ := same.live ⟨shorty.live, returnType.live, parameters⟩
    unfold ProtoItem.outline?
    rw [shorty.item_eq (congrArg ProtoItem.shorty same.traced),
      returnType.item_eq (congrArg ProtoItem.returnType same.traced),
      OffsetRef.Live.item_eq (congrArg ProtoItem.parameters same.traced) parameters after]
  have fields : final.outline.field = file.outline.field := by
    refine (follows.parts .fieldId).keyOf? fun id item image found same => ?_
    obtain ⟨owner, type, name⟩ := sound.names_of_field found
    unfold FieldItem.outline?
    rw [owner.item_eq (congrArg FieldItem.owner same.traced),
      type.item_eq (congrArg FieldItem.type same.traced),
      name.item_eq (congrArg FieldItem.name same.traced)]
  have methods : final.outline.method = file.outline.method := by
    refine (follows.parts .methodId).keyOf? fun id item image found same => ?_
    obtain ⟨owner, proto, name⟩ := sound.names_of_method found
    unfold MethodItem.outline?
    rw [owner.item_eq (congrArg MethodItem.owner same.traced),
      proto.item_eq (congrArg MethodItem.proto same.traced),
      name.item_eq (congrArg MethodItem.name same.traced)]
  have classes : final.outline.defined = file.outline.defined :=
    (follows.parts .classDef).keyOf? fun id item image found same =>
      (sound.names_of_class found).item_eq same.traced
  exact Outline.mk.injEq .. ▸ ⟨strings, types, lists, protos, fields, methods, classes⟩

/-- A file that follows a sound file is sound. -/
theorem follow (follows : file.Follows final) : final.Sound := by
  have outline := sound.outline_follow follows
  exact {
    valid := fun part => (follows.parts part).valid (sound.valid part)
    strings := follows.strings.valid sound.strings
    complete := {
      strings := follows.strings.all_keyed (congrArg Outline.string outline) sound.complete.strings
      types := (follows.parts .typeId).all_keyed (congrArg Outline.type outline) sound.complete.types
      lists := (follows.parts .typeList).all_keyed (congrArg Outline.list outline) sound.complete.lists
      protos := by
        rw [outline]
        refine (follows.parts .protoId).all_keyed ?_ sound.complete.protos
        have protos : final.protos.items.keyOf? (ProtoItem.outline? final.outline.list) =
          file.outline.proto := congrArg Outline.proto outline
        rwa [outline] at protos
      fields := (follows.parts .fieldId).all_keyed (congrArg Outline.field outline) sound.complete.fields
      methods :=
        (follows.parts .methodId).all_keyed (congrArg Outline.method outline) sound.complete.methods
      classes :=
        (follows.parts .classDef).all_keyed (congrArg Outline.defined outline) sound.complete.classes }
    outline := by rw [outline]; exact sound.outline
    parameters := fun id image found => by
      obtain ⟨item, here, same⟩ := (follows.parts .protoId).exists_item found
      obtain ⟨shorty, returnType, parameters⟩ := sound.names_of_proto here
      exact (same.live ⟨shorty.live, returnType.live, parameters⟩).2.2.absent
    stringKeys := by rw [outline]; exact follows.stringKeys.reflects sound.stringKeys
    typeKeys := by rw [outline]; exact follows.typeKeys.reflects sound.typeKeys
    protoKeys := by rw [outline]; exact follows.protoKeys.reflects sound.protoKeys
    fieldKeys := by rw [outline]; exact follows.fieldKeys.reflects sound.fieldKeys
    methodKeys := by rw [outline]; exact follows.methodKeys.reflects sound.methodKeys }

end Sound

end DexFile
end DexArsc.Dex
