/-
Interning: an id with a key is found or becomes a new one. A sound file stays sound, and everything
that it had stays as it was.
-/

import DexArsc.Proofs.Dex.Edit.Names

namespace DexArsc.Dex

variable {κ α : Type}

/-- Every element of a list has its image among the images. -/
theorem mem_of_mapM_eq_some {β : Type} {image : α → Option β} {values : List α} {images : List β}
    (run : values.mapM image = some images) {value : α} (inside : value ∈ values) :
    ∃ result ∈ images, image value = some result :=
  forall₂_mem (mapM_eq_some.1 run).flip inside

namespace Section

/-- A new item has a key of its own, and all others keep theirs. -/
theorem keyOf?_push (items : Section α) (item : α) (key? : α → Option κ) :
    (items.push item).2.keyOf? key? =
      Function.update (items.keyOf? key?) (items.push item).1 (key? item) := by
  funext id
  rw [keyOf?, item?_push, Function.update_apply]
  split <;> rfl

theorem keyOf?_id_push (items : Section α) (item : α) (key? : α → Option κ) :
    items.keyOf? key? (items.push item).1 = none := by
  rw [keyOf?, item?_id_push]
  rfl

theorem within_push (items : Section α) (item : α) :
    Within items.item? (items.push item).2.item? := by
  have update : (items.push item).2.item? =
      Function.update items.item? (items.push item).1 (some item) := by
    funext id
    rw [item?_push, Function.update_apply]
  rw [update]
  exact .update (item?_id_push items item) _

end Section

namespace Pool

variable [BEq κ] [Hashable κ]

/-- The pool with a new last item under a new key. -/
def pushKeyed (pool : Pool κ α) (key : κ) (item : α) : Pool κ α where
  items := (pool.items.push item).2
  keys := pool.keys.insert key (pool.items.push item).1
  stale := pool.stale

/-- A key map that is extended with the key of a new item. -/
theorem Reflects.pushKeyed [LawfulBEq κ] {pool : Pool κ α} {keyOf? : Id α → Option κ}
    (reflects : pool.Reflects keyOf?) {key : κ} (absent : pool.keys[key]? = none) (item : α)
    (free : keyOf? (pool.items.push item).1 = none) : (pool.pushKeyed key item).Reflects
      (Function.update keyOf? (pool.items.push item).1 (some key)) := by
  intro fresh other id
  have known := reflects fresh
  have none (id : Id α) : keyOf? id ≠ some key := fun found => by
    rw [← known, absent] at found
    cases found
  unfold Pool.pushKeyed
  rw [Std.HashMap.getElem?_insert, Function.update_apply]
  by_cases same : id = (pool.items.push item).1
  · rw [if_pos same, Option.some.injEq]
    by_cases equal : key = other
    · simp [equal, same]
    · rw [if_neg (by simpa using equal), known, same, free]
      simp [equal]
  · rw [if_neg same]
    by_cases equal : key = other
    · subst equal
      rw [if_pos (beq_self_eq_true key), Option.some.injEq]
      exact ⟨fun equal => absurd equal.symm same, fun found => absurd found (none id)⟩
    · rw [if_neg (by simpa using equal), known]

end Pool

namespace DexFile

variable {file final third : DexFile}

/-- A fresh pool answers with the item under a key, or it receives a new one. -/
theorem internItem_apply [BEq κ] [Hashable κ] [KeyText κ] (part : DexFile → Pool κ α)
    (put : Pool κ α → DexFile → DexFile) (key : κ) (item : α)
    (putPut : ∀ first second, put first (put second file) = put first file)
    (putPart : put (part file) file = file) (fresh : (part file).stale = false) :
    internItem part put key item file = match (part file).keys[key]? with
      | some id => .ok id file
      | none => .ok ((part file).items.push item).1 (put ((part file).pushKeyed key item) file) := by
  unfold internItem Pool.findOrPush Pool.pushKeyed
  simp only [putPut]
  generalize part file = pool at *
  obtain ⟨items, keys, stale⟩ := pool
  cases fresh
  cases keys[key]? with
  | some id => simp only [Bool.false_eq_true, if_false, putPart]
  | none => simp only [Bool.false_eq_true, if_false]

/-- Everything that a file had is as it was, and all that is new are ids and type lists. -/
structure Grows (file final : DexFile) : Prop where
  strings : Within file.strings.items.item? final.strings.items.item?
  types : Within file.types.items.item? final.types.items.item?
  protos : Within file.protos.items.item? final.protos.items.item?
  fields : Within file.fields.items.item? final.fields.items.item?
  methods : Within file.methods.items.item? final.methods.items.item?
  typeLists : Within file.typeLists.item? final.typeLists.item?
  others : final = { file with
    strings := final.strings
    types := final.types
    protos := final.protos
    fields := final.fields
    methods := final.methods
    typeLists := final.typeLists }

namespace Grows

theorem refl (file : DexFile) : file.Grows file :=
  ⟨.refl _, .refl _, .refl _, .refl _, .refl _, .refl _, rfl⟩

theorem trans (before : file.Grows final) (behind : final.Grows third) : file.Grows third where
  strings := before.strings.trans behind.strings
  types := before.types.trans behind.types
  protos := before.protos.trans behind.protos
  fields := before.fields.trans behind.fields
  methods := before.methods.trans behind.methods
  typeLists := before.typeLists.trans behind.typeLists
  others := by
    have first := before.others
    have second := behind.others
    rw [first] at second
    exact second

theorem of_sameItems (same : file.SameItems final) : file.Grows final where
  strings := by rw [same.strings]; exact .refl _
  types := by rw [same.types]; exact .refl _
  protos := by rw [same.protos]; exact .refl _
  fields := by rw [same.fields]; exact .refl _
  methods := by rw [same.methods]; exact .refl _
  typeLists := by
    rw [show final.typeLists = file.typeLists from same.items .typeList]
    exact .refl _
  others := by
    have others := same.others
    rw [others]

theorem classDefs (grows : file.Grows final) : final.classDefs = file.classDefs := by
  rw [grows.others]

/-- An outline grows with its file. -/
theorem outline (grows : file.Grows final) : file.outline.Extends final.outline where
  string := grows.strings.bind (.refl _)
  type := grows.types.bind (.refl _)
  list := grows.typeLists.bind (.refl _)
  proto := grows.protos.bind fun item proto outlined => by
    simp only [ProtoItem.outline?, Option.bind_eq_some_iff, Option.map_eq_some_iff] at outlined ⊢
    obtain ⟨shorty, hereShorty, returnType, hereReturn, parameters, hereParameters, rfl⟩ := outlined
    refine ⟨shorty, hereShorty, returnType, hereReturn, parameters, ?_, rfl⟩
    cases named : item.parameters.item with
    | none => rwa [named] at hereParameters
    | some id =>
        rw [named] at hereParameters
        exact grows.typeLists.bind (.refl _) id parameters hereParameters
  field := grows.fields.bind (.refl _)
  method := grows.methods.bind (.refl _)
  defined := by
    change Within (file.classDefs.keyOf? _) (final.classDefs.keyOf? _)
    rw [grows.classDefs]
    exact .refl _

end Grows

/-- A sound file that has grown and whose new prototypes have the shorties of their keys. -/
structure Interned (file final : DexFile) : Prop where
  sound : final.Sound
  grows : file.Grows final
  shorties : file.outline.Shorties → final.outline.Shorties
  fresh : file.Fresh → final.Fresh

namespace Interned

theorem refl (sound : file.Sound) : file.Interned file :=
  ⟨sound, .refl file, fun shorties => shorties, fun fresh => fresh⟩

theorem trans (before : file.Interned final) (behind : final.Interned third) : file.Interned third :=
  ⟨behind.sound, before.grows.trans behind.grows, fun shorties =>
    behind.shorties (before.shorties shorties), fun fresh => behind.fresh (before.fresh fresh)⟩

end Interned

/-- The file with a new string. -/
def withString (file : DexFile) (text : String) : DexFile :=
  { file with strings := file.strings.pushKeyed (.decoded text) { value := .decoded text } }

/-- The file with a new type. -/
def withType (file : DexFile) (descriptor : String) (name : Id StringItem) : DexFile :=
  { file with types := file.types.pushKeyed descriptor { descriptor := .ofId name } }

/-- The file with a new list. -/
def withList (file : DexFile) (types : List (Id TypeItem)) : DexFile :=
  { file with typeLists := (file.typeLists.push { types := types.map .ofId }).2 }

/-- The file with a new prototype. -/
def withProto (file : DexFile) (key : Prototype) (item : ProtoItem) : DexFile :=
  { file with protos := file.protos.pushKeyed key item }

/-- The file with a new field. -/
def withField (file : DexFile) (key : FieldKey) (item : FieldItem) : DexFile :=
  { file with fields := file.fields.pushKeyed key item }

/-- The file with a new method. -/
def withMethod (file : DexFile) (key : MethodKey) (item : MethodItem) : DexFile :=
  { file with methods := file.methods.pushKeyed key item }

section With

variable (sound : file.Sound)
include sound

/-- A new string has a text that no other one has. -/
theorem Sound.withString {text : String} (fresh : file.strings.stale = false)
    (new : file.strings.keys[StringData.decoded text]? = none) :
    file.Interned (file.withString text) ∧ (file.withString text).outline.string
      (file.strings.items.push { value := .decoded text }).1 = some text := by
  have free : file.outline.string (file.strings.items.push { value := .decoded text }).1 = none :=
    Section.keyOf?_id_push ..
  have outline : (file.withString text).outline = { file.outline with
      string := Function.update file.outline.string
        (file.strings.items.push { value := .decoded text }).1 (some text) } := by
    unfold DexFile.outline DexFile.withString Pool.pushKeyed
    simp only [Section.keyOf?_push]
    rfl
  have value : (file.withString text).outline.value? = Function.update file.outline.value?
      (file.strings.items.push { value := .decoded text }).1 (some (.decoded text)) := by
    funext id
    simp only [outline, Outline.value?, Function.update_apply]
    split <;> rfl
  have grows : file.Grows (file.withString text) :=
    { Grows.refl file with strings := Section.within_push _ _, others := rfl }
  have unknown (id : Id StringItem) : file.outline.string id ≠ some text := fun found => by
    have known := (sound.stringKeys fresh (.decoded text) id).2 (Outline.value?_eq_some.2 found)
    rw [new] at known
    cases known
  refine ⟨⟨{
    valid := fun part => by
      have valid := sound.valid part
      cases part <;> exact valid
    strings := sound.strings.push _
    complete := { sound.complete with strings := sound.complete.strings.push rfl }
    outline := by rw [outline]; exact sound.outline.addString free unknown
    parameters := sound.parameters
    stringKeys := value ▸ sound.stringKeys.pushKeyed new _ (Option.map_eq_none_iff.2 free)
    typeKeys := by rw [sound.outline.descriptor?_eq grows.outline rfl]; exact sound.typeKeys
    protoKeys := by rw [sound.outline.protoKey?_eq grows.outline rfl]; exact sound.protoKeys
    fieldKeys := by rw [sound.outline.fieldKey?_eq grows.outline rfl]; exact sound.fieldKeys
    methodKeys := by rw [sound.outline.methodKey?_eq grows.outline rfl]; exact sound.methodKeys },
    grows, fun shorties => shorties.grow sound.outline grows.outline fun _ _ found => .inl found,
    fun fresh => { fresh with }⟩, by rw [outline]; exact Function.update_self ..⟩

/-- A new type has a descriptor that no other one has. -/
theorem Sound.withType {descriptor : String} {name : Id StringItem}
    (fresh : file.types.stale = false) (new : file.types.keys[descriptor]? = none)
    (named : file.outline.string name = some descriptor) (grammar : isTypeDescriptor descriptor) :
    file.Interned (file.withType descriptor name) ∧
      (file.withType descriptor name).outline.descriptor?
        (file.types.items.push { descriptor := .ofId name }).1 = some descriptor := by
  have free : file.outline.type (file.types.items.push { descriptor := .ofId name }).1 = none :=
    Section.keyOf?_id_push ..
  have outline : (file.withType descriptor name).outline = { file.outline with
      type := Function.update file.outline.type
        (file.types.items.push { descriptor := .ofId name }).1 (some name) } := by
    unfold DexFile.outline DexFile.withType Pool.pushKeyed
    simp only [Section.keyOf?_push]
    rfl
  have key : (file.withType descriptor name).outline.descriptor? =
      Function.update file.outline.descriptor?
        (file.types.items.push { descriptor := .ofId name }).1 (some descriptor) := by
    funext id
    simp only [outline, Outline.descriptor?, Function.update_apply]
    split
    · exact named
    · rfl
  have grows : file.Grows (file.withType descriptor name) :=
    { Grows.refl file with types := Section.within_push _ _, others := rfl }
  have unknown (id : Id TypeItem) : file.outline.type id ≠ some name := fun found => by
    have known := (sound.typeKeys fresh descriptor id).2 (by rw [Outline.descriptor?, found]; exact named)
    rw [new] at known
    cases known
  refine ⟨⟨{
    valid := fun part => by
      have valid := sound.valid part
      cases part <;> first | exact valid | exact valid.push _
    strings := sound.strings
    complete := { sound.complete with types := sound.complete.types.push rfl }
    outline := by rw [outline]; exact sound.outline.addType free ⟨descriptor, named, grammar⟩ unknown
    parameters := sound.parameters
    stringKeys := sound.stringKeys
    typeKeys := key ▸ sound.typeKeys.pushKeyed new _ (by rw [Outline.descriptor?, free]; rfl)
    protoKeys := by rw [sound.outline.protoKey?_eq grows.outline rfl]; exact sound.protoKeys
    fieldKeys := by rw [sound.outline.fieldKey?_eq grows.outline rfl]; exact sound.fieldKeys
    methodKeys := by rw [sound.outline.methodKey?_eq grows.outline rfl]; exact sound.methodKeys },
    grows, fun shorties => shorties.grow sound.outline grows.outline fun _ _ found => .inl found,
    fun fresh => { fresh with }⟩, by rw [key]; exact Function.update_self ..⟩

/-- A new list of types. -/
theorem Sound.withList {types : List (Id TypeItem)} (fits : file.outline.FitsList types) :
    file.Interned (file.withList types) ∧ (file.withList types).outline.list
      (file.typeLists.push { types := types.map .ofId }).1 = some types := by
  have ids : TypeList.ids? { types := types.map .ofId } = some types :=
    TypeList.ids?_eq_some.2 (List.map_map ..)
  have free : file.outline.list (file.typeLists.push { types := types.map .ofId }).1 = none :=
    Section.keyOf?_id_push ..
  have grows : file.Grows (file.withList types) :=
    { Grows.refl file with typeLists := Section.within_push _ _, others := rfl }
  have protos : (file.withList types).outline.proto = file.outline.proto :=
    grows.outline.proto.eq fun id live => by
      obtain ⟨proto, found⟩ := Option.isSome_iff_exists.1 live
      obtain ⟨item, here, _⟩ := Section.keyOf?_eq_some.1 found
      exact (congrArg Option.isSome (Section.keyOf?_of_item? here _)).trans
        (sound.complete.protos id item here)
  have outline : (file.withList types).outline = { file.outline with
      list := Function.update file.outline.list
        (file.typeLists.push { types := types.map .ofId }).1 (some types) } := by
    have list : (file.withList types).outline.list = Function.update file.outline.list
        (file.typeLists.push { types := types.map .ofId }).1 (some types) := by
      rw [← ids]
      exact Section.keyOf?_push ..
    have parts : (file.withList types).outline = { file.outline with
      list := (file.withList types).outline.list
      proto := (file.withList types).outline.proto } := rfl
    rwa [list, protos] at parts
  refine ⟨⟨{
    valid := fun part => by
      have valid := sound.valid part
      cases part <;> first | exact valid | exact valid.push _
    strings := sound.strings
    complete := { sound.complete with
      lists := sound.complete.lists.push (congrArg Option.isSome ids)
      protos := fun id item found => by
        have same := congrFun protos id
        rw [show file.outline.proto id = item.outline? file.outline.list from
          Section.keyOf?_of_item? found _, show (file.withList types).outline.proto id =
            item.outline? (file.withList types).outline.list from
          Section.keyOf?_of_item? found _] at same
        exact (congrArg Option.isSome same).trans (sound.complete.protos id item found) }
    outline := by rw [outline]; exact sound.outline.addList free fits
    parameters := sound.parameters
    stringKeys := sound.stringKeys
    typeKeys := sound.typeKeys
    protoKeys := by rw [sound.outline.protoKey?_eq grows.outline protos]; exact sound.protoKeys
    fieldKeys := sound.fieldKeys
    methodKeys := by
      rw [sound.outline.methodKey?_eq grows.outline rfl]
      exact sound.methodKeys },
    grows, fun shorties => shorties.grow sound.outline grows.outline fun _ _ found =>
      .inl (protos ▸ found), fun fresh => { fresh with }⟩, by rw [outline]; exact Function.update_self ..⟩

/-- A new prototype has a key that no other one has, and the shorty of its key. -/
theorem Sound.withProto {key : Prototype} {item : ProtoItem} {proto : ProtoOutline}
    (fresh : file.protos.stale = false) (new : file.protos.keys[key]? = none)
    (outlined : item.outline? file.outline.list = some proto)
    (keyed : file.outline.prototype? proto.types = some key) (linked : item.parameters.Linked)
    (shorty : file.outline.string proto.shorty = some key.shorty)
    (values : ∀ parameter ∈ key.parameters, parameter ≠ "V") :
    file.Interned (file.withProto key item) ∧ (file.withProto key item).outline.protoKey?
      (file.protos.items.push item).1 = some key := by
  have free : file.outline.proto (file.protos.items.push item).1 = none := Section.keyOf?_id_push ..
  have outline : (file.withProto key item).outline = { file.outline with
      proto := Function.update file.outline.proto (file.protos.items.push item).1 (some proto) } := by
    have protos : (file.withProto key item).outline.proto =
        Function.update file.outline.proto (file.protos.items.push item).1 (some proto) := by
      rw [← outlined]
      exact Section.keyOf?_push ..
    rw [← protos]
    rfl
  have keys : (file.withProto key item).outline.protoKey? =
      Function.update file.outline.protoKey? (file.protos.items.push item).1 (some key) := by
    funext id
    simp only [outline, Outline.protoKey?, Function.update_apply]
    split
    · exact keyed
    · rfl
  have grows : file.Grows (file.withProto key item) :=
    { Grows.refl file with protos := Section.within_push _ _, others := rfl }
  have unknown (id : Id ProtoItem) :
      (file.outline.proto id).map ProtoOutline.types ≠ some proto.types := fun found => by
    obtain ⟨other, here, same⟩ := Option.map_eq_some_iff.1 found
    have known := (sound.protoKeys fresh key id).2 (by
      rw [Outline.protoKey?, here, Option.bind_some, same]
      exact keyed)
    rw [new] at known
    cases known
  have fits : file.outline.FitsProto proto := by
    obtain ⟨returnType, hereReturn, rest⟩ := Option.bind_eq_some_iff.1 keyed
    obtain ⟨parameters, hereParameters, rfl⟩ := Option.map_eq_some_iff.1 rest
    exact {
      shorty := by rw [shorty]; rfl
      returnType := by rw [show file.outline.descriptor? proto.returnType = _ from hereReturn]; rfl
      parameters := fun type inside => by
        obtain ⟨text, listed, found⟩ := mem_of_mapM_eq_some hereParameters inside
        exact ⟨text, found, values text listed⟩ }
  refine ⟨⟨{
    valid := fun part => by
      have valid := sound.valid part
      cases part <;> first | exact valid | exact valid.push _
    strings := sound.strings
    complete := { sound.complete with
      protos := sound.complete.protos.push (congrArg Option.isSome outlined) }
    outline := by rw [outline]; exact sound.outline.addProto free fits unknown
    parameters := sound.parameters.push linked
    stringKeys := sound.stringKeys
    typeKeys := sound.typeKeys
    protoKeys := keys ▸ sound.protoKeys.pushKeyed new _ (by rw [Outline.protoKey?, free]; rfl)
    fieldKeys := sound.fieldKeys
    methodKeys := by rw [sound.outline.methodKey?_eq grows.outline rfl]; exact sound.methodKeys },
    grows, fun shorties => shorties.grow sound.outline grows.outline fun id other found => ?_,
    fun fresh => { fresh with }⟩, by rw [keys]; exact Function.update_self ..⟩
  rw [outline] at found
  rcases update_eq_some found with ⟨rfl, rfl⟩ | old
  · refine .inr fun other there => ?_
    rw [keys, Function.update_self, Option.some.injEq] at there
    rw [← there]
    exact shorty
  · exact .inl old

/-- A new field has a key that no other one has. -/
theorem Sound.withField {key : FieldKey} {item : FieldItem} {field : FieldOutline}
    (fresh : file.fields.stale = false) (new : file.fields.keys[key]? = none)
    (outlined : item.outline? = some field) (keyed : file.outline.memberField? field = some key)
    (grammar : key.check = .ok ()) : file.Interned (file.withField key item) ∧
      (file.withField key item).outline.fieldKey? (file.fields.items.push item).1 = some key := by
  have free : file.outline.field (file.fields.items.push item).1 = none := Section.keyOf?_id_push ..
  have outline : (file.withField key item).outline = { file.outline with
      field := Function.update file.outline.field (file.fields.items.push item).1 (some field) } := by
    rw [← outlined]
    unfold DexFile.outline DexFile.withField Pool.pushKeyed
    simp only [Section.keyOf?_push]
  have keys : (file.withField key item).outline.fieldKey? =
      Function.update file.outline.fieldKey? (file.fields.items.push item).1 (some key) := by
    funext id
    simp only [outline, Outline.fieldKey?, Function.update_apply]
    split
    · exact keyed
    · rfl
  have grows : file.Grows (file.withField key item) :=
    { Grows.refl file with fields := Section.within_push _ _, others := rfl }
  have unknown (id : Id FieldItem) : file.outline.field id ≠ some field := fun found => by
    have known := (sound.fieldKeys fresh key id).2 (by rw [Outline.fieldKey?, found]; exact keyed)
    rw [new] at known
    cases known
  have fits : file.outline.FitsField field := by
    simp only [Outline.memberField?, Option.bind_eq_some_iff, Option.map_eq_some_iff] at keyed
    obtain ⟨owner, hereOwner, name, hereName, type, hereType, rfl⟩ := keyed
    obtain ⟨_, named, _, value⟩ := FieldKey.check_eq_ok.1 grammar
    exact ⟨by rw [hereOwner]; rfl, ⟨type, hereType, value⟩, ⟨name, hereName, named⟩⟩
  refine ⟨⟨{
    valid := fun part => by
      have valid := sound.valid part
      cases part <;> first | exact valid | exact valid.push _
    strings := sound.strings
    complete := { sound.complete with
      fields := sound.complete.fields.push (congrArg Option.isSome outlined) }
    outline := by rw [outline]; exact sound.outline.addField free fits unknown
    parameters := sound.parameters
    stringKeys := sound.stringKeys
    typeKeys := sound.typeKeys
    protoKeys := sound.protoKeys
    fieldKeys := keys ▸ sound.fieldKeys.pushKeyed new _ (by rw [Outline.fieldKey?, free]; rfl)
    methodKeys := sound.methodKeys },
    grows, fun shorties => shorties.grow sound.outline grows.outline fun _ _ found => .inl found,
    fun fresh => { fresh with }⟩, by rw [keys]; exact Function.update_self ..⟩

/-- A new method has a key that no other one has. -/
theorem Sound.withMethod {key : MethodKey} {item : MethodItem} {method : MethodOutline}
    (fresh : file.methods.stale = false) (new : file.methods.keys[key]? = none)
    (outlined : item.outline? = some method) (keyed : file.outline.memberMethod? method = some key)
    (grammar : key.checkNames = .ok ()) : file.Interned (file.withMethod key item) ∧
      (file.withMethod key item).outline.methodKey? (file.methods.items.push item).1 = some key := by
  have free : file.outline.method (file.methods.items.push item).1 = none :=
    Section.keyOf?_id_push ..
  have outline : (file.withMethod key item).outline = { file.outline with
      method := Function.update file.outline.method (file.methods.items.push item).1 (some method) } := by
    rw [← outlined]
    unfold DexFile.outline DexFile.withMethod Pool.pushKeyed
    simp only [Section.keyOf?_push]
  have keys : (file.withMethod key item).outline.methodKey? =
      Function.update file.outline.methodKey? (file.methods.items.push item).1 (some key) := by
    funext id
    simp only [outline, Outline.methodKey?, Function.update_apply]
    split
    · exact keyed
    · rfl
  have grows : file.Grows (file.withMethod key item) :=
    { Grows.refl file with methods := Section.within_push _ _, others := rfl }
  have unknown (id : Id MethodItem) : file.outline.method id ≠ some method := fun found => by
    have known := (sound.methodKeys fresh key id).2 (by rw [Outline.methodKey?, found]; exact keyed)
    rw [new] at known
    cases known
  have fits : file.outline.FitsMethod method := by
    simp only [Outline.memberMethod?, Option.bind_eq_some_iff, Option.map_eq_some_iff] at keyed
    obtain ⟨owner, hereOwner, name, hereName, prototype, hereProto, rfl⟩ := keyed
    obtain ⟨proto, live, _⟩ := Option.bind_eq_some_iff.1 hereProto
    exact ⟨by rw [hereOwner]; rfl, by rw [live]; rfl,
      ⟨name, hereName, (MethodKey.checkNames_eq_ok.1 grammar).2⟩⟩
  refine ⟨⟨{
    valid := fun part => by
      have valid := sound.valid part
      cases part <;> first | exact valid | exact valid.push _
    strings := sound.strings
    complete := { sound.complete with
      methods := sound.complete.methods.push (congrArg Option.isSome outlined) }
    outline := by rw [outline]; exact sound.outline.addMethod free fits unknown
    parameters := sound.parameters
    stringKeys := sound.stringKeys
    typeKeys := sound.typeKeys
    protoKeys := sound.protoKeys
    fieldKeys := sound.fieldKeys
    methodKeys := keys ▸ sound.methodKeys.pushKeyed new _ (by rw [Outline.methodKey?, free]; rfl) },
    grows, fun shorties => shorties.grow sound.outline grows.outline fun _ _ found => .inl found,
    fun fresh => { fresh with }⟩, by rw [keys]; exact Function.update_self ..⟩

end With
end DexFile
end DexArsc.Dex
