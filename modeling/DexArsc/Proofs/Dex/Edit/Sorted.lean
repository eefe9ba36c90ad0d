/-
The canonical order of the id sections. A sorted file ascends by the indexes that its items name, which
are the places of their keys, so two sorted files with the same keys have them in the same order.
-/

import DexArsc.Proofs.Dex.Edit.Run
import DexArsc.Proofs.Dex.Section.Change

namespace DexArsc.Dex

variable {α κ : Type}

/-- The UTF-16 code units of a string. -/
def StringItem.rank (item : StringItem) : List UInt16 :=
  Text.units item.value.lossyText

/-- The index of a type's descriptor. -/
def TypeItem.rank (strings : Section StringItem) (item : TypeItem) : List UInt32 :=
  [item.descriptor.currentIndex strings]

/-- The indexes of a prototype's return type and parameter types. -/
def ProtoItem.rank (types : Section TypeItem) (lists : Section TypeList) (item : ProtoItem) :
    List UInt32 :=
  item.returnType.currentIndex types ::
    match item.parameters.item.bind lists.item? with
    | some list => list.types.map fun ref => ref.currentIndex types
    | none => []

/-- The indexes of a field's class, name and type. -/
def FieldItem.rank (strings : Section StringItem) (types : Section TypeItem) (item : FieldItem) :
    List UInt32 :=
  [item.owner.currentIndex types, item.name.currentIndex strings, item.type.currentIndex types]

/-- The indexes of a method's class, name and prototype. -/
def MethodItem.rank (strings : Section StringItem) (types : Section TypeItem)
    (protos : Section ProtoItem) (item : MethodItem) : List UInt32 :=
  [item.owner.currentIndex types, item.name.currentIndex strings, item.proto.currentIndex protos]

/-- The keys of a section's items in wire order. -/
def Section.keyRow (items : Section α) (key? : α → Option κ) : List κ :=
  (items.keyed key?).map Prod.fst

/-- The place of a key in a row, as an index. -/
def keyPlace [DecidableEq κ] (row : List κ) (key : κ) : UInt32 :=
  UInt32.ofNat (row.idxOf key)

/-- Different keys of a row have different places, as long as an index holds every place. -/
theorem keyPlace_inj [DecidableEq κ] {row : List κ} (fits : row.length ≤ UInt32.size) {first second : κ}
    (here : first ∈ row) (there : second ∈ row) (same : keyPlace row first = keyPlace row second) :
    first = second := by
  have bound := List.idxOf_lt_length_of_mem here
  have bound' := List.idxOf_lt_length_of_mem there
  have places := congrArg UInt32.toNat same
  unfold keyPlace at places
  rw [UInt32.toNat_ofNat_of_lt' (Nat.lt_of_lt_of_le bound fits),
    UInt32.toNat_ofNat_of_lt' (Nat.lt_of_lt_of_le bound' fits)] at places
  exact (List.idxOf_inj here).1 places

namespace Section

variable {items : Section α} {key? : α → Option κ} {grammar : κ → Prop}

theorem Valid.mem_keyRow (valid : items.Valid) {key : κ} :
    key ∈ items.keyRow key? ↔ ∃ id, items.keyOf? key? id = some key := by
  unfold keyRow
  simp only [List.mem_map, Prod.exists, valid.mem_keyed, keyOf?_eq_some]
  constructor
  · rintro ⟨_, id, found, rfl⟩
    exact ⟨id, found⟩
  · rintro ⟨id, found⟩
    exact ⟨key, id, found, rfl⟩

/-- Sections in which every id has the same key have the same keys. -/
theorem Valid.mem_keyRow_congr {other : Section α} {otherKey? : α → Option κ} (valid : items.Valid)
    (valid' : other.Valid) (same : other.keyOf? otherKey? = items.keyOf? key?) (key : κ) :
    key ∈ other.keyRow otherKey? ↔ key ∈ items.keyRow key? := by
  rw [valid'.mem_keyRow, valid.mem_keyRow, same]

theorem keyRow_eq (items : Section α) (key? : α → Option κ) :
    items.keyRow key? = items.order.toList.filterMap (items.keyOf? key?) := by
  unfold keyRow keyed entries
  rw [List.filterMap_filterMap, List.map_filterMap]
  congr 1
  funext id
  unfold keyOf?
  cases items.item? id with
  | none => rfl
  | some item => cases key : key? item <;> simp [key]

/-- Every item has its key in its own place. -/
theorem KeyedBy.map_keyRow (keyed : items.KeyedBy key? grammar) (valid : items.Valid) :
    (items.keyRow key?).map some = items.order.toList.map (items.keyOf? key?) := by
  rw [keyRow_eq, List.map_filterMap]
  apply List.filterMap_eq_map_iff_forall_eq_some.2
  intro id listed
  obtain ⟨item, found⟩ := Option.isSome_iff_exists.1
    (valid.mem_order_iff.1 (Array.mem_toList_iff.1 listed))
  obtain ⟨key, named, _⟩ := keyed.keyed id item found
  rw [keyOf?_of_item? found, named]
  rfl

theorem KeyedBy.length_keyRow (keyed : items.KeyedBy key? grammar) (valid : items.Valid) :
    (items.keyRow key?).length = items.size := by
  have lengths := congrArg List.length (keyed.map_keyRow valid)
  rwa [List.length_map, List.length_map, Array.length_toList] at lengths

/-- The index of an item is the place of its key. -/
theorem KeyedBy.indexOf? [DecidableEq κ] (keyed : items.KeyedBy key? grammar) (valid : items.Valid)
    {id : Id α} {key : κ} (found : items.keyOf? key? id = some key) :
    items.indexOf? id = some (keyPlace (items.keyRow key?) key) := by
  have row := keyed.map_keyRow valid
  have distinct : (items.keyRow key?).Nodup := valid.nodup_keyed keyed.apart
  obtain ⟨item, live, _⟩ := keyOf?_eq_some.1 found
  obtain ⟨slot, listed⟩ := Array.mem_iff_getElem?.1
    (valid.mem_order_iff.2 (Option.isSome_iff_exists.2 ⟨item, live⟩))
  have here : (items.keyRow key?)[slot]? = some key := by
    have same := congrArg (fun row => row[slot]?) row
    simp only [List.getElem?_map, Array.getElem?_toList, listed, Option.map_some, found,
      Option.map_eq_some_iff, Option.some.injEq, exists_eq_right] at same
    exact same
  obtain ⟨inside, same⟩ := List.getElem?_eq_some_iff.1 here
  have first : (items.keyRow key?).idxOf key = slot := by
    rw [← same]
    exact distinct.idxOf_getElem slot inside
  rw [valid.index slot id listed, keyPlace, first]

theorem KeyedBy.currentIndex [DecidableEq κ] (keyed : items.KeyedBy key? grammar)
    (valid : items.Valid) {ref : IndexRef α} {key : κ}
    (found : ref.item.bind (items.keyOf? key?) = some key) :
    ref.currentIndex items = keyPlace (items.keyRow key?) key := by
  obtain ⟨id, named, found⟩ := Option.bind_eq_some_iff.1 found
  unfold IndexRef.currentIndex
  rw [named, Option.bind_some, keyed.indexOf? valid found, Option.getD_some]

variable {υ : Type} {rank : α → List υ} {keyRank : κ → List υ}

/-- The rank of every item is a function of its key. -/
def RankedBy (items : Section α) (key? : α → Option κ) (rank : α → List υ) (keyRank : κ → List υ) :
    Prop :=
  ∀ id item key, items.item? id = some item → key? item = some key → rank item = keyRank key

theorem KeyedBy.ranksApart (keyed : items.KeyedBy key? grammar)
    (ranked : items.RankedBy key? rank keyRank)
    (apart : ∀ item other key key', key? item = some key → key? other = some key' →
      keyRank key = keyRank key' → key = key') : items.RanksApart rank := by
  intro first second item other here there same
  obtain ⟨key, named, _⟩ := keyed.keyed first item here
  obtain ⟨key', named', _⟩ := keyed.keyed second other there
  rw [ranked first item key here named, ranked second other key' there named'] at same
  have equal := apart item other key key' named named' same
  exact keyed.apart first second key ((keyOf?_of_item? here key?).trans named)
    ((keyOf?_of_item? there key?).trans (equal ▸ named'))

/-- The keys of an ascending section ascend. -/
theorem Ascends.pairwise_keyRow [LT υ] (ascends : items.Ascends rank) (valid : items.Valid)
    (ranked : items.RankedBy key? rank keyRank) :
    (items.keyRow key?).Pairwise fun first second => keyRank first < keyRank second := by
  unfold keyRow keyed
  rw [List.map_filterMap, List.pairwise_filterMap]
  apply ascends.imp_of_mem
  intro first second inside inside' below key named key' named'
  obtain ⟨id, item⟩ := first
  obtain ⟨id', other⟩ := second
  simp only [Option.map_map, Function.comp_def, Option.map_id'] at named named'
  rw [← ranked id item key (valid.mem_entries.1 inside) named,
    ← ranked id' other key' (valid.mem_entries.1 inside') named']
  exact below

end Section

/-- Two rows with the same keys in ascending order are equal. -/
theorem eq_of_ascending {υ : Type} [LT υ] [LE υ] [Std.IsLinearOrder υ] [Std.LawfulOrderLT υ]
    {keyRank : κ → List υ} {row other : List κ}
    (ascends : row.Pairwise fun first second => keyRank first < keyRank second)
    (ascends' : other.Pairwise fun first second => keyRank first < keyRank second)
    (same : ∀ key, key ∈ row ↔ key ∈ other) : row = other := by
  have distinct {keys : List κ}
      (ascends : keys.Pairwise fun first second => keyRank first < keyRank second) : keys.Nodup := by
    apply ascends.imp
    rintro first _ below rfl
    exact List.lt_irrefl _ below
  have perm : row.Perm other :=
    (List.perm_ext_iff_of_nodup (distinct ascends) (distinct ascends')).2 same
  exact perm.eq_of_pairwise (fun _ _ _ _ below above => absurd above (List.lt_asymm below)) ascends
    ascends'

namespace DexFile

/-- The keys of ids in wire order. -/
@[ext]
structure KeyRows where
  strings : List String
  types : List String
  protos : List Prototype
  fields : List FieldKey
  methods : List MethodKey

/-- The keys of a file's ids in wire order. -/
def keyRows (file : DexFile) : KeyRows where
  strings := file.strings.items.keyRow fun item => item.value.text?
  types := file.types.items.keyRow file.typeKey?
  protos := file.protos.items.keyRow file.protoKey?
  fields := file.fields.items.keyRow file.fieldKey?
  methods := file.methods.items.keyRow file.methodKey?

/-- Two files have the same sets of keys. -/
structure KeyRows.SameSets (rows others : KeyRows) : Prop where
  strings : ∀ text, text ∈ rows.strings ↔ text ∈ others.strings
  types : ∀ descriptor, descriptor ∈ rows.types ↔ descriptor ∈ others.types
  protos : ∀ key, key ∈ rows.protos ↔ key ∈ others.protos
  fields : ∀ key, key ∈ rows.fields ↔ key ∈ others.fields
  methods : ∀ key, key ∈ rows.methods ↔ key ∈ others.methods

/-- The id sections are in the order that the format demands. -/
structure Ascending (file : DexFile) : Prop where
  strings : file.strings.items.Ascends StringItem.rank
  types : file.types.items.Ascends (TypeItem.rank file.strings.items)
  protos : file.protos.items.Ascends (ProtoItem.rank file.types.items file.typeLists)
  fields : file.fields.items.Ascends (FieldItem.rank file.strings.items file.types.items)
  methods : file.methods.items.Ascends
    (MethodItem.rank file.strings.items file.types.items file.protos.items)

/-- Every string, type and prototype has an index of its own, which is 32 bits wide. -/
structure Addressable (file : DexFile) : Prop where
  strings : file.strings.items.size ≤ UInt32.size
  types : file.types.items.size ≤ UInt32.size
  protos : file.protos.items.size ≤ UInt32.size

/-- The rank of a type by its descriptor. -/
def KeyRows.typeRank (rows : KeyRows) (descriptor : String) : List UInt32 :=
  [keyPlace rows.strings descriptor]

def KeyRows.protoRank (rows : KeyRows) (key : Prototype) : List UInt32 :=
  keyPlace rows.types key.returnType :: key.parameters.map (keyPlace rows.types)

def KeyRows.fieldRank (rows : KeyRows) (key : FieldKey) : List UInt32 :=
  [keyPlace rows.types key.owner, keyPlace rows.strings key.name, keyPlace rows.types key.type]

def KeyRows.methodRank (rows : KeyRows) (key : MethodKey) : List UInt32 :=
  [keyPlace rows.types key.owner, keyPlace rows.strings key.name, keyPlace rows.protos key.prototype]

variable {file final : DexFile}

theorem protoKey?_eq_some {item : ProtoItem} {key : Prototype} :
    file.protoKey? item = some key ↔ file.descriptorOf? item.returnType = some key.returnType ∧
      file.parametersOf? item.parameters.item = some key.parameters := by
  obtain ⟨returnType, parameters⟩ := key
  rw [protoKey?_eq]
  simp only [Option.bind_eq_some_iff, Option.map_eq_some_iff, Prototype.mk.injEq]
  constructor
  · rintro ⟨_, returns, _, takes, rfl, rfl⟩
    exact ⟨returns, takes⟩
  · rintro ⟨returns, takes⟩
    exact ⟨returnType, returns, parameters, takes, rfl, rfl⟩

theorem fieldKey?_eq_some {item : FieldItem} {key : FieldKey} :
    file.fieldKey? item = some key ↔ file.descriptorOf? item.owner = some key.owner ∧
      file.stringOf? item.name = some key.name ∧ file.descriptorOf? item.type = some key.type := by
  obtain ⟨owner, name, type⟩ := key
  simp only [fieldKey?, Option.bind_eq_bind, Option.bind_eq_some_iff, Option.pure_def,
    Option.some.injEq, FieldKey.mk.injEq]
  constructor
  · rintro ⟨_, owned, _, called, _, typed, rfl, rfl, rfl⟩
    exact ⟨owned, called, typed⟩
  · rintro ⟨owned, called, typed⟩
    exact ⟨owner, owned, name, called, type, typed, rfl, rfl, rfl⟩

/-- The key of a linked prototype. -/
def protoKeyOf? (file : DexFile) (ref : IndexRef ProtoItem) : Option Prototype :=
  ref.item.bind (file.protos.items.keyOf? file.protoKey?)

theorem methodKey?_eq_some {item : MethodItem} {key : MethodKey} :
    file.methodKey? item = some key ↔ file.descriptorOf? item.owner = some key.owner ∧
      file.stringOf? item.name = some key.name ∧ file.protoKeyOf? item.proto = some key.prototype := by
  obtain ⟨owner, name, prototype⟩ := key
  simp only [methodKey?, protoKeyOf?, Section.keyOf?, Option.bind_eq_bind, Option.bind_eq_some_iff,
    Option.pure_def, Option.some.injEq, MethodKey.mk.injEq]
  constructor
  · rintro ⟨id, refers, proto, here, _, owned, _, called, _, shaped, rfl, rfl, rfl⟩
    exact ⟨owned, called, id, refers, proto, here, shaped⟩
  · rintro ⟨owned, called, id, refers, proto, here, shaped⟩
    exact ⟨id, refers, proto, here, owner, owned, name, called, prototype, shaped, rfl, rfl, rfl⟩

section Ranked

variable (sound : file.Sound)
include sound

theorem Sound.index_string {ref : IndexRef StringItem} {text : String}
    (found : file.stringOf? ref = some text) :
    ref.currentIndex file.strings.items = keyPlace file.keyRows.strings text := by
  rw [sound.complete.stringOf?] at found
  exact sound.wellKeyed.strings.currentIndex sound.strings found

theorem Sound.mem_strings {ref : IndexRef StringItem} {text : String}
    (found : file.stringOf? ref = some text) : text ∈ file.keyRows.strings := by
  rw [sound.complete.stringOf?] at found
  obtain ⟨id, _, found⟩ := Option.bind_eq_some_iff.1 found
  exact sound.strings.mem_keyRow.2 ⟨id, found⟩

theorem Sound.index_type {ref : IndexRef TypeItem} {descriptor : String}
    (found : file.descriptorOf? ref = some descriptor) :
    ref.currentIndex file.types.items = keyPlace file.keyRows.types descriptor := by
  rw [sound.complete.descriptorOf?, ← sound.complete.keyOf?_types] at found
  exact sound.wellKeyed.types.currentIndex (sound.valid .typeId) found

theorem Sound.mem_types {ref : IndexRef TypeItem} {descriptor : String}
    (found : file.descriptorOf? ref = some descriptor) : descriptor ∈ file.keyRows.types := by
  rw [sound.complete.descriptorOf?, ← sound.complete.keyOf?_types] at found
  obtain ⟨id, _, found⟩ := Option.bind_eq_some_iff.1 found
  exact (sound.valid .typeId).mem_keyRow.2 ⟨id, found⟩

theorem Sound.index_proto {ref : IndexRef ProtoItem} {key : Prototype}
    (found : file.protoKeyOf? ref = some key) :
    ref.currentIndex file.protos.items = keyPlace file.keyRows.protos key :=
  sound.wellKeyed.protos.currentIndex (sound.valid .protoId) found

theorem Sound.mem_protos {ref : IndexRef ProtoItem} {key : Prototype}
    (found : file.protoKeyOf? ref = some key) : key ∈ file.keyRows.protos := by
  obtain ⟨id, _, found⟩ := Option.bind_eq_some_iff.1 found
  exact (sound.valid .protoId).mem_keyRow.2 ⟨id, found⟩

/-- The indexes of a list of types are the places of their descriptors, which are types of the file. -/
theorem Sound.index_types {refs : List (IndexRef TypeItem)} {descriptors : List String}
    (found : refs.mapM file.descriptorOf? = some descriptors) :
    refs.map (fun ref => ref.currentIndex file.types.items) =
        descriptors.map (keyPlace file.keyRows.types) ∧
      ∀ descriptor ∈ descriptors, descriptor ∈ file.keyRows.types := by
  induction refs generalizing descriptors with
  | nil =>
      cases found
      exact ⟨rfl, fun _ inside => by cases inside⟩
  | cons ref rest ih =>
      simp only [List.mapM_cons, Option.bind_eq_bind, Option.bind_eq_some_iff, Option.pure_def,
        Option.some.injEq] at found
      obtain ⟨descriptor, here, others, there, rfl⟩ := found
      obtain ⟨indexes, inside⟩ := ih there
      rw [List.map_cons, List.map_cons, sound.index_type here, indexes]
      exact ⟨rfl, List.forall_mem_cons.2 ⟨sound.mem_types here, inside⟩⟩

theorem Sound.mem_parameters {id : Option (Id TypeList)} {descriptors : List String}
    (found : file.parametersOf? id = some descriptors) :
    ∀ descriptor ∈ descriptors, descriptor ∈ file.keyRows.types := by
  unfold parametersOf? at found
  cases id with
  | none =>
      cases found
      exact fun _ inside => by cases inside
  | some id =>
      obtain ⟨list, _, found⟩ := Option.bind_eq_some_iff.1 found
      exact (sound.index_types found).2

theorem Sound.rankedBy_types : file.types.items.RankedBy file.typeKey?
    (TypeItem.rank file.strings.items) file.keyRows.typeRank := by
  intro id item descriptor found named
  unfold TypeItem.rank KeyRows.typeRank
  rw [sound.index_string named]

theorem Sound.rankedBy_protos : file.protos.items.RankedBy file.protoKey?
    (ProtoItem.rank file.types.items file.typeLists) file.keyRows.protoRank := by
  intro id item key found named
  obtain ⟨returns, takes⟩ := protoKey?_eq_some.1 named
  unfold ProtoItem.rank KeyRows.protoRank
  rw [sound.index_type returns]
  congr 1
  unfold parametersOf? at takes
  cases listed : item.parameters.item with
  | none =>
      rw [listed, Option.elim_none, Option.some.injEq] at takes
      rw [← takes]
      rfl
  | some list =>
      rw [listed, Option.elim_some, Option.bind_eq_some_iff] at takes
      obtain ⟨types, here, takes⟩ := takes
      rw [Option.bind_some, here]
      exact (sound.index_types takes).1

theorem Sound.rankedBy_fields : file.fields.items.RankedBy file.fieldKey?
    (FieldItem.rank file.strings.items file.types.items) file.keyRows.fieldRank := by
  intro id item key found named
  obtain ⟨owned, called, typed⟩ := fieldKey?_eq_some.1 named
  unfold FieldItem.rank KeyRows.fieldRank
  rw [sound.index_type owned, sound.index_string called, sound.index_type typed]

theorem Sound.rankedBy_methods : file.methods.items.RankedBy file.methodKey?
    (MethodItem.rank file.strings.items file.types.items file.protos.items)
    file.keyRows.methodRank := by
  intro id item key found named
  obtain ⟨owned, called, shaped⟩ := methodKey?_eq_some.1 named
  unfold MethodItem.rank KeyRows.methodRank
  rw [sound.index_type owned, sound.index_string called, sound.index_proto shaped]

end Ranked

section Apart

variable (sound : file.Sound) (fits : file.Addressable)
include sound fits

theorem Sound.string_of_place {first second : String} (here : first ∈ file.keyRows.strings)
    (there : second ∈ file.keyRows.strings)
    (same : keyPlace file.keyRows.strings first = keyPlace file.keyRows.strings second) :
    first = second := by
  apply keyPlace_inj _ here there same
  exact sound.wellKeyed.strings.length_keyRow sound.strings ▸ fits.strings

theorem Sound.type_of_place {first second : String} (here : first ∈ file.keyRows.types)
    (there : second ∈ file.keyRows.types)
    (same : keyPlace file.keyRows.types first = keyPlace file.keyRows.types second) :
    first = second := by
  apply keyPlace_inj _ here there same
  exact sound.wellKeyed.types.length_keyRow (sound.valid .typeId) ▸ fits.types

theorem Sound.proto_of_place {first second : Prototype} (here : first ∈ file.keyRows.protos)
    (there : second ∈ file.keyRows.protos)
    (same : keyPlace file.keyRows.protos first = keyPlace file.keyRows.protos second) :
    first = second := by
  apply keyPlace_inj _ here there same
  exact sound.wellKeyed.protos.length_keyRow (sound.valid .protoId) ▸ fits.protos

theorem Sound.types_of_places {first second : List String}
    (here : ∀ descriptor ∈ first, descriptor ∈ file.keyRows.types)
    (there : ∀ descriptor ∈ second, descriptor ∈ file.keyRows.types)
    (same : first.map (keyPlace file.keyRows.types) = second.map (keyPlace file.keyRows.types)) :
    first = second := by
  induction first generalizing second with
  | nil => exact (List.map_eq_nil_iff.1 same.symm).symm
  | cons head rest ih =>
      cases second with
      | nil => cases same
      | cons other others =>
          obtain ⟨place, places⟩ := List.cons.inj same
          rw [sound.type_of_place fits (here head List.mem_cons_self) (there other List.mem_cons_self)
            place, ih (fun descriptor inside => here descriptor (List.mem_cons_of_mem _ inside))
            (fun descriptor inside => there descriptor (List.mem_cons_of_mem _ inside)) places]

theorem Sound.ranksApart_types :
    file.types.items.RanksApart (TypeItem.rank file.strings.items) := by
  apply sound.wellKeyed.types.ranksApart sound.rankedBy_types
  intro item other key key' named named' same
  exact sound.string_of_place fits (sound.mem_strings named) (sound.mem_strings named')
    (List.singleton_inj.1 same)

theorem Sound.ranksApart_protos :
    file.protos.items.RanksApart (ProtoItem.rank file.types.items file.typeLists) := by
  apply sound.wellKeyed.protos.ranksApart sound.rankedBy_protos
  intro item other key key' named named' same
  obtain ⟨returns, takes⟩ := protoKey?_eq_some.1 named
  obtain ⟨returns', takes'⟩ := protoKey?_eq_some.1 named'
  obtain ⟨first, second⟩ := List.cons.inj same
  have returnType := sound.type_of_place fits (sound.mem_types returns) (sound.mem_types returns') first
  have parameters := sound.types_of_places fits (sound.mem_parameters takes)
    (sound.mem_parameters takes') second
  cases key
  cases key'
  exact Prototype.mk.injEq .. ▸ ⟨returnType, parameters⟩

theorem Sound.ranksApart_fields :
    file.fields.items.RanksApart (FieldItem.rank file.strings.items file.types.items) := by
  apply sound.wellKeyed.fields.ranksApart sound.rankedBy_fields
  intro item other key key' named named' same
  obtain ⟨owned, called, typed⟩ := fieldKey?_eq_some.1 named
  obtain ⟨owned', called', typed'⟩ := fieldKey?_eq_some.1 named'
  simp only [KeyRows.fieldRank, List.cons.injEq, and_true] at same
  obtain ⟨first, second, third⟩ := same
  have owner := sound.type_of_place fits (sound.mem_types owned) (sound.mem_types owned') first
  have name := sound.string_of_place fits (sound.mem_strings called) (sound.mem_strings called') second
  have type := sound.type_of_place fits (sound.mem_types typed) (sound.mem_types typed') third
  cases key
  cases key'
  exact FieldKey.mk.injEq .. ▸ ⟨owner, name, type⟩

theorem Sound.ranksApart_methods : file.methods.items.RanksApart
    (MethodItem.rank file.strings.items file.types.items file.protos.items) := by
  apply sound.wellKeyed.methods.ranksApart sound.rankedBy_methods
  intro item other key key' named named' same
  obtain ⟨owned, called, shaped⟩ := methodKey?_eq_some.1 named
  obtain ⟨owned', called', shaped'⟩ := methodKey?_eq_some.1 named'
  simp only [KeyRows.methodRank, List.cons.injEq, and_true] at same
  obtain ⟨first, second, third⟩ := same
  have owner := sound.type_of_place fits (sound.mem_types owned) (sound.mem_types owned') first
  have name := sound.string_of_place fits (sound.mem_strings called) (sound.mem_strings called') second
  have prototype := sound.proto_of_place fits (sound.mem_protos shaped) (sound.mem_protos shaped') third
  cases key
  cases key'
  exact MethodKey.mk.injEq .. ▸ ⟨owner, name, prototype⟩

end Apart

end DexFile
end DexArsc.Dex
