/-
Bringing a file up to date: wherever sorting, a refresh or writing ends, the file there follows the
file that it started from.
-/

import DexArsc.Proofs.Dex.Edit.Follow
import DexArsc.Proofs.Leads

namespace DexArsc.Dex

variable {α : Type}

/-- A section with the same ids, in which every item follows the one before. -/
structure Section.Follows (follows : α → α → Prop) (items final : Section α) : Prop where
  kind : final.kind = items.kind
  valid : items.Valid → final.Valid
  live : items.SameLive final
  items : ∀ id item image, items.item? id = some item → final.item? id = some image → follows item image

namespace Section.Follows

variable {follows : α → α → Prop} {items final third : Section α}

theorem refl (same : ∀ item, follows item item) (items : Section α) : items.Follows follows items where
  kind := rfl
  valid valid := valid
  live _ := rfl
  items _ item _ here there := by
    cases here.symm.trans there
    exact same item

theorem trans (compose : ∀ {item image last}, follows item image → follows image last →
      follows item last) (before : items.Follows follows final) (behind : final.Follows follows third) :
    items.Follows follows third where
  kind := behind.kind.trans before.kind
  valid valid := behind.valid (before.valid valid)
  live id := (behind.live id).trans (before.live id)
  items id item image here there := by
    obtain ⟨between, found⟩ := Option.isSome_iff_exists.1 ((before.live id).trans (by rw [here]; rfl))
    exact compose (before.items id item between here found) (behind.items id between image found there)

/-- An item of the section behind has an item before that it follows. -/
theorem exists_item (before : items.Follows follows final) {id : Id α} {image : α}
    (found : final.item? id = some image) : ∃ item, items.item? id = some item ∧ follows item image := by
  obtain ⟨item, here⟩ := Option.isSome_iff_exists.1 ((before.live id).symm.trans (by rw [found]; rfl))
  exact ⟨item, here, before.items id item image here found⟩

theorem all (before : items.Follows follows final) {property : α → Prop} (all : items.All property)
    (kept : ∀ {item image}, follows item image → property item → property image) :
    final.All property := fun id _ found => by
  obtain ⟨item, here, there⟩ := before.exists_item found
  exact kept there (all id item here)

theorem map {change : α → α} (holds : ∀ item, follows item (change item)) (items : Section α) :
    items.Follows follows (items.map change) where
  kind := rfl
  valid valid := valid.map change
  live id := by rw [item?_map, Option.isSome_map]
  items id item image here there := by
    rw [item?_map, here] at there
    cases there
    exact holds item

/-- Wherever a step on all items ends, the items follow. -/
theorem onItems {step : UInt32 → Step α Unit} (same : ∀ item, follows item item)
    (holds : ∀ offset item, (step offset).Leads follows item) (items : Section α) :
    (Section.onItems step).Leads (Section.Follows follows) items := by
  refine .of_ends fun final ends => ?_
  obtain ⟨frame, images⟩ := onItems_ends ends
  refine ⟨frame.kind, frame.valid, fun id => ?_, fun id item image here there => ?_⟩
  · rw [← isSome_indexOf?, ← isSome_indexOf?, frame.indexOf?]
  · obtain ⟨before, offset, found, outcome⟩ := images id image there
    obtain rfl : item = before := Option.some.inj (here.symm.trans found)
    rcases outcome with kept | ends
    · rw [kept]
      exact same item
    · exact (holds offset item).ends ends

theorem of_unplaced (unplaced : final.unplaced = items.unplaced) (same : ∀ item, follows item item) :
    items.Follows follows final where
  kind := by
    have kind := congrArg Section.kind unplaced
    exact kind
  valid valid := valid.of_unplaced unplaced
  live id := by rw [item?_of_unplaced unplaced]
  items id item image here there := by
    rw [item?_of_unplaced unplaced, here] at there
    cases there
    exact same item

theorem sortBy (valid : items.Valid) (same : ∀ item, follows item item)
    (compare : α → α → Ordering) : items.Follows follows (items.sortBy compare) where
  kind := rfl
  valid _ := valid.sortBy compare
  live id := by rw [valid.item?_sortBy]
  items id item image here there := by
    rw [valid.item?_sortBy, here] at there
    cases there
    exact same item

end Section.Follows

/-- A section with the same ids in the same order, and as many that were there. -/
structure Section.SameIds (items final : Section α) : Prop where
  order : final.order = items.order
  slots : final.cells.size = items.cells.size

namespace Section.SameIds

variable {items final third : Section α}

theorem refl (items : Section α) : items.SameIds items :=
  ⟨rfl, rfl⟩

theorem trans (before : items.SameIds final) (behind : final.SameIds third) : items.SameIds third :=
  ⟨behind.order.trans before.order, behind.slots.trans before.slots⟩

theorem map (items : Section α) (change : α → α) : items.SameIds (items.map change) :=
  ⟨rfl, Array.size_map⟩

theorem of_unplaced (same : final.unplaced = items.unplaced) : items.SameIds final where
  order := order_of_unplaced same
  slots := by
    have cells := congrArg (fun items : Section α => items.cells.size) same
    simpa only [Section.unplaced, Array.size_map] using cells

end Section.SameIds

/-- A string with the same value, wherever its data is. -/
def StringItem.SameValue (item image : StringItem) : Prop :=
  image.value = item.value

theorem StringItem.SameValue.refl (item : StringItem) : item.SameValue item := rfl

/-- Two pools with the same key map. -/
structure Pool.SameKeys {κ : Type} [BEq κ] [Hashable κ] (pool final : Pool κ α) : Prop where
  keys : final.keys = pool.keys
  stale : final.stale = pool.stale

namespace DexFile

variable {file final third : DexFile}

/-- A file with the same ids and key maps, in which every item names the same items as before. -/
structure Follows (file final : DexFile) : Prop where
  parts : ∀ part : Part, (part.items file).Follows (part.Follows file) (part.items final)
  strings : file.strings.items.Follows StringItem.SameValue
    final.strings.items
  stringKeys : file.strings.SameKeys final.strings
  typeKeys : file.types.SameKeys final.types
  protoKeys : file.protos.SameKeys final.protos
  fieldKeys : file.fields.SameKeys final.fields
  methodKeys : file.methods.SameKeys final.methods
  header : file.header.Sound → final.header.Sound
  raws : final.raws.map RawSection.kind = file.raws.map RawSection.kind
  modelled : file.Modelled → final.Modelled
  distinct : file.layout.Nodup → final.layout.Nodup
  sections : file.modelledKinds.Sublist final.modelledKinds
  classes : file.classDefs.SameIds final.classDefs
  readClasses : final.readClasses = file.readClasses

namespace Follows

theorem refl (file : DexFile) : file.Follows file where
  parts _ := .refl (fun item => .refl item) _
  strings := .refl StringItem.SameValue.refl _
  stringKeys := ⟨rfl, rfl⟩
  typeKeys := ⟨rfl, rfl⟩
  protoKeys := ⟨rfl, rfl⟩
  fieldKeys := ⟨rfl, rfl⟩
  methodKeys := ⟨rfl, rfl⟩
  header sound := sound
  raws := rfl
  modelled modelled := modelled
  distinct distinct := distinct
  sections := .refl _
  classes := .refl _
  readClasses := rfl

theorem sameLive (follows : file.Follows final) : file.SameLive final where
  strings := follows.strings.live
  parts part := (follows.parts part).live

theorem trans (before : file.Follows final) (behind : final.Follows third) : file.Follows third where
  parts part := (before.parts part).trans Part.Follows.trans (by
    have same := behind.parts part
    rwa [Part.Follows.congr before.sameLive] at same)
  strings := before.strings.trans (fun here there => Eq.trans there here) behind.strings
  stringKeys := ⟨behind.stringKeys.keys.trans before.stringKeys.keys,
    behind.stringKeys.stale.trans before.stringKeys.stale⟩
  typeKeys := ⟨behind.typeKeys.keys.trans before.typeKeys.keys,
    behind.typeKeys.stale.trans before.typeKeys.stale⟩
  protoKeys := ⟨behind.protoKeys.keys.trans before.protoKeys.keys,
    behind.protoKeys.stale.trans before.protoKeys.stale⟩
  fieldKeys := ⟨behind.fieldKeys.keys.trans before.fieldKeys.keys,
    behind.fieldKeys.stale.trans before.fieldKeys.stale⟩
  methodKeys := ⟨behind.methodKeys.keys.trans before.methodKeys.keys,
    behind.methodKeys.stale.trans before.methodKeys.stale⟩
  header sound := behind.header (before.header sound)
  raws := behind.raws.trans before.raws
  modelled modelled := behind.modelled (before.modelled modelled)
  distinct distinct := behind.distinct (before.distinct distinct)
  sections := before.sections.trans behind.sections
  classes := before.classes.trans behind.classes
  readClasses := behind.readClasses.trans before.readClasses

/-- Another section with the same ids, in which every item follows. Class definitions keep their order. -/
theorem put (part : Part) {items : Section part.Item}
    (follows : (part.items file).Follows (part.Follows file) items)
    (classes : part = .classDef → (part.items file).SameIds items) : file.Follows (part.put file items) where
  parts other := by
    by_cases same : other = part
    · subst same
      rwa [Part.items_put]
    · rw [Part.items_put_of_ne same]
      exact .refl (fun item => .refl item) _
  strings := by
    rw [Part.strings_put]
    exact .refl StringItem.SameValue.refl _
  stringKeys := by cases part <;> exact ⟨rfl, rfl⟩
  typeKeys := by cases part <;> exact ⟨rfl, rfl⟩
  protoKeys := by cases part <;> exact ⟨rfl, rfl⟩
  fieldKeys := by cases part <;> exact ⟨rfl, rfl⟩
  methodKeys := by cases part <;> exact ⟨rfl, rfl⟩
  header := by
    rw [Part.header_put]
    exact id
  raws := by rw [Part.raws_put]
  modelled := by
    unfold Modelled
    rw [Part.layout_put]
    exact id
  distinct := by
    rw [Part.layout_put]
    exact id
  sections := by simp only [modelledKinds, Part.layout_put, List.Sublist.refl]
  classes := by
    cases part with
    | classDef => exact classes rfl
    | _ => exact .refl _
  readClasses := by cases part <;> rfl

/-- Other strings with the same values. -/
theorem putStrings {items : Section StringItem}
    (follows : file.strings.items.Follows StringItem.SameValue items) :
    file.Follows { file with strings.items := items } :=
  { refl file with
    parts := fun part => by cases part <;> exact .refl (fun item => .refl item) _
    strings := follows
    stringKeys := ⟨rfl, rfl⟩ }

/-- Another header in its form. -/
theorem withHeader {header : Header} (sound : file.header.Sound → header.Sound) :
    file.Follows { file with header } :=
  { refl file with
    parts := fun part => by cases part <;> exact .refl (fun item => .refl item) _
    header := sound }

/-- A file follows when only places differ. -/
theorem of_unplaced (same : final.unplaced = file.unplaced) : file.Follows final :=
  have view {β : Type} (view : DexFile → β) : view final.unplaced = view file.unplaced :=
    congrArg view same
{ parts part := .of_unplaced (items_of_unplaced same part) fun item => .refl item
  strings := {
    kind := by
      have kind := congrArg Section.kind (strings_of_unplaced same)
      exact kind
    valid := fun valid => by
      refine valid.congr (order_strings_of_unplaced same) fun id => ?_
      have index := Section.indexOf?_of_unplaced (strings_of_unplaced same) id
      rwa [Section.indexOf?_map, Section.indexOf?_map] at index
    live := fun id => by
      have value := congrArg Option.isSome (value_of_unplaced same id)
      rwa [Option.isSome_map, Option.isSome_map] at value
    items := fun id item image here there => by
      have value := value_of_unplaced same id
      rw [here, there] at value
      exact Option.some.inj value }
  stringKeys := ⟨view fun file => file.strings.keys, view fun file => file.strings.stale⟩
  typeKeys := ⟨view fun file => file.types.keys, view fun file => file.types.stale⟩
  protoKeys := ⟨view fun file => file.protos.keys, view fun file => file.protos.stale⟩
  fieldKeys := ⟨view fun file => file.fields.keys, view fun file => file.fields.stale⟩
  methodKeys := ⟨view fun file => file.methods.keys, view fun file => file.methods.stale⟩
  header sound := by
    have header := header_of_unplaced same
    unfold Header.unplaced at header
    simp only [Header.mk.injEq] at header
    obtain ⟨magic, _, signature, _, _, endian, _⟩ := header
    exact ⟨magic ▸ sound.magicLength, magic ▸ sound.magicStart, magic ▸ sound.magicEnd,
      signature ▸ sound.signature, endian ▸ sound.endian⟩
  raws := by
    have raws : final.raws.map RawSection.unplaced = file.raws.map RawSection.unplaced :=
      congrArg DexFile.raws same
    have kinds := congrArg (List.map RawSection.kind) raws
    rwa [List.map_map, List.map_map] at kinds
  modelled modelled := by
    unfold Modelled
    rw [layout_of_unplaced same]
    exact modelled
  distinct := by
    rw [layout_of_unplaced same]
    exact id
  sections := by simp only [modelledKinds, layout_of_unplaced same, List.Sublist.refl]
  classes := .of_unplaced (items_of_unplaced same .classDef)
  readClasses := readClasses_of_unplaced same }

end Follows

/-- Sorting only reorders ids. -/
theorem follows_sortIds (valid : ∀ part : Part, (part.items file).Valid)
    (strings : file.strings.items.Valid) : file.Follows file.sortIds := by
  have sorted (part : Part) {other : DexFile} (same : part.items other = part.items file)
      (pool : part ≠ .classDef) (compare : part.Item → part.Item → Ordering) :
      other.Follows (part.put other ((part.items file).sortBy compare)) := by
    refine .put part ?_ fun isClass => absurd isClass pool
    rw [same]
    exact .sortBy (valid part) (fun item => .refl item) compare
  have first (compare : StringItem → StringItem → Ordering) :
      file.Follows { file with strings.items := file.strings.items.sortBy compare } :=
    .putStrings (.sortBy strings StringItem.SameValue.refl compare)
  exact ((((first _).trans (sorted .typeId (by rfl) (by decide) _)).trans
    (sorted .protoId (by rfl) (by decide) _)).trans (sorted .fieldId (by rfl) (by decide) _)).trans
    (sorted .methodId (by rfl) (by decide) _)

end DexFile
end DexArsc.Dex
