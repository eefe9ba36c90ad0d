/-
References of a file that is written, and what becomes of them when it is read: a reference to an
item becomes one to the place of the item.
-/

import DexArsc.Proofs.Dex.Item
import DexArsc.Proofs.Dex.Section.Rows

namespace DexArsc.Dex

variable {α : Type}

namespace IndexRef

/-- Only the indexes of the items count for a refresh. -/
theorem refresh_congr {items other : Section α} (same : ∀ id, other.indexOf? id = items.indexOf? id)
    (ref : IndexRef α) : ref.refresh other = ref.refresh items := by
  unfold refresh
  cases ref.item with
  | none => rfl
  | some id => simp only [same]

/-- A reference is settled when its slot holds its item's current index. -/
def Settled (items : Section α) (ref : IndexRef α) : Prop := ref.refresh items = ref

theorem settled_iff {items : Section α} {ref : IndexRef α} :
    ref.Settled items ↔ ∀ id, ref.item = some id → items.indexOf? id = some ref.raw := by
  obtain ⟨raw, item⟩ := ref
  unfold Settled refresh
  cases item with
  | none => simp
  | some id =>
      cases found : items.indexOf? id with
      | none => simp [found]
      | some index => simp [found]

/-- A refreshed reference is settled. -/
theorem settled_refresh (items : Section α) (ref : IndexRef α) : (ref.refresh items).Settled items := by
  rw [settled_iff]
  unfold refresh
  cases item : ref.item with
  | none => simp [item]
  | some id =>
      cases found : items.indexOf? id with
      | none => simp [found]
      | some index => simp [found]

/-- A reference that is not linked names no item by its index either. -/
def Faithful (items : Section α) (ref : IndexRef α) : Prop :=
  ref.item = none → items.get? ref.raw = none

/-- The reference with the place of its item for the item. -/
def placed (items : Section α) (ref : IndexRef α) : IndexRef α where
  raw := ref.raw
  item := (ref.item.bind items.indexOf?).map fun index => ⟨index.toNat⟩

/-- A reference that is written is read as one to the place of its item. -/
theorem link_bare {items : Section α} (valid : items.Valid) (few : items.size < UInt32.size)
    {kind : SectionKind} {place : UInt32} {read : List (UInt32 × α)} (size : read.length = items.size)
    {ref : IndexRef α} (settled : ref.Settled items) (faithful : ref.Faithful items) :
    ref.bare.link (Section.fresh kind place read) = ref.placed items := by
  have missing (index : UInt32) : read[index.toNat]? = none ↔ items.order[index.toNat]? = none := by
    rw [List.getElem?_eq_none_iff, Array.getElem?_eq_none_iff, size]
    rfl
  unfold link bare ofRaw placed
  simp only [Section.get?_fresh, Option.none_or]
  congr 1
  cases item : ref.item with
  | none =>
      have none := faithful item
      rw [Section.get?] at none
      by_cases sentinel : ref.raw = noIndex
      · simp [sentinel]
      · rw [if_neg sentinel] at none
        simp [sentinel, (missing ref.raw).2 none]
  | some id =>
      have index := settled_iff.1 settled id item
      have bound := valid.indexOf?_lt (Nat.le_of_lt few) index
      have inside : ref.raw.toNat < read.length := by rwa [size]
      have real : ref.raw ≠ noIndex := by
        intro same
        rw [same] at bound
        change 4294967295 < items.size at bound
        change items.size < 4294967296 at few
        omega
      simp [index, real, inside]

end IndexRef

/-- Two families of sections with the same indexes. -/
structure IdSections.SameIndexes (ids other : IdSections) : Prop where
  strings : ∀ id, other.strings.indexOf? id = ids.strings.indexOf? id
  types : ∀ id, other.types.indexOf? id = ids.types.indexOf? id
  protos : ∀ id, other.protos.indexOf? id = ids.protos.indexOf? id
  fields : ∀ id, other.fields.indexOf? id = ids.fields.indexOf? id
  methods : ∀ id, other.methods.indexOf? id = ids.methods.indexOf? id

/-- Only the indexes of the items count for a refresh. -/
theorem ItemRef.refresh_congr {ids other : IdSections} (same : ids.SameIndexes other) (ref : ItemRef) :
    ref.refresh other = ref.refresh ids := by
  unfold refresh
  cases ref <;>
    simp only [IndexRef.refresh_congr same.strings, IndexRef.refresh_congr same.types,
      IndexRef.refresh_congr same.protos, IndexRef.refresh_congr same.fields,
      IndexRef.refresh_congr same.methods]

@[simp] theorem ItemRef.operandKind_link (ids : IdSections) (ref : ItemRef) :
    (ref.link ids).operandKind = ref.operandKind := by
  cases ref <;> rfl

@[simp] theorem ItemRef.operandKind_refresh (ids : IdSections) (ref : ItemRef) :
    (ref.refresh ids).operandKind = ref.operandKind := by
  cases ref <;> rfl

/-- A reference that is refreshed stays as it is. -/
theorem ItemRef.refresh_refresh (ids : IdSections) (ref : ItemRef) :
    (ref.refresh ids).refresh ids = ref.refresh ids := by
  cases ref with
  | string ref => exact congrArg string (IndexRef.settled_refresh _ ref)
  | type ref => exact congrArg type (IndexRef.settled_refresh _ ref)
  | proto ref => exact congrArg proto (IndexRef.settled_refresh _ ref)
  | field ref => exact congrArg field (IndexRef.settled_refresh _ ref)
  | method ref => exact congrArg method (IndexRef.settled_refresh _ ref)

namespace OffsetRef

/-- Only the offsets of the items count for a refresh. -/
theorem refresh_congr {items other : Section α}
    (same : ∀ id, other.offsetOf? id = items.offsetOf? id) (ref : OffsetRef α) :
    ref.refresh other = ref.refresh items := by
  unfold refresh
  cases ref.item with
  | none => rfl
  | some id => simp only [same]

/-- A reference is settled when its slot holds its item's current offset. -/
def Settled (items : Section α) (ref : OffsetRef α) : Prop := ref.refresh items = ref

theorem settled_iff {items : Section α} {ref : OffsetRef α} :
    ref.Settled items ↔ ∀ id, ref.item = some id → items.offsetOf? id = some ref.raw := by
  obtain ⟨raw, item⟩ := ref
  unfold Settled refresh
  cases item with
  | none => simp
  | some id =>
      cases found : items.offsetOf? id with
      | none => simp [found]
      | some offset => simp [found]

/-- A refreshed reference is settled. -/
theorem settled_refresh (items : Section α) (ref : OffsetRef α) : (ref.refresh items).Settled items := by
  rw [settled_iff]
  unfold refresh
  cases item : ref.item with
  | none => simp [item]
  | some id =>
      cases found : items.offsetOf? id with
      | none => simp [found]
      | some offset => simp [found]

/-- A reference that is not linked names no item by its offset either. -/
def Faithful (items : Section α) (ref : OffsetRef α) : Prop :=
  ref.item = none → ref.raw ≠ 0 → ∀ id, items.offsetOf? id ≠ some ref.raw

/-- The reference with the place of its item for the item. -/
def placed (items : Section α) (ref : OffsetRef α) : OffsetRef α where
  raw := ref.raw
  item := (ref.item.bind items.indexOf?).map fun index => ⟨index.toNat⟩

/-- A reference that is written is read as one to the place of its item. -/
theorem link_bare {items : Section α} (valid : items.Valid) (few : items.size < UInt32.size)
    {kind : SectionKind} {place : UInt32} {read : List (UInt32 × α)}
    (same : read.map Prod.fst = items.rows.map Prod.fst) (distinct : (read.map Prod.fst).Nodup)
    (positive : 0 ∉ read.map Prod.fst) {ref : OffsetRef α} (settled : ref.Settled items)
    (faithful : ref.Faithful items) :
    ref.bare.link (Section.fresh kind place read) = ref.placed items := by
  have row (place : Nat) (offset : UInt32) : read[place]?.map Prod.fst = some offset ↔
      ∃ id, items.order[place]? = some id ∧ items.offsetOf? id = some offset := by
    rw [← List.getElem?_map, same, List.getElem?_map, Option.map_eq_some_iff]
    constructor
    · rintro ⟨row, found, rfl⟩
      obtain ⟨id, listed, offset, _⟩ := valid.getElem?_rows_eq_some.1 found
      exact ⟨id, listed, offset⟩
    · rintro ⟨id, listed, start⟩
      obtain ⟨item, live⟩ := Option.isSome_iff_exists.1 (valid.item?_getElem listed)
      exact ⟨(offset, item), valid.getElem?_rows_eq_some.2 ⟨id, listed, start, live⟩, rfl⟩
  unfold link bare ofRaw placed
  simp only [Option.none_or]
  congr 1
  cases item : ref.item with
  | none =>
      by_cases zero : ref.raw = 0
      · simp [zero]
      rw [if_neg zero]
      cases found : (Section.fresh kind place read).getAt? ref.raw with
      | none => rfl
      | some id =>
          rw [Section.getAt?_fresh distinct, row] at found
          obtain ⟨other, _, offset⟩ := found
          exact absurd offset (faithful item zero other)
  | some id =>
      have offset := settled_iff.1 settled id item
      have live : (items.item? id).isSome := by
        rw [← Section.isSome_offsetOf?, offset]
        rfl
      rw [← Section.isSome_indexOf?] at live
      obtain ⟨index, found⟩ := Option.isSome_iff_exists.1 live
      have listed := valid.getElem?_indexOf? (Nat.le_of_lt few) found
      have at_place := (row index.toNat ref.raw).2 ⟨id, listed, offset⟩
      have real : ref.raw ≠ 0 := by
        intro zero
        apply positive
        rw [zero, Option.map_eq_some_iff] at at_place
        obtain ⟨row, inside, start⟩ := at_place
        rw [← start]
        exact List.mem_map_of_mem (List.mem_of_getElem? inside)
      rw [if_neg real, Option.bind_some, found, Option.map_some]
      exact (Section.getAt?_fresh distinct ref.raw ⟨index.toNat⟩).2 at_place

end OffsetRef

/-- A reference by index that names an item, or that has the sentinel in its slot. -/
def IndexRef.Linked (ref : IndexRef α) : Prop :=
  ref.item = none → ref.raw = noIndex

/-- A reference by index that names a live item, or that names none and has the sentinel in its
slot. -/
structure IndexRef.Live (items : Section α) (ref : IndexRef α) : Prop where
  absent : ref.Linked
  found : ∀ id, ref.item = some id → (items.item? id).isSome

/-- A reference by offset that names an item, or that has zero in its slot. -/
def OffsetRef.Linked (ref : OffsetRef α) : Prop :=
  ref.item = none → ref.raw = 0

/-- A reference by offset that names a live item, or that names none and has zero in its slot. -/
structure OffsetRef.Live (items : Section α) (ref : OffsetRef α) : Prop where
  absent : ref.Linked
  found : ∀ id, ref.item = some id → (items.item? id).isSome

namespace IndexRef

variable {items final : Section α} {ref : IndexRef α}

theorem live_ofId {id : Id α} (live : (items.item? id).isSome) : (ofId id).Live items where
  absent none := by cases none
  found other same := by
    cases same
    exact live

theorem live_absent (items : Section α) : Live items {} where
  absent _ := rfl
  found id same := by cases same

theorem Live.imp (live : ref.Live items)
    (more : ∀ id, (items.item? id).isSome → (final.item? id).isSome) : ref.Live final where
  absent := live.absent
  found id named := more id (live.found id named)

theorem Linked.refresh (linked : ref.Linked) (items : Section α) : (ref.refresh items).Linked := by
  cases named : ref.item with
  | none => simpa [Linked, IndexRef.refresh, named] using linked named
  | some id =>
      cases place : items.indexOf? id with
      | none => simp [Linked, IndexRef.refresh, named, place]
      | some index => simp [Linked, IndexRef.refresh, named, place]

/-- The sentinel names no item. -/
theorem Linked.faithful (linked : ref.Linked) (items : Section α) : ref.Faithful items := by
  intro named
  rw [linked named, Section.get?, if_pos rfl]

/-- A refresh keeps the item of a live reference. -/
theorem Live.item_refresh (live : ref.Live items) : (ref.refresh items).item = ref.item := by
  unfold refresh
  cases named : ref.item with
  | none => exact named
  | some id =>
      have found := live.found id named
      rw [← Section.isSome_indexOf?] at found
      obtain ⟨index, place⟩ := Option.isSome_iff_exists.1 found
      simp only [place]

theorem Live.refresh (live : ref.Live items) : (ref.refresh items).Live items :=
  ⟨live.absent.refresh items, fun id named => live.found id (live.item_refresh ▸ named)⟩

end IndexRef

namespace OffsetRef

variable {items final : Section α} {ref : OffsetRef α}

theorem live_ofId {id : Id α} (live : (items.item? id).isSome) : (ofId id).Live items where
  absent none := by cases none
  found other same := by
    cases same
    exact live

theorem live_absent (items : Section α) : Live items {} where
  absent _ := rfl
  found id same := by cases same

theorem Live.imp (live : ref.Live items)
    (more : ∀ id, (items.item? id).isSome → (final.item? id).isSome) : ref.Live final where
  absent := live.absent
  found id named := more id (live.found id named)

theorem Linked.refresh (linked : ref.Linked) (items : Section α) : (ref.refresh items).Linked := by
  cases named : ref.item with
  | none => simpa [Linked, OffsetRef.refresh, named] using linked named
  | some id =>
      cases place : items.offsetOf? id with
      | none => simp [Linked, OffsetRef.refresh, named, place]
      | some offset => simp [Linked, OffsetRef.refresh, named, place]

theorem Linked.faithful (linked : ref.Linked) (items : Section α) : ref.Faithful items :=
  fun named other => absurd (linked named) other

theorem Live.item_refresh (live : ref.Live items) : (ref.refresh items).item = ref.item := by
  unfold OffsetRef.refresh
  cases named : ref.item with
  | none => exact named
  | some id =>
      have found := live.found id named
      rw [← Section.isSome_offsetOf?] at found
      obtain ⟨offset, place⟩ := Option.isSome_iff_exists.1 found
      simp only [place]

theorem Live.refresh (live : ref.Live items) : (ref.refresh items).Live items :=
  ⟨live.absent.refresh items, fun id named => live.found id (live.item_refresh ▸ named)⟩

end OffsetRef
end DexArsc.Dex
