/-
Items are placed one behind the other, each at the next multiple of an alignment. Placing them
changes their offsets and nothing else.
-/

import DexArsc.Dex.File.Layout
import DexArsc.Proofs.Bytes.Word
import DexArsc.Proofs.Dex.Section.Valid

namespace DexArsc.Dex

/-- The places of items with given sizes from a position on. -/
def places (alignment : Nat) : (position : Nat) → List Nat → List Nat
  | _, [] => []
  | position, size :: rest =>
    let place := position + padding alignment position
    place :: places alignment (place + size) rest

/-- The position behind items with given sizes. -/
def placesEnd (alignment : Nat) : (position : Nat) → List Nat → Nat
  | position, [] => position
  | position, size :: rest => placesEnd alignment (position + padding alignment position + size) rest

theorem length_places (alignment position : Nat) (sizes : List Nat) :
    (places alignment position sizes).length = sizes.length := by
  induction sizes generalizing position with
  | nil => rfl
  | cons size rest ih => simp [places, ih]

theorem le_placesEnd (alignment position : Nat) (sizes : List Nat) :
    position ≤ placesEnd alignment position sizes := by
  induction sizes generalizing position with
  | nil => exact Nat.le_refl _
  | cons size rest ih =>
      have later := ih (position + padding alignment position + size)
      rw [placesEnd]
      omega

theorem mem_places_le {alignment position place : Nat} {sizes : List Nat}
    (inside : place ∈ places alignment position sizes) :
    position ≤ place ∧ place ≤ placesEnd alignment position sizes := by
  induction sizes generalizing position with
  | nil => cases inside
  | cons size rest ih =>
      rw [places, List.mem_cons] at inside
      rw [placesEnd]
      rcases inside with rfl | later
      · have := le_placesEnd alignment (position + padding alignment position + size) rest
        omega
      · have := ih later
        omega

namespace Section

variable {α : Type}

/-- The section without the places of its items. -/
def unplaced (items : Section α) : Section α :=
  { items with
    cells := items.cells.map fun cell => { cell with offset := 0 }
    byOffset := {}
    offset := 0 }

/-- The offsets of the items in wire order. -/
def offsets (items : Section α) : List UInt32 :=
  items.order.toList.map fun id => (items.offsetOf? id).getD 0

/-- The sizes of the items in wire order. -/
def sizes (size : α → Nat) (items : Section α) : List Nat :=
  items.order.toList.map fun id => ((items.item? id).map size).getD 0

@[simp] theorem length_sizes (size : α → Nat) (items : Section α) :
    (items.sizes size).length = items.size := by
  rw [sizes, List.length_map, Array.length_toList]
  rfl

@[simp] theorem order_unplaced (items : Section α) : items.unplaced.order = items.order := rfl

@[simp] theorem item?_unplaced (items : Section α) (id : Id α) :
    items.unplaced.item? id = items.item? id := by
  unfold item? unplaced
  rw [Array.getElem?_map]
  cases items.cells[id.slot]? <;> rfl

@[simp] theorem indexOf?_unplaced (items : Section α) (id : Id α) :
    items.unplaced.indexOf? id = items.indexOf? id := by
  unfold indexOf? live? unplaced
  rw [Array.getElem?_map]
  cases items.cells[id.slot]? with
  | none => rfl
  | some cell => cases item : cell.item <;> simp [Option.filter, item]

@[simp] theorem originOf?_unplaced (items : Section α) (id : Id α) :
    items.unplaced.originOf? id = items.originOf? id := by
  unfold originOf? live? unplaced
  rw [Array.getElem?_map]
  cases items.cells[id.slot]? with
  | none => rfl
  | some cell => cases item : cell.item <;> simp [Option.filter, item]

@[simp] theorem unplaced_setItemOffset (items : Section α) (id : Id α) (offset : UInt32) :
    (items.setItemOffset id offset).unplaced = items.unplaced := by
  unfold setItemOffset
  cases items.offsetOf? id with
  | none => rfl
  | some old =>
      unfold unplaced
      congr 1
      apply Array.ext_getElem?
      intro slot
      simp only [Array.getElem?_map, Array.getElem?_modify]
      by_cases same : id.slot = slot
      · rw [if_pos same, Option.map_map]
        rfl
      · rw [if_neg same]

theorem unplaced_map (items : Section α) (change : α → α) :
    (items.map change).unplaced = items.unplaced.map change := by
  unfold unplaced map
  simp only [Array.map_map]
  rfl

variable {items other : Section α}

theorem order_of_unplaced (same : other.unplaced = items.unplaced) : other.order = items.order := by
  rw [← order_unplaced, same, order_unplaced]

theorem item?_of_unplaced (same : other.unplaced = items.unplaced) (id : Id α) :
    other.item? id = items.item? id := by
  rw [← item?_unplaced, same, item?_unplaced]

theorem indexOf?_of_unplaced (same : other.unplaced = items.unplaced) (id : Id α) :
    other.indexOf? id = items.indexOf? id := by
  rw [← indexOf?_unplaced, same, indexOf?_unplaced]

theorem Valid.of_unplaced (valid : items.Valid) (same : other.unplaced = items.unplaced) :
    other.Valid :=
  valid.congr (order_of_unplaced same) (indexOf?_of_unplaced same)

theorem sizes_unplaced (same : other.unplaced = items.unplaced) (size : α → Nat) :
    other.sizes size = items.sizes size := by
  unfold sizes
  rw [order_of_unplaced same]
  simp only [item?_of_unplaced same]

/-- An offset at every place of the order. -/
theorem offsets_eq {found : List Nat} (size : found.length = items.size)
    (at_place : ∀ (place : Nat) (id : Id α), items.order[place]? = some id →
      items.offsetOf? id = found[place]?.map UInt32.ofNat) :
    items.offsets = found.map UInt32.ofNat := by
  apply List.ext_getElem?
  intro place
  rw [offsets, List.getElem?_map, List.getElem?_map, Array.getElem?_toList]
  cases here : items.order[place]? with
  | none =>
      have none : found[place]? = none := by
        rw [List.getElem?_eq_none_iff, size]
        exact Array.getElem?_eq_none_iff.1 here
      rw [none]
      rfl
  | some id =>
      have inside : place < found.length := by
        rw [size]
        exact (Array.getElem?_eq_some_iff.1 here).1
      rw [Option.map_some, at_place place id here, List.getElem?_eq_getElem inside]
      rfl

end Section

/-- A number is narrowed exactly when it is a word. -/
theorem narrow32_outcome {state : Type} (what : String) (value : Nat) (initial : state) :
    (monadLift (narrow32 what value) : Step state UInt32).Outcome initial
      (fun word final => value < UInt32.size ∧ word = UInt32.ofNat value ∧ initial = final)
      (UInt32.size ≤ value) := by
  by_cases fits : value < UInt32.size
  · rw [narrow32_of_lt what fits]
    exact ⟨fits, rfl, rfl⟩
  · cases narrowed : narrow32 what value with
    | error fault => exact Nat.le_of_not_lt fits
    | ok word =>
        rw [narrow32_eq_ok] at narrowed
        have bound : word.toNat < UInt32.size := word.toNat_lt
        omega

/-- Items of a list of ids that are placed. -/
structure ItemsPlaced {α : Type} (ids : List (Id α)) (found : List Nat) (items final : Section α) :
    Prop where
  unplaced : final.unplaced = items.unplaced
  offset : ∀ (place : Nat) (id : Id α), ids[place]? = some id →
    final.offsetOf? id = found[place]?.map UInt32.ofNat
  others : ∀ id, id ∉ ids → final.offsetOf? id = items.offsetOf? id

namespace ItemsPlaced

variable {α : Type} {items final : Section α}

theorem nil : ItemsPlaced [] [] items items where
  unplaced := rfl
  offset := by simp
  others _ _ := rfl

/-- An item is placed before the others. -/
theorem cons {id : Id α} {rest : List (Id α)} {place : Nat} {found : List Nat} (new : id ∉ rest)
    (live : (items.item? id).isSome)
    (placed : ItemsPlaced rest found (items.setItemOffset id (UInt32.ofNat place)) final) :
    ItemsPlaced (id :: rest) (place :: found) items final where
  unplaced := by rw [placed.unplaced, Section.unplaced_setItemOffset]
  offset index other here := by
    cases index with
    | zero =>
        cases here
        rw [← Section.isSome_offsetOf?] at live
        obtain ⟨old, there⟩ := Option.isSome_iff_exists.1 live
        rw [placed.others id new, Section.offsetOf?_setItemOffset, if_pos rfl, there]
        rfl
    | succ index => exact placed.offset index other here
  others other outside := by
    rw [List.mem_cons, not_or] at outside
    rw [placed.others other outside.2, Section.offsetOf?_setItemOffset, if_neg outside.1]

/-- A section whose items are all placed. -/
theorem offsets_eq {found : List Nat} (placed : ItemsPlaced items.order.toList found items final)
    (size : found.length = items.size) : final.offsets = found.map UInt32.ofNat := by
  have order := Section.order_of_unplaced placed.unplaced
  apply Section.offsets_eq
  · rw [size, Section.size, Section.size, order]
  · intro place id here
    apply placed.offset
    rwa [order, ← Array.getElem?_toList] at here

end ItemsPlaced

variable {α : Type}

/-- Items are placed exactly when every place is a file offset. -/
theorem placeItems_outcome [Codec α] (alignment : Nat) (ids : List (Id α)) (placed : Placement)
    (items : Section α) (distinct : ids.Nodup) (live : ∀ id ∈ ids, (items.item? id).isSome) :
    let sizes := ids.map fun id => ((items.item? id).map byteSize).getD 0
    let found := places alignment placed.position sizes
    (placeItems alignment ids placed).Outcome items
      (fun result final => result.position = placesEnd alignment placed.position sizes ∧
        result.offsets = placed.offsets ++ (found.map UInt32.ofNat).toArray ∧
        ItemsPlaced ids found items final)
      (UInt32.size ≤ placesEnd alignment placed.position sizes) := by
  induction ids generalizing placed items with
  | nil => exact ⟨rfl, by simp [places], ItemsPlaced.nil⟩
  | cons id rest ih =>
      obtain ⟨new, distinct⟩ := List.nodup_cons.1 distinct
      simp only [List.map_cons, places, placesEnd]
      generalize start : placed.position + padding alignment placed.position = position
      generalize itemSize : ((items.item? id).map byteSize).getD 0 = size
      have behind := le_placesEnd alignment (position + size)
        (rest.map fun id => ((items.item? id).map byteSize).getD 0)
      unfold placeItems
      simp only [start]
      refine (narrow32_outcome "item offset" position items).bind ?_ (fun large => by omega)
      rintro word _ ⟨fits, rfl, rfl⟩
      rw [Step.Outcome, Step.bind_ok (Step.modify_apply _ _), Step.bind_ok (Step.get_apply _)]
      simp only [Section.item?_setItemOffset, itemSize]
      refine (ih { position := position + size, offsets := placed.offsets.push (UInt32.ofNat position) }
        _ distinct fun other inside => ?_).imp ?_ ?_
      · rw [Section.item?_setItemOffset]
        exact live other (List.mem_cons_of_mem _ inside)
      · rintro result final ⟨stop, offsets, itemsPlaced⟩
        simp only [Section.item?_setItemOffset] at stop offsets itemsPlaced
        refine ⟨stop, ?_, itemsPlaced.cons new (live id List.mem_cons_self)⟩
        rw [offsets]
        simp
      · intro large
        simpa only [Section.item?_setItemOffset] using large

/-- What becomes of a section whose items are placed from a position on. -/
structure SectionPlaced (found : List Nat) (items final : Section α) : Prop where
  unplaced : final.unplaced = items.unplaced
  offsets : final.offsets = found.map UInt32.ofNat

theorem placeStart_outcome (position : Nat) (items : Section α) :
    (placeStart position : Step (Section α) Unit).Outcome items
      (fun _ final => final = { items with offset := UInt32.ofNat position })
      (UInt32.size ≤ position) := by
  unfold placeStart
  refine (narrow32_outcome "section offset" position items).bind ?_ id
  rintro word _ ⟨fits, rfl, rfl⟩
  rfl

/-- A section is placed exactly when its places are file offsets. -/
theorem placeWithItems_outcome [Codec α] (placed : Placement) {items : Section α}
    (valid : items.Valid) :
    let found := places items.kind.alignment placed.position (items.sizes byteSize)
    let stop := placesEnd items.kind.alignment placed.position (items.sizes byteSize)
    (placeWithItems placed).Outcome items
      (fun result final => result.position = stop ∧
        result.offsets = placed.offsets ++ (found.map UInt32.ofNat).toArray ∧
        SectionPlaced found items final) (UInt32.size ≤ stop) := by
  intro found stop
  have behind := le_placesEnd items.kind.alignment placed.position (items.sizes byteSize)
  unfold placeWithItems
  refine (placeStart_outcome placed.position items).bind ?_ fun large => by omega
  rintro _ _ rfl
  rw [Step.Outcome, Step.bind_ok (Step.get_apply _)]
  refine (placeItems_outcome items.kind.alignment items.order.toList placed
    { items with offset := UInt32.ofNat placed.position } valid.nodup fun id inside =>
      valid.mem_order_iff.1 (Array.mem_toList_iff.1 inside)).imp ?_ id
  rintro result final ⟨position, offsets, itemsPlaced⟩
  refine ⟨position, offsets, itemsPlaced.unplaced, @ItemsPlaced.offsets_eq _
    { items with offset := UInt32.ofNat placed.position } _ _ itemsPlaced ?_⟩
  exact (length_places ..).trans (Section.length_sizes ..)

/-- A string without the place of its data. -/
def StringItem.unplaced (item : StringItem) : StringItem :=
  { item with dataOffset := 0 }

/-- The places of the data of the strings in wire order. -/
def Section.dataOffsets (items : Section StringItem) : List UInt32 :=
  items.order.toList.map fun id => ((items.item? id).map StringItem.dataOffset).getD 0

/-- String ids are placed exactly when every place is a file offset. -/
theorem placeStringIds_outcome (ids : List (Id StringItem)) (position : Nat)
    (items : Section StringItem) (distinct : ids.Nodup)
    (live : ∀ id ∈ ids, (items.item? id).isSome) :
    let sizes := List.replicate ids.length 4
    (placeStringIds ids position).Outcome items
      (fun result final => result = placesEnd 1 position sizes ∧
        ItemsPlaced ids (places 1 position sizes) items final)
      (UInt32.size ≤ placesEnd 1 position sizes) := by
  induction ids generalizing position items with
  | nil => exact ⟨rfl, ItemsPlaced.nil⟩
  | cons id rest ih =>
      obtain ⟨new, distinct⟩ := List.nodup_cons.1 distinct
      have aligned : position + padding 1 position = position := rfl
      have behind := le_placesEnd 1 (position + 4) (List.replicate rest.length 4)
      simp only [List.length_cons, List.replicate_succ, places, placesEnd, aligned]
      unfold placeStringIds
      refine (narrow32_outcome "string id offset" position items).bind ?_ fun large => by omega
      rintro word _ ⟨fits, rfl, rfl⟩
      rw [Step.Outcome, Step.bind_ok (Step.modify_apply _ _)]
      refine (ih (position + 4) _ distinct fun other inside => ?_).imp ?_ fun large => large
      · rw [Section.item?_setItemOffset]
        exact live other (List.mem_cons_of_mem _ inside)
      · rintro result final ⟨stop, itemsPlaced⟩
        exact ⟨stop, itemsPlaced.cons new (live id List.mem_cons_self)⟩

/-- Strings of a list of ids whose data is placed. -/
structure DataPlaced (ids : List (Id StringItem)) (found : List Nat)
    (items final : Section StringItem) : Prop where
  unplaced : final.map StringItem.unplaced = items.map StringItem.unplaced
  offset : ∀ (place : Nat) (id : Id StringItem), ids[place]? = some id →
    (final.item? id).map StringItem.dataOffset = found[place]?.map UInt32.ofNat
  others : ∀ id, id ∉ ids → final.item? id = items.item? id

namespace DataPlaced

variable {items final : Section StringItem}

theorem nil : DataPlaced [] [] items items where
  unplaced := rfl
  offset := by simp
  others _ _ := rfl

/-- A change of the place of a string's data is no change of what is left without places. -/
theorem map_modify (id : Id StringItem) (dataOffset : UInt32) :
    (items.modify id fun item => { item with dataOffset }).map StringItem.unplaced =
      items.map StringItem.unplaced := by
  unfold Section.modify Section.map
  congr 1
  apply Array.ext_getElem?
  intro slot
  simp only [Array.getElem?_map, Array.getElem?_modify]
  by_cases same : id.slot = slot
  · rw [if_pos same, Option.map_map]
    congr 1
    funext cell
    cases item : cell.item <;> simp [StringItem.unplaced, item]
  · rw [if_neg same]

/-- The data of a string is placed before that of the others. -/
theorem cons {id : Id StringItem} {rest : List (Id StringItem)} {place : Nat} {found : List Nat}
    (new : id ∉ rest) (live : (items.item? id).isSome)
    (placed : DataPlaced rest found
      (items.modify id fun item => { item with dataOffset := UInt32.ofNat place }) final) :
    DataPlaced (id :: rest) (place :: found) items final where
  unplaced := by rw [placed.unplaced, map_modify]
  offset index other here := by
    cases index with
    | zero =>
        cases here
        obtain ⟨item, there⟩ := Option.isSome_iff_exists.1 live
        rw [placed.others id new, Section.item?_modify, if_pos rfl, there]
        rfl
    | succ index => exact placed.offset index other here
  others other outside := by
    rw [List.mem_cons, not_or] at outside
    rw [placed.others other outside.2, Section.item?_modify, if_neg outside.1]

end DataPlaced

/-- The data of strings is placed exactly when every place is a file offset. -/
theorem placeStringData_outcome (ids : List (Id StringItem)) (placed : Placement)
    (items : Section StringItem) (distinct : ids.Nodup)
    (live : ∀ id ∈ ids, (items.item? id).isSome) :
    let sizes := ids.map fun id => ((items.item? id).map fun item => byteSize item.value).getD 0
    let found := places 1 placed.position sizes
    (placeStringData ids placed).Outcome items
      (fun result final => result.position = placesEnd 1 placed.position sizes ∧
        result.offsets = placed.offsets ++ (found.map UInt32.ofNat).toArray ∧
        DataPlaced ids found items final)
      (UInt32.size ≤ placesEnd 1 placed.position sizes) := by
  induction ids generalizing placed items with
  | nil => exact ⟨rfl, by simp [places], DataPlaced.nil⟩
  | cons id rest ih =>
      obtain ⟨new, distinct⟩ := List.nodup_cons.1 distinct
      obtain ⟨item, here⟩ := Option.isSome_iff_exists.1 (live id List.mem_cons_self)
      have aligned : placed.position + padding 1 placed.position = placed.position := rfl
      have kept (word : UInt32) (other : Id StringItem) (inside : other ∈ rest) :
          (items.modify id fun item => { item with dataOffset := word }).item? other =
            items.item? other := by
        rw [Section.item?_modify, if_neg]
        rintro rfl
        exact new inside
      have sizes (word : UInt32) : (rest.map fun other =>
          (((items.modify id fun item => { item with dataOffset := word }).item? other).map
            fun item => byteSize item.value).getD 0) =
          rest.map fun other => ((items.item? other).map fun item => byteSize item.value).getD 0 :=
        List.map_congr_left fun other inside => by rw [kept word other inside]
      have behind := le_placesEnd 1 (placed.position + byteSize item.value)
        (rest.map fun other => ((items.item? other).map fun item => byteSize item.value).getD 0)
      simp only [List.map_cons, places, placesEnd, aligned, here, Option.map_some, Option.getD_some]
      unfold placeStringData
      rw [Step.Outcome, Step.bind_ok (Step.get_apply _)]
      simp only [here]
      refine (narrow32_outcome "string data offset" placed.position items).bind ?_ fun large => by omega
      rintro word _ ⟨fits, rfl, rfl⟩
      rw [Step.Outcome, Step.bind_ok (Step.modify_apply _ _)]
      generalize next : Placement.mk (placed.position + byteSize item.value)
        (placed.offsets.push (UInt32.ofNat placed.position)) = behind'
      refine (ih behind' _ distinct fun other inside => ?_).imp ?_ ?_
      · rw [kept _ other inside]
        exact live other (List.mem_cons_of_mem _ inside)
      · rintro result final ⟨stop, offsets, dataPlaced⟩
        rw [sizes] at stop offsets dataPlaced
        subst next
        refine ⟨stop, ?_, dataPlaced.cons new (live id List.mem_cons_self)⟩
        rw [offsets]
        simp
      · intro large
        rw [sizes] at large
        subst next
        exact large

end DexArsc.Dex
