/-
Sections: the ordered storage of one kind of dex item. Items live in slots that are never used
again, so an id names its item through every insertion, removal and sort. An item's wire index
is its place in the section's order.
-/

import Std.Data.HashMap
import DexArsc.Step

namespace DexArsc.Dex

/-- A stable name of an item in a section: the item's slot. -/
structure Id (α : Type) where
  slot : Nat
  deriving Inhabited

/-- Ids are equal when they name the same slot. -/
instance {α : Type} : DecidableEq (Id α) := fun a b =>
  decidable_of_iff (a.slot = b.slot) (by cases a; cases b; simp)

instance {α : Type} : Hashable (Id α) := ⟨fun id => hash id.slot⟩

/-- The constructor form of an id. -/
def Id.text {α : Type} (id : Id α) : String :=
  s!"Id({id.slot})"

/-- The wire index that names no item. -/
def noIndex : UInt32 := 0xFFFFFFFF

/-- A slot with its item, which is gone after a removal. -/
structure Cell (α : Type) where
  item : Option α
  /-- The place in the order. -/
  position : UInt32
  /-- The file offset as of the last read or layout. -/
  offset : UInt32 := 0
  /-- The file offset that the item was read from, or zero for an item made in memory. -/
  origin : UInt32 := 0

/-- A section with its items in slots, their order and the last item laid out at each offset. -/
structure Section (α : Type) where
  kind : SectionKind
  cells : Array (Cell α) := #[]
  order : Array (Id α) := #[]
  byOffset : Std.HashMap UInt32 (Id α) := {}
  /-- The file offset of the section as of the last read or layout. -/
  offset : UInt32 := 0

namespace Section

variable {α : Type}

/-- The number of live items. -/
def size (items : Section α) : Nat :=
  items.order.size

/-- The slot of an id whose item is live. -/
def live? (items : Section α) (id : Id α) : Option (Cell α) :=
  items.cells[id.slot]?.filter fun cell => cell.item.isSome

/-- An item is live from its creation to its removal. -/
def contains (items : Section α) (id : Id α) : Bool :=
  (items.live? id).isSome

/-- The live item with an id. -/
def item? (items : Section α) (id : Id α) : Option α :=
  items.cells[id.slot]?.bind Cell.item

/-- The item at a wire index. The sentinel and every index past the end name none. -/
def get? (items : Section α) (index : UInt32) : Option (Id α) :=
  if index = noIndex then none else items.order[index.toNat]?

/-- The item at a wire index, which has to exist. -/
def get (items : Section α) (index : UInt32) : Except Fault (Id α) :=
  match items.get? index with
  | some id => .ok id
  | none => fail (.dex (.indexBeyond index.toNat items.kind items.size))

/-- The wire index of a live item. -/
def indexOf? (items : Section α) (id : Id α) : Option UInt32 :=
  (items.live? id).map Cell.position

/-- The offset of a live item. -/
def offsetOf? (items : Section α) (id : Id α) : Option UInt32 :=
  (items.live? id).map Cell.offset

/-- The offset that a live item was read from. -/
def originOf? (items : Section α) (id : Id α) : Option UInt32 :=
  (items.live? id).map Cell.origin

/-- The item at an offset. -/
def getAt? (items : Section α) (offset : UInt32) : Option (Id α) :=
  items.byOffset[offset]?

/-- The live items with their ids, in wire order. -/
def entries (items : Section α) : List (Id α × α) :=
  items.order.toList.filterMap fun id => (items.item? id).map fun item => (id, item)

/-- Every place in the order is recorded in the slot of the item that holds it. -/
def renumber (items : Section α) : Section α :=
  { items with
    cells := (items.order.foldl (fun (cells, index) id =>
      (cells.modify id.slot fun cell => { cell with position := index }, index + 1))
      (items.cells, (0 : UInt32))).1 }

/-- The section with its items in a new order. -/
def withOrder (items : Section α) (order : Array (Id α)) : Section α :=
  { items with order }.renumber

/-- A fresh slot, not yet in the order. -/
def allocate (items : Section α) (item : α) : Id α × Section α :=
  (⟨items.cells.size⟩,
    { items with cells := items.cells.push { item := some item, position := noIndex } })

/-- An item becomes the last one. -/
def push (items : Section α) (item : α) : Id α × Section α :=
  let id : Id α := ⟨items.cells.size⟩
  let position := UInt32.ofNat items.order.size
  (id, { items with
    cells := items.cells.push { item := some item, position }
    order := items.order.push id })

/-- An item is inserted at an index and shifts the items behind it. -/
def insert (items : Section α) (index : Nat) (item : α) : Except Fault (Id α × Section α) :=
  if h : index ≤ items.order.size then
    let (id, items') := items.allocate item
    .ok (id, items'.withOrder (items.order.insertIdx index id h))
  else
    fail (.dex (.insertBeyond index items.size items.kind))

/-- A live item is laid out at an offset. An item that was laid out there before is no longer
found by it. -/
def setItemOffset (items : Section α) (id : Id α) (offset : UInt32) : Section α :=
  match items.offsetOf? id with
  | none => items
  | some old =>
    let byOffset :=
      if items.byOffset[old]? = some id then items.byOffset.erase old else items.byOffset
    { items with
      cells := items.cells.modify id.slot fun cell => { cell with offset }
      byOffset := byOffset.insert offset id }

/-- An item that was read from an offset becomes the last one. -/
def pushRead (items : Section α) (item : α) (origin : UInt32) : Id α × Section α :=
  let (id, items) := items.push item
  let items :=
    { items with cells := items.cells.modify id.slot fun cell => { cell with origin } }
  (id, items.setItemOffset id origin)

/-- An item is removed. The items behind it move up, and its slot stays empty. -/
def remove (items : Section α) (id : Id α) : Option α × Section α :=
  match items.live? id with
  | none => (none, items)
  | some cell =>
    let byOffset :=
      if items.byOffset[cell.offset]? = some id then items.byOffset.erase cell.offset
      else items.byOffset
    let cells := items.cells.modify id.slot fun cell =>
      { cell with item := none, position := noIndex }
    (cell.item, { items with cells, byOffset }.withOrder (items.order.filter (· ≠ id)))

/-- The live item with an id is replaced by its image. -/
def modify (items : Section α) (id : Id α) (change : α → α) : Section α :=
  { items with
    cells := items.cells.modify id.slot fun cell => { cell with item := cell.item.map change } }

/-- Every live item is replaced by its image. -/
def map (items : Section α) (change : α → α) : Section α :=
  { items with cells := items.cells.map fun cell => { cell with item := cell.item.map change } }

/-- A step on every live item in the order of the slots, which also learns the item's offset. The
first failure ends it. -/
def onItems (step : (offset : UInt32) → Step α Unit) : Step (Section α) Unit := fun items =>
  let onCell : Step (Cell α) Unit := fun cell =>
    match cell.item with
    | none => .ok () cell
    | some item =>
      match step cell.offset item with
      | .ok () item => .ok () { cell with item := some item }
      | .error fault item => .error fault { cell with item := some item }
  match Step.onEach onCell items.cells.toList with
  | .ok () cells => .ok () { items with cells := cells.toArray }
  | .error fault cells => .error fault { items with cells := cells.toArray }

/-- A live item is moved to another place. -/
def move (items : Section α) (id : Id α) (index : Nat) : Except Fault (Section α) := do
  unless items.contains id do
    fail (.dex (.notInSection id.slot items.kind))
  if items.size ≤ index then
    fail (.dex (.moveBeyond index items.size items.kind))
  let others := items.order.toList.filter (· ≠ id)
  return items.withOrder (others.insertIdx index id).toArray

/-- The items are sorted. Items that compare equal keep their order. -/
def sortBy (items : Section α) (compare : α → α → Ordering) : Section α :=
  let le (a b : Id α) : Bool :=
    match items.item? a, items.item? b with
    | some a, some b => compare a b != .gt
    | _, _ => true
  items.withOrder (items.order.toList.mergeSort le).toArray

/-- The first id of a list that is not live or that occurs before. -/
def repeated? (items : Section α) : List (Id α) → Std.HashSet (Id α) → Option (Id α)
  | [], _ => none
  | id :: rest, seen =>
    if !items.contains id || seen.contains id then some id
    else repeated? items rest (seen.insert id)

/-- The items receive a new order, which names each live item once. -/
def reorder (items : Section α) (order : List (Id α)) : Except Fault (Section α) := do
  if let some id := items.repeated? order {} then
    fail (.dex (.orderRepeats items.kind id.slot))
  if order.length ≠ items.size then
    fail (.dex (.orderCount items.kind order.length items.size))
  return items.withOrder order.toArray

/-- The constructor form of a section, without its items. -/
def text (items : Section α) : String :=
  "Section \x7b kind: " ++ items.kind.name ++ ", count: " ++ toString items.size ++
    ", offset: " ++ toString items.offset.toNat ++ " \x7d"

end Section
end DexArsc.Dex
