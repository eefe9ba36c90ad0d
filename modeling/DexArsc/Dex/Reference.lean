/-
References: integer slots that name items of another section. A linked reference remembers its
item by id and writes the item's current index or offset at each refresh, so it follows the item
through every renumbering.
-/

import DexArsc.Dex.Section

namespace DexArsc.Dex

/-- A slot that names an item by its index. -/
structure IndexRef (α : Type) where
  raw : UInt32 := noIndex
  item : Option (Id α) := none
  deriving Inhabited

instance {α : Type} : DecidableEq (IndexRef α) := fun a b =>
  decidable_of_iff (a.raw = b.raw ∧ a.item = b.item) (by cases a; cases b; simp)

namespace IndexRef

variable {α : Type}

/-- A reference with a wire index that is not linked yet. -/
def ofRaw (raw : UInt32) : IndexRef α :=
  { raw }

/-- A reference to an item, which writes the item's index at the next refresh. -/
def ofId (id : Id α) : IndexRef α :=
  { item := some id }

/-- An absent reference names nothing and has the sentinel in its slot. -/
def isAbsent (ref : IndexRef α) : Bool :=
  ref.item.isNone && ref.raw == noIndex

/-- The reference linked to the item at its index. A linked reference stays as it is. -/
def link (ref : IndexRef α) (items : Section α) : IndexRef α :=
  { ref with item := ref.item.or (items.get? ref.raw) }

/-- The reference to another item. Without an item the slot takes the sentinel at once. -/
def setItem (ref : IndexRef α) : Option (Id α) → IndexRef α
  | some id => { ref with item := some id }
  | none => {}

/-- The reference with its item's current index in the slot. A removed item leaves the sentinel
behind. -/
def refresh (ref : IndexRef α) (items : Section α) : IndexRef α :=
  match ref.item with
  | none => ref
  | some id =>
    match items.indexOf? id with
    | some index => { ref with raw := index }
    | none => {}

/-- The constructor form of a reference. -/
def text (ref : IndexRef α) : String :=
  match ref.item with
  | some id => s!"IndexReference({ref.raw.toNat} -> {id.text})"
  | none => s!"IndexReference({ref.raw.toNat})"

end IndexRef

/-- A slot that names an item by its file offset. Zero names none. -/
structure OffsetRef (α : Type) where
  raw : UInt32 := 0
  item : Option (Id α) := none
  deriving Inhabited

instance {α : Type} : DecidableEq (OffsetRef α) := fun a b =>
  decidable_of_iff (a.raw = b.raw ∧ a.item = b.item) (by cases a; cases b; simp)

namespace OffsetRef

variable {α : Type}

/-- A reference with a file offset that is not linked yet. -/
def ofRaw (raw : UInt32) : OffsetRef α :=
  { raw }

/-- A reference to an item, which writes the item's offset at the next refresh. -/
def ofId (id : Id α) : OffsetRef α :=
  { item := some id }

/-- An absent reference names nothing and has zero in its slot. -/
def isAbsent (ref : OffsetRef α) : Bool :=
  ref.item.isNone && ref.raw == 0

/-- The reference linked to the item at its offset. A linked reference stays as it is. -/
def link (ref : OffsetRef α) (items : Section α) : OffsetRef α :=
  { ref with item := ref.item.or (if ref.raw = 0 then none else items.getAt? ref.raw) }

/-- The reference to another item. Without an item the slot takes zero at once. -/
def setItem (ref : OffsetRef α) : Option (Id α) → OffsetRef α
  | some id => { ref with item := some id }
  | none => {}

/-- The reference with its item's current offset in the slot. A removed item leaves zero
behind. -/
def refresh (ref : OffsetRef α) (items : Section α) : OffsetRef α :=
  match ref.item with
  | none => ref
  | some id =>
    match items.offsetOf? id with
    | some offset => { ref with raw := offset }
    | none => {}

/-- The constructor form of a reference. -/
def text (ref : OffsetRef α) : String :=
  let item := match ref.item with
    | some id => s!"Some({id.text})"
    | none => "None"
  s!"OffsetReference(0x{Text.hex ref.raw.toNat}, {item})"

end OffsetRef
end DexArsc.Dex
