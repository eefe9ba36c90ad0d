/-
References to items of any of the five pools.
-/

import DexArsc.Dex.Item

namespace DexArsc.Dex

/-- An index slot together with the pool that it indexes. -/
inductive ItemRef
  | string (ref : IndexRef StringItem)
  | type (ref : IndexRef TypeItem)
  | proto (ref : IndexRef ProtoItem)
  | field (ref : IndexRef FieldItem)
  | method (ref : IndexRef MethodItem)
  deriving DecidableEq

namespace ItemRef

/-- The kind of operand that the reference can be. -/
def operandKind : ItemRef → OperandKind
  | string _ => .string
  | type _ => .type
  | proto _ => .methodProto
  | field _ => .field
  | method _ => .method

/-- The reference of an operand with an index. Call sites and method handles are never
renumbered and have none. -/
def ofOperand? (kind : OperandKind) (index : UInt32) : Option ItemRef :=
  match kind with
  | .string => some (string (.ofRaw index))
  | .type => some (type (.ofRaw index))
  | .methodProto => some (proto (.ofRaw index))
  | .field => some (field (.ofRaw index))
  | .method => some (method (.ofRaw index))
  | .callSite | .methodHandle => none

/-- The name of the pool. -/
def poolName : ItemRef → String
  | string _ => "string"
  | type _ => "type"
  | proto _ => "proto"
  | field _ => "field"
  | method _ => "method"

/-- A reference to the item in a slot of the pool with a name. -/
def ofPoolName? (name : String) (slot : Nat) : Option ItemRef :=
  match name with
  | "string" => some (string (.ofId ⟨slot⟩))
  | "type" => some (type (.ofId ⟨slot⟩))
  | "proto" => some (proto (.ofId ⟨slot⟩))
  | "field" => some (field (.ofId ⟨slot⟩))
  | "method" => some (method (.ofId ⟨slot⟩))
  | _ => none

/-- The index in the slot. -/
def raw : ItemRef → UInt32
  | string ref => ref.raw
  | type ref => ref.raw
  | proto ref => ref.raw
  | field ref => ref.raw
  | method ref => ref.raw

/-- The slot of the linked item. -/
def itemSlot? : ItemRef → Option Nat
  | string ref => ref.item.map Id.slot
  | type ref => ref.item.map Id.slot
  | proto ref => ref.item.map Id.slot
  | field ref => ref.item.map Id.slot
  | method ref => ref.item.map Id.slot

/-- The reference linked to the item at its index. -/
def link (ids : IdSections) : ItemRef → ItemRef
  | string ref => string (ref.link ids.strings)
  | type ref => type (ref.link ids.types)
  | proto ref => proto (ref.link ids.protos)
  | field ref => field (ref.link ids.fields)
  | method ref => method (ref.link ids.methods)

/-- The reference with its item's current index in the slot. -/
def refresh (ids : IdSections) : ItemRef → ItemRef
  | string ref => string (ref.refresh ids.strings)
  | type ref => type (ref.refresh ids.types)
  | proto ref => proto (ref.refresh ids.protos)
  | field ref => field (ref.refresh ids.fields)
  | method ref => method (ref.refresh ids.methods)

end ItemRef
end DexArsc.Dex
