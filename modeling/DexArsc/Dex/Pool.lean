/-
Pools: sections whose items are unique by a key. The key map is trusted only while the pool is
fresh. An edit that may change keys marks the pool stale, and a rebuild computes the map anew.
-/

import DexArsc.Dex.Section

namespace DexArsc.Dex

/-- Keys with a form inside messages. -/
class KeyText (κ : Type) where
  text : κ → String

/-- A text stands in quotes. -/
instance : KeyText String := ⟨Text.quoted⟩

/-- A section with the item of each key. -/
structure Pool (κ α : Type) [BEq κ] [Hashable κ] where
  items : Section α
  keys : Std.HashMap κ (Id α) := {}
  /-- A stale key map may contradict the items. -/
  stale : Bool := false

namespace Pool

variable {κ α : Type} [BEq κ] [Hashable κ]

/-- A pool without items. -/
def empty (kind : SectionKind) : Pool κ α :=
  { items := { kind } }

/-- The number of live items. -/
def size (pool : Pool κ α) : Nat :=
  pool.items.size

/-- The pool whose keys are out of date. -/
def invalidate (pool : Pool κ α) : Pool κ α :=
  { pool with stale := true }

/-- The item with a key. A stale pool answers nothing. -/
def find? (pool : Pool κ α) (key : κ) : Option (Id α) :=
  if pool.stale then none else pool.keys[key]?

/-- The item with a key, or else a new last item. The result tells whether the item is new. -/
def findOrPush [KeyText κ] (key : κ) (item : Unit → α) : Step (Pool κ α) (Id α × Bool) :=
  fun pool =>
    if pool.stale then
      .error { cause := .dex (.staleKeys pool.items.kind (KeyText.text key)) } pool
    else
      match pool.keys[key]? with
      | some id => .ok (id, false) pool
      | none =>
        let { items, keys, stale } := pool
        let (id, items) := items.push (item ())
        .ok (id, true) { items, keys := keys.insert key id, stale }

/-- An item that was read from an offset becomes the last one. Its key waits for the rebuild. -/
def pushRead (pool : Pool κ α) (item : α) (origin : UInt32) : Id α × Pool κ α :=
  let (id, items) := pool.items.pushRead item origin
  (id, { pool with items, stale := true })

/-- An item's key is replaced, unless another item has the new key. -/
def rekey [KeyText κ] (pool : Pool κ α) (id : Id α) (old new : κ) : Except Fault (Pool κ α) :=
  match pool.keys[new]? with
  | some owner =>
    if owner ≠ id then
      fail (.dex (.keyTaken (KeyText.text new) pool.items.kind))
    else
      .ok pool
  | none =>
    let keys := if pool.keys[old]? = some id then pool.keys.erase old else pool.keys
    .ok { pool with keys := keys.insert new id }

/-- An item is removed together with its keys. -/
def remove (pool : Pool κ α) (id : Id α) : Option α × Pool κ α :=
  match pool.items.remove id with
  | (none, _) => (none, pool)
  | (some item, items) =>
    (some item, { pool with items, keys := pool.keys.filter fun _ owner => owner ≠ id })

/-- The key map of a list of keys, in which different items have different keys. -/
def keyMap [KeyText κ] (kind : SectionKind) :
    List (κ × Id α) → Std.HashMap κ (Id α) → Except Fault (Std.HashMap κ (Id α))
  | [], keys => .ok keys
  | (key, id) :: rest, keys =>
    if keys[key]?.any (· ≠ id) then
      fail (.dex (.duplicateKey (KeyText.text key) kind))
    else
      keyMap kind rest (keys.insert key id)

/-- The pool with a fresh key map. -/
def rebuild [KeyText κ] (pool : Pool κ α) (entries : List (κ × Id α)) :
    Except Fault (Pool κ α) := do
  return { pool with keys := ← keyMap pool.items.kind entries {}, stale := false }

/-- The constructor form of a pool, without its items. -/
def text (pool : Pool κ α) : String :=
  "IdPool \x7b section: " ++ pool.items.text ++ ", keys: " ++ toString pool.keys.size ++
    ", stale: " ++ toString pool.stale ++ " \x7d"

end Pool
end DexArsc.Dex
