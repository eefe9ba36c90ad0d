/-
Debug information of a method: the names of its parameters and a debug sequence.
-/

import DexArsc.Dex.Debug.Sequence

namespace DexArsc.Dex

/-- The debug information of a method. -/
structure DebugInfo where
  parameterNames : List (IndexRef StringItem) := []
  sequence : DebugSequence := {}
  deriving DecidableEq, Inhabited

namespace DebugInfo

/-- Debug information without elements. -/
def make (start : UInt32) : DebugInfo :=
  { sequence := .make start }

/-- The information with its references replaced by their images. -/
def mapRefs (string : IndexRef StringItem → IndexRef StringItem)
    (type : IndexRef TypeItem → IndexRef TypeItem) (info : DebugInfo) : DebugInfo where
  parameterNames := info.parameterNames.map string
  sequence := info.sequence.mapRefs string type

/-- The information linked to the items that it names. -/
def link (strings : Section StringItem) (types : Section TypeItem) (info : DebugInfo) :
    DebugInfo :=
  info.mapRefs (·.link strings) (·.link types)

/-- The information with its current index slots. -/
def refresh (strings : Section StringItem) (types : Section TypeItem) (info : DebugInfo) :
    DebugInfo :=
  info.mapRefs (·.refresh strings) (·.refresh types)

/-- The names of parameters have the same targets. -/
def sameNames : List (IndexRef StringItem) → List (IndexRef StringItem) → Bool
  | [], [] => true
  | a :: as, b :: bs => sameTarget a b && sameNames as bs
  | _, _ => false

/-- Methods may share their debug information when it says the same. -/
def sameAs (a b : DebugInfo) : Bool :=
  a.sequence.lineStart == b.sequence.lineStart &&
    sameNames a.parameterNames b.parameterNames && a.sequence.sameEvents b.sequence

/-- What puts debug information in one bucket: the starting line and the numbers of visible events and of
parameters. -/
def bucket (info : DebugInfo) : UInt32 × Nat × Nat :=
  (info.sequence.lineStart, info.sequence.visible.length, info.parameterNames.length)

end DebugInfo

instance : Codec DebugInfo where
  read := do
    let start ← Reader.leb
    let size ← Reader.leb
    let parameterNames ← readOptionalIndex.replicate size.toNat
    return { parameterNames, sequence := ← DebugSequence.read start }
  encode info :=
    Leb.encode info.sequence.lineStart ++
      Leb.encode (UInt32.ofNat info.parameterNames.length) ++
      info.parameterNames.flatMap IndexRef.optionalBytes ++ info.sequence.bytes
  byteSize info :=
    (Leb.encode info.sequence.lineStart).length +
      (Leb.encode (UInt32.ofNat info.parameterNames.length)).length +
      totalSize (fun name => name.optionalBytes.length) info.parameterNames + info.sequence.byteSize

end DexArsc.Dex
