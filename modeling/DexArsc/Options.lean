/-
Options for reading and writing containers.
-/

namespace DexArsc

/-- How strictly a container is read. -/
structure ReadOptions where
  /-- A declared size that differs from the bytes read is a failure. -/
  strictSizes : Bool := true
  /-- Chunks and sections outside the format are kept verbatim. -/
  preserveUnknown : Bool := true
  deriving DecidableEq, Inhabited

/-- How a container is written. -/
structure WriteOptions where
  /-- The checksum and the signature are computed anew. -/
  updateChecksum : Bool := true
  /-- The boundary on which word-aligned sections start. -/
  alignment : Nat := 4
  /-- The byte between sections. -/
  fill : UInt8 := 0
  deriving DecidableEq, Inhabited

end DexArsc
