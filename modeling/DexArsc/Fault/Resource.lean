/-
The ways in which reading or editing a resource table fails.
-/

import DexArsc.Fault.Basic
import DexArsc.Resource.ChunkType

namespace DexArsc

open Resource (ChunkType)
open Text (hex hexPadded quoted)

/-- A failure of a resource table operation. -/
inductive ResourceCause
  /-- Too few bytes remain for a chunk header. -/
  | truncatedHeader (position : Nat)
  /-- A chunk header's sizes contradict each other. -/
  | invalidSizes (type : ChunkType) (position header size : Nat)
  /-- A chunk ends after the bytes that hold it. -/
  | chunkBeyondStream (type : ChunkType) (position : Nat)
  /-- A chunk type outside the format is refused. -/
  | unknownChunk (code : UInt16) (position : Nat)
  /-- A chunk ends after its parent. -/
  | chunkBeyondParent (type : ChunkType) (position limit : Nat)
  /-- Another chunk stands in the place of a string pool. -/
  | notStringPool (found : ChunkType)
  /-- A string pool header is too short. -/
  | shortPoolHeader (size : Nat)
  /-- The style area begins outside the string pool. -/
  | stylesOutside (position : Nat)
  /-- A string is too long for a pool of UTF-8 strings. -/
  | tooLongForUtf8 (bytes : Nat)
  /-- A string is too long for a pool of UTF-16 strings. -/
  | tooLongForUtf16 (units : Nat)
  /-- A string index lies beyond the pool. -/
  | stringBeyond (index size : Nat)
  /-- UTF-8 data passes the end of the chunk. -/
  | utf8Beyond (position : Nat)
  /-- UTF-8 data lacks its terminator. -/
  | utf8Unterminated (position : Nat)
  /-- UTF-8 data holds no text. -/
  | utf8Invalid (position : Nat)
  /-- UTF-16 data passes the end of the chunk. -/
  | utf16Beyond (position : Nat)
  /-- UTF-16 data lacks its terminator. -/
  | utf16Unterminated (position : Nat)
  /-- UTF-16 data holds an unpaired surrogate. -/
  | utf16Invalid (position : Nat)
  /-- The length of UTF-8 data lies outside the chunk. -/
  | utf8LengthBeyond (position : Nat)
  /-- The length of UTF-8 data is cut by the end of the chunk. -/
  | utf8LengthTruncated (position : Nat)
  /-- The length of UTF-16 data lies outside the chunk. -/
  | utf16LengthBeyond (position : Nat)
  /-- The length of UTF-16 data is cut by the end of the chunk. -/
  | utf16LengthTruncated (position : Nat)
  /-- A field of a type chunk passes the end of the chunk. -/
  | typeFieldBeyond (position size : Nat)
  /-- A string index has no image under a partial map. -/
  | unmappedString (index : UInt32)
  /-- A package name does not fit its field. -/
  | nameTooLong (name : String) (units limit : Nat)
  /-- A package header is too short. -/
  | shortPackageHeader (size : Nat)
  /-- Bytes follow a chunk that should stand alone. -/
  | trailingBytes (size : Nat) (type : ChunkType)
  /-- A chunk of this type does not belong into a package. -/
  | foreignChunk (type : ChunkType)
  /-- A copied package lacks one of its children. -/
  | lostChild (id : UInt32)
  /-- A type chunk is not held as a header and a body. -/
  | notHeaderAndBody
  /-- Another chunk stands in the place of a resource table. -/
  | notTable (found : ChunkType)
  /-- A table header is too short. -/
  | shortTableHeader (size : Nat)
  /-- The table's declared size differs from the stream's. -/
  | tableSizeMismatch (declared size : Nat)
  /-- The table has no global string pool. -/
  | noGlobalStrings
  /-- The table's declared package count differs from the packages it holds. -/
  | packageCountMismatch (declared count : Nat)
  /-- A package id is too large for a resource id. -/
  | idTooLarge (id : UInt32)
  /-- No package has this id. -/
  | noPackage (id : UInt32)
  /-- A package with this id already exists. -/
  | packageExists (id : UInt32)
  /-- A value names a global string beyond the pool. -/
  | globalStringBeyond (index size : Nat)
  deriving DecidableEq

namespace ResourceCause

/-- The category of a resource table failure. -/
def kind : ResourceCause → FaultKind
  | unknownChunk _ _ => .unsupportedFormat
  | tooLongForUtf8 _ | tooLongForUtf16 _ | nameTooLong _ _ _ | idTooLarge _ | noPackage _
  | packageExists _ => .invalidKey
  | stringBeyond _ _ | unmappedString _ | globalStringBeyond _ _ => .indexOutOfRange
  | _ => .format

/-- The message of a resource table failure. -/
def message : ResourceCause → String
  | truncatedHeader position => s!"Truncated chunk header at 0x{hex position}"
  | invalidSizes type position header size =>
    s!"Invalid sizing for {type.name} chunk at 0x{hex position}: header {header} of {size}"
  | chunkBeyondStream type position =>
    s!"{type.name} chunk at 0x{hex position} extends past its parent"
  | unknownChunk code position =>
    s!"Unknown chunk type 0x{hexPadded 4 code.toNat} at 0x{hex position}"
  | chunkBeyondParent type position limit =>
    s!"{type.name} chunk at 0x{hex position} overruns its parent ending at 0x{hex limit}"
  | notStringPool found => s!"Expected a string pool chunk, found {found.name}"
  | shortPoolHeader size => s!"String pool header of {size} bytes is too short"
  | stylesOutside position => s!"Styles start 0x{hex position} outside the string pool"
  | tooLongForUtf8 bytes => s!"String of {bytes} bytes is too long for a UTF-8 pool"
  | tooLongForUtf16 units => s!"String of {units} units is too long for a UTF-16 pool"
  | stringBeyond index size => s!"String index {index} beyond pool of {size}"
  | utf8Beyond position => s!"UTF-8 string at 0x{hex position} exceeds chunk bounds"
  | utf8Unterminated position => s!"UTF-8 string at 0x{hex position} missing terminator"
  | utf8Invalid position => s!"Invalid UTF-8 string data at 0x{hex position}"
  | utf16Beyond position => s!"UTF-16 string at 0x{hex position} exceeds chunk bounds"
  | utf16Unterminated position => s!"UTF-16 string at 0x{hex position} missing terminator"
  | utf16Invalid position =>
    s!"Invalid UTF-16 string at 0x{hex position}: invalid utf-16: lone surrogate found"
  | utf8LengthBeyond position => s!"Invalid UTF-8 length offset 0x{hex position}"
  | utf8LengthTruncated position => s!"Truncated UTF-8 length at 0x{hex position}"
  | utf16LengthBeyond position => s!"Invalid UTF-16 length offset 0x{hex position}"
  | utf16LengthTruncated position => s!"Truncated UTF-16 length at 0x{hex position}"
  | typeFieldBeyond position size => s!"Type chunk field at 0x{hex position} beyond {size} bytes"
  | unmappedString index => s!"no string {index.toNat}"
  | nameTooLong name units limit =>
    s!"Package name {quoted name} has {units} UTF-16 units, the limit is {limit}"
  | shortPackageHeader size => s!"Package header of {size} bytes is too short"
  | trailingBytes size type => s!"{size} bytes follow the {type.name} chunk"
  | foreignChunk type => s!"A {type.name} chunk cannot be added to a package"
  | lostChild id => s!"Package 0x{hexPadded 2 id.toNat} lost a child during import"
  | notHeaderAndBody => "Type chunk node is not a header and body pair"
  | notTable found => s!"Expected a resource table chunk, found {found.name}"
  | shortTableHeader size => s!"Table header of {size} bytes is too short"
  | tableSizeMismatch declared size =>
    s!"Table declares {declared} bytes but the stream holds {size}"
  | noGlobalStrings => "Resource table has no global string pool"
  | packageCountMismatch declared count =>
    s!"Table declares {declared} packages but holds {count}"
  | idTooLarge id => s!"Package id 0x{hex id.toNat} does not fit a resource id"
  | noPackage id => s!"No package with id 0x{hexPadded 2 id.toNat}"
  | packageExists id => s!"Package 0x{hexPadded 2 id.toNat} already exists"
  | globalStringBeyond index size => s!"Global string {index} beyond pool of {size}"

end ResourceCause
end DexArsc
