/-
The types of chunk in a resource table.
-/

namespace DexArsc.Resource

/-- The types of chunk. A code outside the format stands for itself. -/
inductive ChunkType
  | null
  | stringPool
  | table
  | xml
  | xmlResourceMap
  | package
  | typeEntries
  | spec
  | library
  | overlayable
  | overlayablePolicy
  | stagedAlias
  | unknown (code : UInt16)
  deriving DecidableEq, Inhabited

namespace ChunkType

/-- The chunk type that a code names. -/
def ofCode (code : UInt16) : ChunkType :=
  match code.toNat with
  | 0x0000 => .null
  | 0x0001 => .stringPool
  | 0x0002 => .table
  | 0x0003 => .xml
  | 0x0180 => .xmlResourceMap
  | 0x0200 => .package
  | 0x0201 => .typeEntries
  | 0x0202 => .spec
  | 0x0203 => .library
  | 0x0204 => .overlayable
  | 0x0205 => .overlayablePolicy
  | 0x0206 => .stagedAlias
  | _ => .unknown code

/-- The code of a chunk type. -/
def code : ChunkType → UInt16
  | null => 0x0000
  | stringPool => 0x0001
  | table => 0x0002
  | xml => 0x0003
  | xmlResourceMap => 0x0180
  | package => 0x0200
  | typeEntries => 0x0201
  | spec => 0x0202
  | library => 0x0203
  | overlayable => 0x0204
  | overlayablePolicy => 0x0205
  | stagedAlias => 0x0206
  | unknown code => code

/-- The tag on the tree node of a chunk of this type. -/
def tag (type : ChunkType) : UInt32 :=
  type.code.toUInt32

/-- The constructor form of a chunk type. -/
def name : ChunkType → String
  | null => "Null"
  | stringPool => "StringPool"
  | table => "Table"
  | xml => "Xml"
  | xmlResourceMap => "XmlResourceMap"
  | package => "Package"
  | typeEntries => "Type"
  | spec => "Spec"
  | library => "Library"
  | overlayable => "Overlayable"
  | overlayablePolicy => "OverlayablePolicy"
  | stagedAlias => "StagedAlias"
  | unknown code => "Unknown(" ++ toString code.toNat ++ ")"

end ChunkType
end DexArsc.Resource
