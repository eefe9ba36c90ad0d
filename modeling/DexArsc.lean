import DexArsc.Options
import DexArsc.Bytes.Digest
import DexArsc.Bytes.NumberForm
import DexArsc.BlockTree.Import
import DexArsc.BlockTree.Refresh
import DexArsc.Dex.Pool
import DexArsc.Dex.Class
import DexArsc.Dex.RawSection
import DexArsc.Dex.Header
import DexArsc.Dex.File.Reading
import DexArsc.Dex.File.Members
import DexArsc.Dex.File.Writing
import DexArsc.Resource.Table
import DexArsc.Proofs.Bytes.Leb
import DexArsc.Proofs.Bytes.Groups
import DexArsc.Proofs.Bytes.Word
import DexArsc.Proofs.Dex.Item
import DexArsc.Proofs.Dex.Pool
import DexArsc.Proofs.Dex.ClassData
import DexArsc.Proofs.Dex.Descriptor
import DexArsc.Proofs.Dex.StringData
import DexArsc.Proofs.Dex.Code.Item
import DexArsc.Proofs.Dex.Code.Operands
import DexArsc.Proofs.Dex.Code.Read
import DexArsc.Proofs.Dex.Code.Renumber
import DexArsc.Proofs.Dex.Debug.LineStep
import DexArsc.Proofs.Dex.Debug.Positions
import DexArsc.Proofs.Dex.Debug.Push
import DexArsc.Proofs.Dex.Debug.Verbatim
import DexArsc.Proofs.Dex.Edit.Canonical
import DexArsc.Proofs.Dex.Edit.Discernible
import DexArsc.Proofs.Dex.Edit.Lasting
import DexArsc.Proofs.Dex.Edit.Letters
import DexArsc.Proofs.Dex.Edit.Reached
import DexArsc.Proofs.Dex.Edit.Reread
import DexArsc.Proofs.Dex.File.Boundary
import DexArsc.Proofs.Dex.File.HiddenApi
import DexArsc.Proofs.Dex.File.Passes
import DexArsc.Proofs.Dex.File.Read
import DexArsc.Proofs.Dex.File.Image
import DexArsc.Proofs.Dex.File.Shared
import DexArsc.Proofs.Dex.File.Rewrite
import DexArsc.Proofs.Dex.Raw.Reencode
import DexArsc.Proofs.Dex.Section.ByOffset
import DexArsc.Proofs.Dex.Section.Identity
import DexArsc.Proofs.BlockTree.Basic
import DexArsc.Proofs.BlockTree.Copy
import DexArsc.Proofs.BlockTree.Import
import DexArsc.Proofs.BlockTree.Layout
import DexArsc.Proofs.BlockTree.Length
import DexArsc.Proofs.Resource.Chunk
import DexArsc.Proofs.Resource.Edit
import DexArsc.Proofs.Resource.PartialRemap
import DexArsc.Proofs.Resource.Guarded
import DexArsc.Proofs.Resource.PackageName
import DexArsc.Proofs.Resource.PoolIndex
import DexArsc.Proofs.Resource.PoolWritten
import DexArsc.Proofs.Resource.TotalRemap
import DexArsc.Proofs.Bytes.Bounded
import DexArsc.Proofs.Dex.WrittenKey
import DexArsc.Proofs.Resource.Walk
