/-
Tables that are built from an empty one, written and read again. The bytes of a table that is refreshed are a header
and a row of pieces that fit, and what they tell is what the table tells.
-/

import DexArsc.Proofs.Resource.Ready

namespace DexArsc.Resource

/-- A pool with the same strings and flags. -/
structure StringPool.Same (first second : StringPool) : Prop where
  strings : second.strings = first.strings
  flags : second.flags = first.flags

namespace Package

variable {tree : BlockTree} {package : Package} {types keys : PoolSlot}

/-- A pool begins where the header of a package names its place. -/
theorem placeIn_types {front : List UInt8} {header : ChunkHeader} (pool : header.type = .stringPool)
    (start : header.start = (Bytes.word front (PackagePool.position .types)).toNat) :
    placeIn front header = some .types := by
  rw [placeIn, poolAt?, if_neg (not_not.2 pool), if_pos start]

theorem placeIn_keys {front : List UInt8} {header : ChunkHeader} (pool : header.type = .stringPool)
    (other : header.start ≠ (Bytes.word front (PackagePool.position .types)).toNat)
    (start : header.start = (Bytes.word front (PackagePool.position .keys)).toNat) :
    placeIn front header = some .keys := by
  rw [placeIn, poolAt?, if_neg (not_not.2 pool), if_neg other, if_pos start]

/-- Chunks that are no pools tell themselves. -/
theorem Content.foldl_chunks {front : List UInt8} {chunks : List (ChunkType × List UInt8)}
    (each : ∀ chunk ∈ chunks, IsChunk chunk.2 ∧ ChunkType.ofCode (Bytes.half chunk.2 0) = chunk.1 ∧
      chunk.1 ≠ .stringPool) (start : Nat) (content : Content) :
    (Piece.row start (chunks.map Prod.snd)).foldl (add (placeIn front)) content =
      { content with chunks := content.chunks ++ chunks } := by
  induction chunks generalizing start content with
  | nil => rw [List.append_nil]; rfl
  | cons chunk rest ih =>
      obtain ⟨isChunk, type, other⟩ := each chunk List.mem_cons_self
      have header : (Chunk.ofBytes start chunk.2).header.type = chunk.1 := type
      have place : placeIn front (Chunk.ofBytes start chunk.2).header = none := placeIn_other (header ▸ other)
      have step : content.add (placeIn front) (Piece.ofBytes start chunk.2) =
          { content with chunks := content.chunks ++ [chunk] } := by
        rw [isChunk.ofBytes, add]
        simp only [place]
        rw [header]
        rfl
      rw [List.map_cons, Piece.row, List.foldl_cons, step, ih fun chunk inside =>
        each chunk (List.mem_cons_of_mem _ inside), List.append_assoc, List.singleton_append]

/-- The header of a package that is refreshed: it tells the size of the package and the places of the pools. -/
structure Front (package : Package) (typesSize size : Nat) (front : List UInt8) : Prop where
  length : front.length = headerSize
  type : ChunkType.ofCode (Bytes.half front 0) = .package
  headerSize : (Bytes.half front 2).toNat = front.length
  size : (Bytes.word front 4).toNat = size
  id : Bytes.word front 8 = package.id
  types : (Bytes.word front (PackagePool.position .types)).toNat = front.length
  keys : (Bytes.word front (PackagePool.position .keys)).toNat = front.length + typesSize

section

variable {top : NodeId}

theorem Filled.front (filled : package.Filled tree) (formed : package.Formed types keys tree) (forest : tree.Forest)
    (current : tree.Current top) (owned : tree.Owns top package.node) : ∃ front,
      tree.leaf package.header = .ok front ∧ front.Stands namePosition (encodeName package.name) ∧
        package.Front types.pool.toChunk.length (tree.toBytes package.node).length front.toList := by
  obtain ⟨front, leaf, id, name⟩ := filled.header
  obtain ⟨_, leaf', stamp⟩ := BlockTree.leaf_of_stamp? formed.stamp
  cases leaf.symm.trans leaf'
  have length : front.toList.length = headerSize := (congrArg Prod.fst stamp).trans size_newHeader
  have half (position : Nat) (inside : position + 2 ≤ 4) :
      Bytes.half front.toList position = Bytes.half (newHeader.toList.take 4) position := by
    have same : front.toList.take 4 = newHeader.toList.take 4 := congrArg Prod.snd stamp
    rw [← same, Bytes.half_take _ inside]
  have word (patch : Patch) (position : Nat) (inside : patch ∈ (package.nodeForm types.node keys.node).patches)
      (field : patch.field = .word package.header position) :
      tree.Counts package.node patch (Bytes.word front.toList position).toNat :=
    current.word owned formed.node inside field leaf
  have first : tree.children package.node =
      [package.header] ++ types.node :: keys.node :: package.chunks.map Prod.snd := formed.children
  have second : tree.children package.node =
      [package.header, types.node] ++ keys.node :: package.chunks.map Prod.snd := formed.children
  have typesAt := (word (.relativeOffset types.node (.word package.header (PackagePool.position .types))) _
    (by simp [nodeForm]) rfl).offset forest first
  have keysAt := (word (.relativeOffset keys.node (.word package.header (PackagePool.position .keys))) _
    (by simp [nodeForm]) rfl).offset forest second
  have header := BlockTree.toBytes_of_leaf leaf
  have pool := BlockTree.toBytes_of_leaf (filled.pools .types types formed.typeStrings)
  exact ⟨front, leaf, name, {
    length
    type := by
      rw [half 0 (by decide)]
      decide +kernel
    headerSize := by
      rw [half 2 (by decide), length]
      decide +kernel
    size := word (.size (.word package.header 4)) 4 (by simp [nodeForm]) rfl
    id := Bytes.word_of_stands id
    types := by rw [typesAt, List.flatMap_singleton, header]
    keys := by rw [keysAt, List.flatMap_cons, List.flatMap_singleton, header, pool, List.length_append] }⟩

end

variable {typesSize : Nat} {front : List UInt8} {rows : List (List UInt8)}

namespace Front

theorem long (header : package.Front typesSize (front ++ rows.flatten).length front) : minHeaderSize ≤ front.length := by
  rw [header.length]
  decide

/-- A header and a row of chunks are a package. -/
theorem framed (header : package.Front typesSize (front ++ rows.flatten).length front) (isRow : IsRow rows) :
    Framed front rows := by
  have long := header.long
  unfold minHeaderSize at long
  have half : Bytes.half (front ++ rows.flatten) 2 = Bytes.half front 2 := Bytes.half_append (by omega) _
  exact {
    isChunk := {
      least := by
        rw [half, header.headerSize]
        exact Nat.le_trans (by decide) long
      within := by
        rw [half, header.headerSize, List.length_append]
        exact Nat.le_add_right ..
      size := by
        rw [Bytes.word_append (by omega)]
        exact header.size }
    head := header.headerSize
    long
    isRow }

theorem isOf (header : package.Front typesSize (front ++ rows.flatten).length front) :
    isOf .package (front ++ rows.flatten) = true := by
  have long := header.long
  unfold minHeaderSize at long
  have enough : Resource.minHeaderSize ≤ (front ++ rows.flatten).length := by
    rw [List.length_append]
    exact Nat.le_trans (Nat.le_trans (by decide) long) (Nat.le_add_right ..)
  rw [Resource.isOf, decide_eq_true enough, Bytes.half_append (by omega), header.type]
  rfl

end Front

/-- What a package tells when it is read again. -/
def reread (package : Package) (types keys : PoolSlot) (tree : BlockTree) : Content where
  id := package.id
  name := package.name
  types := some types.pool.reread
  keys := some keys.pool.reread
  chunks := package.contents tree

/-- The header, the pools and the chunks of a package tell the package. -/
theorem Front.content_eq {total : Nat} (header : package.Front types.pool.toChunk.length total front)
    (pools : types.pool.Plain ∧ keys.pool.Plain)
    (small : types.pool.toChunk.length < UInt32.size ∧ keys.pool.toChunk.length < UInt32.size)
    (chunks : ∀ chunk ∈ package.contents tree, IsChunk chunk.2 ∧ ChunkType.ofCode (Bytes.half chunk.2 0) = chunk.1 ∧
      chunk.1 ≠ .stringPool) : Content.ofBytes front (package.rowOf types keys tree) =
        { package.reread types keys tree with name := decodeName front.toArray } := by
  have first := pools.1.isChunk small.1
  have second := pools.2.isChunk small.2
  have pool (start : Nat) {slot : PoolSlot} (plain : slot.pool.Plain) :
      (Chunk.ofBytes start slot.pool.toChunk).header.type = .stringPool := by
    change ChunkType.ofCode (Bytes.half slot.pool.toChunk 0) = _
    rw [plain.begins.type]
    rfl
  have typesAt : placeIn front (Chunk.ofBytes front.length types.pool.toChunk).header = some .types :=
    placeIn_types (pool _ pools.1) header.types.symm
  have keysAt : placeIn front (Chunk.ofBytes (front.length + types.pool.toChunk.length) keys.pool.toChunk).header =
      some .keys := by
    refine placeIn_keys (pool _ pools.2) ?_ header.keys.symm
    have long := first.length_le
    unfold Resource.minHeaderSize at long
    rw [header.types]
    change front.length + types.pool.toChunk.length ≠ front.length
    omega
  rw [Content.ofBytes, rowOf, Piece.row, Piece.row, List.foldl_cons, List.foldl_cons, first.ofBytes, second.ofBytes,
    Content.foldl_chunks chunks, Content.add, Content.add]
  have readTypes : StringPool.read (Chunk.ofBytes front.length types.pool.toChunk).bytes = .ok types.pool.reread :=
    pools.1.read small.1
  have readKeys : StringPool.read (Chunk.ofBytes (front.length + types.pool.toChunk.length) keys.pool.toChunk).bytes =
      .ok keys.pool.reread := pools.2.read small.2
  simp only [typesAt, keysAt, readTypes, readKeys]
  rw [header.id]
  rfl

/-- A chunk is refused only where a pool has its place and cannot be read. -/
theorem not_refused {bytes : List UInt8} (isChunk : IsChunk bytes) (front : List UInt8) (position : Nat)
    (read : ChunkType.ofCode (Bytes.half bytes 0) = .stringPool → ∃ pool, StringPool.read bytes.toArray = .ok pool) :
    ¬Refused {} (placeIn front) (Piece.ofBytes position bytes) := by
  rw [isChunk.ofBytes]
  unfold Refused
  dsimp only
  split
  · rename_i which place
    obtain ⟨pool, here⟩ := read (start_of_placeIn place).1
    exact fun refuses => refuses pool here
  · exact fun refuses => refuses (ChunkHeader.accept_default _)

/-- A package that is refreshed can be read, and its bytes tell what it tells, its name up to the first zero
character. -/
theorem Filled.bytesTell {top : NodeId} (filled : package.Filled tree) (formed : package.Formed types keys tree)
    (forest : tree.Forest) (current : tree.Current top) (owned : tree.Owns top package.node)
    (small : (tree.toBytes top).length < UInt32.size) :
    IsPackage {} (tree.toBytes package.node) ∧ isOf .package (tree.toBytes package.node) = true ∧
      BytesTell (tree.toBytes package.node)
        { package.reread types keys tree with name := shownName package.name } := by
  obtain ⟨front, leaf, name, header⟩ := filled.front formed forest current owned
  have bytes := filled.toBytes formed forest leaf
  have within {id : NodeId} {pool : List UInt8} (inside : id ∈ tree.children package.node)
      (leaf : tree.leaf id = .ok pool.toArray) : pool.length < UInt32.size := by
    have less := forest.length_toBytes_le (owned.of_mem_children inside)
    rw [BlockTree.toBytes_of_leaf leaf] at less
    exact Nat.lt_of_le_of_lt less small
  have smallTypes := within (by rw [formed.children]; simp) (filled.pools .types types formed.typeStrings)
  have smallKeys := within (by rw [formed.children]; simp) (filled.pools .keys keys formed.keyStrings)
  have chunks : ∀ chunk ∈ package.contents tree, IsChunk chunk.2 ∧
      ChunkType.ofCode (Bytes.half chunk.2 0) = chunk.1 ∧ chunk.1 ≠ .stringPool := fun chunk inside => by
    obtain ⟨source, listed, rfl⟩ := List.mem_map.1 inside
    obtain ⟨other, head, body, keeps⟩ := formed.chunks source listed
    obtain ⟨isChunk, type⟩ := keeps.isChunk forest current (owned.trans (formed.owns_chunk listed))
    exact ⟨isChunk, type, other⟩
  have pieces : ∀ bytes ∈ package.rowOf types keys tree, IsChunk bytes ∧
      (ChunkType.ofCode (Bytes.half bytes 0) = .stringPool → ∃ pool, StringPool.read bytes.toArray = .ok pool) :=
    fun bytes inside => by
      rcases List.mem_cons.1 inside with rfl | inside
      · exact ⟨formed.plain.1.isChunk smallTypes, fun _ => ⟨_, formed.plain.1.read smallTypes⟩⟩
      · rcases List.mem_cons.1 inside with rfl | inside
        · exact ⟨formed.plain.2.isChunk smallKeys, fun _ => ⟨_, formed.plain.2.read smallKeys⟩⟩
        · obtain ⟨chunk, listed, rfl⟩ := List.mem_map.1 inside
          obtain ⟨isChunk, type, other⟩ := chunks chunk listed
          exact ⟨isChunk, fun pool => absurd (type.symm.trans pool) other⟩
  rw [bytes] at header ⊢
  have framed := header.framed (isRow_of_chunks fun bytes inside => (pieces bytes inside).1)
  refine ⟨⟨_, _, rfl, framed, fun piece inside => ?_⟩, header.isOf, _, _, rfl, framed, ?_⟩
  · obtain ⟨bytes, listed, position, rfl⟩ := Piece.of_mem_row inside
    exact not_refused (pieces bytes listed).1 _ position (pieces bytes listed).2
  · rw [header.content_eq formed.plain ⟨smallTypes, smallKeys⟩ chunks, Array.toArray_toList,
      decodeName_of_stands name (length_encodeName_of_check formed.name)]

/-- A package that tells the same in another tree: the id, the name, the strings of the pools and the chunks. -/
structure Same (tree again : BlockTree) (package image : Package) : Prop where
  id : image.id = package.id
  name : image.name = package.name
  types : Option.Rel StringPool.Same (package.typeStrings.map PoolSlot.pool) (image.typeStrings.map PoolSlot.pool)
  keys : Option.Rel StringPool.Same (package.keyStrings.map PoolSlot.pool) (image.keyStrings.map PoolSlot.pool)
  chunks : image.contents again = package.contents tree

end Package

namespace Table

variable {table : Table}

/-- The pieces behind the header of a table that is refreshed. -/
def rowOf (table : Table) : List (List UInt8) :=
  table.strings.toChunk :: table.packages.map fun package => table.tree.toBytes package.node

namespace Ready

/-- The header of a table tells its size and the number of its packages. -/
theorem head (ready : table.Ready) : ∃ head, table.tree.toBytes ⟨0⟩ = head ++ table.rowOf.flatten ∧
    head.length = headerSize ∧ ChunkType.ofCode (Bytes.half head 0) = .table ∧
    (Bytes.half head 2).toNat = head.length ∧ (Bytes.word head 4).toNat = (table.tree.toBytes ⟨0⟩).length ∧
    (Bytes.word head countPosition).toNat = table.packages.length := by
  have formed := ready.formed
  obtain ⟨head, leaf, length, first⟩ := formed.front
  have half (position : Nat) (inside : position + 2 ≤ 4) :
      Bytes.half head.toList position = Bytes.half newHeader.toList position := by
    rw [← Bytes.half_take _ inside, first, Bytes.half_take _ inside]
  have size := ready.current.word .top formed.top List.mem_cons_self rfl leaf
  have count := ready.current.word .top formed.top (List.mem_cons_of_mem _ List.mem_cons_self) rfl leaf
  refine ⟨head.toList, ready.filled.toBytes formed leaf, length, ?_, ?_, size, ?_⟩
  · rw [half 0 (by decide)]
    decide +kernel
  · rw [half 2 (by decide), Array.length_toList, length]
    decide +kernel
  · rw [count.2, formed.houses.children, List.length_map]

section

variable (ready : table.Ready) (small : table.writtenSize < UInt32.size)
include ready small

/-- The global strings of a table are a pool that can be read. -/
theorem strings : IsChunk table.strings.toChunk ∧ ChunkType.ofCode (Bytes.half table.strings.toChunk 0) = .stringPool ∧
    StringPool.read table.strings.toChunk.toArray = .ok table.strings.reread := by
  have plain := ready.formed.plain
  have less : table.strings.toChunk.length < UInt32.size := by
    unfold writtenSize at small
    omega
  refine ⟨plain.isChunk less, ?_, plain.read less⟩
  rw [plain.begins.type]
  rfl

/-- The packages of a table can be read, and their bytes tell what they tell. -/
theorem package {package : Package} (inside : package ∈ table.packages) : ∃ types keys,
    package.typeStrings = some types ∧ package.keyStrings = some keys ∧
      Package.IsPackage {} (table.tree.toBytes package.node) ∧ isOf .package (table.tree.toBytes package.node) = true ∧
        Package.BytesTell (table.tree.toBytes package.node)
          { package.reread types keys table.tree with name := Package.shownName package.name } := by
  have formed := ready.formed
  obtain ⟨types, keys, built⟩ := formed.packages package inside
  exact ⟨types, keys, built.typeStrings, built.keyStrings, (ready.filled.packages package inside).bytesTell built
    formed.linked.toForest ready.current (formed.owns_package inside)
    ((ready.filled.length_toBytes formed).symm ▸ small)⟩

theorem filter_rowOf : table.rowOf.filter (isOf .package) =
    table.packages.map fun package => table.tree.toBytes package.node := by
  obtain ⟨isChunk, type, _⟩ := ready.strings small
  have other : ¬isOf .package table.strings.toChunk = true := by
    rw [isOf_iff (.inl isChunk), type]
    exact fun both => absurd both.2 (by decide)
  rw [rowOf, List.filter_cons_of_neg other]
  refine List.filter_eq_self.2 fun row inside => ?_
  obtain ⟨package, listed, rfl⟩ := List.mem_map.1 inside
  obtain ⟨_, _, _, _, _, passes, _⟩ := ready.package small listed
  exact passes

/-- The bytes of a table that is refreshed are a header and pieces that fit. -/
theorem fits : ∃ head, table.tree.toBytes ⟨0⟩ = head ++ table.rowOf.flatten ∧ Fits head table.rowOf ∧
    (Bytes.word (table.tree.toBytes ⟨0⟩) countPosition).toNat = table.packages.length := by
  obtain ⟨head, bytes, length, type, headerSize, size, count⟩ := ready.head
  obtain ⟨isChunk, isPool, read⟩ := ready.strings small
  have enough : 12 ≤ head.length := Nat.le_of_eq length.symm
  have isPackage (row : List UInt8) (inside : row ∈ table.packages.map fun package => table.tree.toBytes package.node) :
      Package.IsPackage {} row := by
    obtain ⟨package, listed, rfl⟩ := List.mem_map.1 inside
    obtain ⟨_, _, _, _, isPackage, _⟩ := ready.package small listed
    exact isPackage
  have packs := ready.filter_rowOf small
  have half : Bytes.half (head ++ table.rowOf.flatten) 2 = Bytes.half head 2 := Bytes.half_append (by omega) _
  refine ⟨head, bytes, {
    isChunk := {
      least := by
        rw [half, headerSize]
        exact Nat.le_trans (by decide) enough
      within := by
        rw [half, headerSize, List.length_append]
        exact Nat.le_add_right ..
      size := by rw [Bytes.word_append (by omega), size, bytes] }
    type
    size := headerSize
    long := Nat.le_of_eq length.symm
    isRow := isRow_of_chunks fun row inside => by
      rcases List.mem_cons.1 inside with rfl | inside
      · exact isChunk
      · exact (isPackage row inside).isChunk
    count := by rw [count, packs, List.length_map]
    packages := fun row inside passes => isPackage row (packs ▸ List.mem_filter.2 ⟨inside, passes⟩)
    strings := ⟨_, _, List.find?_cons_of_pos ((isOf_iff (.inl isChunk)).2 ⟨isChunk, isPool⟩), read⟩ }, ?_⟩
  rw [bytes, Bytes.word_append (show countPosition + 4 ≤ head.length from enough)]
  exact count

/-- A table that is refreshed is read again from its bytes, with the same strings and packages. The names are read
up to their first zero characters. -/
theorem read : ∃ again, Table.read (table.tree.toBytes ⟨0⟩).toArray {} = .ok again ∧
    table.strings.Same again.strings ∧ List.Forall₂ (fun package => Package.Same table.tree again.tree
      { package with name := Package.shownName package.name }) table.packages again.packages := by
  obtain ⟨head, bytes, fits, _⟩ := ready.fits small
  obtain ⟨isChunk, isPool, read⟩ := ready.strings small
  obtain ⟨again, run, stored⟩ := fits.read
  refine ⟨again, bytes ▸ run, ?_, ?_⟩
  · obtain ⟨pool, found, read'⟩ := stored.strings
    rw [rowOf, List.find?_cons_of_pos ((isOf_iff (.inl isChunk)).2 ⟨isChunk, isPool⟩)] at found
    cases found
    rw [← Except.ok.inj (read.symm.trans read')]
    exact ⟨rfl, rfl⟩
  · have tell := stored.bytesTell
    rw [ready.filter_rowOf small, content, List.forall₂_map_left_iff, List.forall₂_map_right_iff] at tell
    refine forall₂_imp_mem tell fun package inside image _ here => ?_
    obtain ⟨types, keys, typeStrings, keyStrings, _, _, tells⟩ := ready.package small inside
    have same := here.unique tells
    exact {
      id := congrArg Package.Content.id same
      name := congrArg Package.Content.name same
      types := by
        rw [show image.typeStrings.map PoolSlot.pool = some types.pool.reread from congrArg Package.Content.types same,
          typeStrings]
        exact .some ⟨rfl, rfl⟩
      keys := by
        rw [show image.keyStrings.map PoolSlot.pool = some keys.pool.reread from congrArg Package.Content.keys same,
          keyStrings]
        exact .some ⟨rfl, rfl⟩
      chunks := congrArg Package.Content.chunks same }

end

end Ready

/-- A table that is written keeps everything but its tree, where the size fields of the chunks tell their lengths, and
what is read again has the strings and packages of the table. -/
structure Survives (table : Table) (bytes : List UInt8) (written again : Table) : Prop where
  size : bytes.length = table.writtenSize
  count : (Bytes.word bytes countPosition).toNat = table.packages.length
  rest : written = { table with tree := written.tree }
  chunks : ∀ package ∈ table.packages, package.contents written.tree =
    (package.contents table.tree).map fun chunk => (chunk.1, withSize chunk.2)
  /-- Chunks that tell their lengths already are the same. A remap may have written over the size field of a type
  chunk that says that its values stand there. -/
  kept : ∀ package ∈ table.packages, (∀ chunk ∈ package.contents table.tree, IsChunk chunk.2) →
    package.contents written.tree = package.contents table.tree
  strings : table.strings.Same again.strings
  packages : List.Forall₂ (Package.Same written.tree again.tree) table.packages again.packages

/-- A table that is built is written, and what is written is read again. -/
theorem Formed.survives (formed : table.Formed) (small : table.writtenSize < UInt32.size)
    (clean : ∀ package ∈ table.packages, '\u0000' ∉ package.name.toList) : ∃ bytes written again,
      Table.toBytes table = .ok bytes written ∧ Table.read bytes.toArray {} = .ok again ∧
        Survives table bytes written again := by
  obtain ⟨filled, restamped, rewritten, leaves, refreshes⟩ := formed.fill
  have built := restamped.formed formed
  have total := formed.writtenSize_eq restamped rewritten
  have rest := restamped.rest
  obtain ⟨final, run, size, _, ready, sized⟩ := leaves.refresh built (total ▸ small)
  rw [total] at run size
  have same : ({ filled with tree := final } : Table) = { table with tree := final } := by rw [rest]
  rw [same] at ready
  have whole : refresh table = .ok (UInt64.ofNat table.writtenSize) { table with tree := final } := by
    rw [refreshes, ← same]
    exact Step.onPart_eq_ok.2 ⟨final, run, rfl⟩
  have small' : ({ table with tree := final } : Table).writtenSize < UInt32.size := by
    rw [← ready.filled.length_toBytes ready.formed]
    exact size ▸ small
  obtain ⟨_, _, _, count⟩ := ready.fits small'
  obtain ⟨again, reads, strings, packages⟩ := ready.read small'
  have chunks (package : Package) (inside : package ∈ table.packages) : package.contents final =
      (package.contents table.tree).map fun chunk => (chunk.1, withSize chunk.2) := by
    rw [sized package (by rw [rest]; exact inside), formed.contents_eq restamped rewritten inside]
  refine ⟨_, { table with tree := final }, again, ?_, reads, {
    size
    count
    rest := rfl
    chunks
    kept := fun package inside all => ?_
    strings
    packages := forall₂_imp_mem packages fun package inside image _ same => by
      rwa [Package.shownName_eq_iff.2 (clean package inside)] at same }⟩
  · unfold Table.toBytes
    rw [Step.bind_ok whole, Step.bind_ok (Step.get_apply _), Step.pure_apply]
    dsimp only
    rw [formed.root]
  · refine (chunks package inside).trans ((List.map_congr_left fun chunk listed => ?_).trans (List.map_id _))
    rw [withSize_of_isChunk (all chunk listed)]
    rfl

/-- Edits survive a write. Every table that is reached from the empty one lists its packages in the order of their
nodes. Unless a name has a zero character or the table is too large for a word, it is written, and what is written
is read again as the table. -/
theorem survives_of_reached (reached : Reached (fun table => empty = .ok table) table) :
    table.tree.children table.packagesNode = table.packages.map Package.node ∧
      ((∀ package ∈ table.packages, '\u0000' ∉ package.name.toList) → table.writtenSize < UInt32.size →
        ∃ bytes written again, Table.toBytes table = .ok bytes written ∧ Table.read bytes.toArray {} = .ok again ∧
          Survives table bytes written again) := by
  have formed := reached.formed
  refine ⟨?_, fun clean small => formed.survives small clean⟩
  rw [formed.packagesNode]
  exact formed.houses.children

/-- Edits that succeed reach what they end with. -/
theorem Reached.run {start : Table → Prop} {edits : List Edit} {table final : Table} (reached : Reached start table)
    (run : (edits.forM Edit.step) table = .ok () final) : Reached start final := by
  induction edits generalizing table with
  | nil =>
      cases run
      exact reached
  | cons edit rest ih =>
      rw [Step.forM_cons] at run
      obtain ⟨_, between, first, rest⟩ := Step.bind_eq_ok.1 run
      exact ih (.edit edit reached (Step.ends_ok first)) rest

/-- A string, and a package with a chunk. -/
def onePackageEdits : List Edit :=
  [.internString "a", .internPackage 127 "app", .pushChunk 127 #[3, 2, 8, 0, 8, 0, 0, 0]]

theorem survives_of_reached_onePackage : ∃ table bytes written again,
    Reached (fun table => empty = .ok table) table ∧ table.packages.length = 1 ∧
      (∀ package ∈ table.packages, '\u0000' ∉ package.name.toList) ∧ table.writtenSize < UInt32.size ∧
      Table.toBytes table = .ok bytes written ∧ Table.read bytes.toArray {} = .ok again ∧
      Survives table bytes written again := by
  have runs : (do
      let table ← empty
      return EStateM.run' (do
        onePackageEdits.forM Edit.step
        let table ← get
        return decide (table.packages.length = 1 ∧ (∀ package ∈ table.packages, '\u0000' ∉ package.name.toList) ∧
          table.writtenSize < UInt32.size)) table) = Except.ok (some true) := by
    simp only [onePackageEdits, List.forM, Edit.step, onStrings, StringPool.internStep, StringPool.intern,
      StringForm.check, internPackage, Package.make, Package.checkName, writtenSize, StringPool.toChunk,
      StringPool.encodeNew, StringPool.stringArea, StringForm.encode, Text.unitCount_eq]
    decide +kernel
  obtain ⟨first, made, runs⟩ := Except.bind_eq_ok.1 runs
  obtain ⟨table, run⟩ := Step.run'_eq_some.1 (Except.ok.inj runs)
  obtain ⟨_, _, edits, run⟩ := Step.bind_eq_ok.1 run
  rw [Step.bind_ok (Step.get_apply _)] at run
  obtain ⟨holds, rfl⟩ := EStateM.Result.ok.inj run
  obtain ⟨one, clean, small⟩ := of_decide_eq_true holds
  have reached : Reached (fun table => empty = .ok table) _ := .run (.start made) edits
  obtain ⟨bytes, written, again, writes, reads, survives⟩ := (survives_of_reached reached).2 clean small
  exact ⟨_, bytes, written, again, reached, one, clean, small, writes, reads, survives⟩

end Table
end DexArsc.Resource
