/-
Packages that are read: they stand in the tree as they stand in the data, and a refresh writes nothing but the
name.
-/

import DexArsc.Proofs.Resource.Stored

namespace DexArsc.Resource.Package

variable {tree final : BlockTree} {package image : Package} {front : List UInt8} {rows : List (List UInt8)}
  {ids : List NodeId} {options : ReadOptions}

/-- A pool takes its slot, and the other parts of the package stay. -/
theorem Tells.withPool {content : Content} {more : List NodeId} (tells : package.Tells ids tree content)
    (which : PackagePool) (pool : StringPool) (node : NodeId) (within : ids ⊆ more)
    (spells : ∀ id bytes, id ∈ ids → tree.Spells id bytes → final.Spells id bytes) :
    (package.withSlot which { pool, node }).Tells more final (content.withPool which pool) where
  id := by cases which <;> exact tells.id
  name := by cases which <;> exact tells.name
  pools other := by
    cases which with
    | types =>
        cases other with
        | types => rfl
        | keys => exact tells.pools .keys
    | keys =>
        cases other with
        | types => exact tells.pools .types
        | keys => rfl
  chunks := by cases which <;> exact tells.chunks_imp within spells

/-- A chunk that is read as a pool stands in the package, with its offset in the header. -/
theorem Stored.addsPool (stored : package.Stored front rows ids tree) (linked : tree.Linked) {owner : Node}
    (found : tree.node? package.node = some owner) {bytes : List UInt8} (isChunk : IsChunk bytes)
    {which : PackagePool} {pool : StringPool}
    (place : placeIn front (Chunk.ofBytes (front.length + rows.flatten.length) bytes).header = some which)
    (read : StringPool.read bytes.toArray = .ok pool)
    (added : PoolAdded package which bytes.toArray owner tree final) :
    (package.withSlot which { pool, node := tree.fresh }).Stored front (rows ++ [bytes]) (ids ++ [tree.fresh])
      final := by
  have image : Content.ofBytes front (rows ++ [bytes]) = (Content.ofBytes front rows).withPool which pool := by
    have read : StringPool.read (Chunk.ofBytes (front.length + rows.flatten.length) bytes).bytes = .ok pool := read
    rw [Content.ofBytes_append, isChunk.ofBytes, Content.add]
    simp only [place, read]
  refine stored.add linked found added.pieceAdded (fun patch inside => ?_) (by cases which <;> rfl)
    (by cases which <;> rfl) (fun other slot there => ?_)
    fun spells => image ▸ stored.tells.withPool which pool _ (List.subset_append_left ..) spells
  · cases List.mem_singleton.1 inside
    refine ⟨which, rows.length, tree.fresh, rfl, ?_, ?_⟩
    · rw [← stored.row.length_eq, List.getElem?_append_right (Nat.le_refl _), Nat.sub_self]
      rfl
    · obtain ⟨_, position⟩ := start_of_placeIn place
      rw [position, List.take_left]
      rfl
  · by_cases same : other = which
    · have here : (package.withSlot which { pool, node := tree.fresh }).slot? which =
          some { pool, node := tree.fresh } := by cases which <;> rfl
      cases here.symm.trans (same ▸ there)
      exact StringPool.modified_of_read read
    · have kept : (package.withSlot which { pool, node := tree.fresh }).slot? other = package.slot? other := by
        cases which <;> cases other <;> first | rfl | exact absurd rfl same
      exact stored.still other slot (kept ▸ there)

/-- Any other chunk stands in the package as it is. -/
theorem Stored.addsChunk (stored : package.Stored front rows ids tree) (linked : tree.Linked) {owner : Node}
    (found : tree.node? package.node = some owner) {bytes : List UInt8} (isChunk : IsChunk bytes)
    (place : placeIn front (Chunk.ofBytes (front.length + rows.flatten.length) bytes).header = none)
    {between : BlockTree} (added : ChunkAdded package.node
      (Chunk.ofBytes (front.length + rows.flatten.length) bytes) owner tree between final) :
    (package.withChunk (Chunk.ofBytes (front.length + rows.flatten.length) bytes).header.type tree.fresh).Stored
      front (rows ++ [bytes]) (ids ++ [tree.fresh]) final := by
  have added := added.pieceAdded isChunk
  have tells := stored.tells
  have image : Content.ofBytes front (rows ++ [bytes]) = { Content.ofBytes front rows with
      chunks := (Content.ofBytes front rows).chunks ++
        [((Chunk.ofBytes (front.length + rows.flatten.length) bytes).header.type, bytes)] } := by
    rw [Content.ofBytes_append, isChunk.ofBytes, Content.add]
    simp only [place]
    rfl
  refine stored.add linked found added (by simp) rfl rfl stored.still fun spells => ?_
  rw [image]
  refine ⟨tells.id, tells.name, tells.pools, forall₂_append_singleton
    (tells.chunks_imp (List.subset_append_left ..) spells) ?_⟩
  exact ⟨rfl, List.mem_append_right _ List.mem_cons_self, added.spells⟩

/-- What a piece adds to a package that stands in a tree. -/
theorem Stored.adds (stored : package.Stored front rows ids tree) (linked : tree.Linked) {owner : Node}
    (found : tree.node? package.node = some owner) {bytes : List UInt8} (isPiece : IsPiece bytes)
    (adds : Adds options (placeIn front) tree package owner
      (Piece.ofBytes (front.length + rows.flatten.length) bytes) final image) :
    image.Stored front (rows ++ [bytes]) (ids ++ [tree.fresh]) final := by
  rcases isPiece with isChunk | short
  · rw [isChunk.ofBytes] at adds
    cases adds with
    | pool place read added => exact stored.addsPool linked found isChunk place read added
    | chunk place _ added => exact stored.addsChunk linked found isChunk place added
  · have gap : Piece.ofBytes (front.length + rows.flatten.length) bytes = .gap bytes.toArray := if_pos short
    have content := Content.ofBytes_append front rows bytes
    have tells := stored.tells
    rw [gap] at adds content
    cases adds with
    | gap added =>
        refine stored.add linked found added.pieceAdded (by simp) rfl rfl stored.still fun spells => ?_
        rw [content]
        exact ⟨tells.id, tells.name, tells.pools, tells.chunks_imp (List.subset_append_left ..) spells⟩

/-- The pieces of a package can be read. -/
def Readable (options : ReadOptions) (front : List UInt8) (rows : List (List UInt8)) : Prop :=
  ∀ piece ∈ Piece.row front.length rows, ¬Refused options (placeIn front) piece

theorem Readable.append (readable : Readable options front rows) {bytes : List UInt8}
    (fits : ¬Refused options (placeIn front) (Piece.ofBytes (front.length + rows.flatten.length) bytes)) :
    Readable options front (rows ++ [bytes]) := by
  intro piece inside
  rw [Piece.row_append, List.mem_append] at inside
  rcases inside with inside | inside
  · exact readable piece inside
  · exact List.mem_singleton.1 inside ▸ fits

/-- The places of the pools do not depend on the name. -/
theorem Readable.rename (readable : Readable options front rows) {name : String}
    (full : (encodeName name).length = 2 * nameUnits) : Readable options (renameFront front name) rows := by
  unfold Readable
  rw [placeIn_renameFront full, length_renameFront]
  exact readable

theorem Readable.rewrite (readable : Readable options front rows) (long : minHeaderSize ≤ front.length) :
    Readable options (rewriteFront front) rows :=
  readable.rename (full_decodeName long)

theorem Adds.not_refused {pool? : ChunkHeader → Option PackagePool} {owner : Node} {piece : Piece}
    (adds : Adds options pool? tree package owner piece final image) : ¬Refused options pool? piece := by
  unfold Refused
  cases adds with
  | gap added => exact not_false
  | pool place read added =>
      simp only [place]
      exact fun refuses => refuses _ read
  | chunk place accepted added =>
      simp only [place]
      exact fun refuses => refuses accepted

/-- The pieces behind the header of a package, as they are read. -/
theorem readRow_ensures {start : BlockTree} (framed : Framed front rows) (fresh : package.Fresh start tree)
    (stored : package.Stored front [] [] tree) (options : ReadOptions) :
    ((Piece.row front.length rows).forM (readPiece options (placeIn front) package.node)).Ensures (tree, package)
      (fun _ final => Readable options front rows ∧ final.2.Fresh start final.1 ∧
        ∃ ids, final.2.Stored front rows ids final.1)
      (fun _ => ¬Readable options front rows) := by
  have run := @Piece.forM_row_ensures (BlockTree × Package) (readPiece options (placeIn front) package.node)
    (fun done final => (Readable options front done ∧ final.2.Fresh start final.1 ∧
      ∃ ids, final.2.Stored front done ids final.1) ∧ final.2.node = package.node)
    (fun done bytes => Refused options (placeIn front) (Piece.ofBytes (front.length + done.flatten.length) bytes))
    front.length rows
    (by
      rintro done bytes behind whole ⟨between, image⟩ ⟨⟨readable, fresh, ids, stored⟩, node⟩
      obtain ⟨owner, found, container⟩ := fresh.held.owner
      rw [← node]
      refine (readPiece_ensures fresh.grows.linked found container _).imp (fun _ final adds => ?_) fun _ fails => fails
      obtain ⟨behind, same⟩ := adds.fresh fresh found container
      exact ⟨⟨readable.append adds.not_refused, behind, _, stored.adds fresh.grows.linked found
        (framed.isRow.isPiece bytes (by simp [whole])) adds⟩, same.trans rfl⟩)
    (tree, package) ⟨⟨by simp [Readable, Piece.row], fresh, [], stored⟩, rfl⟩
  apply run.imp (fun _ final here => here.1)
  rintro _ ⟨done, bytes, behind, whole, refused⟩ readable
  refine readable _ ?_ refused
  rw [whole, Piece.row_append]
  exact List.mem_append_right _ List.mem_cons_self

/-- The header of a package is read in front of the row. -/
theorem Framed.readHead_eq (framed : Framed front rows) : readHead { data := (front ++ rows.flatten).toArray } = .ok {
      chunk := .ofBytes 0 (front ++ rows.flatten)
      bytes := front.toArray
      id := Bytes.word front 8
      name := decodeName front.toArray
      types := Bytes.word front (PackagePool.position .types)
      keys := Bytes.word front (PackagePool.position .keys) }
    { data := (front ++ rows.flatten).toArray, position := front.length } := by
  have long := framed.long
  unfold minHeaderSize at long
  have size : Bytes.half (front ++ rows.flatten) 2 = Bytes.half front 2 := Bytes.half_append (by omega) _
  have word (position : Nat) (inside : position + 4 ≤ 284) :
      Bytes.word (front ++ rows.flatten) position = Bytes.word front position := Bytes.word_append (by omega) _
  refine (readHead_eq_ok framed.isChunk).2 ⟨?_, ?_, ?_⟩
  · rw [size, framed.head]
    exact framed.long
  · rw [Head.ofBytes, size, framed.head, List.take_left, word _ (by decide), word _ (by decide), word _ (by decide)]
  · rw [size, framed.head]

/-- The row of a package ends with the bytes. -/
theorem Framed.stop_eq (framed : Framed front rows) :
    (ChunkHeader.ofBytes 0 (front ++ rows.flatten)).stop = front.length + rows.flatten.length := by
  rw [ChunkHeader.stop, ChunkHeader.start_ofBytes, Nat.zero_add, ← List.length_append]
  exact framed.isChunk.size

/-- A package whose pieces can be read is read, and stands in the tree as in the data. -/
theorem read_ensures (linked : tree.Linked) (framed : Framed front rows) :
    (read (front ++ rows.flatten).toArray options).Ensures tree
      (fun package final => Readable options front rows ∧ package.Fresh tree final ∧
        ∃ ids, package.Stored front rows ids final)
      (fun _ => ¬Readable options front rows) := by
  have found := framed.readHead_eq
  rw [read_of_head found]
  obtain ⟨first, made, added⟩ := newNode_ok linked front.toArray
  let empty : Package := {
    id := Bytes.word front 8
    name := decodeName front.toArray
    node := tree.fresh
    header := ⟨tree.nodes.size + 1⟩ }
  have fresh : empty.Fresh tree first := by
    refine ⟨added.grows, Nat.le_refl _, ?_, ⟨⟨_, BlockTree.shape?_of_some added.node, rfl⟩, ?_, ?_, ?_⟩⟩
    · rw [BlockTree.parent?, added.node]
      rfl
    · simp [empty]
    · simp [empty]
    · simp [empty]
  have stored : empty.Stored front [] [] first := {
    headed := ⟨[], ⟨⟨_, added.node, rfl, rfl, rfl⟩, ⟨_, added.header, rfl, rfl⟩⟩, by simp⟩
    row := .nil
    still := fun which slot found => by cases which <;> cases found
    tells := ⟨rfl, rfl, fun which => by cases which <;> rfl, .nil⟩ }
  have rest := readRow_ensures framed fresh stored options
  unfold readBehind
  refine .behind made (.behind (Step.get_apply _) ?_)
  dsimp only
  have cursor := @Reader.pieces_eq _ (readPiece options (placeIn front) tree.fresh)
    (front ++ rows.flatten).toArray front.length rows framed.isRow (by
      rw [Bytes.Stands, List.toList_toArray, List.drop_left]) (by simp)
  have pieces : (Step.within (title (Bytes.word front 8)) (Reader.pieces
      (ChunkHeader.ofBytes 0 (front ++ rows.flatten)).stop
        { data := (front ++ rows.flatten).toArray, position := front.length }
        (readPiece options (placeIn front) tree.fresh))).Ensures (first, empty)
      (fun _ final => Readable options front rows ∧ final.2.Fresh tree final.1 ∧
        ∃ ids, final.2.Stored front rows ids final.1)
      (fun _ => ¬Readable options front rows) := by
    rw [framed.stop_eq, cursor]
    exact .within (rest.bind fun _ final here => .of_ok rfl here)
  unfold Step.Ensures at pieces
  unfold placeIn at pieces
  generalize Step.within _ _ _ = result at pieces ⊢
  cases result with
  | ok cursor final => exact .of_ok rfl pieces
  | error fault final => exact .of_error rfl pieces

/-- What is read as a package is a header and a row of pieces. -/
theorem framed_of_read {bytes : List UInt8} (isChunk : IsChunk bytes)
    (run : read bytes.toArray options tree = .ok package final) :
    ∃ front rows, bytes = front ++ rows.flatten ∧ Framed front rows := by
  cases found : readHead { data := bytes.toArray } with
  | error fault cursor =>
      rw [read_of_fault found] at run
      cases run
  | ok head cursor =>
      rw [read_of_head found] at run
      obtain ⟨long, rfl, rfl⟩ := (readHead_eq_ok isChunk).1 found
      obtain ⟨_, _, made, run⟩ := Step.bind_eq_ok.1 run
      obtain ⟨_, _, here, run⟩ := Step.bind_eq_ok.1 run
      cases here
      generalize pieces : Step.within _ _ _ = result at run
      cases result with
      | error fault final => cases run
      | ok cursor final =>
        have stop : (Head.ofBytes bytes).chunk.stop = bytes.length := by
          rw [Head.ofBytes, ChunkHeader.stop, ChunkHeader.start_ofBytes, Nat.zero_add]
          exact isChunk.size
        have within := isChunk.within
        obtain ⟨rows, isRow, stands, length⟩ := Reader.row_of_pieces (Step.within_eq_ok.1 pieces)
          (by rw [stop]; exact within) (by rw [stop]; simp)
        rw [stop] at length
        have rest : rows.flatten = bytes.drop (Bytes.half bytes 2).toNat := by
          refine List.IsPrefix.eq_of_length stands ?_
          rw [List.length_drop]
          omega
        have whole : bytes = bytes.take (Bytes.half bytes 2).toNat ++ rows.flatten := by
          rw [rest, List.take_append_drop]
        have front : (bytes.take (Bytes.half bytes 2).toNat).length = (Bytes.half bytes 2).toNat := by
          rw [List.length_take, Nat.min_eq_left within]
        unfold minHeaderSize at long
        have half : Bytes.half (bytes.take (Bytes.half bytes 2).toNat) 2 = Bytes.half bytes 2 := by
          rw [← Bytes.half_append (by omega) rows.flatten, ← whole]
        refine ⟨_, rows, whole, whole ▸ isChunk, by rw [half, front], ?_, isRow⟩
        rw [front]
        exact long

/-- The name of a package is the one in its header. -/
theorem Stored.name_eq (stored : package.Stored front rows ids tree) : package.name = decodeName front.toArray := by
  rw [stored.tells.name, (Content.ofBytes_head front rows).2]

/-- A package that is read and written with another name: the header has the name in the form that a refresh
writes, and tells it up to its first zero character. -/
theorem Stored.rename (stored : package.Stored front rows ids tree) (linked : tree.Linked)
    (long : minHeaderSize ≤ front.length) {name : String} (full : (encodeName name).length = 2 * nameUnits) :
    ∃ final leaf, Package.refresh { package with name } tree = .ok () final ∧
      tree.node? package.header = some leaf ∧
      tree.Altered package.header { leaf with kind := .leaf (renameFront front name).toArray } final ∧
      Stored { package with name := shownName name } (renameFront front name) rows ids final := by
  obtain ⟨patches, headed, patched⟩ := stored.headed
  obtain ⟨leaf, live, kind, none⟩ := headed.header
  have written : headerOf { package with name } front.toArray = (renameFront front name).toArray := by
    have id : Bytes.putWord32 front.toArray 8 package.id = front.toArray := by
      refine Bytes.overwrite_of_stands ?_
      unfold minHeaderSize at long
      have word : package.id = Bytes.word front 8 := by
        rw [stored.tells.id, (Content.ofBytes_head front rows).1]
      rw [word, Bytes.ofWord32_word (by omega), Bytes.Stands, List.toList_toArray]
      exact List.take_prefix ..
    rw [headerOf, id, renameFront, Array.toArray_toList]
  obtain ⟨final, run, altered⟩ := linked.modifyLeaf live kind (headerOf { package with name })
  rw [written] at altered
  have pool (which : PackagePool) : refreshPool (package.slot? which) final = .ok () final := by
    cases found : package.slot? which with
    | none => rfl
    | some slot =>
        rw [refreshPool, if_neg (by simp [stored.still which slot found])]
        rfl
  refine ⟨final, leaf, ?_, live, altered, ?_⟩
  · unfold Package.refresh
    exact (Step.bind_ok run).trans ((Step.bind_ok (pool .types)).trans (pool .keys))
  · have other (id : NodeId) (apart : id ≠ package.header) : final.core? id = tree.core? id := by
      rw [BlockTree.core?, BlockTree.core?, altered.others id apart]
    have forest := linked.toForest
    obtain ⟨owner, above, container, children, _⟩ := headed.node
    have low : package.node.index < package.header.index :=
      linked.lt (BlockTree.shape?_of_some above) (by
        change _ ∈ owner.children
        rw [children]
        exact List.mem_cons_self)
    have up (id : NodeId) (inside : id ∈ package.header :: ids) : tree.parent? id = some package.node :=
      linked.down _ _ id (BlockTree.shape?_of_some above) (by
        change _ ∈ owner.children
        rwa [children])
    have nodup : (package.header :: ids).Nodup := children ▸ linked.nodup _ _ (BlockTree.shape?_of_some above)
    have spells (id : NodeId) (bytes : List UInt8) (inside : id ∈ ids) (here : tree.Spells id bytes) :
        final.Spells id bytes := by
      refine here.frame forest altered.linked.toForest fun below owned => other below ?_
      rintro rfl
      refine owned.apart forest (up id (List.mem_cons_of_mem _ inside)) (up _ List.mem_cons_self) ?_ .top
      rintro rfl
      exact (List.nodup_cons.1 nodup).1 inside
    exact {
      headed := ⟨patches, {
        node := (headed.frame_node (other _ (BlockTree.ne_of_index_lt low)))
        header := ⟨_, altered.here, rfl, none⟩ }, fun patch inside => by
          obtain ⟨which, place, target, rfl, found, offset⟩ := patched patch inside
          refine ⟨which, place, target, rfl, found, ?_⟩
          rw [length_renameFront, word_renameFront full (by cases which <;> exact .inr (by decide)), offset]⟩
      row := forall₂_imp_mem stored.row fun id inside bytes _ here => spells id bytes inside here
      still := stored.still
      tells := by
        rw [Content.ofBytes_renameFront long full]
        exact ⟨stored.tells.id, rfl, stored.tells.pools, stored.tells.chunks_imp (List.Subset.refl _) spells⟩ }

/-- A package that is read and written anew: the header has the name in the form that a refresh writes. -/
theorem Stored.refresh (stored : package.Stored front rows ids tree) (linked : tree.Linked)
    (long : minHeaderSize ≤ front.length) : ∃ final leaf, package.refresh tree = .ok () final ∧
      tree.node? package.header = some leaf ∧
      tree.Altered package.header { leaf with kind := .leaf (rewriteFront front).toArray } final ∧
      package.Stored (rewriteFront front) rows ids final := by
  have renamed := stored.rename linked long (full_decodeName long)
  rw [shownName_decodeName long, ← rewriteFront_eq, ← stored.name_eq] at renamed
  exact renamed

end DexArsc.Resource.Package
