/-
Chunks that are added to packages that were read. Unless the package ends with bytes that are too few for a chunk, it
is written with the chunk behind all others, and read again with it.
-/

import DexArsc.Proofs.BlockTree.Fillable
import DexArsc.Proofs.Resource.TableRead

namespace DexArsc.Resource

variable {tree final : BlockTree} {front image : List UInt8} {rows : List (List UInt8)}

/-- A header where at most the fields between the first four bytes and a stop are different. -/
structure Recounted (stop : Nat) (front image : List UInt8) : Prop where
  length : image.length = front.length
  first : image.take 4 = front.take 4
  rest : image.drop stop = front.drop stop

namespace Recounted

variable {stop : Nat}

theorem of_places (length : image.length = front.length)
    (same : ∀ place, place < 4 ∨ stop ≤ place → image[place]? = front[place]?) : Recounted stop front image where
  length := length
  first := List.ext_getElem? fun place => by
    rw [List.getElem?_take, List.getElem?_take]
    split
    · rename_i low
      exact same place (.inl low)
    · rfl
  rest := List.ext_getElem? fun place => by
    rw [List.getElem?_drop, List.getElem?_drop]
    exact same _ (.inr (Nat.le_add_right ..))

theorem half (recounted : Recounted stop front image) {position : Nat} (low : position + 2 ≤ 4) :
    Bytes.half image position = Bytes.half front position := by
  rw [← Bytes.half_take _ low, recounted.first, Bytes.half_take _ low]

theorem drop (recounted : Recounted stop front image) {position : Nat} (high : stop ≤ position) :
    image.drop position = front.drop position := by
  rw [← Nat.add_sub_cancel' high, ← List.drop_drop, recounted.rest, List.drop_drop]

theorem word (recounted : Recounted stop front image) {position : Nat} (high : stop ≤ position) :
    Bytes.word image position = Bytes.word front position := by
  rw [Bytes.word, Bytes.word, recounted.drop high]

end Recounted

/-- No bytes that are too few for a chunk are among the pieces. -/
def Gapless (pieces : List Piece) : Prop :=
  ∀ piece ∈ pieces, ∃ chunk, piece = .chunk chunk

theorem isChunk_of_gapless {start : Nat} (isRow : IsRow rows) (gapless : Gapless (Piece.row start rows)) :
    ∀ bytes ∈ rows, IsChunk bytes := by
  induction isRow generalizing start with
  | nil => simp
  | @gap bytes some short =>
      obtain ⟨chunk, same⟩ := gapless _ List.mem_cons_self
      rw [Piece.ofBytes, if_pos short] at same
      cases same
  | chunk isChunk behind ih =>
      exact List.forall_mem_cons.2 ⟨isChunk, ih fun piece inside => gapless piece (List.mem_cons_of_mem _ inside)⟩

/-- A chunk is accepted wherever it stands. -/
theorem accept_ofBytes {options : ReadOptions} {start : Nat} {bytes : List UInt8}
    (accepted : (ChunkHeader.ofBytes start bytes).accept options = .ok ()) (other : Nat) :
    (ChunkHeader.ofBytes other bytes).accept options = .ok () := by
  unfold ChunkHeader.accept ChunkHeader.ofBytes at *
  dsimp only at accepted ⊢
  split at accepted
  · split at accepted
    · rename_i kept
      simp only [kept, if_true]
    · cases accepted
  · rfl

namespace Package

variable {package added : Package} {ids : List NodeId} {options : ReadOptions}

/-- The pieces that stand behind the header of a package. -/
def pieces (data : Bytes) : List Piece :=
  match readHead { data } with
  | .ok head cursor => (Piece.readAll head.chunk.stop (data.size + 1) cursor).1
  | .error _ _ => []

theorem Framed.pieces_eq (framed : Framed front rows) :
    pieces (front ++ rows.flatten).toArray = Piece.row front.length rows := by
  have enough : rows.length ≤ (front ++ rows.flatten).toArray.size + 1 := by
    have less := framed.isRow.length_le
    rw [List.size_toArray, List.length_append]
    omega
  have stands : Bytes.Stands (front ++ rows.flatten).toArray front.length rows.flatten := by
    rw [Bytes.Stands, List.toList_toArray, List.drop_left]
  unfold pieces
  rw [framed.readHead_eq]
  dsimp only
  rw [framed.stop_eq, Piece.readAll_ok framed.isRow stands enough]

section

variable (counts : Recounted 8 front image) (long : minHeaderSize ≤ front.length)
include counts

theorem placeIn_recounted : placeIn image = placeIn front := by
  funext header
  rw [placeIn, placeIn, counts.word (by decide), counts.word (by decide)]

theorem decodeName_recounted : decodeName image.toArray = decodeName front.toArray := by
  rw [decodeName, decodeName, List.extract_toArray, List.extract_toArray, List.extract_eq_take_drop,
    List.extract_eq_take_drop, counts.drop (by decide)]

/-- The counts of a header tell nothing else. -/
theorem Content.ofBytes_recounted (rows : List (List UInt8)) : ofBytes image rows = ofBytes front rows := by
  rw [ofBytes, ofBytes, counts.length, placeIn_recounted counts, decodeName_recounted counts,
    counts.word (Nat.le_refl 8)]

theorem Readable.recounted (readable : Readable options front rows) : Readable options image rows := by
  unfold Readable
  rw [placeIn_recounted counts, counts.length]
  exact readable

include long

/-- A header that tells the size of a row is the header of a package with this row. -/
theorem framed_of_recounted (head : (Bytes.half front 2).toNat = front.length) (isRow : IsRow rows)
    (size : (Bytes.word image 4).toNat = (image ++ rows.flatten).length) : Framed image rows := by
  unfold minHeaderSize at long
  have length := counts.length
  have half : Bytes.half (image ++ rows.flatten) 2 = Bytes.half front 2 := by
    rw [Bytes.half_append (by omega), counts.half (by decide)]
  exact {
    isChunk := {
      least := by
        rw [half, head]
        unfold Resource.minHeaderSize
        omega
      within := by
        rw [half, head, List.length_append]
        omega
      size := by rw [Bytes.word_append (by omega), size] }
    head := by rw [counts.half (by decide), head, length]
    long := by
      unfold minHeaderSize
      omega
    isRow }

end

/-- A chunk is kept in the same nodes wherever it stood. -/
theorem ChunkAdded.moved {parent : NodeId} {bytes : List UInt8} {first second : Nat} {owner : Node}
    {between : BlockTree} (added : ChunkAdded parent (.ofBytes first bytes) owner tree between final) :
    ChunkAdded parent (.ofBytes second bytes) owner tree between final := by
  obtain ⟨⟨⟨forest, size, older, node, head, body⟩, grows⟩, attached⟩ := added
  exact ⟨⟨⟨forest, size, older, node, head, body⟩, grows⟩, attached⟩

/-- A chunk that is pushed becomes the last piece of a package, whose header does not tell the size any more. -/
theorem Stored.pushChunk (stored : package.Stored front rows ids tree) (linked : tree.Linked) {bytes : Bytes}
    {node : NodeId} (run : package.pushChunk bytes tree = .ok (node, added) final)
    (accepted : (ChunkHeader.ofBytes 0 bytes.toList).accept options = .ok ()) : IsChunk bytes.toList ∧
      placeIn front (ChunkHeader.ofBytes (front.length + rows.flatten.length) bytes.toList) = none ∧
        final.Linked ∧ ∃ ids, added.Stored front (rows ++ [bytes.toList]) ids final := by
  obtain ⟨_, headed, _⟩ := stored.headed
  obtain ⟨owner, found, container, _⟩ := headed.node
  obtain ⟨chunk, ⟨⟨cursor, read, rest⟩, type⟩, same, between, adds⟩ :=
    (pushChunk_ensures linked found container bytes).ok run
  obtain ⟨source, isChunk, stands, rfl, rfl⟩ := Chunk.read_eq_ok.1 read
  cases same
  obtain rfl : source = bytes.toList := by
    have short : bytes.toList.length ≤ source.length := by
      rw [Cursor.remaining, Cursor.limit] at rest
      simp only [List.head?_nil, Option.getD_none, Nat.zero_add] at rest
      rw [Array.length_toList]
      omega
    exact stands.eq_of_length_le short
  have place : placeIn front (ChunkHeader.ofBytes (front.length + rows.flatten.length) bytes.toList) = none :=
    placeIn_other fun pool => type (.inr (.inr pool))
  have linked' := adds.attached.linked
  have adds : Adds options (placeIn front) tree package owner
      (Piece.ofBytes (front.length + rows.flatten.length) bytes.toList) final
        (package.withChunk (Chunk.ofBytes 0 bytes.toList).header.type tree.fresh) := by
    rw [isChunk.ofBytes]
    exact .chunk place (accept_ofBytes accepted _) adds.moved
  exact ⟨isChunk, place, linked', _, stored.adds linked found (.inl isChunk) adds⟩

/-- A package whose header tells another size is written with its size. -/
theorem Stored.write (stored : package.Stored front rows ids tree) (forest : tree.Forest)
    (long : minHeaderSize ≤ front.length) (small : (front ++ rows.flatten).length < UInt32.size) :
    ∃ size image final, BlockTree.refresh package.node tree = .ok size final ∧
      final.toBytes package.node = image ++ rows.flatten ∧ Recounted 8 front image ∧
        (Bytes.word image 4).toNat = (image ++ rows.flatten).length := by
  obtain ⟨patches, headed, patched⟩ := stored.headed
  have size : (tree.toBytes package.node).length = (front ++ rows.flatten).length := by
    rw [headed.toBytes forest stored.row]
  have fillable : tree.Fillable package.node := by
    refine headed.fillable forest (fun child inside => ?_) fun patch inside => ?_
    · obtain ⟨_, _, here⟩ := forall₂_mem stored.row.flip inside
      exact here.current.fillable
    · rcases List.mem_cons.1 inside with rfl | inside
      · unfold minHeaderSize at long
        exact .word headed.children headed.leaf rfl (by rw [List.size_toArray]; omega) (by rintro _ ⟨⟩)
          (size ▸ small) rfl
      · exact (headed.currentPatch (stored.wordPatch long (patched patch inside))).fillable
  obtain ⟨final, refreshed, filling⟩ := forest.refresh_of_fillable fillable
  obtain ⟨image, length, whole, filled, kept⟩ := headed.filling forest filling fillable
  have rest : ids.flatMap final.toBytes = rows.flatten :=
    BlockTree.flatMap_toBytes (forall₂_imp_mem stored.row fun id inside _ _ here =>
      filling.spells fillable forest here
        (.of_mem_children .top (by rw [headed.children]; exact List.mem_cons_of_mem _ inside))
        (forest.not_heads headed.children inside))
  have word := filled _ List.mem_cons_self (fun other listed overlaps => by
    rcases List.mem_cons.1 listed with rfl | listed
    · rfl
    · obtain ⟨which, _, _, rfl, _⟩ := patched other listed
      cases which
      · exact absurd overlaps (BlockTree.not_overlaps_word _ (by decide))
      · exact absurd overlaps (BlockTree.not_overlaps_word _ (by decide))) 4 rfl
  rw [rest] at whole
  refine ⟨_, image, final, refreshed, whole, .of_places length fun place apart =>
    kept place fun patch inside covers => ?_, ?_⟩
  · rcases List.mem_cons.1 inside with rfl | inside
    · obtain ⟨_, low, high⟩ := covers
      have start : 4 ≤ place := low
      have stop : place < 4 + 4 := high
      omega
    · exact headed.currentPatch (stored.wordPatch long (patched patch inside))
  · rw [← whole]
    exact word

/-- A package whose header tells another size is written with another name, in the form that a refresh writes, and
with its size. -/
theorem Stored.toBytes_rename (stored : package.Stored front rows ids tree) (linked : tree.Linked)
    (long : minHeaderSize ≤ front.length) (small : (front ++ rows.flatten).length < UInt32.size) {name : String}
    (full : (encodeName name).length = 2 * nameUnits) : ∃ image final,
      Package.toBytes { package with name } tree = .ok (image ++ rows.flatten) final ∧
        Recounted 8 (renameFront front name) image ∧
        (Bytes.word image 4).toNat = (image ++ rows.flatten).length := by
  obtain ⟨between, _, run, _, altered, stored⟩ := stored.rename linked long full
  obtain ⟨_, image, final, refreshed, whole, counts, size⟩ := stored.write altered.linked.toForest
    (by rwa [length_renameFront]) (by rwa [List.length_append, length_renameFront, ← List.length_append])
  refine ⟨image, final, ?_, counts, size⟩
  unfold Package.toBytes
  rw [Step.bind_ok run, Step.bind_ok refreshed, Step.bind_ok (Step.get_apply final), whole]
  rfl

/-- The same for the name that it has. -/
theorem Stored.toBytes (stored : package.Stored front rows ids tree) (linked : tree.Linked)
    (long : minHeaderSize ≤ front.length) (small : (front ++ rows.flatten).length < UInt32.size) : ∃ image final,
      package.toBytes tree = .ok (image ++ rows.flatten) final ∧ Recounted 8 (rewriteFront front) image ∧
        (Bytes.word image 4).toNat = (image ++ rows.flatten).length := by
  have written := stored.toBytes_rename linked long small (full_decodeName long)
  rw [← rewriteFront_eq, ← stored.name_eq] at written
  exact written

/-- Pieces that can be read are read as a package that stands in the tree as they say. -/
theorem Readable.read (readable : Readable options front rows) (linked : tree.Linked) (framed : Framed front rows) :
    ∃ package final ids, Package.read (front ++ rows.flatten).toArray options tree = .ok package final ∧
      package.Stored front rows ids final := by
  have ensures := @read_ensures tree front rows options linked framed
  cases run : Package.read (front ++ rows.flatten).toArray options tree with
  | ok package final =>
      obtain ⟨_, _, ids, stored⟩ := ensures.ok run
      exact ⟨package, final, ids, rfl, stored⟩
  | error fault final => exact absurd readable (ensures.error run)

/-- A package that was read without a gap at its end is written with a chunk that was pushed, and read again with
this chunk behind all others. -/
theorem pushChunk_of_read {data bytes : Bytes} {first second : BlockTree} {node : NodeId} (linked : tree.Linked)
    (isChunk : IsChunk data.toList) (run : read data options tree = .ok package first)
    (gapless : Gapless (pieces data)) (push : package.pushChunk bytes first = .ok (node, added) second)
    (accepted : (ChunkHeader.ofBytes 0 bytes.toList).accept options = .ok ())
    (small : data.size + bytes.size < UInt32.size) : ∃ written final again last,
      added.toBytes second = .ok written final ∧ read written.toArray options {} = .ok again last ∧
        again.content last = { package.content first with
          chunks := (package.content first).chunks ++
            [(ChunkType.ofCode (Bytes.half bytes.toList 0), bytes.toList)] } := by
  obtain ⟨source, rfl⟩ : ∃ source : List UInt8, data = source.toArray := ⟨data.toList, Array.toArray_toList.symm⟩
  obtain ⟨front, rows, rfl, framed⟩ := framed_of_read isChunk run
  obtain ⟨readable, fresh, ids, stored⟩ := (read_ensures linked framed).ok run
  obtain ⟨pushed, place, linked', ids', stored'⟩ := stored.pushChunk fresh.grows.linked push accepted
  have chunks := isChunk_of_gapless framed.isRow (framed.pieces_eq ▸ gapless)
  have isRow : IsRow (rows ++ [bytes.toList]) := isRow_of_chunks fun other inside =>
    (List.mem_append.1 inside).elim (chunks other) fun inside => List.mem_singleton.1 inside ▸ pushed
  obtain ⟨image, final, writes, counts, size⟩ := stored'.toBytes linked' framed.long (by
    rw [List.size_toArray, ← Array.length_toList] at small
    rw [List.length_append] at small
    rw [List.flatten_append, List.flatten_singleton, List.length_append, List.length_append]
    omega)
  have long : minHeaderSize ≤ (rewriteFront front).length := by
    rw [length_rewriteFront]
    exact framed.long
  have framed' := framed_of_recounted counts long framed.rewrite.head isRow size
  have readable' : Readable options image (rows ++ [bytes.toList]) := by
    refine ((readable.append ?_).rewrite framed.long).recounted counts
    rw [pushed.ofBytes, Refused]
    simp only [Chunk.ofBytes, place]
    exact fun refuses => refuses (accept_ofBytes accepted _)
  obtain ⟨again, last, _, reads, stored''⟩ := readable'.read BlockTree.linked_empty framed'
  refine ⟨_, final, again, last, writes, reads, ?_⟩
  rw [stored''.tells.content_eq, stored.tells.content_eq, Content.ofBytes_recounted counts,
    Content.ofBytes_rewriteFront framed.long, Content.ofBytes_append, pushed.ofBytes, Content.add]
  simp only [Chunk.ofBytes, place]
  rfl

/-- The header of a package with one chunk of eight bytes, whose name is empty. -/
def oneChunkFront : List UInt8 :=
  [0, 2, 28, 1, 36, 1, 0, 0, 127, 0, 0, 0] ++ List.replicate 272 0

/-- A library chunk without libraries. -/
def oneChunk : List UInt8 := [3, 2, 8, 0, 8, 0, 0, 0]

/-- A package with one chunk receives a second one. -/
theorem pushChunk_of_read_oneChunk : ∃ package first node added second written final again last,
    read (oneChunkFront ++ [oneChunk].flatten).toArray {} {} = .ok package first ∧
      package.pushChunk oneChunk.toArray first = .ok (node, added) second ∧
      added.toBytes second = .ok written final ∧ read written.toArray {} {} = .ok again last ∧
      (again.content last).chunks = (package.content first).chunks ++ [(.library, oneChunk)] := by
  have isChunk : IsChunk oneChunk := ⟨by decide, by decide, by decide⟩
  have framed : Framed oneChunkFront [oneChunk] :=
    ⟨⟨by decide +kernel, by decide +kernel, by decide +kernel⟩, by decide +kernel, by decide +kernel,
      .chunk isChunk .nil⟩
  have runs : (match read (oneChunkFront ++ [oneChunk].flatten).toArray {} {} with
      | .ok package first => match package.pushChunk oneChunk.toArray first with
        | .ok _ _ => true
        | .error _ _ => false
      | .error _ _ => false) = true := by
    decide +kernel
  have gapless : Gapless (pieces (oneChunkFront ++ [oneChunk].flatten).toArray) := by
    rw [framed.pieces_eq]
    intro piece inside
    cases List.mem_singleton.1 inside
    exact ⟨_, isChunk.ofBytes _⟩
  cases run : read (oneChunkFront ++ [oneChunk].flatten).toArray {} {} with
  | error fault stop =>
      rw [run] at runs
      cases runs
  | ok package first =>
      rw [run] at runs
      dsimp only at runs
      cases push : package.pushChunk oneChunk.toArray first with
      | error fault stop =>
          rw [push] at runs
          cases runs
      | ok result second =>
          obtain ⟨node, added⟩ := result
          have accepted : (ChunkHeader.ofBytes 0 oneChunk).accept {} = .ok () := rfl
          have small : (oneChunkFront ++ [oneChunk].flatten).toArray.size + oneChunk.toArray.size < UInt32.size := by
            decide +kernel
          have whole : IsChunk (oneChunkFront ++ [oneChunk].flatten).toArray.toList := by
            rw [List.toList_toArray]
            exact framed.isChunk
          have told : ChunkType.ofCode (Bytes.half oneChunk 0) = .library := by decide
          obtain ⟨written, final, again, last, writes, reads, content⟩ :=
            pushChunk_of_read BlockTree.linked_empty whole run gapless push accepted small
          refine ⟨package, first, node, added, second, written, final, again, last, rfl, push, writes, reads, ?_⟩
          rw [content]
          dsimp only
          rw [told]

end Package
end DexArsc.Resource
