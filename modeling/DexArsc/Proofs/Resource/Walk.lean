/-
Walks over rows of chunks that are kept verbatim. A walk ends by itself. It stops early only at a header that is
malformed or whose chunk passes an end, and otherwise all bytes of the row stand below the parent.
-/

import DexArsc.Proofs.Resource.Stored

namespace DexArsc.Resource

namespace ChunkHeader

/-- What is wrong with a header in a row up to a stop: its sizes contradict each other, or its chunk passes the end
of the data or that of the row. -/
inductive Refused (data : Bytes) (stop : Nat) (header : ChunkHeader) : Fault → Prop
  | malformed (sizes : header.headerSize.toNat < minHeaderSize ∨ header.size.toNat < header.headerSize.toNat) :
    Refused data stop header
      { cause := .resource (.invalidSizes header.type header.start header.headerSize.toNat header.size.toNat) }
  | beyondStream (beyond : data.size < header.stop) :
    Refused data stop header { cause := .resource (.chunkBeyondStream header.type header.start) }
  | beyondParent (beyond : stop < header.stop) :
    Refused data stop header { cause := .resource (.chunkBeyondParent header.type header.start stop) }

/-- Headers that data spell one behind the other: the first one at a position, each other one where the extent of
the header before it ends, up to a position behind the last one. -/
inductive Row (data : Bytes) : Nat → List ChunkHeader → Nat → Prop
  | nil (position : Nat) : Row data position [] position
  | cons {position behind : Nat} {rest : List ChunkHeader}
    (least : minHeaderSize ≤ (spelled data position).headerSize.toNat)
    (within : (spelled data position).headerSize.toNat ≤ (spelled data position).size.toNat)
    (later : Row data (spelled data position).stop rest behind) :
    Row data position (spelled data position :: rest) behind

end ChunkHeader

variable {data : Bytes} {position stop : Nat} {fault : Fault} {cursor : Cursor}

theorem IsChunk.stop_ofBytes {bytes : List UInt8} (isChunk : IsChunk bytes) (start : Nat) :
    (ChunkHeader.ofBytes start bytes).stop = start + bytes.length :=
  congrArg (start + ·) isChunk.size

theorem IsChunk.spelled {bytes : List UInt8} (isChunk : IsChunk bytes) (stands : data.Stands position bytes) :
    ChunkHeader.spelled data position = .ofBytes position bytes :=
  ChunkHeader.spelled_of_stands stands isChunk.length_le

namespace Piece

/-- The header of a chunk. -/
def header? : Piece → Option ChunkHeader
  | .chunk found => some found.header
  | .gap _ => none

/-- The headers of chunks follow one another as the chunks do. -/
theorem headers_row {chunks : List (List UInt8)} (all : ∀ bytes ∈ chunks, IsChunk bytes)
    (stands : data.Stands position chunks.flatten) :
    ChunkHeader.Row data position ((row position chunks).filterMap header?)
      (position + chunks.flatten.length) := by
  induction chunks generalizing position with
  | nil => exact .nil position
  | cons bytes rest ih =>
      obtain ⟨isChunk, all⟩ := List.forall_mem_cons.1 all
      obtain ⟨here, behind⟩ := Bytes.Stands.append_iff.1 (List.flatten_cons ▸ stands)
      have header := isChunk.spelled here
      have least : minHeaderSize ≤ (ChunkHeader.spelled data position).headerSize.toNat :=
        header ▸ isChunk.least
      have within : (ChunkHeader.spelled data position).headerSize.toNat ≤
          (ChunkHeader.spelled data position).size.toNat := header ▸ isChunk.within.trans_eq isChunk.size.symm
      have stop : (ChunkHeader.spelled data position).stop = position + bytes.length :=
        header ▸ isChunk.stop_ofBytes position
      have headers := ChunkHeader.Row.cons least within (stop ▸ ih all behind)
      rw [header, isChunk.stop_ofBytes] at headers
      rw [row, isChunk.ofBytes, List.flatten_cons, List.length_append, ← Nat.add_assoc]
      exact headers

/-- The extents of the headers are the chunks. -/
theorem extents_row {chunks : List (List UInt8)} (all : ∀ bytes ∈ chunks, IsChunk bytes)
    (stands : data.Stands position chunks.flatten) : (((row position chunks).filterMap header?).map fun header =>
      (data.extract header.start header.stop).toList) = chunks := by
  induction chunks generalizing position with
  | nil => rfl
  | cons bytes rest ih =>
      obtain ⟨isChunk, all⟩ := List.forall_mem_cons.1 all
      obtain ⟨here, behind⟩ := Bytes.Stands.append_iff.1 (List.flatten_cons ▸ stands)
      rw [row, isChunk.ofBytes]
      change (data.extract position (ChunkHeader.ofBytes position bytes).stop).toList :: _ = _
      rw [isChunk.stop_ofBytes, here.extract_eq, ih all behind]

end Piece

/-- The bytes of a header whose sizes fit are a chunk, when they lie within the data. -/
theorem ChunkHeader.isChunk_of_sizes (least : minHeaderSize ≤ (spelled data position).headerSize.toNat)
    (within : (spelled data position).headerSize.toNat ≤ (spelled data position).size.toNat)
    (bound : (spelled data position).stop ≤ data.size) : ∃ bytes, IsChunk bytes ∧ data.Stands position bytes := by
  have stands : data.Stands position ((data.toList.drop position).take (spelled data position).size.toNat) :=
    List.take_prefix ..
  have length : ((data.toList.drop position).take (spelled data position).size.toNat).length =
      (spelled data position).size.toNat := by
    rw [List.length_take, List.length_drop, Array.length_toList]
    change position + (spelled data position).size.toNat ≤ data.size at bound
    omega
  have header := spelled_of_stands stands (by omega)
  refine ⟨_, ⟨?_, ?_, ?_⟩, stands⟩
  · exact least.trans_eq (congrArg (·.headerSize.toNat) header)
  · exact (congrArg (·.headerSize.toNat) header).symm.trans_le (within.trans_eq length.symm)
  · exact (congrArg (·.size.toNat) header).symm.trans length.symm

/-- Only a header that is refused keeps a chunk from being read. -/
theorem Chunk.refused_of_read (enough : position + minHeaderSize ≤ data.size)
    (run : Chunk.read { data, position } = .error fault cursor) (stop : Nat) :
    (ChunkHeader.spelled data position).Refused data stop fault := by
  have header := ChunkHeader.read_apply enough
  dsimp only at header
  by_cases sizes : (ChunkHeader.spelled data position).headerSize.toNat < minHeaderSize ∨
      (ChunkHeader.spelled data position).size.toNat < (ChunkHeader.spelled data position).headerSize.toNat
  · rw [if_pos sizes] at header
    rw [Chunk.read, Step.bind_apply, header] at run
    cases run
    exact .malformed sizes
  · rw [if_neg sizes] at header
    by_cases beyond : data.size < (ChunkHeader.spelled data position).stop
    · rw [if_pos beyond] at header
      rw [Chunk.read, Step.bind_apply, header] at run
      cases run
      exact .beyondStream beyond
    · obtain ⟨bytes, isChunk, stands⟩ :=
        ChunkHeader.isChunk_of_sizes (Nat.le_of_not_lt fun low => sizes (.inl low))
          (Nat.le_of_not_lt fun short => sizes (.inr short)) (Nat.le_of_not_lt beyond)
      rw [Chunk.read_eq_ok.2 ⟨bytes, isChunk, stands, rfl, rfl⟩] at run
      cases run

namespace Piece

/-- Only a header that is refused keeps a piece from being read. -/
theorem refused_of_read (run : read stop { data, position } = .error fault cursor) (bound : stop ≤ data.size) :
    position + minHeaderSize ≤ stop ∧ (ChunkHeader.spelled data position).Refused data stop fault := by
  have position' : Reader.position { data, position } = .ok position { data, position } := rfl
  unfold read at run
  rw [Step.bind_ok position'] at run
  split at run
  · have cut : Reader.bytes (stop - position) { data, position } = _ :=
      Reader.bytesAs_eq_ok.2 ⟨by omega, rfl, rfl⟩
    rw [Step.bind_ok cut] at run
    cases run
  · rename_i long
    have enough : position + minHeaderSize ≤ stop := by
      unfold minHeaderSize at long ⊢
      omega
    refine ⟨enough, ?_⟩
    rcases Step.bind_eq_error.1 run with refused | ⟨chunk, between, found, rest⟩
    · exact Chunk.refused_of_read (enough.trans bound) refused stop
    · obtain ⟨bytes, isChunk, stands, rfl, rfl⟩ := Chunk.read_eq_ok.1 found
      dsimp only at rest
      rw [Step.guard_apply] at rest
      split at rest
      · rename_i beyond
        cases rest
        rw [isChunk.spelled stands]
        exact .beyondParent beyond
      · cases rest

/-- What is read in front of a failure are chunks, one behind the other, and a header behind them is refused. -/
theorem refused_of_readAll {fuel : Nat} {pieces : List Piece}
    (run : readAll stop fuel { data, position } = (pieces, .error fault)) (bound : stop ≤ data.size) :
    ∃ chunks, (∀ bytes ∈ chunks, IsChunk bytes) ∧ pieces = row position chunks ∧
      data.Stands position chunks.flatten ∧ position + chunks.flatten.length + minHeaderSize ≤ stop ∧
        (ChunkHeader.spelled data (position + chunks.flatten.length)).Refused data stop fault := by
  induction fuel generalizing position pieces with
  | zero => cases run
  | succ fuel ih =>
      unfold readAll at run
      by_cases done : stop ≤ position
      · rw [if_pos done] at run
        cases run
      · rw [if_neg done] at run
        cases first : read stop { data, position } with
        | error fault between =>
            rw [first] at run
            cases run
            obtain ⟨enough, refused⟩ := refused_of_read first bound
            exact ⟨[], by simp, rfl, .nil, enough, refused⟩
        | ok piece between =>
            obtain ⟨bytes, kind, stands, rfl, rfl⟩ := of_read first (by omega)
            rw [first] at run
            cases behind : readAll stop fuel { data, position := position + bytes.length } with
            | mk later result =>
                simp only [behind, Prod.mk.injEq] at run
                obtain ⟨rfl, rfl⟩ := run
                rcases kind with ⟨isChunk, _⟩ | ⟨_, last⟩
                · obtain ⟨chunks, all, rfl, stands', enough, refused⟩ := ih behind
                  rw [Nat.add_assoc position, ← List.length_append, ← List.flatten_cons] at enough refused
                  exact ⟨bytes :: chunks, List.forall_mem_cons.2 ⟨isChunk, all⟩, rfl,
                    List.flatten_cons ▸ Bytes.Stands.append_iff.2 ⟨stands, stands'⟩, enough, refused⟩
                · rw [last, readAll_of_stop (Nat.le_refl _)] at behind
                  cases behind

/-- Every piece that is read brings the walk nearer to its stop, so that more fuel than bytes makes no difference. -/
theorem readAll_fuel {first second : Nat} (enough : stop ≤ position + first) (enough' : stop ≤ position + second) :
    readAll stop first { data, position } = readAll stop second { data, position } := by
  induction first generalizing position second with
  | zero => rw [readAll_of_stop (by omega), readAll_of_stop (by omega)]
  | succ first ih =>
      by_cases done : stop ≤ position
      · rw [readAll_of_stop done, readAll_of_stop done]
      · obtain ⟨second, rfl⟩ : ∃ less, second = less + 1 := ⟨second - 1, by omega⟩
        rw [readAll, readAll, if_neg done, if_neg done]
        cases here : read stop { data, position } with
        | error fault between => rfl
        | ok piece between =>
            obtain ⟨bytes, kind, _, _, rfl⟩ := of_read here (by omega)
            have some : 0 < bytes.length := by
              rcases kind with ⟨isChunk, _⟩ | ⟨_, last⟩
              · exact Nat.lt_of_lt_of_le (by decide) isChunk.length_le
              · omega
            have same : readAll stop first { data, position := position + bytes.length } =
                readAll stop second { data, position := position + bytes.length } := ih (by omega) (by omega)
            simp only [same]

end Piece

/-- A piece becomes the last child of a container. -/
def Piece.keep (parent : NodeId) : Piece → Step BlockTree Unit
  | .gap bytes => do BlockTree.addChild parent (← BlockTree.newLeaf gapTag bytes)
  | .chunk found => do BlockTree.addChild parent (← found.keep)

section

open Relation (ReflTransGen)

variable {tree first between final : BlockTree} {parent : NodeId} {owner : Node} {ids : List NodeId}
  {rows : List (List UInt8)} {bytes : List UInt8}

/-- A fresh node is what a piece is kept as. Only the node itself may have patches that are new. -/
structure PieceKept (tree : BlockTree) (bytes : List UInt8) (final : BlockTree) : Prop where
  forest : final.Forest
  older : ∀ id, id.index < tree.nodes.size → final.node? id = tree.node? id
  orphan : ∃ node, final.node? tree.fresh = some node ∧ node.parent = none
  spells : final.Spells tree.fresh bytes
  gap : bytes.length < minHeaderSize → final.node? tree.fresh = some {
    kind := .leaf bytes.toArray
    tag := gapTag
    length := UInt64.ofNat bytes.length }
  writers : ∀ id node, final.node? id = some node → node.patches ≠ [] →
    id.index < tree.nodes.size ∨ id = tree.fresh

/-- Bytes that are too few for a chunk are kept in a leaf. -/
theorem newLeaf_kept (forest : tree.Forest) (bytes : List UInt8) : ∃ final,
    BlockTree.newLeaf gapTag bytes.toArray tree = .ok tree.fresh final ∧ PieceKept tree bytes final := by
  obtain ⟨final, run, created⟩ := forest.newLeaf gapTag bytes.toArray
  refine ⟨final, run, {
    forest := created.forest
    older := fun id old => created.others id (BlockTree.ne_of_index_lt old)
    orphan := ⟨_, created.fresh, rfl⟩
    spells := .leaf created.forest created.fresh rfl rfl
    gap := fun _ => created.fresh
    writers := fun id node live some => ?_ }⟩
  by_cases fresh : id = tree.fresh
  · exact .inr fresh
  · rw [created.others id fresh] at live
    exact .inl (BlockTree.index_lt live)

/-- A chunk is kept as a container. -/
theorem Chunk.keep_kept (forest : tree.Forest) (isChunk : IsChunk bytes) (start : Nat) : ∃ final,
    (Chunk.ofBytes start bytes).keep tree = .ok tree.fresh final ∧ PieceKept tree bytes final := by
  obtain ⟨final, run, laid⟩ := keep_laid (.ofBytes start bytes) forest
  refine ⟨final, run, {
    forest := laid.forest
    older := laid.older
    orphan := ⟨_, laid.node, rfl⟩
    spells := laid.spells isChunk
    gap := fun short => absurd isChunk.length_le (Nat.not_le.2 short)
    writers := fun id node live some => ?_ }⟩
  rcases laid.node_cases live with old | ⟨fresh, _⟩ | ⟨_, _, none⟩
  · exact .inl (BlockTree.index_lt old)
  · exact .inr fresh
  · exact absurd none some

/-- A container received further children, which are what the pieces of a row are kept as. Nothing else is changed,
and all patches are old or belong to the new children. -/
structure Received (tree : BlockTree) (parent : NodeId) (owner : Node) (ids : List NodeId)
    (rows : List (List UInt8)) (final : BlockTree) : Prop where
  forest : final.Forest
  grown : tree.nodes.size ≤ final.nodes.size
  above : final.node? parent = some { owner with children := owner.children ++ ids }
  older : ∀ id, id.index < tree.nodes.size → id ≠ parent → final.node? id = tree.node? id
  fresh : ∀ id ∈ ids, tree.nodes.size ≤ id.index
  spelled : List.Forall₂ final.Spells ids rows
  gaps : List.Forall₂ (fun id bytes => bytes.length < minHeaderSize → final.node? id = some {
    kind := .leaf bytes.toArray
    tag := gapTag
    parent := some parent
    length := UInt64.ofNat bytes.length }) ids rows
  writers : ∀ id node, final.node? id = some node → node.patches ≠ [] →
    id.index < tree.nodes.size ∨ id ∈ ids

namespace Received

theorem nil (forest : tree.Forest) (live : tree.node? parent = some owner) :
    Received tree parent owner [] [] tree where
  forest := forest
  grown := Nat.le_refl _
  above := by rw [List.append_nil, live]
  older _ _ _ := rfl
  fresh := by simp
  spelled := .nil
  gaps := .nil
  writers _ _ here _ := .inl (BlockTree.index_lt here)

/-- A piece that is kept becomes the last child. -/
theorem add (received : Received tree parent owner ids rows first) (live : tree.node? parent = some owner)
    (container : owner.kind = .container) (kept : PieceKept first bytes between) : ∃ final,
      BlockTree.addChild parent first.fresh between = .ok () final ∧
        Received tree parent owner (ids ++ [first.fresh]) (rows ++ [bytes]) final := by
  obtain ⟨node, child, orphan⟩ := kept.orphan
  have old : parent.index < tree.nodes.size := BlockTree.index_lt live
  have older : parent.index < first.nodes.size := BlockTree.index_lt received.above
  have above := (kept.older parent older).trans received.above
  have free : ¬ReflTransGen between.Above first.fresh parent := fun way =>
    Nat.lt_irrefl _ (received.forest.older_of_above
      (fun id old => by rw [BlockTree.parent?, kept.older id old, BlockTree.parent?]) way older)
  obtain ⟨final, run, adopted⟩ := kept.forest.addChild above container child orphan free
  have sizes : first.nodes.size < between.nodes.size := BlockTree.index_lt child
  have frame {id : NodeId} {bytes : List UInt8} (inside : id ∈ ids) (spells : first.Spells id bytes) :
      final.Spells id bytes := by
    have listed : id ∈ first.children parent := by
      rw [BlockTree.children_of_node? received.above]
      exact List.mem_append_right _ inside
    refine spells.frame received.forest adopted.forest fun other owned => ?_
    obtain ⟨below, here, _⟩ := spells.current other owned
    have apart : other ≠ parent := by
      rintro rfl
      exact BlockTree.Owns.not_parent received.forest ((received.forest.mem_children_iff _ id).1 listed) owned
    rw [adopted.core?_eq child apart, BlockTree.core?, BlockTree.core?, kept.older other (BlockTree.index_lt here)]
  have others {id : NodeId} (inside : id.index < first.nodes.size) (apart : id ≠ parent) :
      final.node? id = first.node? id :=
    (adopted.others id apart (BlockTree.ne_of_index_lt inside)).trans (kept.older id inside)
  exact ⟨final, run, {
    forest := adopted.forest
    grown := by rw [adopted.size]; exact received.grown.trans (Nat.le_of_lt sizes)
    above := by rw [adopted.above, List.append_assoc]
    older := fun id old apart =>
      (others (Nat.lt_of_lt_of_le old received.grown) apart).trans (received.older id old apart)
    fresh := fun id inside => by
      rcases List.mem_append.1 inside with before | last
      · exact received.fresh id before
      · cases List.mem_singleton.1 last
        exact received.grown
    spelled := by
      refine forall₂_append_singleton
        (forall₂_imp_mem received.spelled fun id inside _ _ here => frame inside here) ?_
      refine kept.spells.frame kept.forest adopted.forest fun other owned => adopted.core?_eq child ?_
      rintro rfl
      exact free ((kept.forest.owns_iff _ _).1 owned)
    gaps := by
      refine forall₂_append_singleton
        (forall₂_imp_mem received.gaps fun id inside _ _ here short => ?_) fun short => ?_
      · have live' := here short
        rw [others (BlockTree.index_lt live') (BlockTree.ne_of_index_lt ?_).symm, live']
        exact Nat.lt_of_lt_of_le old (received.fresh id inside)
      · cases child.symm.trans (kept.gap short)
        exact adopted.below
    writers := fun id node live some => by
      by_cases isParent : id = parent
      · exact .inl (isParent ▸ old)
      · by_cases isChild : id = first.fresh
        · exact .inr (List.mem_append_right _ (List.mem_singleton.2 isChild))
        · rw [adopted.others id isParent isChild] at live
          rcases kept.writers id node live some with before | last
          · rw [kept.older id before] at live
            exact (received.writers id node live some).imp_right (List.mem_append_left _)
          · exact absurd last isChild }⟩

/-- Every piece can be kept. -/
theorem piece (received : Received tree parent owner ids rows first) (live : tree.node? parent = some owner)
    (container : owner.kind = .container) (isPiece : IsPiece bytes) (start : Nat) : ∃ final,
      (Piece.ofBytes start bytes).keep parent first = .ok () final ∧
        Received tree parent owner (ids ++ [first.fresh]) (rows ++ [bytes]) final := by
  rcases isPiece with isChunk | short
  · obtain ⟨between, run, kept⟩ := Chunk.keep_kept received.forest isChunk start
    obtain ⟨final, run', added⟩ := received.add live container kept
    rw [isChunk.ofBytes]
    exact ⟨final, (Step.bind_ok run).trans run', added⟩
  · obtain ⟨between, run, kept⟩ := newLeaf_kept received.forest bytes
    obtain ⟨final, run', added⟩ := received.add live container kept
    rw [Piece.ofBytes, if_pos short]
    exact ⟨final, (Step.bind_ok run).trans run', added⟩

/-- All pieces of a row can be kept. -/
theorem row (forest : tree.Forest) (live : tree.node? parent = some owner) (container : owner.kind = .container)
    (pieces : ∀ bytes ∈ rows, IsPiece bytes) (start : Nat) : ∃ ids final,
      (Piece.row start rows).forM (Piece.keep parent) tree = .ok () final ∧
        Received tree parent owner ids rows final := by
  let holds (done : List (List UInt8)) (state : BlockTree) : Prop := ∃ ids, Received tree parent owner ids done state
  have each (done : List (List UInt8)) (bytes : List UInt8) (behind : List (List UInt8))
      (whole : rows = done ++ bytes :: behind) (initial : BlockTree) (here : holds done initial) :
      ((Piece.ofBytes (start + done.flatten.length) bytes).keep parent).Ensures initial
        (fun _ => holds (done ++ [bytes])) fun _ => False := by
    obtain ⟨ids, received⟩ := here
    obtain ⟨final, run, added⟩ := received.piece live container
      (pieces bytes (whole ▸ List.mem_append_right _ List.mem_cons_self)) (start + done.flatten.length)
    exact .of_ok run ⟨_, added⟩
  have ensures : ((Piece.row start rows).forM (Piece.keep parent)).Ensures tree (fun _ => holds rows) _ :=
    Piece.forM_row_ensures each ⟨[], .nil forest live⟩
  cases run : (Piece.row start rows).forM (Piece.keep parent) tree with
  | ok value final =>
      obtain ⟨ids, received⟩ := ensures.ok run
      exact ⟨ids, final, rfl, received⟩
  | error fault final =>
      obtain ⟨_, _, _, _, impossible⟩ := ensures.error run
      cases impossible

theorem children (received : Received tree parent owner ids rows final) (live : tree.node? parent = some owner) :
    final.children parent = tree.children parent ++ ids := by
  rw [BlockTree.children_of_node? received.above, BlockTree.children_of_node? live]

/-- Wherever a refresh ends, the new children spell the same, when no old patch writes into new nodes. -/
theorem of_refresh (received : Received tree parent owner ids rows final) (forest : tree.Forest)
    (live : tree.node? parent = some owner) (created : tree.FieldsCreated) {root : NodeId} {after : BlockTree}
    (ends : (BlockTree.refresh root).Ends final after) : List.Forall₂ after.Spells ids rows := by
  have parents (id : NodeId) (old : id.index < tree.nodes.size) : final.parent? id = tree.parent? id := by
    unfold BlockTree.parent?
    by_cases isParent : id = parent
    · rw [isParent, received.above, live]
      rfl
    · rw [received.older id old isParent]
  refine forall₂_imp_mem received.spelled fun id inside bytes _ here =>
    here.of_refresh received.forest (fun writer node patch live' listed owned => ?_) ends
  rcases received.writers writer node live' (List.ne_nil_of_mem listed) with old | new
  · have source : patch.field.node.index < tree.nodes.size := by
      by_cases isParent : writer = parent
      · cases (isParent ▸ live').symm.trans received.above
        exact created parent owner patch live listed
      · exact created writer node patch ((received.older writer old isParent).symm.trans live') listed
    -- what stands above an old node is old, so that an old patch cannot reach below a new child
    have above := forest.older_of_above parents ((received.forest.owns_iff id _).1 owned) source
    exact absurd above (Nat.not_lt.2 (received.fresh id inside))
  · obtain ⟨_, _, spells⟩ := forall₂_mem received.spelled.flip new
    exact spells.current

/-- A refresh of a container without patches succeeds, and its bytes stay. -/
theorem refresh_ok (received : Received tree parent owner ids rows final) (forest : tree.Forest)
    (live : tree.node? parent = some owner) (container : owner.kind = .container) (patches : owner.patches = [])
    (current : ∀ child ∈ owner.children, tree.Current child) : ∃ after,
      BlockTree.refresh parent final = .ok (UInt64.ofNat (final.toBytes parent).length) after ∧
        after.toBytes parent = final.toBytes parent := by
  have children (child : NodeId) (inside : child ∈ owner.children ++ ids) : final.Current child := by
    rcases List.mem_append.1 inside with old | new
    · refine (current child old).frame forest received.forest fun other owned => ?_
      obtain ⟨node, here, _⟩ := current child old other owned
      have apart : other ≠ parent := by
        rintro rfl
        exact BlockTree.Owns.not_parent forest
          ((forest.mem_children_iff _ child).1 (BlockTree.children_of_node? live ▸ old)) owned
      rw [BlockTree.core?, BlockTree.core?, received.older other (BlockTree.index_lt here) apart]
    · obtain ⟨_, _, spells⟩ := forall₂_mem received.spelled.flip new
      exact spells.current
  obtain ⟨after, run, _, bytes⟩ := received.forest.refresh_of_current
    (.container received.above container children (by simp [patches]))
  exact ⟨after, run, bytes⟩

end Received

/-- All chunks are kept when none is skipped and unknown types are accepted. -/
theorem Chunk.keepRow_eq (parent : NodeId) (stop : Nat) (cursor : Cursor) :
    Chunk.keepRow {} (fun _ => false) parent stop cursor = do
      let behind ← Reader.pieces stop cursor (Piece.keep parent)
      return ((Piece.readAll stop (cursor.data.size + 1) cursor).1.filterMap Piece.header?, behind) := by
  unfold keepRow
  dsimp only
  congr 1
  refine congrArg (Reader.pieces stop cursor) (funext fun piece => ?_)
  cases piece with
  | gap bytes => rfl
  | chunk found =>
      dsimp only
      rw [found.header.accept_default]
      rfl

/-- A walk ends as its reading does when the pieces that are read can be kept. -/
theorem Chunk.keepRow_apply {start : Nat} {pieces : List Piece} {result : Except Fault Cursor}
    (read : Piece.readAll stop (data.size + 1) { data, position := start } = (pieces, result))
    (run : pieces.forM (Piece.keep parent) tree = .ok () final) :
    Chunk.keepRow {} (fun _ => false) parent stop { data, position := start } tree =
      (monadLift (result.map fun cursor => (pieces.filterMap Piece.header?, cursor)) : Step BlockTree _) final := by
  rw [keepRow_eq, Reader.pieces, read]
  cases result with
  | ok cursor => exact Step.bind_ok (Step.bind_ok run)
  | error fault =>
      change _ = EStateM.Result.error fault final
      exact Step.bind_eq_error.2 (.inl (Step.bind_ok run))

/-- What a walk from a start to a stop leaves in a tree: the chunks follow one another up to a position with less
bytes than a header behind it, and they are further children of the parent, with these bytes as a gap. -/
structure Walked (data : Bytes) (start behind stop : Nat) (tree : BlockTree) (parent : NodeId) (owner : Node)
    (headers : List ChunkHeader) (ids : List NodeId) (final : BlockTree) : Prop where
  row : ChunkHeader.Row data start headers behind
  within : behind ≤ stop
  short : stop < behind + minHeaderSize
  children : final.children parent = tree.children parent ++ ids
  /-- Each child writes the extent of its chunk, and one more writes the bytes behind the chunks. -/
  each : ids.map final.toBytes = (headers.map fun header => (data.extract header.start header.stop).toList) ++
    if behind < stop then [(data.extract behind stop).toList] else []
  gap : behind < stop → ∃ id ∈ ids, final.node? id = some {
    kind := .leaf (data.extract behind stop)
    tag := gapTag
    parent := some parent
    length := UInt64.ofNat (stop - behind) }
  toBytes : ids.flatMap final.toBytes = (data.extract start stop).toList
  others : ∀ id, tree.isLive id = true → id ≠ parent → final.node? id = tree.node? id
  /-- Wherever a refresh of any node ends, the children write the same. -/
  refreshed : tree.FieldsCreated → ∀ root after, (BlockTree.refresh root).Ends final after →
    after.children parent = final.children parent ∧ ids.map after.toBytes = ids.map final.toBytes
  /-- A refresh of a parent without patches of its own succeeds when its older children are current. -/
  refreshes : owner.patches = [] → (∀ child ∈ owner.children, tree.Current child) → ∃ after,
    BlockTree.refresh parent final = .ok (UInt64.ofNat (final.toBytes parent).length) after ∧
      after.toBytes parent = final.toBytes parent

/-- What stands behind the chunks of a row is no header, and it is a gap exactly when bytes are left. -/
theorem Piece.rest_of_gap {behind : Nat} {gap : List (List UInt8)} (single : gap.length ≤ 1)
    (short : ∀ bytes ∈ gap, bytes ≠ [] ∧ bytes.length < minHeaderSize) (stands : data.Stands behind gap.flatten)
    (length : behind + gap.flatten.length = stop) : stop < behind + minHeaderSize ∧
      (row behind gap).filterMap header? = [] ∧
        gap = if behind < stop then [(data.extract behind stop).toList] else [] := by
  match gap, single with
  | [], _ =>
      obtain rfl : behind = stop := length
      exact ⟨Nat.lt_add_of_pos_right (by decide), rfl, (if_neg (Nat.lt_irrefl _)).symm⟩
  | [bytes], _ =>
      rw [List.flatten_singleton] at stands length
      obtain ⟨some, few⟩ := short bytes List.mem_cons_self
      have more := List.length_pos_iff.2 some
      refine ⟨by omega, ?_, ?_⟩
      · rw [row, ofBytes, if_pos few]
        rfl
      · rw [if_pos (by omega), ← length, stands.extract_eq]

/-- Chunks and a gap that are received make up a walk. -/
theorem Received.walked {start : Nat} (received : Received tree parent owner ids rows final) (forest : tree.Forest)
    (live : tree.node? parent = some owner) (container : owner.kind = .container) (isRow : IsRow rows)
    (stands : data.Stands start rows.flatten) (length : start + rows.flatten.length = stop) :
    ∃ behind, Walked data start behind stop tree parent owner ((Piece.row start rows).filterMap Piece.header?) ids
      final := by
  have whole := stands.extract_eq
  rw [length] at whole
  obtain ⟨chunks, gap, rfl, all, single, short⟩ := isRow_iff.1 isRow
  rw [List.flatten_append] at stands
  rw [List.flatten_append, List.length_append, ← Nat.add_assoc] at length
  obtain ⟨front, back⟩ := Bytes.Stands.append_iff.1 stands
  obtain ⟨few, none, last⟩ := Piece.rest_of_gap single short back length
  have headers : (Piece.row start (chunks ++ gap)).filterMap Piece.header? =
      (Piece.row start chunks).filterMap Piece.header? := by
    rw [Piece.row_append, List.filterMap_append, none, List.append_nil]
  have written := BlockTree.map_toBytes received.spelled
  exact ⟨start + chunks.flatten.length, {
    row := headers ▸ Piece.headers_row all front
    within := by omega
    short := few
    children := received.children live
    each := by rw [written, headers, Piece.extents_row all front, ← last]
    gap := fun some => by
      rw [if_pos some] at last
      obtain ⟨id, inside, kept⟩ := forall₂_mem received.gaps
        (show (data.extract (start + chunks.flatten.length) stop).toList ∈ chunks ++ gap by simp [last])
      rw [last, List.flatten_singleton] at length
      have size : (data.extract (start + chunks.flatten.length) stop).toList.length =
          stop - (start + chunks.flatten.length) := by omega
      exact ⟨id, inside, (kept (by omega)).trans (by rw [size])⟩
    toBytes := (BlockTree.flatMap_toBytes received.spelled).trans whole.symm
    others := fun id alive apart => by
      obtain ⟨node, here⟩ := BlockTree.isLive_iff.1 alive
      exact received.older id (BlockTree.index_lt here) apart
    refreshed := fun created root after ends => by
      have shapes := ((BlockTree.refresh_leads root final).ends ends).shapes
      refine ⟨by rw [BlockTree.children_eq, shapes, ← BlockTree.children_eq], ?_⟩
      rw [written, BlockTree.map_toBytes (received.of_refresh forest live created ends)]
    refreshes := fun patches current => received.refresh_ok forest live container patches current }⟩

/-- A walk that keeps all chunks between a start and a stop below a container, in any tree on the way of a run. Fuel
beyond the number of the bytes makes no difference to what it reads. Either it reaches the stop, and the chunks and a
gap are new children with exactly these bytes, or it fails at a header behind chunks that follow one another, because
that header is malformed or its chunk passes the end of the data or the stop. -/
theorem Chunk.keepRow_of_reached (reached : BlockTree.Reached tree) (live : tree.node? parent = some owner)
    (container : owner.kind = .container) {start : Nat} (ordered : start ≤ stop) (bound : stop ≤ data.size) :
    (∀ fuel, stop ≤ start + fuel → Piece.readAll stop fuel { data, position := start } =
      Piece.readAll stop (data.size + 1) { data, position := start }) ∧
    ((∃ headers ids behind final,
      Chunk.keepRow {} (fun _ => false) parent stop { data, position := start } tree =
        .ok (headers, { data, position := stop }) final ∧
      Walked data start behind stop tree parent owner headers ids final) ∨
    ∃ headers behind fault final,
      Chunk.keepRow {} (fun _ => false) parent stop { data, position := start } tree = .error fault final ∧
      ChunkHeader.Row data start headers behind ∧ behind + minHeaderSize ≤ stop ∧
      (ChunkHeader.spelled data behind).Refused data stop fault) := by
  have forest := reached.forest
  refine ⟨fun fuel enough => Piece.readAll_fuel enough (by omega), ?_⟩
  cases read : Piece.readAll stop (data.size + 1) { data, position := start } with
  | mk pieces result =>
      cases result with
      | ok cursor =>
          obtain ⟨rows, isRow, rfl, stands, length, rfl⟩ := Piece.row_of_readAll read ordered (by omega)
          obtain ⟨ids, final, run, received⟩ := Received.row forest live container isRow.isPiece start
          obtain ⟨behind, walked⟩ := received.walked forest live container isRow stands length
          exact .inl ⟨_, ids, behind, final, keepRow_apply read run, walked⟩
      | error fault =>
          obtain ⟨chunks, all, rfl, stands, enough, refused⟩ := Piece.refused_of_readAll read bound
          obtain ⟨_, final, run, _⟩ :=
            Received.row forest live container (fun bytes inside => .inl (all bytes inside)) start
          exact .inr ⟨_, _, fault, final, keepRow_apply read run, Piece.headers_row all stands, enough, refused⟩

/-- A chunk of twelve bytes and three bytes behind it are kept in a fresh container. -/
theorem Chunk.keepRow_of_reached_gap :
    let data : Bytes := #[9, 1, 0, 8, 0, 12, 0, 0, 0, 5, 6, 7, 8, 3, 2, 1, 9]
    ∃ tree owner, BlockTree.Reached tree ∧ tree.node? ⟨0⟩ = some owner ∧ owner.kind = .container ∧ 1 ≤ 16 ∧
      16 ≤ data.size ∧ ∃ headers ids behind final,
        Chunk.keepRow {} (fun _ => false) ⟨0⟩ 16 { data, position := 1 } tree =
          .ok (headers, { data, position := 16 }) final ∧
        Walked data 1 behind 16 tree ⟨0⟩ owner headers ids final ∧
        ids.flatMap final.toBytes = [1, 0, 8, 0, 12, 0, 0, 0, 5, 6, 7, 8, 3, 2, 1] ∧
        ∃ after, BlockTree.refresh ⟨0⟩ final = .ok (UInt64.ofNat (final.toBytes ⟨0⟩).length) after := by
  intro data
  let owner : Node := { kind := .container, tag := 1 }
  have reached : BlockTree.Reached (BlockTree.push {} owner) := .edit (.newContainer 1) .empty (Step.ends_ok rfl)
  have live : (BlockTree.push {} owner).node? ⟨0⟩ = some owner := rfl
  refine ⟨_, owner, reached, live, rfl, by decide, by decide, ?_⟩
  rcases (Chunk.keepRow_of_reached reached live rfl (by decide : 1 ≤ 16) (by decide : 16 ≤ data.size)).2 with
    ⟨headers, ids, behind, final, run, walked⟩ | ⟨_, _, _, _, run, _⟩
  · obtain ⟨after, refreshed, _⟩ := walked.refreshes rfl (by simp [owner])
    exact ⟨headers, ids, behind, final, run, walked, walked.toBytes.trans (by decide), after, refreshed⟩
  · have succeeds : ((Chunk.keepRow {} (fun _ => false) ⟨0⟩ 16 { data, position := 1 }).cause?
        (BlockTree.push {} owner)).isNone = true := by decide +kernel
    rw [Step.cause?_eq_some.2 ⟨_, _, run, rfl⟩] at succeeds
    cases succeeds

end

end DexArsc.Resource
