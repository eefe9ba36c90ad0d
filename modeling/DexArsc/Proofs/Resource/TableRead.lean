/-
Tables are read where their bytes are a header and a row of pieces with readable packages and strings, and they
stand in their trees as the bytes say.
-/

import DexArsc.Proofs.Resource.TableStored

namespace DexArsc.Resource

namespace Package

variable {tree between final : BlockTree} {parent id : NodeId} {owner : Node}

theorem LeafAdded.parent? {tag : UInt32} {bytes : Bytes} (added : LeafAdded parent tag bytes owner tree between final)
    (apart : id ≠ parent) (old : id ≠ tree.fresh) : final.parent? id = tree.parent? id := by
  rw [BlockTree.parent?, BlockTree.parent?, added.attached.others _ apart old, added.pushed.others _ old]

theorem ChunkAdded.parent? {chunk : Chunk} (added : ChunkAdded parent chunk owner tree between final)
    (apart : id ≠ parent) (old : id.index < tree.nodes.size) : final.parent? id = tree.parent? id := by
  rw [BlockTree.parent?, BlockTree.parent?, added.attached.others _ apart (BlockTree.ne_of_index_lt old),
    added.kept.grows.kept _ old]

end Package

namespace Table

variable {tree final : BlockTree} {head : List UInt8} {rows : List (List UInt8)} {bytes : List UInt8}

namespace Draft

variable {draft : Draft}

theorem onTree_ok {α : Type} {step : Step BlockTree α} {value : α} (run : step draft.tree = .ok value final) :
    onTree step draft = .ok value { draft with tree := final } :=
  Step.onPart_eq_ok.2 ⟨final, run, rfl⟩

/-- The first string pool becomes the strings of the table. -/
theorem readChunk_of_pool {options : ReadOptions} {node : NodeId} {chunk : Chunk} {pool : StringPool}
    (first : chunk.header.type = .stringPool ∧ draft.strings.isNone) (read : StringPool.read chunk.bytes = .ok pool)
    (run : BlockTree.newLeaf ChunkType.stringPool.tag chunk.bytes draft.tree = .ok draft.tree.fresh tree) :
    readChunk options node chunk draft =
      .ok (some draft.tree.fresh) { draft with tree, strings := some (pool, draft.tree.fresh) } := by
  have strings : readStrings chunk draft =
      .ok draft.tree.fresh { draft with tree, strings := some (pool, draft.tree.fresh) } := by
    unfold readStrings
    rw [read]
    exact (Step.bind_ok (Step.monadLift_ok pool draft)).trans ((Step.bind_ok (onTree_ok run)).trans rfl)
  unfold readChunk
  rw [Step.bind_ok (Step.get_apply draft), if_pos first]
  exact Step.map_eq_ok.2 ⟨_, strings, rfl⟩

theorem readChunk_of_unreadable {options : ReadOptions} {node : NodeId} {chunk : Chunk} {fault : Fault}
    (first : chunk.header.type = .stringPool ∧ draft.strings.isNone)
    (read : StringPool.read chunk.bytes = .error fault) :
    readChunk options node chunk draft = .error (fault.within "global string pool") draft := by
  unfold readChunk
  rw [Step.bind_ok (Step.get_apply draft), if_pos first]
  change EStateM.map some (readStrings chunk) draft = _
  unfold EStateM.map readStrings
  rw [read]
  rfl

theorem readChunk_of_other {node : NodeId} {chunk : Chunk}
    (pool : ¬(chunk.header.type = .stringPool ∧ draft.strings.isNone)) (package : chunk.header.type ≠ .package)
    (run : chunk.keep draft.tree = .ok draft.tree.fresh tree) :
    readChunk {} node chunk draft = .ok (some draft.tree.fresh) { draft with tree } := by
  unfold readChunk
  rw [Step.bind_ok (Step.get_apply draft), if_neg pool, if_neg package, chunk.header.accept_default]
  exact (Step.bind_ok (Step.monadLift_ok () draft)).trans (Step.map_eq_ok.2 ⟨_, onTree_ok run, rfl⟩)

theorem readChunk_of_package {options : ReadOptions} {node : NodeId} {chunk : Chunk} {package : Package}
    {between : BlockTree} (type : chunk.header.type = .package)
    (run : Package.read chunk.bytes options draft.tree = .ok package between)
    (run' : BlockTree.addChild node package.node between = .ok () tree) : readChunk options node chunk draft =
      .ok (if draft.packages.isEmpty then some node else none)
        { draft with tree, packages := draft.packages ++ [package] } := by
  have pool : ¬(chunk.header.type = .stringPool ∧ draft.strings.isNone) := by simp [type]
  have child : onTree (BlockTree.addChild node package.node) { draft with tree := between } =
      .ok () { draft with tree } := Step.onPart_eq_ok.2 ⟨tree, run', rfl⟩
  unfold readChunk
  rw [Step.bind_ok (Step.get_apply draft), if_neg pool, if_pos type]
  unfold readPackage
  rw [Step.bind_ok (onTree_ok run), Step.bind_ok child]
  rfl

theorem readChunk_of_no_package {options : ReadOptions} {node : NodeId} {chunk : Chunk} {fault : Fault}
    (type : chunk.header.type = .package) (run : Package.read chunk.bytes options draft.tree = .error fault tree) :
    readChunk options node chunk draft = .error fault { draft with tree } := by
  have pool : ¬(chunk.header.type = .stringPool ∧ draft.strings.isNone) := by simp [type]
  have fails : onTree (Package.read chunk.bytes options) draft = .error fault { draft with tree } := by
    rw [onTree, Step.onPart, run]
  unfold readChunk
  rw [Step.bind_ok (Step.get_apply draft), if_neg pool, if_pos type]
  unfold readPackage
  rw [Step.bind_apply, fails]

theorem find?_append_of_other {done : List (List UInt8)} (other : isOf .stringPool bytes = false) :
    (done ++ [bytes]).find? (isOf .stringPool) = done.find? (isOf .stringPool) := by
  rw [List.find?_append, List.find?_singleton, other]
  simp

theorem HasStrings.append_of_other {strings : Option (StringPool × NodeId)} (hasStrings : HasStrings rows strings)
    (other : isOf .stringPool bytes = true → strings ≠ none) : HasStrings (rows ++ [bytes]) strings := by
  cases strings with
  | none =>
      have fails : isOf .stringPool bytes = false := by simpa using other
      exact (find?_append_of_other fails).trans hasStrings
  | some strings =>
      obtain ⟨first, found, read⟩ := hasStrings
      exact ⟨first, by rw [List.find?_append, found]; rfl, read⟩

/-- One more piece stands in the draft. -/
structure Taken (head : List UInt8) (rows : List (List UInt8)) (bytes : List UInt8) (final : Draft) : Prop where
  nodes : Nodes head (rows ++ [bytes]) final.packages final.tree
  strings : HasStrings (rows ++ [bytes]) final.strings

/-- Where a piece becomes a child of the root. -/
theorem Stored.addChild {between : Draft} (stored : draft.Stored head rows) {owner : Node}
    (found : draft.tree.node? ⟨0⟩ = some owner) (other : isOf .package bytes = false)
    (run : onTree (BlockTree.addChild ⟨0⟩ draft.tree.fresh) between = .ok () { between with tree := final })
    (added : PieceAdded ⟨0⟩ owner bytes [] draft.tree final)
    (kept : final.parent? ⟨2⟩ = draft.tree.parent? ⟨2⟩) (packages : between.packages = draft.packages)
    (strings : HasStrings (rows ++ [bytes]) between.strings) :
    ((some draft.tree.fresh).forM fun node => onTree (BlockTree.addChild ⟨0⟩ node)).Ensures between
      (fun _ final => Taken head rows bytes final) fun _ => Refused rows bytes := by
  refine .of_ok run ⟨?_, strings⟩
  rw [packages]
  exact stored.nodes.addPiece stored.housed.houses.linked found other added kept

theorem isOf_iff_type (isChunk : IsChunk bytes) (start : Nat) (type : ChunkType) :
    isOf type bytes = true ↔ (Chunk.ofBytes start bytes).header.type = type :=
  (isOf_iff (.inl isChunk)).trans (and_iff_right isChunk)

/-- The first string pool is read, or refused. -/
theorem Stored.readPiece_pool (stored : draft.Stored head rows) (isChunk : IsChunk bytes) (start : Nat)
    (first : (Chunk.ofBytes start bytes).header.type = .stringPool ∧ draft.strings.isNone) :
    (readPiece {} ⟨0⟩ ⟨2⟩ (.chunk (.ofBytes start bytes))).Ensures draft
      (fun _ final => Taken head rows bytes final) fun _ => Refused rows bytes := by
  obtain ⟨isPool, unset⟩ := first
  obtain ⟨owner, found, container⟩ := stored.nodes.root
  have apart : (⟨2⟩ : NodeId) ≠ draft.tree.fresh := BlockTree.ne_of_index_lt stored.nodes.index_lt
  have noPool : rows.find? (isOf .stringPool) = none := by
    have strings := stored.strings
    rwa [Option.isNone_iff_eq_none.1 unset] at strings
  have passes : isOf .stringPool bytes = true := (isOf_iff_type isChunk start _).2 isPool
  have other : isOf .package bytes = false := by
    rw [Bool.eq_false_iff, Ne, isOf_iff_type isChunk start, isPool]
    decide
  unfold readPiece
  cases read : StringPool.read bytes.toArray with
  | error fault =>
      refine .stop (readChunk_of_unreadable ⟨isPool, unset⟩ read) (.inr ⟨passes, noPool, ?_⟩)
      simp [read]
  | ok pool =>
      obtain ⟨between, final, run, run', added⟩ := Package.addLeaf_ok stored.housed.houses.linked found container
        ChunkType.stringPool.tag bytes.toArray
      refine .behind (readChunk_of_pool ⟨isPool, unset⟩ read run) (stored.addChild found other
        (onTree_ok run') added.pieceAdded (added.parent? (by decide) apart) rfl ⟨bytes, ?_, read⟩)
      rw [List.find?_append, noPool, List.find?_singleton, passes]
      rfl

/-- A package is read, or refused. -/
theorem Stored.readPiece_package (stored : draft.Stored head rows) (isChunk : IsChunk bytes) (start : Nat)
    (type : (Chunk.ofBytes start bytes).header.type = .package) (strings : HasStrings (rows ++ [bytes]) draft.strings) :
    (readPiece {} ⟨0⟩ ⟨2⟩ (.chunk (.ofBytes start bytes))).Ensures draft
      (fun _ final => Taken head rows bytes final) fun _ => Refused rows bytes := by
  have linked := stored.housed.houses.linked
  have size := stored.nodes.index_lt
  have passes : isOf .package bytes = true := (isOf_iff_type isChunk start _).2 type
  have ensures := @Package.read_chunk_ensures draft.tree bytes linked isChunk
  unfold readPiece
  cases run : Package.read bytes.toArray {} draft.tree with
  | error fault between => exact .stop (readChunk_of_no_package type run) (.inl ⟨passes, ensures.error run⟩)
  | ok package between =>
      obtain ⟨fresh, stands⟩ := ensures.ok run
      obtain ⟨below, live, _⟩ := fresh.held.owner
      have orphan : below.parent = none := by
        have orphan := fresh.orphan
        rwa [BlockTree.parent?, live] at orphan
      obtain ⟨node, here, nodeKind, _⟩ := stored.housed.houses.owner
      have above := (fresh.grows.kept ⟨2⟩ size).trans here
      obtain ⟨third, run', attached⟩ := fresh.grows.linked.addChild above nodeKind live orphan
        (Nat.lt_of_lt_of_le size fresh.low)
      obtain ⟨final, last, nodes⟩ := stored.nodes.addPackage linked passes fresh stands above live attached
      refine .behind (readChunk_of_package type run run') ?_
      split at last
      · rename_i first
        rw [if_pos first]
        have child : onTree (BlockTree.addChild ⟨0⟩ ⟨2⟩)
            { draft with tree := third, packages := draft.packages ++ [package] } =
              .ok () { draft with tree := final, packages := draft.packages ++ [package] } :=
          Step.onPart_eq_ok.2 ⟨final, last, rfl⟩
        exact Step.Ensures.of_ok child ⟨nodes, strings⟩
      · rename_i later
        rw [if_neg later]
        exact .of_ok rfl ⟨last ▸ nodes, strings⟩

/-- Any other chunk is kept as it stands. -/
theorem Stored.readPiece_other (stored : draft.Stored head rows) (isChunk : IsChunk bytes) (start : Nat)
    (pool : ¬((Chunk.ofBytes start bytes).header.type = .stringPool ∧ draft.strings.isNone))
    (package : (Chunk.ofBytes start bytes).header.type ≠ .package)
    (strings : HasStrings (rows ++ [bytes]) draft.strings) :
    (readPiece {} ⟨0⟩ ⟨2⟩ (.chunk (.ofBytes start bytes))).Ensures draft
      (fun _ final => Taken head rows bytes final) fun _ => Refused rows bytes := by
  obtain ⟨owner, found, container⟩ := stored.nodes.root
  have other : isOf .package bytes = false := by
    rw [Bool.eq_false_iff, Ne, isOf_iff_type isChunk start]
    exact package
  obtain ⟨between, final, run, run', added⟩ :=
    Package.addChunk_ok stored.housed.houses.linked found container (Chunk.ofBytes start bytes)
  exact .behind (readChunk_of_other pool package run) (stored.addChild found other (onTree_ok run')
    (added.pieceAdded isChunk) (added.parent? (by decide) stored.nodes.index_lt) rfl strings)

/-- Bytes that are too short for a chunk become a leaf. -/
theorem Stored.readPiece_gap (stored : draft.Stored head rows) (short : bytes.length < minHeaderSize) :
    (readPiece {} ⟨0⟩ ⟨2⟩ (.gap bytes.toArray)).Ensures draft
      (fun _ final => Taken head rows bytes final) fun _ => Refused rows bytes := by
  obtain ⟨owner, found, container⟩ := stored.nodes.root
  have apart : (⟨2⟩ : NodeId) ≠ draft.tree.fresh := BlockTree.ne_of_index_lt stored.nodes.index_lt
  have none (type : ChunkType) : isOf type bytes = false := by
    unfold isOf
    rw [decide_eq_false (Nat.not_le.2 short), Bool.false_and]
  obtain ⟨between, final, run, run', added⟩ :=
    Package.addLeaf_ok stored.housed.houses.linked found container gapTag bytes.toArray
  refine .behind (Step.map_eq_ok.2 ⟨_, onTree_ok run, rfl⟩) ?_
  exact stored.addChild found (none _) (onTree_ok run') added.pieceAdded
    (added.parent? (by decide) apart) rfl (stored.strings.append_of_other (by simp [none]))

/-- A piece of a table is read, or refused. -/
theorem Stored.readPiece_ensures (stored : draft.Stored head rows) (isPiece : IsPiece bytes) (start : Nat) :
    (readPiece {} ⟨0⟩ ⟨2⟩ (Piece.ofBytes start bytes)).Ensures draft
      (fun _ final => Taken head rows bytes final) fun _ => Refused rows bytes := by
  rcases isPiece with isChunk | short
  · rw [isChunk.ofBytes]
    by_cases pool : (Chunk.ofBytes start bytes).header.type = .stringPool ∧ draft.strings.isNone
    · exact stored.readPiece_pool isChunk start pool
    have strings : HasStrings (rows ++ [bytes]) draft.strings := stored.strings.append_of_other fun passes unset =>
      pool ⟨(isOf_iff_type isChunk start _).1 passes, Option.isNone_iff_eq_none.2 unset⟩
    by_cases package : (Chunk.ofBytes start bytes).header.type = .package
    · exact stored.readPiece_package isChunk start package strings
    · exact stored.readPiece_other isChunk start pool package strings
  · have gap : Piece.ofBytes start bytes = .gap bytes.toArray := if_pos short
    rw [gap]
    exact stored.readPiece_gap short

/-- The pieces behind the header of a table, as they are read. -/
theorem Stored.readRow_ensures (stored : draft.Stored head []) (isRow : IsRow rows) (position : Nat) :
    ((Piece.row position rows).forM (readPiece {} ⟨0⟩ ⟨2⟩)).Ensures draft (fun _ final => final.Stored head rows)
      (fun _ => ∃ done bytes behind, rows = done ++ bytes :: behind ∧ Refused done bytes) :=
  Piece.forM_row_ensures (fun done bytes behind whole between stored =>
    ((stored.housed.readPiece_ensures _).and
      (stored.readPiece_ensures (isRow.isPiece bytes (by simp [whole])) _)).imp
        (fun _ _ ⟨housed, nodes, strings⟩ => ⟨housed, nodes, strings⟩) fun _ fails => fails.2) stored

/-- A piece that is refused does not fit. -/
theorem Refused.not_fits {done behind : List (List UInt8)} (refused : Refused done bytes)
    (whole : rows = done ++ bytes :: behind) : ¬Fits head rows := by
  intro fits
  rcases refused with ⟨passes, no⟩ | ⟨passes, first, unreadable⟩
  · exact no (fits.packages bytes (by simp [whole]) passes)
  · obtain ⟨found, pool, here, read⟩ := fits.strings
    rw [whole, List.find?_append, first, List.find?_cons, passes] at here
    cases here
    exact unreadable pool read

/-- The whole row has been read: the container for the packages is a child of the root. -/
theorem Stored.finish (stored : draft.Stored head rows) : ∃ final,
    (if draft.packages.isEmpty then BlockTree.addChild ⟨0⟩ ⟨2⟩ draft.tree = .ok () final else final = draft.tree) ∧
      Table.Nodes head (leading (isOf .package) rows) (rows.filter (isOf .package))
        (trailing (isOf .package) rows) draft.packages final := by
  obtain ⟨before, behind, headed, parts⟩ := stored.nodes.parts
  obtain ⟨node, live, patches, orphan⟩ := stored.nodes.container
  have houses := stored.housed.houses
  have linked := houses.linked
  by_cases empty : draft.packages = []
  · have order : (⟨0⟩ : NodeId).index < (⟨2⟩ : NodeId).index := by decide
    obtain ⟨owner, above, container, _⟩ := headed.node
    obtain ⟨final, run, attached⟩ := linked.addChild above container live (orphan empty) order
    have core (id : NodeId) (apart : id ≠ ⟨0⟩) : final.core? id = draft.tree.core? id :=
      attached.core?_eq live apart
    have none : ∀ value ∈ rows, isOf .package value = false := fun value inside => by
      have gone := parts.packages_eq_nil.1 empty
      simpa using List.filter_eq_nil_iff.1 gone value inside
    have parts := parts.frame linked attached.linked fun id low _ => core id (by
      rintro rfl
      exact absurd low (by decide))
    have last := parts.last
    rw [(leading_of_none none).2] at last
    cases last
    have headed := headed_of_above headed above attached.above (core ⟨1⟩ (by decide))
    refine ⟨final, by simpa [empty] using run, houses.above attached live (orphan empty) order, ⟨before, [], ?_, parts⟩,
      _, attached.below, patches⟩
    simpa [placeOf, empty] using headed
  · have some : draft.packages.isEmpty = false := by simpa using empty
    refine ⟨draft.tree, by simp [some], houses, ⟨before, behind, ?_, parts⟩, node, live, patches⟩
    simpa [placeOf, some] using headed

end Draft

/-- The header of a table is read from the bytes of its chunk. -/
theorem readHead_eq_ok {header : ChunkHeader} {count : UInt32} {cursor : Cursor} :
    readHead {} { data := bytes.toArray } = .ok (header, count) cursor ↔ IsChunk bytes ∧
      ChunkType.ofCode (Bytes.half bytes 0) = .table ∧ headerSize ≤ (Bytes.half bytes 2).toNat ∧
        header = .ofBytes 0 bytes ∧ count = Bytes.word bytes countPosition ∧
          cursor = { data := bytes.toArray, position := (Bytes.half bytes 2).toNat } := by
  have whole : Bytes.Stands bytes.toArray 0 bytes := List.prefix_rfl
  have stop : (ChunkHeader.ofBytes 0 bytes).stop = (Bytes.word bytes 4).toNat := Nat.zero_add _
  have word (long : 12 ≤ bytes.length) : Reader.word32 { data := bytes.toArray, position := 8 } =
      .ok (Bytes.word bytes 8) { data := bytes.toArray, position := 12 } := by
    have reads := Reader.word32_ok whole 8 (by omega)
    rwa [Nat.zero_add] at reads
  unfold readHead
  rw [Step.bind_ok (Step.get_apply _), Step.bind_eq_ok]
  simp only [ChunkHeader.read_eq_ok]
  constructor
  · rintro ⟨found, _, ⟨within, rfl, least, inside, _, rfl⟩, run⟩
    obtain ⟨type, run⟩ := Step.guard_eq_ok.1 run
    obtain ⟨long, run⟩ := Step.guard_eq_ok.1 run
    obtain ⟨mismatch, run⟩ := Step.guard_eq_ok.1 run
    have size : (Bytes.word bytes 4).toNat = bytes.length := by
      rw [← stop]
      by_contra different
      exact mismatch ⟨different, trivial⟩
    have isChunk : IsChunk bytes := ⟨least, size ▸ inside, size⟩
    have long : headerSize ≤ (Bytes.half bytes 2).toNat := Nat.not_lt.1 long
    have enough : 12 ≤ bytes.length := Nat.le_trans long isChunk.within
    obtain ⟨_, _, read, run⟩ := Step.bind_eq_ok.1 run
    cases (word enough).symm.trans read
    obtain ⟨_, _, sought, run⟩ := Step.bind_eq_ok.1 run
    obtain ⟨_, rfl⟩ := Reader.seek_eq_ok.1 sought
    cases run
    exact ⟨isChunk, not_not.1 type, long, rfl, rfl, rfl⟩
  · rintro ⟨isChunk, type, long, rfl, rfl, rfl⟩
    have enough : 12 ≤ bytes.length := Nat.le_trans long isChunk.within
    have within : 0 + minHeaderSize ≤ bytes.toArray.size := by
      unfold minHeaderSize
      rw [List.size_toArray]
      omega
    refine ⟨_, _, ⟨within, rfl, isChunk.least, ?_, ?_, rfl⟩, ?_⟩
    · exact isChunk.size.symm ▸ isChunk.within
    · rw [List.drop_zero]
      exact Nat.le_of_eq (stop.trans isChunk.size)
    · refine Step.guard_eq_ok.2 ⟨not_not.2 type, Step.guard_eq_ok.2 ⟨Nat.not_lt.2 long, Step.guard_eq_ok.2 ⟨?_, ?_⟩⟩⟩
      · rintro ⟨different, _⟩
        exact different (stop.trans isChunk.size)
      · refine (Step.bind_ok (word enough)).trans ((Step.bind_ok (Reader.seek_eq_ok.2 ⟨?_, rfl⟩)).trans rfl)
        exact isChunk.within

/-- A header and the container for the packages, before the first piece. -/
theorem Draft.stored_of_header {first : BlockTree} (root : ({} : BlockTree).Pushed
      { kind := .container, tag := ChunkType.table.tag } first)
    (added : HeaderAdded ⟨0⟩ head.toArray { kind := .container, tag := ChunkType.table.tag } first tree) :
    Draft.Stored head [] { tree } := by
  have size : first.nodes.size = 1 := root.size
  have fresh : first.fresh = ⟨1⟩ := by rw [BlockTree.fresh, size]
  have atRoot := added.root
  have atHeader := added.header
  have atPackages := added.packages
  rw [fresh, size] at atRoot
  rw [fresh] at atHeader
  rw [size] at atPackages
  exact {
    housed := ⟨⟨added.linked, ⟨_, BlockTree.shape?_of_some atPackages, rfl, rfl⟩, by simp⟩, by decide⟩
    nodes := {
      parts := ⟨[], [], ⟨⟨_, atRoot, rfl, rfl, rfl⟩, ⟨_, atHeader, rfl, rfl⟩⟩, .nil, .nil, .nil, by simp, by simp⟩
      container := ⟨_, atPackages, rfl, fun _ => rfl⟩ }
    strings := rfl }

/-- What is read of a header and a row of pieces: a table that stands as they say when they fit, or else a
failure. -/
inductive Reads (head : List UInt8) (rows : List (List UInt8)) : Except Fault Table → Prop
  | ok {table : Table} (fits : Fits head rows) (stored : table.Stored head rows) : Reads head rows (.ok table)
  | error {fault : Fault} (misfit : ¬Fits head rows) : Reads head rows (.error fault)

/-- What has been read is a table when the number of packages is declared and there are strings. -/
theorem Draft.result (framed : Framed head rows) {draft : Draft}
    (nodes : Table.Nodes head (leading (isOf .package) rows) (rows.filter (isOf .package))
      (trailing (isOf .package) rows) draft.packages draft.tree)
    (strings : HasStrings rows draft.strings) :
    Reads head rows (draft.table {} (Bytes.word head countPosition) ⟨0⟩ ⟨2⟩) := by
  obtain ⟨before, behind, _, parts⟩ := nodes.parts
  have length := parts.middle.length_eq
  unfold Draft.table
  cases held : draft.strings with
  | none =>
      rw [held] at strings
      refine .error ?_
      rintro ⟨_, _, _, first, _, found, _⟩
      cases found.symm.trans strings
  | some pair =>
      obtain ⟨pool, node⟩ := pair
      rw [held] at strings
      dsimp only
      by_cases mismatch : (Bytes.word head countPosition).toNat = draft.packages.length
      · rw [if_neg (by simp [mismatch])]
        obtain ⟨first, found, read⟩ := strings
        refine .ok {
          framed with
          count := by rw [mismatch, length]
          packages := fun bytes inside package => ?_
          strings := ⟨first, pool, found, read⟩ } ⟨rfl, rfl, nodes, first, found, read⟩
        obtain ⟨_, _, stands⟩ := forall₂_mem parts.middle (List.mem_filter.2 ⟨inside, package⟩)
        exact stands.isPackage
      · rw [if_pos ⟨mismatch, rfl⟩]
        refine .error fun fits => ?_
        exact mismatch (by rw [fits.count, length])

/-- The header of a table is read in front of the row. -/
theorem Framed.readHead_eq (framed : Framed head rows) : readHead {} { data := (head ++ rows.flatten).toArray } =
    .ok (.ofBytes 0 (head ++ rows.flatten), Bytes.word head countPosition)
      { data := (head ++ rows.flatten).toArray, position := head.length } := by
  have long := framed.long
  unfold headerSize at long
  have half : Bytes.half (head ++ rows.flatten) 2 = Bytes.half head 2 := Bytes.half_append (by omega) _
  have type : Bytes.half (head ++ rows.flatten) 0 = Bytes.half head 0 := Bytes.half_append (by omega) _
  have count : Bytes.word (head ++ rows.flatten) countPosition = Bytes.word head countPosition := by
    unfold countPosition
    exact Bytes.word_append (by omega) _
  refine readHead_eq_ok.2 ⟨framed.isChunk, type ▸ framed.type, ?_, rfl, count.symm, ?_⟩
  · rw [half, framed.size]
    exact framed.long
  · rw [half, framed.size]

/-- The row of a table ends with the bytes. -/
theorem Framed.stop_eq (framed : Framed head rows) :
    (ChunkHeader.ofBytes 0 (head ++ rows.flatten)).stop = head.length + rows.flatten.length := by
  rw [ChunkHeader.stop, ChunkHeader.start_ofBytes, Nat.zero_add, ← List.length_append]
  exact framed.isChunk.size

/-- What is read of bytes that are a header and a row of pieces. -/
theorem read_framed (framed : Framed head rows) : Reads head rows (read (head ++ rows.flatten).toArray {}) := by
  have long := framed.long
  unfold headerSize at long
  have half : Bytes.half (head ++ rows.flatten) 2 = Bytes.half head 2 := Bytes.half_append (by omega) _
  have found := framed.readHead_eq
  have front : (head ++ rows.flatten).toArray.extract 0
      (ChunkHeader.ofBytes 0 (head ++ rows.flatten)).headerSize.toNat = head.toArray := by
    change (head ++ rows.flatten).toArray.extract 0 (Bytes.half (head ++ rows.flatten) 2).toNat = _
    rw [half, framed.size, List.extract_toArray, List.extract_eq_take_drop]
    simp
  obtain ⟨first, run₁, root⟩ := BlockTree.linked_empty.newContainer ChunkType.table.tag
  obtain ⟨second, run₂, added⟩ := addHeader_ok root.linked head.toArray root.fresh rfl
  have stored := Draft.stored_of_header root added
  have size : first.nodes.size + 1 = 2 := congrArg (· + 1) root.size
  rw [size] at run₂
  have rest := stored.readRow_ensures framed.isRow head.length
  have pieces := @Reader.pieces_eq _ (Draft.readPiece {} ⟨0⟩ ⟨2⟩) (head ++ rows.flatten).toArray head.length rows
    framed.isRow (by rw [Bytes.Stands, List.toList_toArray, List.drop_left]) (by simp)
  have whole : (readRest {} (.ofBytes 0 (head ++ rows.flatten)) (Bytes.word head countPosition)
      { data := (head ++ rows.flatten).toArray, position := head.length }).Ensures {}
      (fun finish draft => Reads head rows (finish draft)) (fun _ => ¬Fits head rows) := by
    unfold readRest
    refine .behind (Draft.onTree_ok run₁) ?_
    dsimp only
    rw [front]
    refine .behind (Draft.onTree_ok run₂) ?_
    change (Reader.pieces _ _ (Draft.readPiece {} ⟨0⟩ ⟨2⟩) >>= _).Ensures _ _ _
    have row : (Reader.pieces (ChunkHeader.ofBytes 0 (head ++ rows.flatten)).stop
        { data := (head ++ rows.flatten).toArray, position := head.length }
        (Draft.readPiece {} ⟨0⟩ ⟨2⟩)).Ensures { tree := second } (fun _ draft => draft.Stored head rows)
        (fun _ => ¬Fits head rows) := by
      rw [framed.stop_eq, pieces]
      have visits : ((Piece.row head.length rows).forM (Draft.readPiece {} ⟨0⟩ ⟨2⟩)).Ensures { tree := second }
          (fun _ draft => draft.Stored head rows) (fun _ => ¬Fits head rows) := by
        apply rest.imp (fun _ _ stored => stored)
        rintro _ ⟨_, _, _, whole, refused⟩
        exact refused.not_fits whole
      exact visits.bind fun _ _ stored => .of_ok rfl stored
    refine row.bind fun _ draft stored => ?_
    obtain ⟨final, child, nodes⟩ := stored.finish
    refine .behind (Step.get_apply draft) ?_
    split at child
    · rename_i empty
      rw [if_pos empty]
      exact .behind (Draft.onTree_ok child) (.of_ok rfl (Draft.result framed nodes stored.strings))
    · rename_i some
      rw [if_neg some]
      exact .of_ok rfl (Draft.result framed (child ▸ nodes) stored.strings)
  unfold read
  rw [found]
  unfold Step.Ensures at whole
  dsimp only
  split at whole
  · rename_i run
    rw [run]
    exact whole
  · rename_i run
    rw [run]
    exact .error whole

/-- What is read as a table is a header and a row of pieces. -/
theorem framed_of_read {table : Table} (run : read bytes.toArray {} = .ok table) :
    ∃ head rows, bytes = head ++ rows.flatten ∧ Framed head rows := by
  unfold read at run
  cases found : readHead {} { data := bytes.toArray } with
  | error fault cursor =>
      rw [found] at run
      cases run
  | ok front cursor =>
      rw [found] at run
      obtain ⟨isChunk, type, long, header, _, rfl⟩ := readHead_eq_ok.1 found
      have within := isChunk.within
      have stop : front.1.stop = bytes.length := by
        rw [header, ChunkHeader.stop, ChunkHeader.start_ofBytes, Nat.zero_add]
        exact isChunk.size
      dsimp only at run
      cases rest : readRest {} front.1 front.2
          { data := bytes.toArray, position := (Bytes.half bytes 2).toNat } {} with
      | error fault draft =>
          rw [rest] at run
          cases run
      | ok finish draft =>
          obtain ⟨_, _, _, rest⟩ := Step.bind_eq_ok.1 rest
          obtain ⟨_, _, _, rest⟩ := Step.bind_eq_ok.1 rest
          obtain ⟨_, _, pieces, _⟩ := Step.bind_eq_ok.1 rest
          obtain ⟨rows, isRow, stands, length⟩ := Reader.row_of_pieces pieces (by rw [stop]; exact within)
            (by rw [stop]; simp)
          have rest : rows.flatten = bytes.drop (Bytes.half bytes 2).toNat := by
            refine List.IsPrefix.eq_of_length stands ?_
            rw [List.length_drop]
            omega
          have whole : bytes = bytes.take (Bytes.half bytes 2).toNat ++ rows.flatten := by
            rw [rest, List.take_append_drop]
          have length : (bytes.take (Bytes.half bytes 2).toNat).length = (Bytes.half bytes 2).toNat := by
            rw [List.length_take, Nat.min_eq_left within]
          have half (position : Nat) (low : position + 2 ≤ 12) :
              Bytes.half (bytes.take (Bytes.half bytes 2).toNat) position = Bytes.half bytes position := by
            unfold headerSize at long
            rw [← Bytes.half_append (by omega) rows.flatten, ← whole]
          refine ⟨_, rows, whole, whole ▸ isChunk, ?_, ?_, ?_, isRow⟩
          · rw [half 0 (by decide)]
            exact type
          · rw [half 2 (by decide), length]
          · rw [length]
            exact long

/-- A table that is read stands in its tree as its bytes say. -/
theorem stored_of_read {table : Table} (run : read bytes.toArray {} = .ok table) :
    ∃ head rows, bytes = head ++ rows.flatten ∧ Fits head rows ∧ table.Stored head rows := by
  obtain ⟨head, rows, rfl, framed⟩ := framed_of_read run
  have result := read_framed framed
  rw [run] at result
  cases result with
  | ok fits stored => exact ⟨head, rows, rfl, fits, stored⟩

/-- A header and a row of pieces that fit are read as a table. -/
theorem Fits.read (fits : Fits head rows) : ∃ table, Table.read (head ++ rows.flatten).toArray {} = .ok table ∧
    table.Stored head rows := by
  have result := read_framed fits.toFramed
  cases run : Table.read (head ++ rows.flatten).toArray {} with
  | error fault =>
      rw [run] at result
      cases result with
      | error misfit => exact absurd fits misfit
  | ok table =>
      rw [run] at result
      cases result with
      | ok _ stored => exact ⟨table, rfl, stored⟩

end Table
end DexArsc.Resource
