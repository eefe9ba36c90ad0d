/-
Rows of chunks in bytes. The bytes of a chunk spell its header, and what is read of a row are the pieces
that its bytes consist of, each at its place.
-/

import DexArsc.Proofs.Bytes.Word
import DexArsc.Resource.Chunk

namespace DexArsc

namespace Resource

/-- The header that bytes spell at a position. -/
def ChunkHeader.ofBytes (start : Nat) (bytes : List UInt8) : ChunkHeader where
  type := .ofCode (Bytes.half bytes 0)
  headerSize := Bytes.half bytes 2
  size := Bytes.word bytes 4
  start

@[simp] theorem ChunkHeader.start_ofBytes (start : Nat) (bytes : List UInt8) :
    (ofBytes start bytes).start = start := rfl

/-- The header that data spell at a position. -/
def ChunkHeader.spelled (data : Bytes) (position : Nat) : ChunkHeader :=
  .ofBytes position (data.toList.drop position)

/-- The chunk with the given bytes at a position. -/
def Chunk.ofBytes (start : Nat) (bytes : List UInt8) : Chunk where
  header := .ofBytes start bytes
  bytes := bytes.toArray

/-- Bytes that are a chunk: they spell a header that they contain, and their number. -/
structure IsChunk (bytes : List UInt8) : Prop where
  least : minHeaderSize ≤ (Bytes.half bytes 2).toNat
  within : (Bytes.half bytes 2).toNat ≤ bytes.length
  size : (Bytes.word bytes 4).toNat = bytes.length

theorem IsChunk.length_le {bytes : List UInt8} (isChunk : IsChunk bytes) : minHeaderSize ≤ bytes.length :=
  Nat.le_trans isChunk.least isChunk.within

theorem ChunkHeader.accept_default (header : ChunkHeader) : header.accept {} = .ok () := by
  unfold accept
  split <;> rfl

/-- The header at a position is read from the bytes there, unless its sizes contradict each other or its chunk
passes the end of the data. -/
theorem ChunkHeader.read_apply {data : Bytes} {position : Nat} (enough : position + minHeaderSize ≤ data.size) :
    ChunkHeader.read { data, position } =
      let header := spelled data position
      let cursor := { data, position := position + minHeaderSize }
      if header.headerSize.toNat < minHeaderSize ∨ header.size.toNat < header.headerSize.toNat then
        .error { cause := .resource (.invalidSizes header.type position header.headerSize.toNat header.size.toNat) }
          cursor
      else if data.size < header.stop then
        .error { cause := .resource (.chunkBeyondStream header.type position) } cursor
      else .ok header cursor := by
  have stands := data.stands_drop position
  have position' : Reader.position { data, position } = .ok position { data, position } := rfl
  have remaining (position : Nat) : Reader.remaining { data, position } =
      .ok (data.size - position) { data, position } := rfl
  have length : (data.toList.drop position).length = data.size - position := by simp
  unfold minHeaderSize at enough ⊢
  have type : Reader.word16 { data, position } = _ := Reader.word16_ok stands 0 (by omega)
  have headerSize : Reader.word16 { data, position := position + 2 } = _ :=
    Reader.word16_ok stands 2 (by omega)
  have size : Reader.word32 { data, position := position + 4 } = _ := Reader.word32_ok stands 4 (by omega)
  have beyond : data.size - (position + 8) + 8 < (Bytes.word (data.toList.drop position) 4).toNat ↔
      data.size < (spelled data position).stop := by
    change _ ↔ data.size < position + (Bytes.word (data.toList.drop position) 4).toNat
    omega
  unfold ChunkHeader.read minHeaderSize
  rw [Step.bind_ok position', Step.bind_ok (remaining position)]
  dsimp only
  rw [Step.guard_apply, if_neg (by omega), Step.bind_ok type, Step.bind_ok headerSize, Step.bind_ok size,
    Step.guard_apply, Step.bind_ok (remaining (position + 4 + 4)), Step.guard_apply]
  simp only [beyond]
  rfl

/-- The header at a position is read from the bytes there. -/
theorem ChunkHeader.read_eq_ok {data : Bytes} {position : Nat} {header : ChunkHeader} {cursor : Cursor} :
    ChunkHeader.read { data, position } = .ok header cursor ↔
      position + minHeaderSize ≤ data.size ∧ header = .ofBytes position (data.toList.drop position) ∧
        minHeaderSize ≤ header.headerSize.toNat ∧ header.headerSize.toNat ≤ header.size.toNat ∧
          header.stop ≤ data.size ∧ cursor = { data, position := position + minHeaderSize } := by
  by_cases enough : position + minHeaderSize ≤ data.size
  · rw [read_apply enough]
    change _ ↔ _ ∧ header = spelled data position ∧ _
    dsimp only
    split
    · simp only [reduceCtorEq, false_iff]
      rintro ⟨_, rfl, least, within, _⟩
      omega
    · split
      · simp only [reduceCtorEq, false_iff]
        rintro ⟨_, rfl, _, _, stop, _⟩
        omega
      · rw [EStateM.Result.ok.injEq]
        constructor
        · rintro ⟨rfl, rfl⟩
          exact ⟨enough, rfl, by omega, by omega, by omega, rfl⟩
        · rintro ⟨_, rfl, _, _, _, rfl⟩
          exact ⟨rfl, rfl⟩
  · refine iff_of_false (fun run => ?_) fun ⟨within, _⟩ => enough within
    unfold ChunkHeader.read at run
    rw [Step.bind_ok (show Reader.position _ = .ok position _ from rfl),
      Step.bind_ok (show Reader.remaining _ = .ok (data.size - position) _ from rfl), Step.guard_eq_ok] at run
    unfold minHeaderSize at run enough
    omega

/-- The header of bytes that stand in data is the header at their position. -/
theorem ChunkHeader.spelled_of_stands {data : Bytes} {position : Nat} {bytes : List UInt8}
    (stands : data.Stands position bytes) (long : minHeaderSize ≤ bytes.length) :
    spelled data position = .ofBytes position bytes := by
  obtain ⟨rest, whole⟩ := stands
  unfold minHeaderSize at long
  unfold spelled ofBytes
  rw [← whole, Bytes.half_append (by omega), Bytes.half_append (by omega), Bytes.word_append (by omega)]

/-- A chunk is read from its bytes. -/
theorem Chunk.read_eq_ok {data : Bytes} {position : Nat} {chunk : Chunk} {cursor : Cursor} :
    Chunk.read { data, position } = .ok chunk cursor ↔ ∃ bytes, IsChunk bytes ∧ data.Stands position bytes ∧
      chunk = .ofBytes position bytes ∧ cursor = { data, position := position + bytes.length } := by
  unfold Chunk.read
  rw [Step.bind_eq_ok]
  simp only [Step.bind_eq_ok, ChunkHeader.read_eq_ok]
  constructor
  · rintro ⟨header, _, ⟨within, rfl, least, inside, stop, rfl⟩, _, _, sought, bytes, _, peeked, _, _, moved, done⟩
    rw [ChunkHeader.start_ofBytes] at sought
    obtain ⟨_, rfl⟩ := Reader.seek_eq_ok.1 sought
    obtain ⟨enough, rfl, rfl⟩ := Reader.peek_eq_ok.1 peeked
    obtain ⟨_, rfl⟩ := Reader.seek_eq_ok.1 moved
    have size : ((data.toList.drop position).take
        (ChunkHeader.ofBytes position (data.toList.drop position)).size.toNat).length =
          (ChunkHeader.ofBytes position (data.toList.drop position)).size.toNat := by
      rw [List.length_take, List.length_drop, Array.length_toList]
      exact Nat.min_eq_left enough
    have stands : data.Stands position ((data.toList.drop position).take
        (ChunkHeader.ofBytes position (data.toList.drop position)).size.toNat) := List.take_prefix ..
    have header : ChunkHeader.ofBytes position (data.toList.drop position) = _ :=
      ChunkHeader.spelled_of_stands stands (by omega)
    generalize (data.toList.drop position).take _ = bytes at size stands header done
    rw [header] at done size least inside
    cases done
    refine ⟨bytes, ⟨least, ?_, size.symm⟩, stands, rfl, ?_⟩
    · exact size ▸ inside
    · rw [ChunkHeader.stop, size]
      rfl
  · rintro ⟨bytes, isChunk, stands, rfl, rfl⟩
    have long := isChunk.length_le
    have header := ChunkHeader.spelled_of_stands stands long
    have bound := stands.length_le (List.ne_nil_of_length_pos (Nat.lt_of_lt_of_le (by decide) long))
    have size := isChunk.size
    have cut := List.prefix_iff_eq_take.1 stands
    refine ⟨.ofBytes position bytes, _, ⟨by omega, header.symm, isChunk.least, ?_, ?_, rfl⟩, (), _,
      Reader.seek_eq_ok.2 ⟨?_, rfl⟩, bytes, _, Reader.peek_eq_ok.2 ⟨?_, ?_, rfl⟩, (), _,
      Reader.seek_eq_ok.2 ⟨?_, rfl⟩, ?_⟩
    · exact size.symm ▸ isChunk.within
    · rw [ChunkHeader.stop]
      change position + (Bytes.word bytes 4).toNat ≤ data.size
      omega
    · rw [ChunkHeader.start_ofBytes]
      omega
    · change (Bytes.word bytes 4).toNat ≤ data.size - position
      omega
    · change bytes = (data.toList.drop position).take (Bytes.word bytes 4).toNat
      rw [size]
      exact cut
    · rw [ChunkHeader.stop]
      change position + (Bytes.word bytes 4).toNat ≤ data.size
      omega
    · rw [ChunkHeader.stop, ← size]
      rfl

namespace Piece

/-- The bytes of a piece. -/
def bytes : Piece → List UInt8
  | .chunk found => found.bytes.toList
  | .gap rest => rest.toList

/-- The piece with the given bytes at a position. Less bytes than a header has are a gap. -/
def ofBytes (start : Nat) (bytes : List UInt8) : Piece :=
  if bytes.length < minHeaderSize then gap bytes.toArray else chunk (.ofBytes start bytes)

/-- The pieces with the given bytes, one behind the other from a position on. -/
def row : (start : Nat) → List (List UInt8) → List Piece
  | _, [] => []
  | start, bytes :: rest => ofBytes start bytes :: row (start + bytes.length) rest

@[simp] theorem bytes_ofBytes (start : Nat) (bytes : List UInt8) : (ofBytes start bytes).bytes = bytes := by
  unfold ofBytes
  split <;> rfl

theorem row_append (start : Nat) (first second : List (List UInt8)) :
    row start (first ++ second) = row start first ++ row (start + first.flatten.length) second := by
  induction first generalizing start with
  | nil => rfl
  | cons bytes rest ih =>
      rw [List.cons_append, row, row, ih, List.flatten_cons, List.length_append, Nat.add_assoc, List.cons_append]

theorem map_bytes_row (start : Nat) (rows : List (List UInt8)) : (row start rows).map bytes = rows := by
  induction rows generalizing start with
  | nil => rfl
  | cons first rest ih => rw [row, List.map_cons, ih, bytes_ofBytes]

theorem of_mem_row {start : Nat} {rows : List (List UInt8)} {piece : Piece} (inside : piece ∈ row start rows) :
    ∃ bytes ∈ rows, ∃ position, piece = ofBytes position bytes := by
  induction rows generalizing start with
  | nil => cases inside
  | cons bytes rest ih =>
      rcases List.mem_cons.1 inside with rfl | inside
      · exact ⟨bytes, List.mem_cons_self, start, rfl⟩
      · obtain ⟨found, listed, same⟩ := ih inside
        exact ⟨found, List.mem_cons_of_mem _ listed, same⟩

end Piece

/-- Bytes that are read as a row of chunks, with a gap behind them at most. -/
inductive IsRow : List (List UInt8) → Prop
  | nil : IsRow []
  | gap {bytes : List UInt8} (some : bytes ≠ []) (short : bytes.length < minHeaderSize) : IsRow [bytes]
  | chunk {bytes : List UInt8} {rest : List (List UInt8)} (isChunk : IsChunk bytes) (behind : IsRow rest) :
    IsRow (bytes :: rest)

/-- No piece of a row is empty. -/
theorem IsRow.length_le {rows : List (List UInt8)} (isRow : IsRow rows) : rows.length ≤ rows.flatten.length := by
  induction isRow with
  | nil => exact Nat.le_refl _
  | gap some short => simpa [Nat.succ_le_iff] using List.length_pos_iff.2 some
  | @chunk bytes rest isChunk behind ih =>
      have long := isChunk.length_le
      unfold minHeaderSize at long
      rw [List.flatten_cons, List.length_append, List.length_cons]
      omega

/-- A row consists of chunks, with a gap behind them at most. -/
theorem isRow_iff {rows : List (List UInt8)} : IsRow rows ↔ ∃ chunks gap, rows = chunks ++ gap ∧
    (∀ bytes ∈ chunks, IsChunk bytes) ∧ gap.length ≤ 1 ∧
      ∀ bytes ∈ gap, bytes ≠ [] ∧ bytes.length < minHeaderSize := by
  constructor
  · intro isRow
    induction isRow with
    | nil => exact ⟨[], [], rfl, by simp, by simp, by simp⟩
    | @gap bytes some short => exact ⟨[], [bytes], rfl, by simp, by simp, by simpa using ⟨some, short⟩⟩
    | @chunk bytes rest isChunk behind ih =>
        obtain ⟨chunks, gap, rfl, all, rest⟩ := ih
        exact ⟨bytes :: chunks, gap, rfl, List.forall_mem_cons.2 ⟨isChunk, all⟩, rest⟩
  · rintro ⟨chunks, gap, rfl, all, single, short⟩
    induction chunks with
    | nil =>
        match gap, single with
        | [], _ => exact .nil
        | [bytes], _ => exact .gap (short bytes List.mem_cons_self).1 (short bytes List.mem_cons_self).2
    | cons bytes rest ih =>
        obtain ⟨isChunk, all⟩ := List.forall_mem_cons.1 all
        exact .chunk isChunk (ih all)

theorem isRow_of_chunks {rows : List (List UInt8)} (all : ∀ bytes ∈ rows, IsChunk bytes) : IsRow rows :=
  isRow_iff.2 ⟨rows, [], (List.append_nil _).symm, all, by simp, by simp⟩

/-- A piece by itself: a chunk, or less bytes than a header has. -/
def IsPiece (bytes : List UInt8) : Prop :=
  IsChunk bytes ∨ bytes.length < minHeaderSize

theorem IsRow.isPiece {rows : List (List UInt8)} (isRow : IsRow rows) : ∀ bytes ∈ rows, IsPiece bytes := by
  induction isRow with
  | nil => simp
  | gap some short =>
      intro other inside
      exact List.mem_singleton.1 inside ▸ .inr short
  | chunk isChunk behind ih => exact List.forall_mem_cons.2 ⟨.inl isChunk, ih⟩

theorem IsChunk.ofBytes {bytes : List UInt8} (isChunk : IsChunk bytes) (start : Nat) :
    Piece.ofBytes start bytes = .chunk (.ofBytes start bytes) :=
  if_neg (Nat.not_lt.2 isChunk.length_le)

namespace Piece

theorem readAll_of_stop {fuel stop : Nat} {data : Bytes} {position : Nat} (done : stop ≤ position) :
    readAll stop fuel { data, position } = ([], .ok { data, position }) := by
  cases fuel with
  | zero => rfl
  | succ fuel => rw [readAll, if_pos done]

theorem read_chunk {data : Bytes} {position stop : Nat} {bytes : List UInt8} (isChunk : IsChunk bytes)
    (stands : data.Stands position bytes) (within : position + bytes.length ≤ stop) :
    read stop { data, position } =
      .ok (.chunk (.ofBytes position bytes)) { data, position := position + bytes.length } := by
  have long := isChunk.length_le
  have inside : ¬stop < (Chunk.ofBytes position bytes).header.stop := by
    change ¬stop < position + (Bytes.word bytes 4).toNat
    rw [isChunk.size]
    omega
  have position' : Reader.position { data, position } = .ok position { data, position } := rfl
  unfold read
  rw [Step.bind_ok position', if_neg (by omega),
    Step.bind_ok (Chunk.read_eq_ok.2 ⟨bytes, isChunk, stands, rfl, rfl⟩), if_neg inside]
  rfl

theorem read_gap {data : Bytes} {position : Nat} {bytes : List UInt8} (short : bytes.length < minHeaderSize)
    (stands : data.Stands position bytes) : read (position + bytes.length) { data, position } =
      .ok (.gap bytes.toArray) { data, position := position + bytes.length } := by
  have position' : Reader.position { data, position } = .ok position { data, position } := rfl
  unfold read
  rw [Step.bind_ok position', if_pos (by omega), Nat.add_sub_cancel_left,
    Step.bind_ok (Reader.reads_bytes bytes data position stands)]
  rfl

/-- Bytes that make a row are read as its pieces. -/
theorem readAll_ok {rows : List (List UInt8)} (isRow : IsRow rows) {data : Bytes} {position fuel : Nat}
    (stands : data.Stands position rows.flatten) (enough : rows.length ≤ fuel) :
    readAll (position + rows.flatten.length) fuel { data, position } =
      (row position rows, .ok { data, position := position + rows.flatten.length }) := by
  induction isRow generalizing position fuel with
  | nil => exact readAll_of_stop (Nat.le_refl _)
  | @gap bytes some short =>
      obtain ⟨fuel, rfl⟩ : ∃ less, fuel = less + 1 := ⟨fuel - 1, by simp at enough; omega⟩
      have more := List.length_pos_iff.2 some
      simp only [List.flatten_cons, List.flatten_nil, List.append_nil] at stands ⊢
      rw [readAll, if_neg (by simp only; omega), read_gap short stands]
      simp only [readAll_of_stop (Nat.le_refl _), row, ofBytes, if_pos short]
  | @chunk bytes rest isChunk behind ih =>
      obtain ⟨fuel, rfl⟩ : ∃ less, fuel = less + 1 := ⟨fuel - 1, by simp at enough; omega⟩
      have long := isChunk.length_le
      unfold minHeaderSize at long
      simp only [List.flatten_cons, List.length_append] at stands ⊢
      obtain ⟨front, back⟩ := Bytes.Stands.append_iff.1 stands
      have later := ih back (by simpa using enough)
      rw [Nat.add_assoc] at later
      rw [readAll, if_neg (by simp only; omega), read_chunk isChunk front (by omega)]
      simp only [later, row, isChunk.ofBytes]

/-- What is read before a stop: a chunk that ends there at most, or all bytes up to it. -/
theorem of_read {data : Bytes} {position stop : Nat} {piece : Piece} {cursor : Cursor}
    (run : read stop { data, position } = .ok piece cursor) (before : position < stop) : ∃ bytes,
      (IsChunk bytes ∧ position + bytes.length ≤ stop ∨
        bytes.length < minHeaderSize ∧ position + bytes.length = stop) ∧
      data.Stands position bytes ∧ piece = ofBytes position bytes ∧
        cursor = { data, position := position + bytes.length } := by
  have position' : Reader.position { data, position } = .ok position { data, position } := rfl
  unfold read at run
  rw [Step.bind_ok position'] at run
  split at run
  · rename_i short
    obtain ⟨bytes, _, cut, done⟩ := Step.bind_eq_ok.1 run
    obtain ⟨_, _, peeked, moved⟩ := Step.bind_eq_ok.1 cut
    obtain ⟨enough, rfl, rfl⟩ := Reader.peek_eq_ok.1 peeked
    have length : ((data.toList.drop position).take (stop - position)).length = stop - position := by
      rw [List.length_take, List.length_drop, Array.length_toList]
      exact Nat.min_eq_left enough
    have stands : data.Stands position ((data.toList.drop position).take (stop - position)) :=
      List.take_prefix ..
    generalize (data.toList.drop position).take (stop - position) = rest at length moved stands
    cases moved
    cases done
    refine ⟨bytes, .inr ⟨by omega, by omega⟩, stands, ?_, by rw [length]⟩
    rw [ofBytes, if_pos (by omega)]
  · obtain ⟨chunk, _, found, rest⟩ := Step.bind_eq_ok.1 run
    obtain ⟨bytes, isChunk, stands, rfl, rfl⟩ := Chunk.read_eq_ok.1 found
    dsimp only at rest
    rw [Step.guard_eq_ok] at rest
    obtain ⟨inside, done⟩ := rest
    cases done
    have stop_eq : (Chunk.ofBytes position bytes).header.stop = position + bytes.length :=
      congrArg (position + ·) isChunk.size
    exact ⟨bytes, .inl ⟨isChunk, by omega⟩, stands, (isChunk.ofBytes position).symm, rfl⟩

/-- What is read up to a stop is a row. -/
theorem row_of_readAll {data : Bytes} {position stop fuel : Nat} {pieces : List Piece} {cursor : Cursor}
    (run : readAll stop fuel { data, position } = (pieces, .ok cursor)) (within : position ≤ stop)
    (enough : stop ≤ position + fuel) : ∃ rows, IsRow rows ∧ pieces = row position rows ∧
      data.Stands position rows.flatten ∧ position + rows.flatten.length = stop ∧
        cursor = { data, position := stop } := by
  induction fuel generalizing position pieces with
  | zero =>
      obtain rfl : position = stop := by omega
      cases run
      exact ⟨[], .nil, rfl, .nil, rfl, rfl⟩
  | succ fuel ih =>
      unfold readAll at run
      by_cases done : stop ≤ position
      · obtain rfl : position = stop := by omega
        rw [if_pos done] at run
        cases run
        exact ⟨[], .nil, rfl, .nil, rfl, rfl⟩
      · rw [if_neg done] at run
        cases first : read stop { data, position } with
        | error fault between =>
            rw [first] at run
            cases run
        | ok piece between =>
            obtain ⟨bytes, kind, stands, rfl, rfl⟩ := of_read first (by omega)
            rw [first] at run
            cases behind : readAll stop fuel { data, position := position + bytes.length } with
            | mk later result =>
                simp only [behind, Prod.mk.injEq] at run
                obtain ⟨rfl, rfl⟩ := run
                rcases kind with ⟨isChunk, inside⟩ | ⟨short, last⟩
                · have long := isChunk.length_le
                  unfold minHeaderSize at long
                  obtain ⟨rows, isRow, rfl, stands', length, rfl⟩ := ih behind inside (by omega)
                  refine ⟨bytes :: rows, .chunk isChunk isRow, rfl, ?_, ?_, rfl⟩
                  · exact List.flatten_cons ▸ Bytes.Stands.append_iff.2 ⟨stands, stands'⟩
                  · rw [List.flatten_cons, List.length_append, ← length]
                    omega
                · have some : bytes ≠ [] := by
                    rintro rfl
                    exact done (Nat.le_of_eq last.symm)
                  rw [last, readAll_of_stop (Nat.le_refl _)] at behind
                  cases behind
                  exact ⟨[bytes], .gap some short, rfl, by simpa using stands, by simpa using last, rfl⟩

/-- What a visit of each piece of a row keeps holds behind the row, unless a piece is refused. -/
theorem forM_row_ensures {state : Type} {visit : Piece → Step state PUnit}
    {holds : List (List UInt8) → state → Prop} {refused : List (List UInt8) → List UInt8 → Prop}
    {position : Nat} {rows : List (List UInt8)}
    (each : ∀ done bytes behind, rows = done ++ bytes :: behind → ∀ initial, holds done initial →
      (visit (ofBytes (position + done.flatten.length) bytes)).Ensures initial
        (fun _ => holds (done ++ [bytes])) (fun _ => refused done bytes))
    {initial : state} (start : holds [] initial) : ((row position rows).forM visit).Ensures initial
      (fun _ => holds rows) (fun _ => ∃ done bytes behind, rows = done ++ bytes :: behind ∧ refused done bytes) := by
  suffices ∀ done rest, rows = done ++ rest → ∀ initial, holds done initial →
      ((row (position + done.flatten.length) rest).forM visit).Ensures initial (fun _ => holds rows)
        (fun _ => ∃ done bytes behind, rows = done ++ bytes :: behind ∧ refused done bytes) by
    simpa using this [] rows rfl initial start
  clear start initial
  intro done rest
  induction rest generalizing done with
  | nil =>
      intro whole initial here
      rw [List.append_nil] at whole
      exact Step.Ensures.of_ok rfl (whole ▸ here)
  | cons bytes rest ih =>
      intro whole initial here
      have later := ih (done ++ [bytes]) (by rw [whole, List.append_assoc]; rfl)
      rw [List.flatten_append, List.flatten_singleton, List.length_append, ← Nat.add_assoc] at later
      rw [row, Step.forM_cons]
      exact ((each done bytes rest whole initial here).imp (fun _ _ fits => fits)
        fun _ fails => ⟨done, bytes, rest, whole, fails⟩).bind fun _ between kept => later between kept

end Piece

namespace Reader

variable {state : Type} {visit : Piece → Step state Unit} {data : Bytes} {position : Nat}

/-- The pieces of a row are visited one after another. -/
theorem pieces_eq {rows : List (List UInt8)} (isRow : IsRow rows) (stands : data.Stands position rows.flatten)
    (bound : position + rows.flatten.length ≤ data.size) :
    Reader.pieces (position + rows.flatten.length) { data, position } visit =
      (do (Piece.row position rows).forM visit
          return { data, position := position + rows.flatten.length }) := by
  have enough : rows.length ≤ data.size + 1 := by
    have := isRow.length_le
    omega
  unfold Reader.pieces
  rw [Piece.readAll_ok isRow stands enough]
  rfl

/-- What is visited up to a stop is a row. -/
theorem row_of_pieces {stop : Nat} {initial final : state} {cursor : Cursor}
    (run : Reader.pieces stop { data, position } visit initial = .ok cursor final) (within : position ≤ stop)
    (bound : stop ≤ data.size) : ∃ rows, IsRow rows ∧ data.Stands position rows.flatten ∧
      position + rows.flatten.length = stop := by
  unfold Reader.pieces at run
  cases pieces : Piece.readAll stop (data.size + 1) { data, position } with
  | mk pieces result =>
      rw [pieces] at run
      obtain ⟨_, between, visited, last⟩ := Step.bind_eq_ok.1 run
      obtain ⟨rfl, rfl⟩ := Step.monadLift_eq_ok.1 last
      obtain ⟨rows, isRow, _, stands, length, _⟩ := Piece.row_of_readAll pieces within (by omega)
      exact ⟨rows, isRow, stands, length⟩

end Reader

end Resource
end DexArsc
