/-
Writing a file that is up to date never fails: its pieces ascend, each stands where the file has its
offset, and nothing stands behind the last one.
-/

import DexArsc.Proofs.Dex.File.Arranged

namespace DexArsc.Dex

/-- Pieces that ascend within a limit can be written one behind the other. -/
theorem writePieces_of_ascending (fill : UInt8) {pieces : List (UInt32 × List UInt8)} {limit : Nat}
    {out : Bytes} (room : out.size ≤ limit) (behind : ∀ piece ∈ pieces, out.size ≤ piece.1.toNat)
    (ascending : pieces.Pairwise fun one other => one.1.toNat + one.2.length ≤ other.1.toNat)
    (within : ∀ piece ∈ pieces, piece.1.toNat + piece.2.length ≤ limit) :
    ∃ final, writePieces fill pieces out = .ok final ∧ final.size ≤ limit := by
  induction pieces generalizing out with
  | nil => exact ⟨out, rfl, room⟩
  | cons piece rest ih =>
      obtain ⟨later, ascending⟩ := List.pairwise_cons.1 ascending
      have start := behind piece List.mem_cons_self
      obtain ⟨next, here⟩ : ∃ next, writeAt fill piece.1 piece.2 out = .ok next :=
        ⟨_, writeAt_eq_ok.2 ⟨start, rfl⟩⟩
      have size : next.size = piece.1.toNat + piece.2.length := by
        rw [(writeAt_eq_ok.1 here).2]
        simp only [Array.size_append, Array.size_replicate, List.size_toArray]
        omega
      obtain ⟨final, written, fits⟩ := @ih next
        (by rw [size]; exact within piece List.mem_cons_self)
        (fun other inside => by rw [size]; exact later other inside) ascending
        fun other inside => within other (List.mem_cons_of_mem _ inside)
      exact ⟨final, writePieces_cons.2 ⟨next, here, written⟩, fits⟩

/-- A live item has a row. -/
theorem Section.Valid.exists_row {α : Type} {items : Section α} (valid : items.Valid) {id : Id α}
    {item : α} (found : items.item? id = some item) :
    ∃ offset, items.offsetOf? id = some offset ∧ (offset, item) ∈ items.rows := by
  obtain ⟨offset, place⟩ : ∃ offset, items.offsetOf? id = some offset := by
    rw [← Option.isSome_iff_exists, isSome_offsetOf?, found]
    rfl
  have listed : id ∈ items.order := valid.mem_order_iff.2 (by rw [found]; rfl)
  obtain ⟨index, here⟩ := Array.mem_iff_getElem?.1 listed
  exact ⟨offset, place, List.mem_of_getElem? (valid.getElem?_rows_eq_some.2 ⟨id, here, place, found⟩)⟩

namespace DexFile

variable {options : WriteOptions} {file final : DexFile} {bytes : Bytes}

/-- The bytes of a file: as many as its header says, with the byte form of every item at the offset
of the item. -/
structure StandsIn (file : DexFile) (bytes : Bytes) : Prop where
  size : bytes.size = file.header.fileSize.toNat
  header : bytes.Stands 0 (encode file.header)
  map : bytes.Stands file.header.mapOffset.toNat (encode file.map)
  /-- The id of a string holds the offset of its data. -/
  strings : ∀ id item, file.strings.items.item? id = some item →
    ∃ offset, file.strings.items.offsetOf? id = some offset ∧
      bytes.Stands offset.toNat (Bytes.ofWord32 item.dataOffset) ∧
      bytes.Stands item.dataOffset.toNat (encode item.value)
  items : ∀ (part : Part) (id : Id part.Item) (item : part.Item),
    (part.items file).item? id = some item →
      ∃ offset, (part.items file).offsetOf? id = some offset ∧ bytes.Stands offset.toNat (encode item)
  raws : ∀ raw ∈ file.rawSections, bytes.Stands raw.offset.toNat raw.bytes.toList

/-- What is written of a file that is up to date has every item in its place. -/
theorem Current.standsIn (current : Current options file) {fill : UInt8}
    (written : file.write fill = .ok bytes) : file.StandsIn bytes := by
  obtain ⟨size, header, pieces⟩ := stands_of_write written
  have orderly := current.ready.orderly
  have stands {entry : LayoutEntry} {offset : UInt32} {content : List UInt8}
      (listed : entry ∈ file.present) (inside : (offset, content) ∈ file.piecesAt entry) :
      bytes.Stands offset.toNat content :=
    (pieces _ (List.mem_flatMap.2 ⟨entry, listed, inside⟩)).2
  have present (kind : SectionKind) (modelled : kind.isModelled = true)
      (some : 0 < file.countOf (.modelled kind)) : .modelled kind ∈ file.present :=
    mem_present.2 ⟨current.ready.complete kind modelled, some⟩
  refine ⟨size, header, ?_, ?_, ?_, ?_⟩
  · exact stands (present .mapList rfl Nat.one_pos) (List.mem_singleton.2 rfl)
  · intro id item found
    obtain ⟨offset, place, row⟩ := orderly.strings.exists_row found
    have some : 0 < file.strings.size := by
      rw [show file.strings.size = file.strings.items.rows.length from
        orderly.strings.length_rows.symm]
      exact List.length_pos_of_mem row
    exact ⟨offset, place, stands (present .stringId rfl some) (List.mem_map.2 ⟨_, row, rfl⟩),
      stands (present .stringData rfl some) (List.mem_map.2 ⟨_, row, rfl⟩)⟩
  · intro part id item found
    obtain ⟨offset, place, row⟩ := (orderly.valid part).exists_row found
    have some : 0 < (part.items file).size := by
      rw [← (orderly.valid part).length_rows]
      exact List.length_pos_of_mem row
    refine ⟨offset, place, stands
      (present part.kind part.isModelled_kind (by rwa [Part.countOf_kind])) ?_⟩
    rw [piecesAt_kind]
    exact List.mem_map.2 ⟨_, row, rfl⟩
  · intro raw inside
    obtain ⟨entry, listed, found⟩ := List.mem_filterMap.1 inside
    cases entry with
    | modelled kind => cases found
    | raw index =>
        simp only at found
        rcases Nat.eq_zero_or_pos (file.countOf (.raw index)) with none | some
        · have empty : raw.bytes.toList = [] := by
            simpa [countOf, found] using none
          rw [empty]
          exact Bytes.Stands.nil
        · refine stands (mem_present.2 ⟨listed, some⟩) ?_
          simp [piecesAt, found]

/-- A file that is up to date can be written. -/
theorem Current.exists_write (current : Current options file)
    (first : file.layout.head? = some (.modelled .header)) (aligned : options.Aligned) (fill : UInt8) :
    ∃ out, file.write fill = .ok out := by
  have arranged := current.arranged first aligned
  obtain ⟨rest, present⟩ := present_of_first first
  have pieces : file.pieces = rest.flatMap file.runsAt := by
    have others : ∀ entry ∈ rest, file.piecesAt entry = file.runsAt entry := by
      intro entry inside
      have distinct : file.present.Nodup := current.ready.orderly.distinct.sublist List.filter_sublist
      rw [present, List.nodup_cons] at distinct
      unfold runsAt
      rw [if_neg]
      rintro rfl
      exact distinct.1 inside
    unfold DexFile.pieces
    rw [present, List.flatMap_cons]
    simp only [List.flatMap]
    rw [List.map_congr_left others]
    rfl
  have inside {entry : LayoutEntry} (listed : entry ∈ rest) : entry ∈ file.present := by
    rw [present]
    exact List.mem_cons_of_mem _ listed
  have length : (encode file.header).toArray.size = headerSize := Header.length_encode current.header
  have apart := arranged.apart
  rw [present, List.pairwise_cons] at apart
  have limit : ∀ entry ∈ file.present, file.stopOf entry ≤ file.header.fileSize.toNat := by
    intro entry listed
    obtain ⟨index, found⟩ := List.getElem?_of_mem listed
    obtain ⟨slot, here, _, pair⟩ := slot_of_present options found
    rw [(current.span_of_pair first aligned pair).2, current.laidOut.planned.header]
    change slot.stop ≤ (UInt32.ofNat (file.stop options)).toNat
    rw [toNat_ofNat_of_lt current.laidOut.planned.fits]
    exact ((plan_apart options 0 file.blocks).2 slot (List.mem_of_getElem? here)).2
  have room : headerSize ≤ file.header.fileSize.toNat := by
    rw [← arranged.header.2]
    exact limit _ (by rw [present]; exact List.mem_cons_self)
  have runs {run : UInt32 × List UInt8} (listed : run ∈ rest.flatMap file.runsAt) :
      headerSize ≤ run.1.toNat ∧ run.1.toNat + run.2.length ≤ file.header.fileSize.toNat := by
    obtain ⟨entry, member, here⟩ := List.mem_flatMap.1 listed
    have bounds := arranged.inside entry (inside member) run here
    have before := apart.1 entry member
    rw [arranged.header.2] at before
    exact ⟨Nat.le_trans before bounds.1, Nat.le_trans bounds.2 (limit entry (inside member))⟩
  have behind : ∀ piece ∈ file.pieces, (encode file.header).toArray.size ≤ piece.1.toNat := by
    intro piece listed
    rw [length]
    exact (runs (pieces ▸ listed)).1
  have ascending : file.pieces.Pairwise
      fun one other => one.1.toNat + one.2.length ≤ other.1.toNat := by
    rw [pieces, List.pairwise_flatMap]
    refine ⟨fun entry member => arranged.ascending entry (inside member),
      apart.2.imp_of_mem fun {one other} here there before run listed next later => ?_⟩
    have first := (arranged.inside one (inside here) run listed).2
    have second := (arranged.inside other (inside there) next later).1
    omega
  obtain ⟨body, written, fits⟩ := writePieces_of_ascending fill (by rw [length]; exact room) behind
    ascending fun piece listed => (runs (pieces ▸ listed)).2
  obtain ⟨out, filled⟩ : ∃ out, fillTo fill file.header.fileSize body = .ok out :=
    ⟨_, fillTo_eq_ok.2 ⟨fits, rfl⟩⟩
  refine ⟨out, ?_⟩
  rw [write_eq, Except.bind_eq_ok]
  exact ⟨body, written, filled⟩

/-- What is inserted behind the first element leaves it the first one. -/
theorem head?_insertIdx_findIdx? {α : Type} {test : α → Bool} {first : α} (before : test first = false)
    (rest : List α) (new : α) : ((first :: rest).insertIdx
      (((first :: rest).findIdx? test).getD (first :: rest).length) new).head? = some first := by
  rw [List.findIdx?_cons, before]
  cases rest.findIdx? test <;> rfl

/-- A section that a layout lacks is placed behind the header. -/
theorem first_place (first : file.layout.head? = some (.modelled .header)) (kind : SectionKind) :
    (file.place kind).layout.head? = some (.modelled .header) := by
  unfold place
  by_cases inside : file.layout.contains (.modelled kind) = true
  · rwa [if_pos inside]
  · rw [if_neg inside]
    cases layout : file.layout with
    | nil => simp [layout] at first
    | cons entry rest =>
        rw [layout, List.head?_cons, Option.some.injEq] at first
        subst first
        apply head?_insertIdx_findIdx?
        cases kind.isIdSection <;> rfl

/-- A layout that starts with the header does so when it is brought up to date. -/
theorem first_completeLayout (first : file.layout.head? = some (.modelled .header)) :
    file.completeLayout.dropHiddenApi.layout.head? = some (.modelled .header) := by
  have fold (kinds : List SectionKind) (file : DexFile)
      (first : file.layout.head? = some (.modelled .header)) :
      (kinds.foldl place file).layout.head? = some (.modelled .header) := by
    induction kinds generalizing file with
    | nil => exact first
    | cons kind rest ih => exact ih _ (first_place first kind)
  have inside : file.layout.contains (.modelled .header) = true :=
    List.contains_iff_mem.2 (List.mem_of_mem_head? (by rw [first]; rfl))
  have complete : file.completeLayout.layout.head? = some (.modelled .header) := by
    unfold completeLayout
    simp only [inside, if_true]
    exact fold defaultLayout file first
  unfold dropHiddenApi
  split
  · exact complete
  · cases layout : file.completeLayout.layout with
    | nil => simp [layout] at complete
    | cons entry rest =>
        rw [layout, List.head?_cons, Option.some.injEq] at complete
        subst complete
        rfl

/-- A refresh changes the layout before anything else, and only then. -/
theorem layout_of_refresh (regular : file.Regular) (run : refresh options file = .ok () final) :
    final.layout = file.completeLayout.dropHiddenApi.layout := by
  obtain ⟨mid, indexes, settled⟩ := refresh_eq_ok.1 run
  obtain ⟨layout, start, ready⟩ := regular.start
  rw [start] at indexes
  rw [start, ← (refreshIndexes_frame indexes).layout]
  refine settle_keeps (fun before behind (same : before.layout = mid.layout) planned =>
    ((layout_of_unplaced planned.unplaced).trans same : behind.layout = mid.layout))
    (fun before behind same refresh => (refreshOffsets_frame refresh).layout.trans same)
    (ready.refreshIndexes indexes) rfl settled

/-- Writing has the layout of the refresh. -/
theorem layout_of_toBytes {bytes : Bytes} (regular : file.Regular) (run : toBytes options file = .ok bytes final) :
    final.layout = file.completeLayout.dropHiddenApi.layout := by
  obtain ⟨mid, out, refreshed, _, last⟩ := toBytes_eq_ok.1 run
  rw [← layout_of_refresh regular refreshed]
  split at last <;> rw [last.2]
  rfl

/-- What refreshing and writing give: an arranged file that its map list and its header describe, and
bytes with everything in its place. Writing fails only where the refresh fails. -/
structure SoundLayout (options : WriteOptions) (file : DexFile) : Prop where
  refreshed : ∀ final, refresh options file = .ok () final → final.Arranged ∧ final.Listed
  fails : ∀ fault stop, toBytes options file = .error fault stop →
    refresh options file = .error fault stop
  written : ∀ bytes final, toBytes options file = .ok bytes final →
    final.Arranged ∧ final.Listed ∧ final.StandsIn bytes

/-- A regular file whose layout starts with the header has a sound layout. -/
theorem Regular.soundLayout (regular : file.Regular)
    (first : file.layout.head? = some (.modelled .header)) (aligned : options.Aligned) :
    SoundLayout options file := by
  have start {mid : DexFile} (run : refresh options file = .ok () mid) :
      mid.layout.head? = some (.modelled .header) := by
    rw [layout_of_refresh regular run]
    exact first_completeLayout first
  refine ⟨fun final run => ?_, fun fault stop run => ?_, fun bytes final run => ?_⟩
  · have current := current_of_refresh regular run
    exact ⟨current.arranged (start run) aligned, current.listed (start run) aligned⟩
  · cases refreshed : refresh options file with
    | error fault' stop' =>
        unfold DexFile.toBytes at run
        rw [Step.bind_apply, refreshed] at run
        obtain ⟨rfl, rfl⟩ := EStateM.Result.error.inj run
        rfl
    | ok value mid =>
        obtain ⟨out, written⟩ :=
          (current_of_refresh regular refreshed).exists_write (start refreshed) aligned options.fill
        by_cases update : options.updateChecksum = true
        · have succeeds : toBytes options file = .ok (sealed out) (mid.sealedBy out) :=
            toBytes_eq_ok.2 ⟨mid, out, refreshed, written, by rw [if_pos update]; exact ⟨rfl, rfl⟩⟩
          cases succeeds.symm.trans run
        · have succeeds : toBytes options file = .ok out mid :=
            toBytes_eq_ok.2 ⟨mid, out, refreshed, written, by rw [if_neg update]; exact ⟨rfl, rfl⟩⟩
          cases succeeds.symm.trans run
  · have done := written_of_toBytes regular run
    have head : final.layout.head? = some (.modelled .header) := by
      rw [layout_of_toBytes regular run]
      exact first_completeLayout first
    exact ⟨done.current.arranged head aligned, done.current.listed head aligned,
      done.current.standsIn done.write⟩

end DexFile
end DexArsc.Dex
