/-
What a file is after it was written: its layout is complete, its references hold the current
indexes and places, and its places follow the plan.
-/

import DexArsc.Proofs.Dex.File.Indexed

namespace DexArsc.Dex.DexFile

variable {file final : DexFile}

/-- What a layout becomes when sections are added that it lacks. -/
structure Completed (layout more : List LayoutEntry) (complete : List LayoutEntry) : Prop where
  distinct : layout.Nodup → complete.Nodup
  kept : ∀ entry ∈ layout, entry ∈ complete
  added : ∀ entry ∈ more, entry ∈ complete
  filter : ∀ test : LayoutEntry → Bool, (∀ entry ∈ more, entry ∉ layout → test entry = false) →
    complete.filter test = layout.filter test

theorem Completed.refl (layout : List LayoutEntry) : Completed layout [] layout where
  distinct distinct := distinct
  kept _ inside := inside
  added := by simp
  filter _ _ := rfl

theorem Completed.trans {layout more between others complete : List LayoutEntry}
    (first : Completed layout more between) (second : Completed between others complete) :
    Completed layout (more ++ others) complete where
  distinct distinct := second.distinct (first.distinct distinct)
  kept entry inside := second.kept entry (first.kept entry inside)
  added entry inside := by
    rcases List.mem_append.1 inside with inside | inside
    · exact second.kept entry (first.added entry inside)
    · exact second.added entry inside
  filter test dropped := by
    rw [second.filter test, first.filter test]
    · exact fun entry inside outside => dropped entry (List.mem_append_left _ inside) outside
    · exact fun entry inside outside => dropped entry (List.mem_append_right _ inside)
        fun inside => outside (first.kept entry inside)

/-- A section that a layout lacks is inserted. -/
theorem completed_insertIdx {layout : List LayoutEntry} {entry : LayoutEntry} (new : entry ∉ layout)
    {index : Nat} (inside : index ≤ layout.length) :
    Completed layout [entry] (layout.insertIdx index entry) where
  distinct distinct := by
    rw [(List.perm_insertIdx entry layout inside).nodup_iff]
    exact List.nodup_cons.2 ⟨new, distinct⟩
  kept other listed := (List.mem_insertIdx inside).2 (.inr listed)
  added other listed := by
    rw [List.mem_singleton.1 listed]
    exact (List.mem_insertIdx inside).2 (.inl rfl)
  filter test dropped := by
    have none := dropped entry (List.mem_singleton.2 rfl) new
    induction layout generalizing index with
    | nil =>
        have zero : index = 0 := by simpa using inside
        subst zero
        simp [none]
    | cons first rest ih =>
        cases index with
        | zero => simp [none]
        | succ index =>
            rw [List.mem_cons, not_or] at new
            rw [List.insertIdx_succ_cons, List.filter_cons, List.filter_cons,
              ih new.2 (by simpa using inside) (by simpa [new.2] using none)]

theorem place_eq (file : DexFile) (kind : SectionKind) : ∃ layout, file.place kind = { file with layout } ∧
    Completed file.layout [.modelled kind] layout := by
  unfold place
  by_cases inside : file.layout.contains (.modelled kind) = true
  · rw [if_pos inside]
    refine ⟨file.layout, rfl, fun distinct => distinct, fun _ inside => inside, ?_, fun _ _ => rfl⟩
    intro entry listed
    rw [List.mem_singleton.1 listed]
    exact List.contains_iff_mem.1 inside
  · rw [if_neg inside]
    refine ⟨_, rfl, completed_insertIdx (fun listed => inside (List.contains_iff_mem.2 listed)) ?_⟩
    cases found : file.layout.findIdx? _ with
    | none => exact Nat.le_refl _
    | some index => exact Nat.le_of_lt (List.findIdx?_eq_some_iff_findIdx_eq.1 found).1

/-- A layout is completed with all modelled sections, the header before the others. -/
theorem completeLayout_eq (file : DexFile) : ∃ layout, file.completeLayout = { file with layout } ∧
    Completed file.layout ((.header :: defaultLayout).map .modelled) layout := by
  have fold (kinds : List SectionKind) (file : DexFile) : ∃ layout,
      kinds.foldl place file = { file with layout } ∧
        Completed file.layout (kinds.map .modelled) layout := by
    induction kinds generalizing file with
    | nil => exact ⟨file.layout, rfl, .refl _⟩
    | cons kind rest ih =>
        obtain ⟨between, first, completed⟩ := place_eq file kind
        obtain ⟨layout, others, more⟩ := ih { file with layout := between }
        refine ⟨layout, ?_, completed.trans more⟩
        rw [List.foldl_cons, first]
        exact others
  unfold completeLayout
  by_cases inside : file.layout.contains (.modelled .header) = true
  · simp only [inside, if_true]
    obtain ⟨layout, whole, completed⟩ := fold defaultLayout file
    refine ⟨layout, whole, ?_⟩
    have header : Completed file.layout [.modelled .header] file.layout := by
      refine ⟨fun distinct => distinct, fun _ inside => inside, ?_, fun _ _ => rfl⟩
      intro entry listed
      rw [List.mem_singleton.1 listed]
      exact List.contains_iff_mem.1 inside
    exact header.trans completed
  · simp only [inside, Bool.false_eq_true, if_false]
    obtain ⟨layout, whole, completed⟩ := fold defaultLayout
      { file with layout := .modelled .header :: file.layout }
    refine ⟨layout, whole, ?_⟩
    exact (completed_insertIdx (fun listed => inside (List.contains_iff_mem.2 listed))
      (Nat.zero_le _)).trans completed

/-- Only modelled sections are added. -/
theorem Completed.raw_mem_iff {layout complete : List LayoutEntry} {kinds : List SectionKind}
    (completed : Completed layout (kinds.map .modelled) complete) (index : Nat) :
    .raw index ∈ complete ↔ .raw index ∈ layout := by
  have test := completed.filter (fun entry => entry == .raw index) fun entry added _ => by
    obtain ⟨kind, _, rfl⟩ := List.mem_map.1 added
    rfl
  have listed (layout : List LayoutEntry) :
      .raw index ∈ layout ↔ .raw index ∈ layout.filter fun entry => entry == .raw index := by
    rw [List.mem_filter, beq_self_eq_true, and_iff_left rfl]
  rw [listed complete, listed layout, test]

/-- A layout with all modelled sections is complete. -/
theorem completeLayout_eq_self
    (complete : ∀ kind, kind.isModelled → .modelled kind ∈ file.layout) :
    file.completeLayout = file := by
  have place (kind : SectionKind) (modelled : kind.isModelled = true) : file.place kind = file := by
    unfold DexFile.place
    rw [if_pos (List.contains_iff_mem.2 (complete kind modelled))]
  have fold (kinds : List SectionKind) (modelled : ∀ kind ∈ kinds, kind.isModelled = true) :
      kinds.foldl DexFile.place file = file := by
    induction kinds with
    | nil => rfl
    | cons kind rest ih =>
        rw [List.foldl_cons, place kind (modelled kind List.mem_cons_self)]
        exact ih fun other inside => modelled other (List.mem_cons_of_mem _ inside)
  unfold completeLayout
  simp only [List.contains_iff_mem.2 (complete .header rfl), if_true]
  exact fold _ fun kind inside => List.contains_iff_mem.2 inside

theorem dropHiddenApi_eq (file : DexFile) : ∃ layout, file.dropHiddenApi = { file with layout } ∧
    layout.Sublist file.layout ∧ ∀ kind, .modelled kind ∈ file.layout → .modelled kind ∈ layout := by
  unfold dropHiddenApi
  split
  · exact ⟨file.layout, rfl, .refl _, fun _ inside => inside⟩
  · refine ⟨_, rfl, List.filter_sublist, fun kind inside => ?_⟩
    exact List.mem_filter.2 ⟨inside, rfl⟩

/-- What is added leaves the order of the others. -/
theorem Completed.sublist {layout more complete : List LayoutEntry}
    (completed : Completed layout more complete) : layout.Sublist complete := by
  have kept := completed.filter (fun entry => decide (entry ∈ layout)) fun entry _ outside =>
    decide_eq_false outside
  rw [List.filter_eq_self.2 fun entry inside => decide_eq_true inside] at kept
  rw [← kept]
  exact List.filter_sublist

/-- The kinds of the modelled sections in the order of the layout. -/
def modelledKinds (file : DexFile) : List SectionKind :=
  file.layout.filterMap fun
    | .modelled kind => some kind
    | .raw _ => none

theorem modelledKinds_completeLayout (file : DexFile) :
    file.modelledKinds.Sublist file.completeLayout.modelledKinds := by
  obtain ⟨layout, same, completed⟩ := completeLayout_eq file
  rw [same]
  exact completed.sublist.filterMap _

/-- Only sections that are kept as bytes go away. -/
theorem modelledKinds_dropHiddenApi (file : DexFile) :
    file.dropHiddenApi.modelledKinds = file.modelledKinds := by
  unfold dropHiddenApi
  split
  · rfl
  · change List.filterMap _ (List.filter _ file.layout) = List.filterMap _ file.layout
    rw [List.filterMap_filter]
    congr 1
    funext entry
    cases entry with
    | modelled kind => rfl
    | raw index => exact ite_self none

/-- What writing relies on: an orderly file and a header in its form. -/
structure Regular (file : DexFile) : Prop where
  orderly : file.Orderly
  header : file.header.Sound

/-- Only the order of the sections changes before the refreshes. -/
theorem Regular.start (regular : file.Regular) : ∃ layout,
    file.completeLayout.dropHiddenApi = { file with layout } ∧
      Ready { file with layout } := by
  obtain ⟨complete, first, completed⟩ := completeLayout_eq file
  obtain ⟨layout, second, sublist, kept⟩ := dropHiddenApi_eq { file with layout := complete }
  refine ⟨layout, by rw [first, second], ⟨?_, ?_⟩⟩
  · obtain ⟨kinds, valid, strings, raws, distinct⟩ := regular.orderly
    refine ⟨fun part => ?_, fun part => ?_, strings, raws, sublist.nodup (completed.distinct distinct)⟩
    · have kind := kinds part
      cases part <;> exact kind
    · have valid := valid part
      cases part <;> exact valid
  · intro kind modelled
    refine kept kind (completed.added _ (List.mem_cons_of_mem _ (List.mem_map_of_mem ?_)))
    exact List.contains_iff_mem.1 modelled

theorem Ready.refreshIndexes (ready : file.Ready) (refresh : refreshIndexes file = .ok () final) :
    final.Ready where
  orderly := (refreshIndexes_frame refresh).orderly ready.orderly
  complete kind modelled := by
    rw [(refreshIndexes_frame refresh).layout]
    exact ready.complete kind modelled

/-- The steps of a refresh that succeeds. -/
theorem refresh_eq_ok {options : WriteOptions} : refresh options file = .ok () final ↔
    ∃ mid, refreshIndexes file.completeLayout.dropHiddenApi = .ok () mid ∧
      settle options maxPasses none mid = .ok () final := by
  unfold refresh
  rw [Step.bind_ok (Step.modify_apply _ _), Step.bind_eq_ok]
  exact ⟨fun ⟨_, mid, first, second⟩ => ⟨mid, first, second⟩,
    fun ⟨mid, first, second⟩ => ⟨(), mid, first, second⟩⟩

/-- A header in its form is so after a layout pass. -/
theorem Planned.header_sound {options : WriteOptions} (planned : Planned options file final)
    (sound : file.header.Sound) : final.header.Sound := by
  rw [planned.header]
  exact ⟨sound.magicLength, sound.magicStart, sound.magicEnd, sound.signature, sound.endian⟩

/-- A file that was refreshed: its references and its places are up to date. -/
structure Current (options : WriteOptions) (file : DexFile) : Prop where
  ready : file.Ready
  header : file.header.Sound
  indexed : file.Indexed
  laidOut : LaidOut options file

theorem current_of_refresh {options : WriteOptions} (regular : file.Regular)
    (run : refresh options file = .ok () final) : Current options final := by
  obtain ⟨mid, indexes, settled⟩ := refresh_eq_ok.1 run
  obtain ⟨layout, start, ready⟩ := regular.start
  rw [start] at indexes
  have readyMid := ready.refreshIndexes indexes
  have kept := settle_keeps
    (fun before behind (holds : before.Ready ∧ before.header.Sound ∧ before.Indexed) planned =>
      (⟨holds.1.of_unplaced planned.unplaced, planned.header_sound holds.2.1,
        holds.2.2.of_unplaced planned.unplaced⟩ :
          behind.Ready ∧ behind.header.Sound ∧ behind.Indexed))
    (fun before behind holds refresh => ⟨holds.1.refreshOffsets refresh, by
      rw [(refreshOffsets_frame refresh).header]
      exact holds.2.1, holds.2.2.refreshOffsets refresh⟩)
    readyMid ⟨readyMid, by
      rw [(refreshIndexes_frame indexes).header]
      exact regular.header, indexed_of_refresh indexes⟩ settled
  exact ⟨kept.1, kept.2.1, kept.2.2, settle_laidOut readyMid (by simp) settled⟩

theorem countOf_header {header : Header} (entry : LayoutEntry) :
    countOf { file with header } entry = file.countOf entry := by
  cases entry with
  | raw index => rfl
  | modelled kind => cases kind <;> rfl

theorem block_header {header : Header} (entries : Nat) (entry : LayoutEntry) :
    block { file with header } entries entry = file.block entries entry := by
  cases entry with
  | raw index => rfl
  | modelled kind => cases kind <;> rfl

theorem present_header {header : Header} : present { file with header } = file.present := by
  unfold present
  simp only [countOf_header]

theorem blocks_header {header : Header} : blocks { file with header } = file.blocks := by
  unfold blocks
  rw [present_header]
  exact List.map_congr_left fun entry _ => block_header ..

theorem items_header {header : Header} (part : Part) :
    part.items { file with header } = part.items file := by
  cases part <;> rfl

/-- Another header that agrees with the plan keeps a file up to date. -/
theorem Current.withHeader {options : WriteOptions} (current : Current options file) {header : Header}
    (sound : header.Sound)
    (planned : header = planHeader header (file.slots options) (file.stop options)) :
    Current options { file with header } := by
  have slots : DexFile.slots options { file with header } = file.slots options := by
    unfold DexFile.slots
    rw [blocks_header]
  have stop : DexFile.stop options { file with header } = file.stop options := by
    unfold DexFile.stop
    rw [blocks_header]
  obtain ⟨ready, _, indexed, laidOut⟩ := current
  refine ⟨⟨⟨fun part => ?_, fun part => ?_, ready.orderly.strings, ready.orderly.raws,
    ready.orderly.distinct⟩, ready.complete⟩, sound, ⟨fun part different => ?_,
    indexed.sorted, ⟨indexed.short.typeLists, indexed.short.fields, indexed.short.methods⟩⟩,
    ⟨⟨?_, rfl, ?_, ?_, ?_⟩, ?_⟩⟩
  · rw [items_header]
    exact ready.orderly.kinds part
  · rw [items_header]
    exact ready.orderly.valid part
  · rw [items_header]
    exact indexed.refs part different
  · rw [stop]
    exact laidOut.planned.fits
  · rw [slots, present_header]
    intro pair inside
    rw [offsetsAt_header]
    exact laidOut.planned.placed pair inside
  · rw [slots]
    exact laidOut.planned.map
  · rw [slots, stop]
    exact planned
  · obtain ⟨whole, run⟩ := refreshOffsets_eq_ok.1 laidOut.offsets
    rw [refreshOffsets_eq_ok]
    exact ⟨congrArg (fun file : DexFile => { file with header }) whole, run⟩

/-- A file as it stands after it was written to bytes. -/
structure Written (options : WriteOptions) (file : DexFile) (bytes : Bytes) : Prop where
  current : Current options file
  write : file.write options.fill = .ok bytes
  sealed : options.updateChecksum = true → Dex.sealed bytes = bytes ∧
    file.header.signature = signatureOf bytes ∧ file.header.checksum = checksumOf bytes

/-- A file that is regular is up to date once it is written. -/
theorem written_of_toBytes {options : WriteOptions} {bytes : Bytes} (regular : file.Regular)
    (run : toBytes options file = .ok bytes final) : Written options final bytes := by
  obtain ⟨mid, out, refreshed, written, last⟩ := toBytes_eq_ok.1 run
  have current := current_of_refresh regular refreshed
  by_cases update : options.updateChecksum = true
  · rw [if_pos update] at last
    rw [last.1, last.2]
    refine ⟨current.withHeader ?_ ?_, write_sealedBy current.header written, fun _ =>
      ⟨sealed_sealed out, (signatureOf_sealed out).symm, (checksumOf_sealed out).symm⟩⟩
    · obtain ⟨magicLength, magicStart, magicEnd, _, endian⟩ := current.header
      exact ⟨magicLength, magicStart, magicEnd, length_sha1 _, endian⟩
    · have header := current.laidOut.planned.header
      conv => lhs; rw [header]
      rfl
  · rw [if_neg update] at last
    rw [last.1, last.2]
    exact ⟨current, written, fun update' => absurd update' update⟩

end DexArsc.Dex.DexFile
