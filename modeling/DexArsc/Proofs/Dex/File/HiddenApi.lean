/-
Data about single classes. It is kept as bytes in the order of the classes that were read, and their number alone
tells whether it is written again.
-/

import DexArsc.Proofs.Dex.File.Built

namespace DexArsc.Dex

/-- A section with as many items as before has the same ones exactly when none of them is missing. -/
theorem Section.Lists.order_eq_iff {α : Type} {items final : Section α} (lists : items.Lists final)
    (valid : items.Valid) (size : final.size = items.size) :
    final.order = items.order ↔ ∀ id ∈ items.order, id ∈ final.order := by
  refine ⟨fun same id inside => same ▸ inside, fun present => ?_⟩
  obtain ⟨kept, new, order, inside, fresh⟩ := lists.order
  have old : items.order.toList ⊆ kept := fun id listed => by
    have there := Array.mem_toList_iff.2 (present id (Array.mem_toList_iff.1 listed))
    rw [order] at there
    refine (List.mem_append.1 there).resolve_right fun last => ?_
    have live : items.contains id = true := by
      rw [contains_eq]
      exact valid.mem_order_iff.1 (Array.mem_toList_iff.1 listed)
    exact absurd (fresh id last) (Nat.not_le.2 (slot_lt live))
  have same := inside.eq_of_length_le (List.subperm_of_subset valid.nodup old).length_le
  have none : new = [] := by
    have count := congrArg List.length order
    rw [List.length_append, same, Array.length_toList, Array.length_toList] at count
    change final.size = items.size + new.length at count
    exact List.eq_nil_of_length_eq_zero (by omega)
  rw [← Array.toList_inj, order, same, none, List.append_nil]

namespace DexFile

variable {file final first : DexFile} {data bytes : Bytes} {options : WriteOptions}

/-- A section that is kept as bytes stays in the layout, but for data about single classes when the number of
classes has changed. -/
theorem raw_mem_dropHiddenApi (file : DexFile) (index : Nat) :
    .raw index ∈ file.dropHiddenApi.layout ↔ .raw index ∈ file.layout ∧
      (file.kindOf (.raw index) = .hiddenApi → file.classDefs.size = file.readClasses) := by
  unfold dropHiddenApi
  by_cases size : file.classDefs.size = file.readClasses
  · simp [size]
  · rw [if_neg size, List.mem_filter, Bool.not_eq_true', Bool.eq_false_iff]
    refine and_congr_right fun _ => ?_
    rw [imp_iff_not size, ne_eq, not_iff_not]
    exact isHiddenApi_iff file index

/-- A file that was read knows how many classes it has. -/
theorem readClasses_of_read {readOptions : ReadOptions} (run : read data readOptions = .ok file) :
    file.readClasses = file.classDefs.size := by
  obtain ⟨_, _, run⟩ := Except.bind_eq_ok.1 run
  obtain ⟨_, _, run⟩ := Except.bind_eq_ok.1 run
  obtain ⟨loaded, _, linkRun⟩ := Except.bind_eq_ok.1 run
  simp only at linkRun
  split at linkRun
  · rename_i linkRebuild
    cases linkRun
    obtain ⟨_, linked, links, rebuild⟩ := Step.bind_eq_ok.1 linkRebuild
    obtain ⟨shape, _⟩ := link_eq_ok.1 links
    rw [(sameItems_of_rebuildKeys rebuild).others, shape]
    rfl
  · cases linkRun

/-- Files that edits and changes in place reach from a first one. -/
inductive Later (first : DexFile) : DexFile → Prop
  | here : Later first first
  | edit {file : DexFile} (later : Later first file) (edit : Edit) : Later first (edit.after file)
  | changeClass {file : DexFile} (later : Later first file) (id : Id ClassDef) (change : ClassDef → ClassDef) :
      Later first { file with classDefs := file.classDefs.modify id change }
  | changeCode {file : DexFile} (later : Later first file) (id : Id CodeItem) (change : CodeItem → CodeItem) :
      Later first { file with codes := file.codes.modify id change }
  | changeDebugInfo {file : DexFile} (later : Later first file) (id : Id DebugInfo)
      (change : DebugInfo → DebugInfo) :
      Later first { file with debugInfos := file.debugInfos.modify id change }

theorem Later.upholds (later : Later first file) : first.Upholds file := by
  induction later with
  | here => exact .refl first
  | edit _ edit ih => exact ih.trans ((Upholds.step edit _).ends (edit.ends_after _))
  | changeClass _ id change ih => exact ih.trans (Upholds.putClasses (.modify _ id change))
  | changeCode _ id change ih => exact ih.trans (Upholds.putOther .codeItem (by decide) (.modify _ id change))
  | changeDebugInfo _ id change ih =>
      exact ih.trans (Upholds.putOther .debugInfo (by decide) (.modify _ id change))

/-- What becomes of data about single classes that was read. It is written exactly when the file has as many
classes as were read, and these are then the ones that were read exactly when none of them is missing. -/
theorem hiddenApi_of_read {readOptions : ReadOptions} (run : read data readOptions = .ok first)
    (later : Later first file) (written : toBytes options file = .ok bytes final) :
    (∀ index, .raw index ∈ final.layout ↔ .raw index ∈ file.layout ∧
      (file.kindOf (.raw index) = .hiddenApi → final.classDefs.size = first.classDefs.size)) ∧
    (final.classDefs.size = first.classDefs.size → (final.classDefs.order = first.classDefs.order ↔
      ∀ id ∈ first.classDefs.order, id ∈ final.classDefs.order)) := by
  have regular := regular_of_read run
  have before := later.upholds
  have writes := (Follows.toBytes options file).ends (Step.ends_ok written)
  have size : final.classDefs.size = file.classDefs.size := congrArg Array.size writes.classes.order
  have whole := before.trans (.of_follows writes)
  refine ⟨fun index => ?_, whole.classes.order_eq_iff (regular.orderly.valid .classDef)⟩
  obtain ⟨layout, same, completed⟩ := completeLayout_eq file
  rw [layout_of_toBytes (before.regular regular) written, raw_mem_dropHiddenApi, size, same,
    ← completed.raw_mem_iff index, ← readClasses_of_read run, ← before.readClasses]
  rfl

/-- A file whose map lists the sections in the order of the file, and the modelled ones in the order in which they
are read, is read in this order. -/
theorem read_of_ordered {readOptions : ReadOptions} {header : Header} {map : MapList} {start loaded : DexFile}
    (head : (readHead readOptions).run data = .ok (header, map))
    (ascending : map.items.Pairwise fun first second => first.offset < second.offset)
    (ranked : (map.items.filter (·.kind.isModelled)).Pairwise fun first second =>
      first.kind.readRank ≤ second.kind.readRank)
    (listed : loadLayout data readOptions { header, layout := [] } map.items = .ok start)
    (loads : (map.items.filter (·.kind.isModelled)).foldlM (fun file entry =>
      Except.within s!"{entry.kind.title} at 0x{Text.hex entry.offset.toNat}" (loadSection data file entry))
        start.completeLayout = .ok loaded)
    (links : (do link; rebuildKeys : Step DexFile Unit)
      { loaded with map, readClasses := loaded.classDefs.size } = .ok () file) :
    read data readOptions = .ok file := by
  unfold read
  refine Except.bind_eq_ok.2 ⟨_, head, Except.bind_eq_ok.2 ⟨start, ?_, Except.bind_eq_ok.2 ⟨loaded, ?_, ?_⟩⟩⟩
  · rw [MapList.byOffset_of_ascending ascending]
    exact listed
  · rw [List.mergeSort_of_pairwise (by simpa using ranked)]
    exact loads
  · dsimp only
    rw [links]

/-- A file with one class and data about it. -/
def oneClass : DexFile where
  classDefs := (Section.push { kind := .classDef } { type := {}, flags := 0 }).2
  raws := [{
    kind := .hiddenApi
    count := 1
    origin := 0
    offset := 0
    source := #[12, 0, 0, 0, 8, 0, 0, 0, 0, 0, 0, 0]
    bytes := #[12, 0, 0, 0, 8, 0, 0, 0, 0, 0, 0, 0]
    fixups := [] }]
  layout := [.modelled .header, .modelled .mapList, .modelled .classDef, .raw 0]
  readClasses := 1

/-- The bytes of a file with one class and data about it. -/
def oneClassBytes : Bytes :=
  (EStateM.run' (toBytes { updateChecksum := false }) oneClass).getD #[]

/-- The data about a class goes away with the class. -/
theorem hiddenApi_of_read_oneClass : ∃ first bytes final, read oneClassBytes {} = .ok first ∧
    Later first ((Edit.removeClass ⟨0⟩).after first) ∧
      toBytes { updateChecksum := false } ((Edit.removeClass ⟨0⟩).after first) = .ok bytes final ∧
      first.kindOf (.raw 0) = .hiddenApi ∧ .raw 0 ∈ first.layout ∧ .raw 0 ∉ final.layout := by
  have runs : (do
      let head ← (readHead {}).run oneClassBytes
      let start ← loadLayout oneClassBytes {} { header := head.1, layout := [] } head.2.items
      let loaded ← (head.2.items.filter (·.kind.isModelled)).foldlM (fun file entry =>
        Except.within s!"{entry.kind.title} at 0x{Text.hex entry.offset.toNat}"
          (loadSection oneClassBytes file entry)) start.completeLayout
      return (decide (head.2.items.Pairwise fun first second => first.offset < second.offset),
        decide ((head.2.items.filter (·.kind.isModelled)).Pairwise fun first second =>
          first.kind.readRank ≤ second.kind.readRank),
        EStateM.run' (do
          (do link; rebuildKeys)
          let first ← get
          modify (Edit.removeClass ⟨0⟩).after
          let file ← get
          let _ ← toBytes { updateChecksum := false }
          let final ← get
          return decide (first.kindOf (.raw 0) = .hiddenApi ∧ .raw 0 ∈ first.layout ∧
            file.kindOf (.raw 0) = .hiddenApi ∧ final.classDefs.size ≠ first.classDefs.size))
          { loaded with map := head.2, readClasses := loaded.classDefs.size })) = Except.ok (true, true, some true) := by
    decide +kernel
  obtain ⟨⟨header, map⟩, head, runs⟩ := Except.bind_eq_ok.1 runs
  obtain ⟨start, listed, runs⟩ := Except.bind_eq_ok.1 runs
  obtain ⟨loaded, loads, runs⟩ := Except.bind_eq_ok.1 runs
  obtain ⟨ascending, rest⟩ := Prod.mk.inj (Except.ok.inj runs)
  obtain ⟨ranked, run⟩ := Prod.mk.inj rest
  obtain ⟨_, run⟩ := Step.run'_eq_some.1 run
  obtain ⟨_, first, links, run⟩ := Step.bind_eq_ok.1 run
  rw [Step.bind_ok (Step.get_apply first)] at run
  obtain ⟨_, file, modified, run⟩ := Step.bind_eq_ok.1 run
  obtain rfl : (Edit.removeClass ⟨0⟩).after first = file := (EStateM.Result.ok.inj modified).2
  rw [Step.bind_ok (Step.get_apply _)] at run
  obtain ⟨bytes, final, written, run⟩ := Step.bind_eq_ok.1 run
  rw [Step.bind_ok (Step.get_apply final)] at run
  obtain ⟨kind, inside, kind', size⟩ := of_decide_eq_true (EStateM.Result.ok.inj run).1
  have reads : read oneClassBytes {} = .ok first :=
    read_of_ordered head (of_decide_eq_true ascending) (of_decide_eq_true ranked) listed loads links
  have later : Later first ((Edit.removeClass ⟨0⟩).after first) := .edit .here (.removeClass ⟨0⟩)
  refine ⟨first, bytes, final, reads, later, written, kind, inside, fun still => size ?_⟩
  exact (((hiddenApi_of_read reads later written).1 0).1 still).2 kind'

end DexFile
end DexArsc.Dex
