/-
Files however they are built: from nothing or from bytes, by edits and by changes in place. All of them
are regular, so refreshing and writing give them a sound layout.
-/

import DexArsc.Proofs.Dex.Edit.Regular
import DexArsc.Proofs.Dex.Code.Read
import DexArsc.Proofs.Dex.File.Read
import DexArsc.Proofs.Dex.File.Standing
import DexArsc.Proofs.Dex.File.Still
import DexArsc.Proofs.Dex.Section.Change
import Mathlib.Data.List.Induction

namespace DexArsc.Dex

variable {α κ : Type}

/-- What is read goes behind the items of the section. -/
theorem Section.Lists.withRead (items : Section α) (entry : MapItem) (read : List (UInt32 × α)) :
    items.Lists (items.withRead entry read) := by
  have placed (items : Section α) (id : Id α) (offset : UInt32) : items.Lists (items.setItemOffset id offset) :=
    .of_sameIds ⟨kind_setItemOffset .., fun valid => valid.setItemOffset id offset⟩
      ⟨order_setItemOffset .., size_cells_setItemOffset ..⟩
  have recorded (items : Section α) (id : Id α) (origin : UInt32) : items.Lists (items.setOrigin id origin) :=
    .of_sameIds ⟨rfl, fun valid => valid.congr rfl fun _ => indexOf?_setOrigin ..⟩ ⟨rfl, Array.size_modify⟩
  have one (items : Section α) (item : α) (origin : UInt32) :
      items.Lists (items.pushRead item origin).2 := by
    rw [pushRead_eq_setItemOffset]
    exact ((push items item).trans (recorded ..)).trans (placed ..)
  have all (items : Section α) :
      items.Lists (read.foldl (fun items row => (items.pushRead row.2 row.1).2) items) := by
    induction read generalizing items with
    | nil => exact .refl items
    | cons row rest ih => exact (one items row.2 row.1).trans (ih _)
  exact (all items).trans (.of_sameIds ⟨rfl, fun valid => valid.congr rfl fun _ => rfl⟩ ⟨rfl, rfl⟩)

namespace DexFile

variable {file final : DexFile} {data : Bytes} {options : ReadOptions}

namespace Upholds

theorem completeLayout (file : DexFile) : file.Upholds file.completeLayout := by
  have sections := modelledKinds_completeLayout file
  obtain ⟨layout, same, completed⟩ := completeLayout_eq file
  rw [same] at sections ⊢
  exact { refl file with
    parts := fun part => by cases part <;> exact .refl _
    distinct := completed.distinct
    sections }

theorem withRead (part : Part) (entry : MapItem) (read : List (UInt32 × part.Item)) :
    file.Upholds (part.withRead file entry read) := by
  have lists := Section.Lists.withRead (part.items file) entry read
  have kept := lists.toUpholds
  cases part with
  | typeId => exact withPools (.refl _) kept (.refl _) (.refl _) (.refl _)
  | protoId => exact withPools (.refl _) (.refl _) kept (.refl _) (.refl _)
  | fieldId => exact withPools (.refl _) (.refl _) (.refl _) kept (.refl _)
  | methodId => exact withPools (.refl _) (.refl _) (.refl _) (.refl _) kept
  | classDef => exact putClasses lists
  | typeList => exact putOther .typeList (by decide) kept
  | classData => exact putOther .classData (by decide) kept
  | codeItem => exact putOther .codeItem (by decide) kept
  | debugInfo => exact putOther .debugInfo (by decide) kept

theorem loadSection {entry : MapItem} (run : loadSection data file entry = .ok final) :
    file.Upholds final := by
  cases kind : Part.ofKind? entry.kind with
  | some part =>
      rw [Part.loadSection_kind (Part.ofKind?_eq_some.1 kind)] at run
      obtain ⟨read, _, loaded⟩ := Except.bind_eq_ok.1 run
      cases loaded
      exact withRead part entry read
  | none =>
      unfold DexFile.loadSection at run
      split at run
      case h_1 =>
        obtain ⟨read, _, loaded⟩ := Except.bind_eq_ok.1 run
        cases loaded
        exact withPools (Section.Lists.withRead ..).toUpholds (.refl _) (.refl _) (.refl _) (.refl _)
      case h_11 =>
        cases run
        exact .refl _
      all_goals
        rename_i named
        rw [named] at kind
        cases kind

theorem loadSections {entries : List MapItem} {within : MapItem → String}
    (run : entries.foldlM (fun file entry =>
      Except.within (within entry) (DexFile.loadSection data file entry)) file = .ok final) :
    file.Upholds final := by
  induction entries generalizing file with
  | nil =>
      cases run
      exact .refl _
  | cons entry rest ih =>
      rw [List.foldlM_cons] at run
      obtain ⟨between, first, later⟩ := Except.bind_eq_ok.1 run
      exact (loadSection (Except.within_eq_ok.1 first)).trans (ih later)

theorem link (run : link file = .ok () final) : file.Upholds final := by
  obtain ⟨same, codes⟩ := link_eq_ok.1 run
  have frame := (Section.onItems_ends (Step.ends_ok codes)).1
  rw [same]
  exact {
    parts := fun part => by
      cases part with
      | codeItem => exact ⟨frame.kind, frame.valid⟩
      | _ => exact .map ..
    strings := .refl _
    header := id
    raws := by
      change (file.raws.map _).map RawSection.kind = _
      rw [List.map_map]
      rfl
    distinct := id
    sections := .refl _
    classes := .map ..
    readClasses := rfl }

end Upholds

/-- What is placed last is not in the layout before. -/
theorem Orderly.placeLast (orderly : file.Orderly) {entry : LayoutEntry} (new : entry ∉ file.layout)
    {raws : List RawSection} (kept : ∀ raw ∈ raws, raw.kind.isModelled = false) :
    Orderly { file with layout := file.layout ++ [entry], raws } where
  kinds part := by
    have kind := orderly.kinds part
    cases part <;> exact kind
  valid part := by
    have valid := orderly.valid part
    cases part <;> exact valid
  strings := orderly.strings
  raws := kept
  distinct := by
    refine List.nodup_append.2 ⟨orderly.distinct, List.nodup_singleton entry, ?_⟩
    intro listed inside other last same
    rw [same, List.mem_singleton.1 last] at inside
    exact new inside

/-- The layout of a map whose kinds are distinct has no repetitions, and only sections that are not
modelled are kept as bytes. -/
theorem Orderly.loadLayout {entries : List MapItem} (orderly : file.Orderly)
    (distinct : (entries.map MapItem.kind).Nodup)
    (new : ∀ entry ∈ entries, .modelled entry.kind ∉ file.layout)
    (below : ∀ index, .raw index ∈ file.layout → index < file.raws.length)
    (run : loadLayout data options file entries = .ok final) : final.Orderly := by
  induction entries generalizing file with
  | nil =>
      cases run
      exact orderly
  | cons entry rest ih =>
      rw [List.map_cons, List.nodup_cons] at distinct
      rw [List.forall_mem_cons] at new
      rw [DexFile.loadLayout] at run
      split at run
      · refine ih (orderly.placeLast new.1 orderly.raws) distinct.2 (fun other inside listed => ?_)
          (fun index listed => ?_) run
        · rcases List.mem_append.1 listed with before | last
          · exact new.2 other inside before
          · rw [List.mem_singleton, LayoutEntry.modelled.injEq] at last
            exact distinct.1 (last ▸ List.mem_map_of_mem inside)
        · rcases List.mem_append.1 listed with before | last
          · exact below index before
          · cases List.mem_singleton.1 last
      · rename_i other
        have kept {raw : RawSection} {bytes : Bytes}
            (read : RawSection.read entry.kind entry.size entry.offset bytes = .ok raw)
            (run : DexFile.loadLayout data options { file with
              layout := file.layout ++ [.raw file.raws.length]
              raws := file.raws ++ [raw] } rest = .ok final) : final.Orderly := by
          obtain ⟨_, _, yields⟩ := Except.bind_eq_ok.1 read
          cases yields
          refine ih (orderly.placeLast (fun inside => Nat.lt_irrefl _ (below _ inside))
            (List.forall_mem_append.2 ⟨orderly.raws, ?_⟩)) distinct.2 (fun other inside listed => ?_)
            (fun index listed => ?_) run
          · rw [List.forall_mem_singleton]
            exact eq_false_of_ne_true other
          · rcases List.mem_append.1 listed with before | last
            · exact new.2 other inside before
            · cases List.mem_singleton.1 last
          · rw [List.length_append, List.length_singleton]
            rcases List.mem_append.1 listed with before | last
            · exact Nat.lt_succ_of_lt (below index before)
            · rw [List.mem_singleton, LayoutEntry.raw.injEq] at last
              exact last ▸ Nat.lt_succ_self _
        simp only at run
        split at run
        · split at run
          · obtain ⟨_, _, run⟩ := Except.bind_eq_ok.1 run
            obtain ⟨_, read, run⟩ := Except.bind_eq_ok.1 run
            exact kept read run
          · obtain ⟨_, failed, _⟩ := Except.bind_eq_ok.1 run
            cases failed
        · obtain ⟨_, _, run⟩ := Except.bind_eq_ok.1 run
          obtain ⟨_, read, run⟩ := Except.bind_eq_ok.1 run
          exact kept read run

/-- What is read as the head of a file is a header in its form and a map list with distinct kinds. -/
theorem readHead_eq_ok {header : Header} {map : MapList}
    (run : (readHead options).run data = .ok (header, map)) :
    header.Sound ∧ (map.items.map MapItem.kind).Nodup := by
  obtain ⟨_, run⟩ := Reader.run_ok run
  obtain ⟨_, _, here, run⟩ := Step.bind_eq_ok.1 run
  cases here
  obtain ⟨header, _, headerRun, run⟩ := Step.bind_eq_ok.1 run
  obtain ⟨_, run⟩ := Step.guard_eq_ok.1 run
  obtain ⟨_, run⟩ := Step.guard_eq_ok.1 run
  obtain ⟨_, _, _, run⟩ := Step.bind_eq_ok.1 run
  obtain ⟨map, _, mapRun, run⟩ := Step.bind_eq_ok.1 run
  have found : header.Sound ∧ (map.items.map MapItem.kind).Nodup :=
    ⟨Header.sound_of_read (Step.within_eq_ok.1 headerRun),
      MapList.distinct_of_read (Step.within_eq_ok.1 mapRun)⟩
  split at run
  · obtain ⟨_, _, _, run⟩ := Step.bind_eq_ok.1 run
    cases run
    exact found
  · cases run
    exact found

/-- A file that was read is regular. -/
theorem regular_of_read (run : read data options = .ok file) : file.Regular := by
  obtain ⟨⟨header, map⟩, headRun, run⟩ := Except.bind_eq_ok.1 run
  obtain ⟨start, layoutRun, run⟩ := Except.bind_eq_ok.1 run
  obtain ⟨loaded, loadRun, linkRun⟩ := Except.bind_eq_ok.1 run
  obtain ⟨sound, distinct⟩ := readHead_eq_ok headRun
  have empty : Orderly { header, layout := [] } := by
    refine ⟨fun part => ?_, fun part => ?_, Section.valid_empty _, fun raw inside => ?_, List.nodup_nil⟩
    · cases part <;> rfl
    · cases part <;> exact Section.valid_empty _
    · cases inside
  have perm : map.byOffset.Perm map.items := List.mergeSort_perm ..
  have orderly : start.Orderly := empty.loadLayout ((perm.map _).nodup_iff.2 distinct)
    (fun _ _ inside => by cases inside) (fun _ inside => by cases inside) layoutRun
  have headed : start.header = header := by
    obtain ⟨layout, raws, rfl⟩ := loadLayout_keeps layoutRun
    rfl
  have loads : start.Upholds loaded := (Upholds.completeLayout start).trans (.loadSections loadRun)
  simp only at linkRun
  split at linkRun
  · rename_i linkRebuild
    cases linkRun
    obtain ⟨_, linked, links, rebuild⟩ := Step.bind_eq_ok.1 linkRebuild
    have linkage := (Upholds.link links).trans ((Upholds.rebuildKeys linked).ends (Step.ends_ok rebuild))
    have regular := loads.regular ⟨orderly, headed ▸ sound⟩
    have listed : Regular { loaded with map, readClasses := loaded.classDefs.size } := {
      orderly := { regular.orderly with
        kinds := fun part => by
          have kind := regular.orderly.kinds part
          cases part <;> exact kind
        valid := fun part => by
          have valid := regular.orderly.valid part
          cases part <;> exact valid }
      header := regular.header }
    exact linkage.regular listed
  · cases linkRun

/-- A file from nothing or from bytes, behind edits that succeed or fail and behind changes of classes,
code and debug information in place. -/
inductive Built : DexFile → Prop
  | new : Built {}
  | read {file : DexFile} {data : Bytes} {options : ReadOptions} (run : read data options = .ok file) :
      Built file
  | edit {file : DexFile} (built : Built file) (edit : Edit) : Built (edit.after file)
  | changeClass {file : DexFile} (built : Built file) (id : Id ClassDef) (change : ClassDef → ClassDef) :
      Built { file with classDefs := file.classDefs.modify id change }
  | changeCode {file : DexFile} (built : Built file) (id : Id CodeItem) (change : CodeItem → CodeItem) :
      Built { file with codes := file.codes.modify id change }
  | changeDebugInfo {file : DexFile} (built : Built file) (id : Id DebugInfo)
      (change : DebugInfo → DebugInfo) :
      Built { file with debugInfos := file.debugInfos.modify id change }

/-- Edits alone build files too. -/
theorem Built.run (edits : List Edit) : (Edit.run edits).Built := by
  induction edits using List.reverseRecOn with
  | nil => exact .new
  | append_singleton edits edit ih => exact Edit.run_concat edits edit ▸ ih.edit edit

/-- The empty file is regular. -/
theorem regular_empty : Regular {} where
  orderly := {
    kinds := fun part => by cases part <;> rfl
    valid := sound_empty.valid
    strings := sound_empty.strings
    raws := fun raw inside => by cases inside
    distinct := by decide }
  header := by
    constructor <;> decide

/-- Every file is regular, however it is built. -/
theorem Built.regular (built : file.Built) : file.Regular := by
  induction built with
  | new => exact regular_empty
  | read run => exact regular_of_read run
  | edit _ edit ih => exact ((Upholds.step edit _).ends (edit.ends_after _)).regular ih
  | changeClass _ id change ih => exact (Upholds.putClasses (.modify _ id change)).regular ih
  | changeCode _ id change ih => exact (Upholds.putOther .codeItem (by decide) (.modify _ id change)).regular ih
  | changeDebugInfo _ id change ih => exact (Upholds.putOther .debugInfo (by decide) (.modify _ id change)).regular ih

/-- Every file whose layout starts with the header has a sound layout, under alignments of sections that
are at most 4 or multiples of 4. -/
theorem soundLayout_of_built {options : WriteOptions} (built : file.Built)
    (first : file.layout.head? = some (.modelled .header)) (aligned : options.Aligned) :
    SoundLayout options file :=
  built.regular.soundLayout first aligned

/-- A file with code that returns and an empty list of types is refreshed and has a sound layout. -/
theorem soundLayout_of_built_code :
    let file := Edit.run [.addCode { units := #[0x000e] }, .internTypeList []]
    (∃ final, refresh {} file = .ok () final) ∧ SoundLayout {} file := by
  intro file
  have built : file.Built := .edit (.edit .new (.addCode { units := #[0x000e] })) (.internTypeList [])
  have runs : EStateM.run' (refresh {}) file = some () := by decide +kernel
  exact ⟨Step.run'_eq_some.1 runs, soundLayout_of_built built (by decide +kernel) (.inl (by decide))⟩

/-- Once a file was written, refreshing it changes nothing, and writing it again gives the same bytes, behind
a refresh or without one. -/
theorem refresh_of_built_written {options : WriteOptions} {bytes : Bytes} (built : file.Built)
    (run : toBytes options file = .ok bytes final) :
    (∃ again, refresh options final = .ok () again ∧ final.SameState again ∧
      ∃ last, toBytes options again = .ok bytes last ∧ final.SameState last) ∧
    ∃ last, toBytes options final = .ok bytes last ∧ final.SameState last := by
  have still := still_of_toBytes built.regular run
  obtain ⟨again, refreshed, same, stillAgain⟩ := still.refresh
  obtain ⟨last, written, sameLast⟩ := stillAgain.toBytes
  exact ⟨⟨again, refreshed, same, last, written, same.trans sameLast⟩, still.toBytes⟩

/-- A file with code that returns and an empty list of types is written, and written again. -/
theorem refresh_of_built_written_code :
    let file := Edit.run [.addCode { units := #[0x000e] }, .internTypeList []]
    let options : WriteOptions := { updateChecksum := false }
    ∃ bytes final, toBytes options file = .ok bytes final ∧
      (∃ again, refresh options final = .ok () again ∧ final.SameState again ∧
        ∃ last, toBytes options again = .ok bytes last ∧ final.SameState last) ∧
      ∃ last, toBytes options final = .ok bytes last ∧ final.SameState last := by
  intro file options
  have built : file.Built := .edit (.edit .new (.addCode { units := #[0x000e] })) (.internTypeList [])
  have runs : (EStateM.run' (toBytes options) file).isSome := by decide +kernel
  obtain ⟨bytes, found⟩ := Option.isSome_iff_exists.1 runs
  obtain ⟨final, run⟩ := Step.run'_eq_some.1 found
  exact ⟨bytes, final, run, refresh_of_built_written built run⟩

/-- In a file that was written, the slots of code hold the number of its try blocks and the offsets of their
handlers as far as 16 bits hold them: exactly when they fit, a slot holds the number itself. -/
theorem trySlots_of_built_written {options : WriteOptions} {bytes : Bytes} (built : file.Built)
    (run : toBytes options file = .ok bytes final) {id : Id CodeItem} {code : CodeItem}
    (live : final.codes.item? id = some code) : ∃ offset, final.codes.offsetOf? id = some offset ∧
      (∃ slot, bytes.Stands (offset.toNat + 6) (Bytes.ofWord16 slot) ∧
        (slot.toNat = code.tries.length ↔ code.tries.length ≤ 0xFFFF)) ∧
      ∀ (index : Nat) (block : TryBlock) (handler : CatchHandler), code.tries[index]? = some block →
        code.handlers[block.handler]? = some handler → ∃ slot,
          bytes.Stands (offset.toNat + code.tryStart + 8 * index + 6) (Bytes.ofWord16 slot) ∧
          bytes.Stands (offset.toNat + code.tryStart + 8 * code.tries.length +
            code.handlerOffset block.handler) (encode handler) ∧
          (slot.toNat = code.handlerOffset block.handler ↔ code.handlerOffset block.handler ≤ 0xFFFF) := by
  have done := written_of_toBytes built.regular run
  obtain ⟨offset, place, stands⟩ := (done.current.standsIn done.write).items .codeItem id code live
  have low (number : Nat) : (UInt16.ofNat number).toNat = number ↔ number ≤ 0xFFFF := by
    rw [UInt16.toNat_ofNat']
    omega
  refine ⟨offset, place, ⟨_, CodeItem.stands_tryCount stands, low _⟩, fun index block handler listed named => ?_⟩
  obtain ⟨slot, body⟩ := CodeItem.stands_tryBlock stands listed named
  exact ⟨_, slot, body, low _⟩

/-- A file whose code has a try block for the second of two handlers is written with the offset of this handler. -/
theorem trySlots_of_built_written_code :
    let code : CodeItem := {
      units := #[0x000e]
      tries := [⟨0, 1, 1⟩]
      handlers := [{ catches := [(.ofRaw 0, 1)] }, { catchAll := some 2 }] }
    let file := Edit.run [.addCode code]
    let options : WriteOptions := { updateChecksum := false }
    ∃ bytes final offset, toBytes options file = .ok bytes final ∧ final.codes.offsetOf? ⟨0⟩ = some offset ∧
      bytes.Stands (offset.toNat + 26) (Bytes.ofWord16 4) := by
  intro code file options
  have built : file.Built := .edit .new (.addCode code)
  have runs : (match toBytes options file with
      | .ok _ final => (final.codes.item? ⟨0⟩).map fun code =>
          (code.units.size, code.tries, code.handlerOffset 1, code.handlers.length)
      | .error _ _ => none) = some (1, [⟨0, 1, 1⟩], 4, 2) := by
    decide +kernel
  cases run : toBytes options file with
  | error fault stop =>
      rw [run] at runs
      cases runs
  | ok bytes final =>
      rw [run] at runs
      obtain ⟨written, live, same⟩ := Option.map_eq_some_iff.1 runs
      simp only [Prod.mk.injEq] at same
      obtain ⟨units, tries, place, handlers⟩ := same
      obtain ⟨offset, found, _, slots⟩ := trySlots_of_built_written built run live
      obtain ⟨slot, stands, _, fits⟩ := slots 0 ⟨0, 1, 1⟩ _ (by rw [tries]; rfl)
        (List.getElem?_eq_getElem (show 1 < written.handlers.length by rw [handlers]; decide))
      have number : slot = 4 := by
        apply UInt16.toNat_inj.1
        exact (fits.2 (by rw [place]; decide)).trans place
      rw [number, CodeItem.tryStart, units] at stands
      exact ⟨bytes, final, offset, rfl, found, stands⟩

end DexFile
end DexArsc.Dex
