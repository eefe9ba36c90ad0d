/-
Loading the sections that a map lists. Each entry fills its own section, so the order of the
entries does not count.
-/

import DexArsc.Proofs.Dex.File.Apart
import DexArsc.Proofs.Dex.Key

namespace DexArsc.Dex

variable {κ α : Type} [BEq κ] [Hashable κ]

/-- No key of the pool is known. A pool that is not stale has no items. -/
structure Pool.Unread (pool : Pool κ α) : Prop where
  keys : pool.keys = {}
  stale : pool.stale = true ∨ pool.items.order = #[]

/-- The items that were read wait for the rebuild of the keys. -/
theorem Pool.Unread.withRead {pool : Pool κ α} (unread : pool.Unread) (entry : MapItem)
    (read : List (UInt32 × α)) : (pool.withRead entry read).Unread where
  keys := unread.keys
  stale := by
    cases read with
    | nil =>
        rcases unread.stale with stale | empty
        · exact .inl (by simp [Pool.withRead, stale])
        · exact .inr empty
    | cons row rest => exact .inl (by simp [Pool.withRead])

namespace Part

/-- The file with the items that were read of a section. -/
def withRead (file : DexFile) (entry : MapItem) :
    (part : Part) → List (UInt32 × part.Item) → DexFile
  | typeId, read => { file with types := file.types.withRead entry read }
  | protoId, read => { file with protos := file.protos.withRead entry read }
  | fieldId, read => { file with fields := file.fields.withRead entry read }
  | methodId, read => { file with methods := file.methods.withRead entry read }
  | classDef, read => { file with classDefs := file.classDefs.withRead entry read }
  | typeList, read => { file with typeLists := file.typeLists.withRead entry read }
  | classData, read => { file with classData := file.classData.withRead entry read }
  | codeItem, read => { file with codes := file.codes.withRead entry read }
  | debugInfo, read => { file with debugInfos := file.debugInfos.withRead entry read }

variable {file : DexFile} {entry : MapItem}

theorem items_withRead (part : Part) (read : List (UInt32 × part.Item)) :
    part.items (part.withRead file entry read) = (part.items file).withRead entry read := by
  cases part <;> rfl

theorem items_withRead_of_ne {part other : Part} (different : other ≠ part)
    (read : List (UInt32 × part.Item)) :
    other.items (part.withRead file entry read) = other.items file := by
  cases part <;> cases other <;> first | rfl | exact absurd rfl different

/-- A section is loaded with the items that its entry holds. -/
theorem loadSection_kind {part : Part} (kind : entry.kind = part.kind) (data : Bytes) :
    DexFile.loadSection data file entry =
      (readItems entry : Reader (List (UInt32 × part.Item))).run data >>= fun read =>
        .ok (part.withRead file entry read) := by
  have pool {κ α : Type} [BEq κ] [Hashable κ] [Codec α] (items : Pool κ α)
      (put : Pool κ α → DexFile) : (do return put (← items.load data entry) : Except Fault DexFile) =
      (readItems entry).run data >>= fun read => .ok (put (items.withRead entry read)) := by
    unfold Pool.load
    cases (readItems entry : Reader (List (UInt32 × α))).run data <;> rfl
  have ofSection {α : Type} [Codec α] (items : Section α) (put : Section α → DexFile) :
      (do return put (← items.load data entry) : Except Fault DexFile) =
      (readItems entry).run data >>= fun read => .ok (put (items.withRead entry read)) := by
    unfold Section.load
    cases (readItems entry : Reader (List (UInt32 × α))).run data <;> rfl
  obtain ⟨_, count, offset⟩ := entry
  change _ = _ at kind
  subst kind
  cases part with
  | typeId => exact pool file.types fun types => { file with types }
  | protoId => exact pool file.protos fun protos => { file with protos }
  | fieldId => exact pool file.fields fun fields => { file with fields }
  | methodId => exact pool file.methods fun methods => { file with methods }
  | classDef => exact ofSection file.classDefs fun classDefs => { file with classDefs }
  | typeList => exact ofSection file.typeLists fun typeLists => { file with typeLists }
  | classData => exact ofSection file.classData fun classData => { file with classData }
  | codeItem => exact ofSection file.codes fun codes => { file with codes }
  | debugInfo => exact ofSection file.debugInfos fun debugInfos => { file with debugInfos }

theorem loadSection_eq {part : Part} (kind : entry.kind = part.kind) {data : Bytes}
    {read : List (UInt32 × part.Item)}
    (reads : (readItems entry : Reader (List (UInt32 × part.Item))).run data = .ok read) :
    DexFile.loadSection data file entry = .ok (part.withRead file entry read) := by
  rw [loadSection_kind kind, reads]
  rfl

end Part

/-- Pools whose keys wait for the rebuild are not trusted before it. -/
theorem Pool.Unread.trusted [LawfulBEq κ] {pool : Pool κ α} (unread : pool.Unread)
    (valid : pool.items.Valid) (key? : α → Option κ) : pool.Trusted key? := by
  intro fresh
  have empty : pool.items.order = #[] := by
    rcases unread.stale with stale | empty
    · rw [fresh] at stale
      cases stale
    · exact empty
  refine ⟨fresh, fun key id => ?_⟩
  rw [unread.keys]
  constructor
  · simp
  · rintro ⟨item, found, _⟩
    have listed := valid.mem_order_iff.2 (by rw [found]; rfl : (pool.items.item? id).isSome)
    rw [empty] at listed
    cases Array.not_mem_empty _ listed

/-- The rows that the entries of a map list hold. -/
structure Contents where
  strings : List (UInt32 × StringItem)
  rows : (part : Part) → List (UInt32 × part.Item)

namespace Contents

/-- An entry of a map list is read with the given rows. -/
structure ReadAt (contents : Contents) (data : Bytes) (entry : MapItem) : Prop where
  strings : entry.kind = .stringId → (readStrings entry).run data = .ok contents.strings
  rows : ∀ part : Part, entry.kind = part.kind →
    (readItems entry : Reader (List (UInt32 × part.Item))).run data = .ok (contents.rows part)

/-- The strings once some entries are loaded. -/
def stringsBy (contents : Contents) (done : List MapItem) : Section StringItem :=
  match done.find? fun entry => entry.kind == .stringId with
  | some entry => .fresh .stringId entry.offset contents.strings
  | none => { kind := .stringId }

/-- A section once some entries are loaded. -/
def rowsBy (contents : Contents) (done : List MapItem) (part : Part) : Section part.Item :=
  match done.find? fun entry => entry.kind == part.kind with
  | some entry => .fresh part.kind entry.offset (contents.rows part)
  | none => { kind := part.kind }

theorem rowsBy_append (contents : Contents) (done : List MapItem) {entry : MapItem}
    (new : ∀ other ∈ done, other.kind ≠ entry.kind) (part : Part) :
    contents.rowsBy (done ++ [entry]) part =
      if entry.kind = part.kind then
        (contents.rowsBy done part).withRead entry (contents.rows part)
      else contents.rowsBy done part := by
  unfold rowsBy
  rw [List.find?_append]
  by_cases same : entry.kind = part.kind
  · have none : (done.find? fun entry => entry.kind == part.kind) = none := by
      rw [List.find?_eq_none]
      intro other inside
      simpa [← same] using new other inside
    simp only [none, Option.none_or, List.find?_singleton, same, beq_self_eq_true, if_true]
    rfl
  · simp [same]

theorem stringsBy_append (contents : Contents) (done : List MapItem) {entry : MapItem}
    (new : ∀ other ∈ done, other.kind ≠ entry.kind) :
    contents.stringsBy (done ++ [entry]) =
      if entry.kind = .stringId then (contents.stringsBy done).withRead entry contents.strings
      else contents.stringsBy done := by
  unfold stringsBy
  rw [List.find?_append]
  by_cases same : entry.kind = .stringId
  · have none : (done.find? fun entry => entry.kind == .stringId) = none := by
      rw [List.find?_eq_none]
      intro other inside
      simpa [← same] using new other inside
    simp only [none, Option.none_or, List.find?_singleton, same, beq_self_eq_true, if_true]
    rfl
  · simp [same]

end Contents

namespace DexFile

/-- The pools of a file that is being read. -/
structure Unread (file : DexFile) : Prop where
  strings : file.strings.Unread
  types : file.types.Unread
  protos : file.protos.Unread
  fields : file.fields.Unread
  methods : file.methods.Unread

/-- A file with the sections of some entries, which held none before. -/
structure Loading (contents : Contents) (start : DexFile) (done : List MapItem) (file : DexFile) :
    Prop where
  header : file.header = start.header
  raws : file.raws = start.raws
  layout : file.layout = start.layout
  strings : file.strings.items = contents.stringsBy done
  rows : ∀ part : Part, part.items file = contents.rowsBy done part
  unread : file.Unread

variable {contents : Contents} {start file : DexFile} {done : List MapItem} {data : Bytes}

theorem Unread.withRead (unread : file.Unread) (entry : MapItem) (part : Part)
    (read : List (UInt32 × part.Item)) : (part.withRead file entry read).Unread := by
  cases part with
  | typeId => exact { unread with types := unread.types.withRead entry read }
  | protoId => exact { unread with protos := unread.protos.withRead entry read }
  | fieldId => exact { unread with fields := unread.fields.withRead entry read }
  | methodId => exact { unread with methods := unread.methods.withRead entry read }
  | _ => exact ⟨unread.strings, unread.types, unread.protos, unread.fields, unread.methods⟩

/-- The section of an entry is loaded. -/
theorem Loading.step (loading : Loading contents start done file) {entry : MapItem}
    (reads : contents.ReadAt data entry) (new : ∀ other ∈ done, other.kind ≠ entry.kind) :
    ∃ next, loadSection data file entry = .ok next ∧
      Loading contents start (done ++ [entry]) next := by
  by_cases strings : entry.kind = .stringId
  · refine ⟨{ file with strings := file.strings.withRead entry contents.strings }, ?_, {
      header := loading.header
      raws := loading.raws
      layout := loading.layout
      strings := ?_
      rows := fun part => ?_
      unread := { loading.unread with strings := loading.unread.strings.withRead entry _ } }⟩
    · unfold loadSection
      rw [strings]
      change (readStrings entry).run data >>= _ = _
      rw [reads.strings strings]
      rfl
    · rw [contents.stringsBy_append done new, if_pos strings, ← loading.strings]
      rfl
    · rw [contents.rowsBy_append done new, if_neg (by rw [strings]; cases part <;> decide),
        ← loading.rows part]
      cases part <;> rfl
  cases found : Part.ofKind? entry.kind with
  | some part =>
      have kind := Part.ofKind?_eq_some.1 found
      refine ⟨part.withRead file entry (contents.rows part),
        Part.loadSection_eq kind (reads.rows part kind), {
        header := Eq.trans (by cases part <;> rfl) loading.header
        raws := Eq.trans (by cases part <;> rfl) loading.raws
        layout := Eq.trans (by cases part <;> rfl) loading.layout
        strings := ?_
        rows := fun other => ?_
        unread := loading.unread.withRead entry part _ }⟩
      · rw [contents.stringsBy_append done new, if_neg strings, ← loading.strings]
        cases part <;> rfl
      · rw [contents.rowsBy_append done new, ← loading.rows other]
        by_cases same : other = part
        · subst same
          rw [if_pos kind, Part.items_withRead]
        · rw [if_neg fun here => same (Part.kind_injective (here.symm.trans kind)),
            Part.items_withRead_of_ne same]
  | none =>
      have other (part : Part) : entry.kind ≠ part.kind := by
        intro same
        rw [same, Part.ofKind?_kind] at found
        cases found
      refine ⟨file, ?_, {
        header := loading.header
        raws := loading.raws
        layout := loading.layout
        strings := ?_
        rows := fun part => ?_
        unread := loading.unread }⟩
      · unfold loadSection
        cases kind : entry.kind <;> first
          | rfl
          | exact absurd kind strings
          | (rw [kind] at found; cases found)
      · rw [contents.stringsBy_append done new, if_neg strings, loading.strings]
      · rw [contents.rowsBy_append done new, if_neg (other part), loading.rows part]

/-- The sections of a list of entries are loaded. -/
theorem Loading.run (loading : Loading contents start done file) {entries : List MapItem}
    (reads : ∀ entry ∈ entries, contents.ReadAt data entry)
    (distinct : ((done ++ entries).map MapItem.kind).Nodup) :
    ∃ final, entries.foldlM (fun file entry =>
      Except.within s!"{entry.kind.title} at 0x{Text.hex entry.offset.toNat}"
        (loadSection data file entry)) file = .ok final ∧
      Loading contents start (done ++ entries) final := by
  induction entries generalizing done file with
  | nil => exact ⟨file, rfl, by rwa [List.append_nil]⟩
  | cons entry rest ih =>
      have new : ∀ other ∈ done, other.kind ≠ entry.kind := by
        intro other inside same
        rw [List.map_append, List.map_cons, List.nodup_append] at distinct
        exact distinct.2.2 other.kind (List.mem_map_of_mem inside) entry.kind List.mem_cons_self same
      obtain ⟨next, loads, loaded⟩ := loading.step (reads entry List.mem_cons_self) new
      obtain ⟨final, runs, whole⟩ := ih loaded
        (fun other inside => reads other (List.mem_cons_of_mem _ inside))
        (by rwa [List.append_assoc, List.singleton_append])
      refine ⟨final, ?_, by rwa [List.append_assoc, List.singleton_append] at whole⟩
      rw [List.foldlM_cons, Except.bind_eq_ok]
      exact ⟨next, Except.within_eq_ok.2 loads, runs⟩

/-- A section that is loaded leaves its keys to the rebuild. -/
theorem Unread.loadSection (unread : file.Unread) {entry : MapItem} {next : DexFile}
    (run : DexFile.loadSection data file entry = .ok next) : next.Unread := by
  cases kind : Part.ofKind? entry.kind with
  | some part =>
      rw [Part.loadSection_kind (Part.ofKind?_eq_some.1 kind)] at run
      obtain ⟨read, _, loaded⟩ := Except.bind_eq_ok.1 run
      cases loaded
      exact unread.withRead entry part read
  | none =>
      unfold DexFile.loadSection at run
      split at run
      case h_1 =>
        obtain ⟨read, _, loaded⟩ := Except.bind_eq_ok.1 run
        cases loaded
        exact { unread with strings := unread.strings.withRead entry read }
      case h_11 =>
        cases run
        exact unread
      all_goals
        rename_i named
        rw [named] at kind
        cases kind

theorem Unread.loadSections (unread : file.Unread) {entries : List MapItem} {within : MapItem → String}
    {final : DexFile} (run : entries.foldlM (fun file entry =>
      Except.within (within entry) (DexFile.loadSection data file entry)) file = .ok final) : final.Unread := by
  induction entries generalizing file with
  | nil =>
      cases run
      exact unread
  | cons entry rest ih =>
      rw [List.foldlM_cons] at run
      obtain ⟨next, first, later⟩ := Except.bind_eq_ok.1 run
      exact ih (unread.loadSection (Except.within_eq_ok.1 first)) later

/-- Other sections are only appended to the layout, and kept as bytes. -/
theorem loadLayout_keeps {options : ReadOptions} {items : List MapItem} {final : DexFile}
    (run : loadLayout data options file items = .ok final) :
    ∃ layout raws, final = { file with layout, raws } := by
  induction items generalizing file with
  | nil =>
      cases run
      exact ⟨_, _, rfl⟩
  | cons item rest ih =>
      rw [loadLayout] at run
      split at run
      · obtain ⟨layout, raws, rfl⟩ := ih run
        exact ⟨layout, raws, rfl⟩
      · have rest' {raw : RawSection} (run : loadLayout data options { file with
            layout := file.layout ++ [.raw file.raws.length]
            raws := file.raws ++ [raw] } rest = .ok final) :
            ∃ layout raws, final = { file with layout, raws } := by
          obtain ⟨layout, raws, rfl⟩ := ih run
          exact ⟨layout, raws, rfl⟩
        simp only at run
        split at run
        · split at run
          · obtain ⟨_, _, run⟩ := Except.bind_eq_ok.1 run
            obtain ⟨_, _, run⟩ := Except.bind_eq_ok.1 run
            exact rest' run
          · obtain ⟨_, failed, _⟩ := Except.bind_eq_ok.1 run
            cases failed
        · obtain ⟨_, _, run⟩ := Except.bind_eq_ok.1 run
          obtain ⟨_, _, run⟩ := Except.bind_eq_ok.1 run
          exact rest' run

end DexFile
end DexArsc.Dex
