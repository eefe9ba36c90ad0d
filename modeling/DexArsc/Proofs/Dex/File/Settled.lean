/-
The references of a file that is up to date, and what becomes of them when the file is read: the
items of a section keep their places, and a reference to an item becomes one to its place.
-/

import DexArsc.Proofs.Dex.File.Link
import DexArsc.Proofs.Dex.File.Written

namespace DexArsc.Dex

namespace RefTest

/-- Every slot holds its item's current index or offset. -/
def settled (file : DexFile) : RefTest where
  string ref := ref.Settled file.strings.items
  type ref := ref.Settled file.types.items
  proto ref := ref.Settled file.protos.items
  field ref := ref.Settled file.fields.items
  method ref := ref.Settled file.methods.items
  typeList ref := ref.Settled file.typeLists
  classData ref := ref.Settled file.classData
  code ref := ref.Settled file.codes
  debugInfo ref := ref.Settled file.debugInfos

/-- No slot without an item holds the index or the offset of one. -/
def faithful (file : DexFile) : RefTest where
  string ref := ref.Faithful file.strings.items
  type ref := ref.Faithful file.types.items
  proto ref := ref.Faithful file.protos.items
  field ref := ref.Faithful file.fields.items
  method ref := ref.Faithful file.methods.items
  typeList ref := ref.Faithful file.typeLists
  classData ref := ref.Faithful file.classData
  code ref := ref.Faithful file.codes
  debugInfo ref := ref.Faithful file.debugInfos

/-- Every offset slot holds its item's current offset. -/
def offsetsSettled (file : DexFile) : RefTest where
  string _ := True
  type _ := True
  proto _ := True
  field _ := True
  method _ := True
  typeList ref := ref.Settled file.typeLists
  classData ref := ref.Settled file.classData
  code ref := ref.Settled file.codes
  debugInfo ref := ref.Settled file.debugInfos

end RefTest

namespace RefMap

/-- The references as they are read. -/
def bare : RefMap where
  string := IndexRef.bare
  type := IndexRef.bare
  proto := IndexRef.bare
  field := IndexRef.bare
  method := IndexRef.bare
  typeList := OffsetRef.bare
  classData := OffsetRef.bare
  code := OffsetRef.bare
  debugInfo := OffsetRef.bare

/-- The references with the places of their items. -/
def placed (file : DexFile) : RefMap where
  string ref := ref.placed file.strings.items
  type ref := ref.placed file.types.items
  proto ref := ref.placed file.protos.items
  field ref := ref.placed file.fields.items
  method ref := ref.placed file.methods.items
  typeList ref := ref.placed file.typeLists
  classData ref := ref.placed file.classData
  code ref := ref.placed file.codes
  debugInfo ref := ref.placed file.debugInfos

end RefMap

theorem ElementData.refs_lineSteps {test : RefTest} (addresses : UInt32) (lines : Int) :
    ∀ data ∈ lineSteps addresses lines, data.Refs test := by
  intro data inside
  unfold lineSteps at inside
  by_cases near : Special.hasLineStep lines = true
  · simp only [near, if_true, List.nil_append] at inside
    by_cases small : Special.number addresses lines ≤ Special.greatest
    · simp only [small, if_true, List.nil_append, List.mem_singleton] at inside
      rw [inside]
      trivial
    · simp only [small, if_false, List.cons_append, List.nil_append, List.mem_cons,
        List.not_mem_nil, or_false] at inside
      rcases inside with rfl | rfl <;> trivial
  · by_cases small : Special.number addresses 0 ≤ Special.greatest
    · simp only [near, small, if_true, Bool.false_eq_true, if_false, List.append_nil,
        List.cons_append, List.nil_append, List.mem_cons, List.not_mem_nil, or_false] at inside
      rcases inside with rfl | rfl <;> trivial
    · simp only [near, small, Bool.false_eq_true, if_false, List.cons_append, List.nil_append,
        List.mem_cons, List.not_mem_nil, or_false] at inside
      rcases inside with rfl | rfl | rfl <;> trivial

theorem ElementData.refs_visibleSteps {test : RefTest} (elements : List DebugElement)
    (refs : ∀ element ∈ elements, element.data.Refs test) (address line : UInt32) :
    ∀ data ∈ visibleSteps address line elements, data.Refs test := by
  induction elements generalizing address line with
  | nil => simp [visibleSteps]
  | cons element rest ih =>
      have first := refs element List.mem_cons_self
      have tail := ih fun other inside => refs other (List.mem_cons_of_mem _ inside)
      intro data inside
      by_cases entry : element.kind = .lineEntry
      · obtain ⟨special, content⟩ : ∃ special, element.data = .lineEntry special := by
          unfold DebugElement.kind at entry
          cases content : element.data <;> simp_all [ElementData.kind]
        simp only [visibleSteps, content, List.mem_append] at inside
        rcases inside with step | later
        · exact refs_lineSteps _ _ data step
        · exact tail _ _ data later
      · rw [visibleSteps_cons entry] at inside
        simp only [List.mem_append, List.mem_singleton] at inside
        rcases inside with (advance | rfl) | later
        · split at advance
          · rw [List.mem_singleton.1 advance]
            trivial
          · cases advance
        · exact first
        · exact tail _ _ data later

/-- The class as it is written, with its references. -/
def ClassDef.plain (item : ClassDef) : ClassDef :=
  { item with
    annotations := .ofOrigin item.annotations.current
    staticValues := .ofOrigin item.staticValues.current }

theorem DebugInfo.Refs.plain {test : RefTest} {info : DebugInfo} (refs : info.Refs test) :
    info.plain.Refs test := by
  refine ⟨refs.1, fun element inside => ?_⟩
  have content : element.data ∈ info.sequence.contents := by
    rw [← map_data_replay info.sequence.contents 0 info.sequence.lineStart]
    exact List.mem_map_of_mem inside
  unfold DebugSequence.contents at content
  split at content
  · exact ElementData.refs_visibleSteps _
      (fun other visible => refs.2 other (List.mem_filter.1 visible).1) _ _ _ content
  · obtain ⟨other, listed, same⟩ := List.mem_map.1 content
    rw [← same]
    exact refs.2 other listed

namespace Part

/-- The item as it is written, with its references. -/
def plain : (part : Part) → part.Item → part.Item
  | classDef => ClassDef.plain
  | debugInfo => DebugInfo.plain
  | typeId => id
  | protoId => id
  | fieldId => id
  | methodId => id
  | typeList => id
  | classData => id
  | codeItem => id

theorem Refs.plain {test : RefTest} {part : Part} {item : part.Item} (refs : part.Refs test item) :
    part.Refs test (part.plain item) := by
  cases part with
  | debugInfo => exact DebugInfo.Refs.plain refs
  | _ => exact refs

/-- Code apart, an item is read as it is written, but without the items of its references. -/
theorem bare_eq {part : Part} (other : part ≠ .codeItem) (item : part.Item) :
    part.bare item = part.withRefs .bare (part.plain item) := by
  cases part with
  | codeItem => exact absurd rfl other
  | debugInfo =>
      change DebugInfo.bare item = DebugInfo.withRefs .bare (DebugInfo.plain item)
      unfold DebugInfo.bare DebugSequence.bare DebugInfo.withRefs DebugInfo.mapRefs
      congr 2
      exact DebugSequence.replay_mapRefs _ _ _ _ _
  | _ => rfl

end Part

namespace DexFile

variable {options : WriteOptions} {file loaded : DexFile}

/-- Every reference of a file that is up to date is settled. -/
theorem Current.settled (current : Current options file) (part : Part) :
    (part.items file).All (part.Refs (.settled file)) := by
  have offsets := offsetsSettled_of_refresh current.laidOut.offsets
  have always : ((RefTest.offsetsSettled file).on file.offsetMap).Always := {
    string := fun _ => trivial
    type := fun _ => trivial
    proto := fun _ => trivial
    field := fun _ => trivial
    method := fun _ => trivial
    typeList := OffsetRef.settled_refresh _
    classData := OffsetRef.settled_refresh _
    code := OffsetRef.settled_refresh _
    debugInfo := OffsetRef.settled_refresh _ }
  have both : ((RefTest.indexed file.ids).both (.offsetsSettled file)).Implies (.settled file) := {
    string := fun _ test => test.1
    type := fun _ test => test.1
    proto := fun _ test => test.1
    field := fun _ test => test.1
    method := fun _ test => test.1
    typeList := fun _ test => test.2
    classData := fun _ test => test.2
    code := fun _ test => test.2
    debugInfo := fun _ test => test.2 }
  have refs (part : Part) (item : part.Item) (same : part.withRefs file.offsetMap item = item) :
      part.Refs (.offsetsSettled file) item := by
    rw [← same]
    exact Part.refs_withRefs.2 (Part.Refs.of_always always)
  have indexes := current.indexed.refs part
  intro id item found
  cases part with
  | codeItem =>
      obtain ⟨-, whole⟩ := CodeItem.refresh_eq_ok (offsets.codes id item found)
      have settled : CodeItem.Refs (.settled file)
          (CodeItem.withRefs (CodeItem.refreshMap file.ids file.debugInfos) item) := by
        refine CodeItem.refs_withRefs.2 ⟨OffsetRef.settled_refresh _ _, fun ref _ => ?_, fun _ _ _ _ =>
          IndexRef.settled_refresh _ _⟩
        cases ref.target <;> exact IndexRef.settled_refresh _ _
      have kept := congrArg (CodeItem.Refs (.settled file)) whole
      exact kept.mpr settled
  | protoId => exact ((indexes (by decide) id item found).both
      (refs .protoId item (offsets.protos id item found))).imp both
  | classData => exact ((indexes (by decide) id item found).both
      (refs .classData item (offsets.classData id item found))).imp both
  | classDef => exact ((indexes (by decide) id item found).both
      (refs .classDef item (offsets.classDefs id item found))).imp both
  | typeList => exact ((indexes (by decide) id item found).both
      (refs .typeList item (congrArg TypeList.mk (List.map_id _)))).imp both
  | debugInfo =>
      refine ((indexes (by decide) id item found).both ⟨fun _ _ => trivial, fun element _ => ?_⟩).imp both
      cases content : element.data <;> simp [ElementData.Refs, RefTest.offsetsSettled]
  | typeId => exact indexes (by decide) id item found
  | fieldId => exact indexes (by decide) id item found
  | methodId => exact indexes (by decide) id item found

end DexFile
end DexArsc.Dex
