/-
Files whose references by index hold the current indexes of their items. A refresh of the indexes
makes a file so, and no layout pass and no refresh of the offsets changes it.
-/

import DexArsc.Proofs.Dex.File.Part
import DexArsc.Proofs.Dex.File.Write

namespace DexArsc.Dex

/-- References by index that hold the current indexes of their items. -/
def RefTest.indexed (ids : IdSections) : RefTest where
  string ref := ref.Settled ids.strings
  type ref := ref.Settled ids.types
  proto ref := ref.Settled ids.protos
  field ref := ref.Settled ids.fields
  method ref := ref.Settled ids.methods
  typeList _ := True
  classData _ := True
  code _ := True
  debugInfo _ := True

namespace IdSections.SameIndexes

variable {ids other : IdSections}

theorem indexed (same : ids.SameIndexes other) : RefTest.indexed other = RefTest.indexed ids := by
  unfold RefTest.indexed IndexRef.Settled
  simp only [IndexRef.refresh_congr same.strings, IndexRef.refresh_congr same.types,
    IndexRef.refresh_congr same.protos, IndexRef.refresh_congr same.fields,
    IndexRef.refresh_congr same.methods]

end IdSections.SameIndexes

namespace ClassData

/-- Sorting only reorders the members. -/
theorem refs_sorted {test : RefTest} {data : ClassData} : data.sorted.Refs test ↔ data.Refs test := by
  simp only [Refs, sorted, fields, methods, sortFields, sortMethods, List.mem_append,
    List.mem_mergeSort]

/-- What is sorted stays as it is. -/
theorem sorted_sorted (data : ClassData) : data.sorted.sorted = data.sorted := by
  have fields (members : List EncodedField) : sortFields (sortFields members) = sortFields members := by
    apply List.mergeSort_of_pairwise
    apply List.pairwise_mergeSort
    · intro a b c
      simp only [decide_eq_true_eq]
      exact UInt32.le_trans
    · intro a b
      simp only [Bool.or_eq_true, decide_eq_true_eq]
      exact UInt32.le_total ..
  have methods (members : List EncodedMethod) :
      sortMethods (sortMethods members) = sortMethods members := by
    apply List.mergeSort_of_pairwise
    apply List.pairwise_mergeSort
    · intro a b c
      simp only [decide_eq_true_eq]
      exact UInt32.le_trans
    · intro a b
      simp only [Bool.or_eq_true, decide_eq_true_eq]
      exact UInt32.le_total ..
  simp only [sorted, fields, methods]

/-- Images that keep the indexes keep the order. -/
theorem sorted_withRefs {change : RefMap} {data : ClassData}
    (field : ∀ ref, (change.field ref).raw = ref.raw)
    (method : ∀ ref, (change.method ref).raw = ref.raw) :
    (data.withRefs change).sorted = data.sorted.withRefs change := by
  have fields (members : List EncodedField) : sortFields (members.map (EncodedField.withRefs change)) =
      (sortFields members).map (EncodedField.withRefs change) := by
    unfold sortFields
    rw [List.map_mergeSort]
    intro a _ b _
    simp only [EncodedField.withRefs, field]
  have methods (members : List EncodedMethod) :
      sortMethods (members.map (EncodedMethod.withRefs change)) =
        (sortMethods members).map (EncodedMethod.withRefs change) := by
    unfold sortMethods
    rw [List.map_mergeSort]
    intro a _ b _
    simp only [EncodedMethod.withRefs, method]
  simp only [sorted, withRefs, mapMembers, fields, methods]

end ClassData

namespace DexFile

variable {file final : DexFile}

/-- Every reference by index outside code holds the current index of its item, class data is in the
order of the indexes, and indexes that are written into 16 bits fit. -/
structure Indexed (file : DexFile) : Prop where
  refs : ∀ part : Part, part ≠ .codeItem → (part.items file).All (part.Refs (.indexed file.ids))
  sorted : file.classData.All fun data => data.sorted = data
  short : file.ShortIndexes

theorem always_indexed_on (ids : IdSections) :
    ((RefTest.indexed ids).on (.indexes ids)).Always where
  string := IndexRef.settled_refresh _
  type := IndexRef.settled_refresh _
  proto := IndexRef.settled_refresh _
  field := IndexRef.settled_refresh _
  method := IndexRef.settled_refresh _
  typeList _ := trivial
  classData _ := trivial
  code _ := trivial
  debugInfo _ := trivial

/-- A refresh of the indexes brings all indexes up to date. -/
theorem indexed_of_refresh (refresh : refreshIndexes file = .ok () final) : final.Indexed := by
  obtain ⟨whole, short, _⟩ := refreshIndexes_eq_ok.1 refresh
  have test : RefTest.indexed final.ids = RefTest.indexed file.ids := by
    rw [whole]
    exact (sameIndexes_indexed file).indexed
  have always := always_indexed_on file.ids
  refine ⟨fun part different => ?_, ?_, short⟩
  · rw [test]
    have mapped (items : Section part.Item) (same : part.items final =
        items.map (part.withRefs (.indexes file.ids))) :
        (part.items final).All (part.Refs (.indexed file.ids)) := by
      rw [same]
      exact Section.all_map.2 fun id item _ => Part.refs_withRefs.2 (.of_always always)
    rw [whole]
    rw [whole] at mapped
    cases part with
    | codeItem => exact absurd rfl different
    | classData =>
        refine Section.all_map.2 fun id item _ => ClassData.refs_sorted.2 ?_
        exact ClassData.refs_withRefs.2 (@Part.Refs.of_always _ .classData _ always)
    | _ => exact mapped _ rfl
  · rw [whole]
    exact Section.all_map.2 fun id item _ => ClassData.sorted_sorted _

/-- Images of indexes that are current are the references themselves. -/
theorem indexed_agree (ids : IdSections) : (RefTest.indexed ids).Implies ((RefMap.indexes ids).agree {}) where
  string _ settled := settled
  type _ settled := settled
  proto _ settled := settled
  field _ settled := settled
  method _ settled := settled
  typeList _ _ := rfl
  classData _ _ := rfl
  code _ _ := rfl
  debugInfo _ _ := rfl

/-- Another refresh changes nothing outside the sections kept as bytes. -/
theorem Indexed.indexed_eq_self (indexed : file.Indexed) : file.indexed = file := by
  have same (part : Part) (different : part ≠ .codeItem) :
      (part.items file).map (part.withRefs (.indexes file.ids)) = part.items file :=
    Section.map_eq_self fun id item found => Part.withRefs_eq_self part
      ((indexed.refs part different id item found).imp (indexed_agree file.ids))
  have sorted : file.classData.map (fun data => (data.withRefs (.indexes file.ids)).sorted) =
      file.classData := by
    rw [← Section.map_map (ClassData.withRefs (.indexes file.ids)) ClassData.sorted,
      show file.classData.map (ClassData.withRefs (.indexes file.ids)) = file.classData from
        same .classData (by decide)]
    exact Section.map_eq_self indexed.sorted
  unfold DexFile.indexed
  rw [sorted, show file.types.items.map (TypeItem.withRefs (.indexes file.ids)) = file.types.items from
      same .typeId (by decide),
    show file.typeLists.map (TypeList.withRefs (.indexes file.ids)) = file.typeLists from
      same .typeList (by decide),
    show file.protos.items.map (ProtoItem.withRefs (.indexes file.ids)) = file.protos.items from
      same .protoId (by decide),
    show file.fields.items.map (FieldItem.withRefs (.indexes file.ids)) = file.fields.items from
      same .fieldId (by decide),
    show file.methods.items.map (MethodItem.withRefs (.indexes file.ids)) = file.methods.items from
      same .methodId (by decide),
    show file.debugInfos.map (DebugInfo.withRefs (.indexes file.ids)) = file.debugInfos from
      same .debugInfo (by decide),
    show file.classDefs.map (ClassDef.withRefs (.indexes file.ids)) = file.classDefs from
      same .classDef (by decide)]

/-- Places do not count for indexes. -/
theorem Indexed.of_unplaced (indexed : file.Indexed) (same : final.unplaced = file.unplaced) :
    final.Indexed where
  refs part different id item found := by
    rw [(sameIndexes_of_unplaced same).indexed]
    exact indexed.refs part different id item ((item?_of_unplaced same part id).symm.trans found)
  sorted id item found :=
    indexed.sorted id item ((item?_of_unplaced same .classData id).symm.trans found)
  short := by
    refine ⟨fun id item found => ?_, fun id item found => ?_, fun id item found => ?_⟩
    · exact indexed.short.typeLists id item ((item?_of_unplaced same .typeList id).symm.trans found)
    · exact indexed.short.fields id item ((item?_of_unplaced same .fieldId id).symm.trans found)
    · exact indexed.short.methods id item ((item?_of_unplaced same .methodId id).symm.trans found)

/-- A refresh of the offsets changes no index. -/
theorem Indexed.refreshOffsets (indexed : file.Indexed)
    (refresh : refreshOffsets file = .ok () final) : final.Indexed := by
  have frame := refreshOffsets_frame refresh
  have whole := (refreshOffsets_eq_ok.1 refresh).1
  refine ⟨fun part different => ?_, ?_, ?_⟩
  · rw [frame.ids.indexed, whole]
    have refs := indexed.refs part different
    cases part with
    | codeItem => exact absurd rfl different
    | protoId =>
        exact Section.all_map.2 fun id item found =>
          (@Part.refs_withRefs file.offsetMap _ .protoId item).2 (refs id item found)
    | classData =>
        exact Section.all_map.2 fun id item found =>
          (@Part.refs_withRefs file.offsetMap _ .classData item).2 (refs id item found)
    | classDef =>
        refine Section.all_map.2 fun id item found => ?_
        have relocated : ClassDef.Refs (.indexed file.ids) (item.withRefs file.offsetMap) := refs id item found
        exact relocated
    | _ => exact refs
  · rw [whole]
    refine Section.all_map.2 fun id data found => ?_
    change (data.withRefs file.offsetMap).sorted = data.withRefs file.offsetMap
    rw [ClassData.sorted_withRefs (fun _ => rfl) (fun _ => rfl)]
    exact congrArg (ClassData.withRefs file.offsetMap) (indexed.sorted id data found)
  · rw [whole]
    exact ⟨indexed.short.typeLists, indexed.short.fields, indexed.short.methods⟩

end DexFile
end DexArsc.Dex
