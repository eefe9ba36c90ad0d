/-
Linking a file that was read: every reference receives the item at its index or its offset.
-/

import DexArsc.Proofs.Dex.File.Items
import DexArsc.Proofs.Dex.File.Indexed

namespace DexArsc.Dex

/-- Only what the sections find counts for linking. -/
theorem CodeItem.linkOperands_congr {ids other : IdSections}
    (same : ∀ target : ItemRef, target.link other = target.link ids) (units : Array UInt16)
    (found : List Operand) : linkOperands other units found = linkOperands ids units found := by
  induction found with
  | nil => rfl
  | cons operand rest ih => simp only [linkOperands, ih, same]

namespace DexFile

theorem linkCode_congr {ids other : IdSections} {infos others : Section DebugInfo}
    (same : ∀ target : ItemRef, target.link other = target.link ids)
    (types : ∀ ref : IndexRef TypeItem, ref.link other.types = ref.link ids.types)
    (debug : ∀ ref : OffsetRef DebugInfo, ref.link others = ref.link infos) :
    linkCode other others = linkCode ids infos := by
  funext offset code
  unfold linkCode CodeItem.link CodeItem.linkDebugInfo
  simp only [CodeItem.linkOperands_congr same, types, debug]

/-- The images of references that are linked to the items of a file. -/
def linkMap (file : DexFile) : RefMap where
  string ref := ref.link file.strings.items
  type ref := ref.link file.types.items
  proto ref := ref.link file.protos.items
  field ref := ref.link file.fields.items
  method ref := ref.link file.methods.items
  typeList ref := ref.link file.typeLists
  classData ref := ref.link file.classData
  code ref := ref.link file.codes
  debugInfo ref := ref.link file.debugInfos

/-- The file with every reference linked, and with the given code. -/
def linked (file : DexFile) (codes : Section CodeItem) : DexFile :=
  { file with
    types.items := file.types.items.map (·.withRefs file.linkMap)
    typeLists := file.typeLists.map (·.withRefs file.linkMap)
    protos.items := file.protos.items.map (·.withRefs file.linkMap)
    fields.items := file.fields.items.map (·.withRefs file.linkMap)
    methods.items := file.methods.items.map (·.withRefs file.linkMap)
    debugInfos := file.debugInfos.map (·.withRefs file.linkMap)
    codes
    classData := file.classData.map (·.withRefs file.linkMap)
    classDefs := file.classDefs.map (·.withRefs file.linkMap)
    raws := file.raws.map (·.link file.ids) }

/-- A file is linked when its code is. -/
theorem link_eq_ok {file final : DexFile} : link file = .ok () final ↔
    final = file.linked final.codes ∧
      Section.onItems (linkCode file.ids file.debugInfos) file.codes = .ok () final.codes := by
  have whole (codes : Section CodeItem) (same : codes.byOffset = file.codes.byOffset) :
      { file with
        types.items := file.types.items.map (·.withRefs file.linkMap)
        typeLists := file.typeLists.map (·.withRefs file.linkMap)
        protos.items := file.protos.items.map (·.withRefs file.linkMap)
        fields.items := file.fields.items.map (·.withRefs file.linkMap)
        methods.items := file.methods.items.map (·.withRefs file.linkMap)
        debugInfos := file.debugInfos.map (·.withRefs file.linkMap)
        codes
        classData := file.classData.map (·.link file.ids codes)
        classDefs := file.classDefs.map (·.withRefs file.linkMap)
        raws := file.raws.map (·.link file.ids) } = file.linked codes := by
    have code (ref : OffsetRef CodeItem) : ref.link codes = ref.link file.codes := by
      unfold OffsetRef.link Section.getAt?
      rw [same]
    have data : (fun data : ClassData => data.link file.ids codes) =
        fun data => data.withRefs file.linkMap := by
      funext data
      unfold ClassData.link ClassData.withRefs EncodedMethod.withRefs linkMap
      simp only [code]
      rfl
    unfold linked
    rw [data]
  have step : linkCode (ids { file with
      types.items := file.types.items.map (·.withRefs file.linkMap)
      typeLists := file.typeLists.map (·.withRefs file.linkMap)
      protos.items := file.protos.items.map (·.withRefs file.linkMap)
      fields.items := file.fields.items.map (·.withRefs file.linkMap)
      methods.items := file.methods.items.map (·.withRefs file.linkMap) })
      (file.debugInfos.map (·.withRefs file.linkMap)) = linkCode file.ids file.debugInfos :=
    linkCode_congr (fun target => by cases target <;> rfl) (fun _ => rfl) fun _ => rfl
  unfold link
  rw [Step.bind_ok (Step.modify_apply _ _), Step.bind_ok (Step.modify_apply _ _),
    Step.bind_ok (Step.modify_apply _ _), Step.bind_ok (Step.modify_apply _ _),
    Step.bind_ok (Step.modify_apply _ _), Step.bind_ok (Step.modify_apply _ _),
    Step.bind_ok (Step.get_apply _), Step.bind_eq_ok]
  simp only [Step.onPart_eq_ok]
  constructor
  · rintro ⟨_, _, ⟨codes, run, rfl⟩, rest⟩
    rw [Step.bind_ok (Step.modify_apply _ _), Step.modify_apply, EStateM.Result.ok.injEq] at rest
    have plain : Section.onItems (linkCode file.ids file.debugInfos) file.codes = .ok () codes := by
      rw [← step]
      exact run
    rw [← rest.2]
    exact ⟨whole codes (Section.onItems_ends (Step.ends_ok plain)).1.byOffset, plain⟩
  · rintro ⟨same, run⟩
    have staged := run
    rw [← step] at staged
    refine ⟨(), _, ⟨final.codes, staged, rfl⟩, ?_⟩
    rw [Step.bind_ok (Step.modify_apply _ _), Step.modify_apply, EStateM.Result.ok.injEq]
    refine ⟨rfl, ?_⟩
    rw [same]
    exact whole final.codes (Section.onItems_ends (Step.ends_ok run)).1.byOffset

end DexFile
end DexArsc.Dex
