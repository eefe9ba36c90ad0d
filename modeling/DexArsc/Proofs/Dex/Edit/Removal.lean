/-
The removal of a class. Class data, code and debug information may be shared, and they go away with
the class exactly when everything that uses them does.
-/

import DexArsc.Proofs.Dex.Edit.Members
import DexArsc.Proofs.Dex.Section.Removal

namespace DexArsc.Dex

/-- The class has the class data. -/
def ClassDef.Has (item : ClassDef) (data : Id ClassData) : Prop :=
  item.classData.item = some data

/-- A method of the data has the code. -/
def ClassData.Has (data : ClassData) (code : Id CodeItem) : Prop :=
  ∃ member ∈ data.methods, member.code.item = some code

/-- The code has the debug information. -/
def CodeItem.Has (code : CodeItem) (info : Id DebugInfo) : Prop :=
  code.debugInfo.item = some info

namespace DexFile

variable {file between final : DexFile}

/-- The class data goes away with a class: no other class has it. -/
def DropsData (file : DexFile) (id : Id ClassDef) : Id ClassData → Prop :=
  file.classDefs.Abandons (· = id) ClassDef.Has

/-- The code goes away with a class: class data that goes away has it, and none that stays. -/
def DropsCode (file : DexFile) (id : Id ClassDef) : Id CodeItem → Prop :=
  file.classData.Abandons (file.DropsData id) ClassData.Has

/-- The debug information goes away with a class: code that goes away has it, and none that stays. -/
def DropsInfo (file : DexFile) (id : Id ClassDef) : Id DebugInfo → Prop :=
  file.codes.Abandons (file.DropsCode id) CodeItem.Has

/-- Exactly one class is gone with everything that only it used. All other items are as they were, in
the order that they had. -/
structure RemovesClass (file : DexFile) (id : Id ClassDef) (item : ClassDef) (final : DexFile) :
    Prop where
  found : file.classDefs.item? id = some item
  classDefs : file.classDefs.Loses (· = id) final.classDefs
  classData : file.classData.Loses (file.DropsData id) final.classData
  codes : file.codes.Loses (file.DropsCode id) final.codes
  debugInfos : file.debugInfos.Loses (file.DropsInfo id) final.debugInfos
  others : final = { file with
    classDefs := final.classDefs
    classData := final.classData
    codes := final.codes
    debugInfos := final.debugInfos }

theorem usesClassData_iff (valid : file.classDefs.Valid) {id : Id ClassData} :
    file.usesClassData id ↔ file.classDefs.Uses ClassDef.Has id := by
  simp [usesClassData, Section.Uses, ClassDef.Has, valid.mem_entries]

theorem usesCode_iff (valid : file.classData.Valid) {id : Id CodeItem} :
    file.usesCode id ↔ file.classData.Uses ClassData.Has id := by
  simp [usesCode, Section.Uses, ClassData.Has, valid.mem_entries]

theorem usesDebugInfo_iff (valid : file.codes.Valid) {id : Id DebugInfo} :
    file.usesDebugInfo id ↔ file.codes.Uses CodeItem.Has id := by
  simp [usesDebugInfo, Section.Uses, CodeItem.Has, valid.mem_entries]

theorem releaseCode_eq (file : DexFile) (id : Id CodeItem) : file.releaseCode id =
    if file.usesCode id then file
    else match file.codes.item? id with
      | none => file
      | some code =>
        let rest : DexFile := { file with codes := (file.codes.remove id).2 }
        code.debugInfo.item.elim rest rest.releaseDebugInfo := by
  unfold releaseCode
  rw [← Section.fst_remove]
  split
  · rfl
  · rcases file.codes.remove id with ⟨_ | code, codes⟩ <;> rfl

/-- Some code is gone with the debug information that only this code had. -/
structure DropsCodes (file : DexFile) (gone : Id CodeItem → Prop) (final : DexFile) : Prop where
  codes : file.codes.Loses gone final.codes
  debugInfos : file.debugInfos.Loses (file.codes.Abandons gone CodeItem.Has) final.debugInfos
  codesValid : final.codes.Valid
  infosValid : final.debugInfos.Valid
  others : final = { file with codes := final.codes, debugInfos := final.debugInfos }

namespace DropsCodes

variable {gone other : Id CodeItem → Prop}

theorem nothing (codes : file.codes.Valid) (infos : file.debugInfos.Valid) :
    file.DropsCodes (fun _ => False) file where
  codes := .nothing codes
  debugInfos := (Section.Loses.nothing infos).congr fun id _ =>
    (iff_false_intro (Section.not_abandons_nothing id)).symm
  codesValid := codes
  infosValid := infos
  others := rfl

/-- It only counts which live code is gone. -/
theorem congr (drops : file.DropsCodes gone final)
    (same : ∀ id, (file.codes.item? id).isSome → (gone id ↔ other id)) :
    file.DropsCodes other final where
  codes := drops.codes.congr same
  debugInfos := drops.debugInfos.congr fun _ _ =>
    ⟨fun here => here.congr same, fun here => here.congr fun id live => (same id live).symm⟩
  codesValid := drops.codesValid
  infosValid := drops.infosValid
  others := drops.others

theorem usesCode (drops : file.DropsCodes gone between) (id : Id CodeItem) :
    between.usesCode id = file.usesCode id := by
  rw [drops.others]
  rfl

/-- One more code goes away, and its debug information when no code that stays has it. -/
theorem remove (drops : file.DropsCodes gone between) {id : Id CodeItem} {code : CodeItem}
    (found : between.codes.item? id = some code) :
    file.DropsCodes (fun other => gone other ∨ other = id)
      (code.debugInfo.item.elim { between with codes := (between.codes.remove id).2 }
        (releaseDebugInfo { between with codes := (between.codes.remove id).2 })) := by
  have codes := drops.codes.remove drops.codesValid id
  have valid := drops.codesValid.remove id
  have abandons (info : Id DebugInfo) :
      file.codes.Abandons (fun other => gone other ∨ other = id) CodeItem.Has info ↔ _ :=
    Section.abandons_or_iff drops.codes drops.codesValid found info
  have others : ∀ debugInfos, { between with codes := (between.codes.remove id).2, debugInfos } =
      { file with codes := (between.codes.remove id).2, debugInfos } := fun _ => by
    rw [drops.others]
  have stays (used : ∀ info, code.Has info →
      (between.codes.remove id).2.Uses CodeItem.Has info) : file.DropsCodes
        (fun other => gone other ∨ other = id)
        { between with codes := (between.codes.remove id).2 } :=
    ⟨codes, drops.debugInfos.congr fun info _ => by
      rw [abandons]
      exact ⟨.inl, fun either => either.resolve_right fun ⟨has, unused⟩ => unused (used info has)⟩,
      valid, drops.infosValid, others _⟩
  cases named : code.debugInfo.item with
  | none =>
      refine stays fun info has => ?_
      rw [CodeItem.Has, named] at has
      cases has
  | some info =>
      rw [Option.elim_some]
      have has (other : Id DebugInfo) : code.Has other ↔ other = info := by
        rw [CodeItem.Has, named, Option.some.injEq, eq_comm]
      have used : usesDebugInfo { between with codes := (between.codes.remove id).2 } info ↔ _ :=
        usesDebugInfo_iff valid
      unfold releaseDebugInfo
      split
      · rename_i here
        exact stays fun other there => (has other).1 there ▸ used.1 here
      · rename_i here
        refine ⟨codes, (drops.debugInfos.remove drops.infosValid info).congr fun other _ => ?_, valid,
          drops.infosValid.remove info, others _⟩
        rw [abandons, has]
        constructor
        · rintro (there | rfl)
          · exact .inl there
          · exact .inr ⟨rfl, mt used.2 here⟩
        · exact Or.imp_right And.left

/-- Code is released: it goes away unless some class data has it. -/
theorem releaseCode (drops : file.DropsCodes gone between) (id : Id CodeItem) :
    file.DropsCodes (fun other => gone other ∨ other = id ∧ ¬file.usesCode other)
      (between.releaseCode id) := by
  rw [releaseCode_eq, drops.usesCode]
  split
  · rename_i used
    refine drops.congr fun other _ => ⟨.inl, fun either => either.resolve_right ?_⟩
    rintro ⟨rfl, unused⟩
    exact unused used
  · rename_i unused
    have same (other : Id CodeItem) :
        gone other ∨ other = id ↔ gone other ∨ other = id ∧ ¬file.usesCode other :=
      or_congr_right ⟨fun here => ⟨here, here ▸ unused⟩, And.left⟩
    cases found : between.codes.item? id with
    | some code => exact (drops.remove found).congr fun other _ => same other
    | none =>
        refine drops.congr fun other live => Iff.trans ⟨.inl, Or.rec (fun here => here) ?_⟩ (same other)
        rintro rfl
        exact drops.codes.gone_of_none live found

/-- Code of a list is released, one item after the other. -/
theorem releaseCodes (drops : file.DropsCodes gone between) (ids : List (Id CodeItem)) :
    file.DropsCodes (fun other => gone other ∨ other ∈ ids ∧ ¬file.usesCode other)
      (ids.foldl DexFile.releaseCode between) := by
  induction ids generalizing gone between with
  | nil => exact drops.congr fun other _ => by simp
  | cons id rest ih =>
      refine (ih (drops.releaseCode id)).congr fun other _ => ?_
      rw [List.mem_cons, or_and_right, or_assoc]

end DropsCodes

theorem releaseClassData_eq (file : DexFile) (id : Id ClassData) : file.releaseClassData id =
    if file.usesClassData id then file
    else match file.classData.item? id with
      | none => file
      | some data => (data.methods.filterMap (·.code.item)).foldl releaseCode
          { file with classData := (file.classData.remove id).2 } := by
  unfold releaseClassData
  rw [← Section.fst_remove]
  split
  · rfl
  · rcases file.classData.remove id with ⟨_ | data, classData⟩ <;> rfl

/-- Some class data is gone with the code that only this data had, and with its debug information. -/
structure DropsClassData (file : DexFile) (gone : Id ClassData → Prop) (final : DexFile) : Prop where
  classData : file.classData.Loses gone final.classData
  codes : file.codes.Loses (file.classData.Abandons gone ClassData.Has) final.codes
  debugInfos : file.debugInfos.Loses
    (file.codes.Abandons (file.classData.Abandons gone ClassData.Has) CodeItem.Has) final.debugInfos
  others : final = { file with
    classData := final.classData
    codes := final.codes
    debugInfos := final.debugInfos }

namespace DropsClassData

variable {gone other : Id ClassData → Prop}

/-- It only counts which live class data is gone. -/
theorem congr (drops : file.DropsClassData gone final)
    (same : ∀ id, (file.classData.item? id).isSome → (gone id ↔ other id)) :
    file.DropsClassData other final := by
  have codes (id : Id CodeItem) : file.classData.Abandons gone ClassData.Has id ↔
      file.classData.Abandons other ClassData.Has id :=
    ⟨fun here => here.congr same, fun here => here.congr fun id live => (same id live).symm⟩
  exact {
    classData := drops.classData.congr same
    codes := drops.codes.congr fun id _ => codes id
    debugInfos := drops.debugInfos.congr fun _ _ =>
      ⟨fun here => here.congr fun id _ => codes id, fun here => here.congr fun id _ => (codes id).symm⟩
    others := drops.others }

theorem nothing (classData : file.classData.Valid) (codes : file.codes.Valid) (infos : file.debugInfos.Valid) :
    file.DropsClassData (fun _ => False) file where
  classData := .nothing classData
  codes := (Section.Loses.nothing codes).congr fun id _ =>
    (iff_false_intro (Section.not_abandons_nothing id)).symm
  debugInfos := (Section.Loses.nothing infos).congr fun id _ =>
    (iff_false_intro fun abandoned => Section.not_abandons_nothing id
      (abandoned.congr fun code _ => iff_false_intro (Section.not_abandons_nothing code))).symm
  others := rfl

/-- Class data is gone, and then the code that only this data had. -/
theorem of_codes {classData : Section ClassData} (loses : file.classData.Loses gone classData)
    (drops : DropsCodes { file with classData } (file.classData.Abandons gone ClassData.Has) final) :
    file.DropsClassData gone final where
  classData := by
    rw [drops.others]
    exact loses
  codes := drops.codes
  debugInfos := drops.debugInfos
  others := by rw [drops.others]

/-- Class data is released: it goes away unless some class has it. -/
theorem release (file : DexFile) (classData : file.classData.Valid) (codes : file.codes.Valid)
    (debugInfos : file.debugInfos.Valid) (id : Id ClassData) :
    file.DropsClassData (fun other => other = id ∧ ¬file.usesClassData other)
      (file.releaseClassData id) := by
  rw [releaseClassData_eq]
  split
  · rename_i used
    refine (nothing classData codes debugInfos).congr fun other _ => ⟨False.elim, ?_⟩
    rintro ⟨rfl, unused⟩
    exact unused used
  · rename_i unused
    have same (other : Id ClassData) : other = id ↔ other = id ∧ ¬file.usesClassData other :=
      ⟨fun here => ⟨here, here ▸ unused⟩, And.left⟩
    cases found : file.classData.item? id with
    | none =>
        refine (nothing classData codes debugInfos).congr fun other live => Iff.trans ⟨False.elim, ?_⟩ (same other)
        rintro rfl
        rw [found] at live
        cases live
    | some data =>
        have kept : DropsCodes { file with classData := (file.classData.remove id).2 } (fun _ => False)
            { file with classData := (file.classData.remove id).2 } := .nothing codes debugInfos
        have released := kept.releaseCodes (data.methods.filterMap (·.code.item))
        have used (code : Id CodeItem) :
            usesCode { file with classData := (file.classData.remove id).2 } code ↔ _ :=
          usesCode_iff (classData.remove id)
        have one : file.DropsClassData (· = id)
            ((data.methods.filterMap (·.code.item)).foldl releaseCode
              { file with classData := (file.classData.remove id).2 }) := by
          refine of_codes ?_ (released.congr fun code _ => ?_)
          · exact ((Section.Loses.nothing classData).remove classData id).congr fun _ _ =>
              iff_of_eq (false_or _)
          · rw [Section.abandons_eq_iff classData found, used, false_or, List.mem_filterMap]
            rfl
        exact one.congr fun other _ => same other

end DropsClassData

theorem removeClass_apply (id : Id ClassDef) (file : DexFile) : removeClass id file =
    match file.classDefs.item? id with
    | none => .error { cause := .dex (.noClass id.slot) } file
    | some item =>
      let rest : DexFile := { file with classDefs := (file.classDefs.remove id).2 }
      .ok item (item.classData.item.elim rest rest.releaseClassData) := by
  unfold removeClass
  rw [Step.bind_apply, Step.get_apply, ← Section.fst_remove]
  dsimp only
  rcases file.classDefs.remove id with ⟨_ | item, classDefs⟩ <;> rfl

/-- A class that is removed takes with it exactly what only it used. -/
theorem removesClass (valid : ∀ part : Part, (part.items file).Valid) {id : Id ClassDef}
    {item : ClassDef} (run : removeClass id file = .ok item final) :
    file.RemovesClass id item final := by
  have defined : file.classDefs.Valid := valid .classDef
  rw [removeClass_apply] at run
  cases found : file.classDefs.item? id with
  | none =>
      rw [found] at run
      cases run
  | some other =>
      rw [found] at run
      obtain ⟨rfl, same⟩ := EStateM.Result.ok.inj run
      generalize owned : other.classData.item = data at same
      have drops : DropsClassData { file with classDefs := (file.classDefs.remove id).2 }
          (file.DropsData id) final := by
        have dropped (data : Id ClassData) : file.DropsData id data ↔ _ :=
          Section.abandons_eq_iff defined found data
        cases data with
        | none =>
            rw [← same]
            refine (@DropsClassData.nothing { file with classDefs := (file.classDefs.remove id).2 }
              (valid .classData) (valid .codeItem) (valid .debugInfo)).congr fun data _ => ⟨False.elim, fun here => ?_⟩
            cases owned.symm.trans ((dropped data).1 here).1
        | some data =>
            rw [← same]
            have released := DropsClassData.release { file with
              classDefs := (file.classDefs.remove id).2 } (valid .classData) (valid .codeItem)
              (valid .debugInfo) data
            refine released.congr fun other _ => ?_
            rw [dropped, usesClassData_iff (defined.remove id), ClassDef.Has, owned,
              Option.some.injEq, eq_comm]
      have classDefs : final.classDefs = (file.classDefs.remove id).2 := by rw [drops.others]
      exact {
        found
        classDefs := by
          rw [classDefs]
          exact ((Section.Loses.nothing defined).remove defined id).congr fun _ _ => iff_of_eq (false_or _)
        classData := drops.classData
        codes := drops.codes
        debugInfos := drops.debugInfos
        others := by
          rw [classDefs]
          exact drops.others }

/-- A class that is defined can be removed. -/
theorem removeClass_of_defined {id : Id ClassDef} {item : ClassDef}
    (found : file.classDefs.item? id = some item) : ∃ final, removeClass id file = .ok item final := by
  rw [removeClass_apply, found]
  exact ⟨_, rfl⟩

end DexFile
end DexArsc.Dex
