/-
Classes, members, code and debug information: the keys of a file do not depend on them, and a class
is defined once.
-/

import DexArsc.Dex.File.Members
import DexArsc.Proofs.Dex.Edit.Rename
import DexArsc.Proofs.Leads

namespace DexArsc.Dex
namespace DexFile

variable {file final third : DexFile}

/-- The file with other classes, members, code and debug information. -/
def withMembers (file : DexFile) (classDefs : Section ClassDef) (classData : Section ClassData)
    (codes : Section CodeItem) (debugInfos : Section DebugInfo) : DexFile :=
  { file with classDefs, classData, codes, debugInfos }

/-- A sound file stays sound when every class defines a type of its own. -/
theorem Sound.withMembers (sound : file.Sound) {classDefs : Section ClassDef}
    {classData : Section ClassData} {codes : Section CodeItem} {debugInfos : Section DebugInfo}
    (classesValid : classDefs.Valid) (dataValid : classData.Valid) (codesValid : codes.Valid)
    (debugValid : debugInfos.Valid) (named : classDefs.All fun item => item.type.item.isSome)
    (defined : Outline.Sound
      { file.outline with defined := classDefs.keyOf? fun item => item.type.item }) :
    (file.withMembers classDefs classData codes debugInfos).Sound where
  valid part := by
    have valid := sound.valid part
    cases part with
    | classDef => exact classesValid
    | classData => exact dataValid
    | codeItem => exact codesValid
    | debugInfo => exact debugValid
    | _ => exact valid
  strings := sound.strings
  complete := { sound.complete with classes := named }
  outline := defined
  parameters := sound.parameters
  stringKeys := sound.stringKeys
  typeKeys := sound.typeKeys
  protoKeys := sound.protoKeys
  fieldKeys := sound.fieldKeys
  methodKeys := sound.methodKeys

/-- What an edit of a sound file leaves that renames nothing: a sound file whose shorties are as right as before. -/
structure Edited (file final : DexFile) : Prop where
  sound : file.Sound → final.Sound
  shorties : file.Sound → (final.outline.Shorties ↔ file.outline.Shorties)
  /-- A class definition has the name that it had, or is new and has the name of a class. -/
  titles : file.Sound → ∀ id name, final.outline.className? id = some name →
    file.outline.className? id = some name ∨ name.startsWith "L"

namespace Edited

theorem refl (file : DexFile) : file.Edited file :=
  ⟨fun sound => sound, fun _ => .rfl, fun _ _ _ found => .inl found⟩

theorem trans (before : file.Edited final) (behind : final.Edited third) : file.Edited third where
  sound sound := behind.sound (before.sound sound)
  shorties sound := (behind.shorties (before.sound sound)).trans (before.shorties sound)
  titles sound id name found := (behind.titles (before.sound sound) id name found).elim
    (before.titles sound id name) .inr

/-- Other members, code and debug information. -/
theorem withMembers {classDefs : Section ClassDef} {classData : Section ClassData}
    {codes : Section CodeItem} {debugInfos : Section DebugInfo}
    (classesValid : file.classDefs.Valid → classDefs.Valid)
    (dataValid : file.classData.Valid → classData.Valid)
    (codesValid : file.codes.Valid → codes.Valid)
    (debugValid : file.debugInfos.Valid → debugInfos.Valid)
    (named : (file.classDefs.All fun item => item.type.item.isSome) →
      classDefs.All fun item => item.type.item.isSome)
    (same : classDefs.keyOf? (fun item => item.type.item) = file.outline.defined) :
    file.Edited (file.withMembers classDefs classData codes debugInfos) where
  sound sound := sound.withMembers (classesValid (sound.valid .classDef))
    (dataValid (sound.valid .classData)) (codesValid (sound.valid .codeItem))
    (debugValid (sound.valid .debugInfo)) (named sound.complete.classes)
    (by rw [same]; exact sound.outline)
  shorties _ := .rfl
  titles _ id name found := .inl (by
    rw [Outline.className?, ← same]
    exact found)

theorem classData {items : Section ClassData} (valid : file.classData.Valid → items.Valid) :
    file.Edited { file with classData := items } :=
  withMembers id valid id id id rfl

theorem codes {items : Section CodeItem} (valid : file.codes.Valid → items.Valid) :
    file.Edited { file with codes := items } :=
  withMembers id id valid id id rfl

theorem debugInfos {items : Section DebugInfo} (valid : file.debugInfos.Valid → items.Valid) :
    file.Edited { file with debugInfos := items } :=
  withMembers id id id valid id rfl

/-- A class definition that still defines its type. -/
theorem modifyClass (id : Id ClassDef) {change : ClassDef → ClassDef}
    (same : ∀ item, (change item).type = item.type) :
    file.Edited { file with classDefs := file.classDefs.modify id change } := by
  refine withMembers (fun valid => valid.modify id change) (fun valid => valid)
    (fun valid => valid) (fun valid => valid) (fun all => all.modify fun item found => ?_) ?_
  · rw [same]
    exact all id item found
  · simp only [Section.keyOf?_modify, same]
    exact Function.update_eq_self ..

end Edited

theorem Interned.edited (sound : file.Sound) (interned : file.Interned final) : file.Edited final where
  sound _ := interned.sound
  shorties _ := interned.shorties_iff sound
  titles _ _ _ found := .inl (interned.className?_eq sound ▸ found)

/-- It is enough that an edit is right on sound files. -/
theorem edited_of_sound {α : Type} {step : Step DexFile α}
    (holds : file.Sound → step.Leads Edited file) : step.Leads Edited file :=
  .of_ends fun _ ends => {
    sound := fun sound => ((holds sound).ends ends).sound sound
    shorties := fun sound => ((holds sound).ends ends).shorties sound
    titles := fun sound => ((holds sound).ends ends).titles sound }

theorem edited_of_interns {α : Type} {step : Step DexFile α} {holds : α → Outline → Prop}
    (interns : file.Sound → Interns step file holds) : step.Leads Edited file :=
  edited_of_sound fun sound => ⟨Step.Ensures.imp (interns sound)
    (fun _ _ ⟨interned, _⟩ => interned.edited sound) fun _ interned => interned.edited sound⟩

theorem edited_memberData (id : Id ClassDef) (file : DexFile) : (memberData id).Leads Edited file := by
  unfold memberData
  refine .get ?_
  split
  · exact .fail (.refl file) _
  · exact .pure (.refl file) _
  · refine .bind Edited.trans ⟨?_⟩ fun _ file _ => .pure (.refl file) _
    exact (Edited.classData fun valid => valid.push {}).trans (.modifyClass id fun _ => rfl)

theorem edited_addCode (code : CodeItem) (file : DexFile) : (addCode code).Leads Edited file := by
  unfold addCode
  exact .get (.check (.refl file) fun linked _ => ⟨.codes fun valid => valid.push _⟩)

theorem edited_addDebugInfo (info : DebugInfo) (file : DexFile) :
    (addDebugInfo info).Leads Edited file :=
  ⟨.debugInfos fun valid => valid.push _⟩

theorem edited_addField (id : Id ClassDef) (key : FieldKey) (flags : UInt32) (file : DexFile) :
    (addField id key flags).Leads Edited file := by
  unfold addField
  refine .get (.check (.refl file) fun _ _ => ?_)
  refine .bind Edited.trans (edited_of_interns fun sound => sound.internField key) fun field file _ => ?_
  refine .bind Edited.trans (edited_memberData id file) fun data file _ => .get ?_
  simp only
  split
  · exact ⟨.refl file⟩
  · exact ⟨.classData fun valid => valid.modify _ _⟩

theorem edited_addMethod (id : Id ClassDef) (key : MethodKey) (flags : UInt32) (code : Option CodeItem)
    (file : DexFile) : (addMethod id key flags code).Leads Edited file := by
  unfold addMethod
  refine .get (.check (.refl file) fun _ _ => ?_)
  refine .bind Edited.trans (edited_of_interns fun sound => sound.internMethod key)
    fun method file _ => .get ?_
  simp only
  split
  · exact ⟨.refl file⟩
  · have coded : (code.mapM addCode).Leads Edited file := by
      cases code with
      | none => exact ⟨.refl file⟩
      | some code => exact .bind Edited.trans (edited_addCode code file) fun _ file _ => ⟨.refl file⟩
    refine .bind Edited.trans coded fun code file _ => ?_
    refine .bind Edited.trans (edited_memberData id file) fun data file _ => ?_
    exact ⟨.classData fun valid => valid.modify _ _⟩

/-- A descriptor whose class is not found is defined by no class. -/
theorem Sound.className?_ne (sound : file.Sound) {descriptor : String}
    (absent : file.findClass? descriptor = none) (id : Id ClassDef) :
    file.outline.className? id ≠ some descriptor := by
  intro named
  obtain ⟨type, defined, found⟩ := Option.bind_eq_some_iff.1 named
  obtain ⟨item, live, typed⟩ := Section.keyOf?_eq_some.1 defined
  rw [findClass?, Option.map_eq_none_iff, List.find?_eq_none] at absent
  have other := absent (id, item) ((Section.Valid.mem_entries (sound.valid .classDef)).2 live)
  rw [beq_iff_eq, sound.complete.descriptorOf?, typed] at other
  exact other found

/-- A class definition of a type that none defines, with the name of a class. -/
theorem Sound.edited_pushClass (sound : file.Sound) {item : ClassDef} {type : Id TypeItem} {name : String}
    (typed : item.type.item = some type) (named : file.outline.descriptor? type = some name)
    (isClass : name.startsWith "L") (new : ∀ id, file.outline.defined id ≠ some type) :
    file.Edited { file with classDefs := (file.classDefs.push item).2 } where
  sound _ := by
    have valid : file.classDefs.Valid := sound.valid .classDef
    refine sound.withMembers (valid.push item) (sound.valid .classData) (sound.valid .codeItem)
      (sound.valid .debugInfo) (sound.complete.classes.push (by rw [typed]; rfl)) ?_
    rw [Section.keyOf?_push, typed]
    exact sound.outline.addClass (Section.keyOf?_id_push ..) (by rw [named]; rfl) new
  shorties _ := .rfl
  titles _ id other found := by
    obtain ⟨defines, defined, here⟩ := Option.bind_eq_some_iff.1 found
    change (file.classDefs.push item).2.keyOf? (fun item => item.type.item) id = some defines at defined
    rw [Section.keyOf?_push, typed] at defined
    rcases update_eq_some defined with ⟨_, rfl⟩ | defined
    · exact .inr (Option.some.inj (named.symm.trans here) ▸ isClass)
    · exact .inl (Option.bind_eq_some_iff.2 ⟨defines, defined, here⟩)

theorem edited_defineClass (descriptor : String) (flags : UInt32) (superclass : Option String)
    (file : DexFile) : (defineClass descriptor flags superclass).Leads Edited file := by
  refine edited_of_sound fun sound => ?_
  unfold defineClass
  refine .check (.refl file) fun _ _ => ?_
  simp only
  split
  case isFalse => exact ⟨.refl file⟩
  rename_i isClass
  have checked : (superclass.forM fun descriptor =>
      (liftM (checkTypeDescriptor descriptor) : Step DexFile Unit)).Ensures file
        (fun _ between => between = file) file.Edited := by
    cases superclass with
    | none => exact .of_ok rfl rfl
    | some descriptor => exact .monadLift (fun _ _ => rfl) (.refl file)
  refine ⟨checked.bind fun _ between same => ?_⟩
  subst same
  refine Step.Leads.ensures (.get ?_)
  split
  · exact ⟨.refl between⟩
  rename_i absent
  have above (first : DexFile) (sound : first.Sound) :
      Interns (superclass.mapM internType) first fun _ _ => True := by
    cases superclass with
    | none => exact .pure sound trivial
    | some descriptor => exact .map (sound.internType descriptor) fun _ _ _ => trivial
  refine ⟨Step.Ensures.bind (Step.Ensures.imp (sound.internType descriptor) (fun _ _ here => here)
    fun _ interned => interned.edited sound) fun type first ⟨interned, named⟩ => ?_⟩
  refine Step.Ensures.bind (Step.Ensures.imp (above first interned.sound) (fun _ final here =>
      (⟨interned.trans here.1, here.1.grows.outline.descriptor? _ _ named⟩ :
        between.Interned final ∧ final.outline.descriptor? type = some descriptor))
    fun _ grown => (interned.trans grown).edited sound) fun superclass final ⟨interned, named⟩ => ?_
  have new (id : Id ClassDef) : final.outline.defined id ≠ some type := fun defined => by
    have before : between.outline.defined id = some type := by
      unfold outline at defined ⊢
      rwa [interned.grows.classDefs] at defined
    obtain ⟨text, found⟩ := Option.isSome_iff_exists.1 (sound.outline.classes id type before)
    refine sound.className?_ne (by simpa using absent) id ?_
    rw [Outline.className?, before, Option.bind_some, found, ← named]
    exact (interned.grows.outline.descriptor? _ _ found).symm
  exact (interned.edited sound).trans
    (interned.sound.edited_pushClass rfl named isClass new)

theorem edited_releaseDebugInfo (file : DexFile) (id : Id DebugInfo) :
    file.Edited (file.releaseDebugInfo id) := by
  unfold releaseDebugInfo
  split
  · exact .refl file
  · exact .debugInfos fun valid => valid.remove id

theorem edited_releaseCode (file : DexFile) (id : Id CodeItem) : file.Edited (file.releaseCode id) := by
  unfold releaseCode
  split
  · exact .refl file
  split
  · exact .refl file
  · rename_i code codes removed
    have released : file.Edited { file with codes } :=
      .codes fun valid => by
        have valid := valid.remove id
        rwa [removed] at valid
    cases code.debugInfo.item with
    | none => exact released
    | some info => exact released.trans (edited_releaseDebugInfo _ info)

theorem edited_releaseClassData (file : DexFile) (id : Id ClassData) :
    file.Edited (file.releaseClassData id) := by
  unfold releaseClassData
  split
  · exact .refl file
  split
  · exact .refl file
  · rename_i data classData removed
    have released : file.Edited { file with classData } :=
      .classData fun valid => by
        have valid := valid.remove id
        rwa [removed] at valid
    refine released.trans ?_
    generalize ({ file with classData } : DexFile) = between
    induction data.methods.filterMap (·.code.item) generalizing between with
    | nil => exact .refl between
    | cons code rest ih => exact (edited_releaseCode between code).trans (ih _)

/-- A class definition that goes away. -/
theorem Sound.edited_dropClass (sound : file.Sound) (id : Id ClassDef) :
    file.Edited { file with classDefs := (file.classDefs.remove id).2 } := by
  have valid : file.classDefs.Valid := sound.valid .classDef
  have gone := valid.item?_remove id
  have defined : (file.classDefs.remove id).2.keyOf? (fun item => item.type.item) =
      Function.update file.outline.defined id none := by
    funext other
    rw [Section.keyOf?, gone, Function.update_apply]
    split <;> rfl
  refine { sound := fun _ => ?_, shorties := fun _ => .rfl, titles := fun _ other name found => .inl ?_ }
  · refine sound.withMembers (valid.remove id) (sound.valid .classData) (sound.valid .codeItem)
      (sound.valid .debugInfo) (fun other item found => ?_) (defined ▸ sound.outline.removeClass id)
    rw [gone] at found
    split at found
    · cases found
    · exact sound.complete.classes other item found
  · obtain ⟨type, here, named⟩ := Option.bind_eq_some_iff.1 found
    change (file.classDefs.remove id).2.keyOf? (fun item => item.type.item) other = some type at here
    rw [defined, Function.update_apply] at here
    split at here
    · cases here
    · exact Option.bind_eq_some_iff.2 ⟨type, here, named⟩

theorem edited_removeClass (id : Id ClassDef) (file : DexFile) :
    (removeClass id).Leads Edited file := by
  refine edited_of_sound fun sound => ?_
  unfold removeClass
  refine .get ?_
  split
  · exact ⟨.refl file⟩
  · rename_i item classDefs removed
    have dropped := sound.edited_dropClass id
    rw [removed] at dropped
    refine ⟨?_⟩
    change file.Edited (item.classData.item.elim _ _)
    cases item.classData.item with
    | none => exact dropped
    | some data => exact dropped.trans (edited_releaseClassData _ data)

theorem edited_shareDebugInfo (file : DexFile) : file.Edited file.shareDebugInfo.2 := by
  unfold shareDebugInfo
  refine (Edited.codes fun valid => valid.map _).trans (.debugInfos fun valid => ?_)
  generalize duplicates [] file.debugInfos.entries = replaced
  change file.debugInfos.Valid at valid
  generalize file.debugInfos = infos at valid
  induction replaced generalizing infos with
  | nil => exact valid
  | cons pair rest ih => exact ih _ (valid.remove pair.1)

end DexFile
end DexArsc.Dex
