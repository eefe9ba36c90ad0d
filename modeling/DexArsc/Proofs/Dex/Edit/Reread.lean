/-
A file that is reached by edits is read back from its bytes. Every edit keeps what reading needs: no section is kept
as bytes, and classes, members, code and debug information have a byte form in which every reference names an item
or nothing.
-/

import DexArsc.Proofs.Dex.Code.Read
import DexArsc.Proofs.Dex.Code.Renumber
import DexArsc.Proofs.Dex.Edit.Reached
import DexArsc.Proofs.Dex.File.Built

namespace DexArsc.Dex

/-- References that name an item or nothing. -/
def RefTest.linked : RefTest where
  string := IndexRef.Linked
  type := IndexRef.Linked
  proto := IndexRef.Linked
  field := IndexRef.Linked
  method := IndexRef.Linked
  typeList := OffsetRef.Linked
  classData := OffsetRef.Linked
  code := OffsetRef.Linked
  debugInfo := OffsetRef.Linked

theorem RefTest.Kept.linked (file : DexFile) : RefTest.linked.Kept file where
  string items _ _ linked := linked.refresh items
  type items _ _ linked := linked.refresh items
  proto items _ _ linked := linked.refresh items
  field items _ _ linked := linked.refresh items
  method items _ _ linked := linked.refresh items
  typeList items _ _ linked := linked.refresh items
  classData items _ _ linked := linked.refresh items
  code items _ _ linked := linked.refresh items
  debugInfo items _ _ linked := linked.refresh items

theorem RefTest.linked_implies_faithful (file : DexFile) : RefTest.linked.Implies (.faithful file) where
  string _ linked := linked.faithful _
  type _ linked := linked.faithful _
  proto _ linked := linked.faithful _
  field _ linked := linked.faithful _
  method _ linked := linked.faithful _
  typeList _ linked := linked.faithful _
  classData _ linked := linked.faithful _
  code _ linked := linked.faithful _
  debugInfo _ linked := linked.faithful _

theorem IndexRef.linked_ofId {α : Type} (id : Id α) : (IndexRef.ofId id).Linked :=
  fun none => by cases none

theorem OffsetRef.linked_ofId {α : Type} (id : Id α) : (OffsetRef.ofId id).Linked :=
  fun none => by cases none

/-- An item in its form whose references name items or nothing. -/
def Part.Storable (part : Part) (item : part.Item) : Prop :=
  part.Refs .linked item ∧ part.Shaped item

theorem Part.Follows.storable {file : DexFile} {part : Part} {item image : part.Item}
    (follows : part.Follows file item image) (storable : part.Storable item) : part.Storable image :=
  ⟨follows.kept _ (.linked file) storable.1, follows.shaped storable.2⟩

/-- Code that can be stored once it is linked: its try blocks name its handlers, each handler catches something, and
every operand, exception type and debug reference names an item. -/
structure CodeItem.Addable (code : CodeItem) (file : DexFile) : Prop where
  guarded : code.Guarded
  linked : ∀ linked, code.link file.ids = .ok linked → (linked.linkDebugInfo file.debugInfos).Refs .linked

/-- Debug information that can be stored once it is linked: its events are in the order of their addresses, and every
name is absent or names an item. -/
structure DebugInfo.Addable (info : DebugInfo) (file : DexFile) : Prop where
  sound : info.sequence.Sound
  linked : (info.link file.strings.items file.types.items).Refs .linked

/-- Linked code knows the operands of its units. -/
theorem CodeItem.scanned_of_link {code linked : CodeItem} {ids : IdSections} (run : code.link ids = .ok linked) :
    linked.Scanned := by
  obtain ⟨found, scan, _⟩ := Except.bind_eq_ok.1 run
  obtain ⟨references, operands, same, _⟩ := linkOperands_of_inside ids (operands_eq_ok scan).1
  cases (link_eq_ok scan operands).symm.trans run
  exact ⟨found, scan, same.symm⟩

theorem CodeItem.Guarded.mapTypes {code : CodeItem} (guarded : code.Guarded)
    (change : IndexRef TypeItem → IndexRef TypeItem) (references : List OperandRef) (debugInfo : OffsetRef DebugInfo) :
    CodeItem.Guarded { code with
      references, debugInfo, handlers := code.handlers.map (CatchHandler.mapTypes change) } where
  few := guarded.few
  handled := by
    rintro _ inside
    obtain ⟨handler, before, rfl⟩ := List.mem_map.1 inside
    exact (guarded.handled handler before).imp (fun some none => some (List.map_eq_nil_iff.1 none)) id
  used none := List.map_eq_nil_iff.2 (guarded.used none)
  named block inside := by
    rw [List.length_map]
    exact guarded.named block inside

/-- Code that may be added is stored. -/
theorem CodeItem.Addable.storable {code linked : CodeItem} {file : DexFile} (addable : code.Addable file)
    (run : code.link file.ids = .ok linked) : Part.Storable .codeItem (linked.linkDebugInfo file.debugInfos) := by
  refine ⟨addable.linked linked run, ?_, ?_⟩
  · obtain ⟨found, scan, same⟩ := scanned_of_link run
    exact ⟨found, scan, same⟩
  · obtain ⟨found, scan, rest⟩ := Except.bind_eq_ok.1 run
    obtain ⟨references, _, same⟩ := Except.bind_eq_ok.1 rest
    cases same
    exact addable.guarded.mapTypes ..

namespace DexFile

variable {file between final third : DexFile}

/-- No section is kept as bytes, and classes, members, code and debug information can be stored. -/
structure MembersStorable (file : DexFile) : Prop where
  modelled : file.Modelled
  classDefs : file.classDefs.All (Part.Storable .classDef)
  classData : file.classData.All (Part.Storable .classData)
  codes : file.codes.All (Part.Storable .codeItem)
  debugInfos : file.debugInfos.All (Part.Storable .debugInfo)

/-- What can be stored stays so. -/
def Stores (file final : DexFile) : Prop :=
  file.MembersStorable → final.MembersStorable

namespace Stores

theorem refl (file : DexFile) : file.Stores file :=
  id

theorem trans (before : file.Stores between) (behind : between.Stores final) : file.Stores final :=
  behind ∘ before

theorem of_keeps (keeps : file.Keeps final) : file.Stores final := by
  intro storable
  rw [keeps.others]
  exact ⟨storable.modelled, storable.classDefs, storable.classData, storable.codes, storable.debugInfos⟩

theorem of_follows (follows : file.Follows final) : file.Stores final := by
  intro storable
  have all (part : Part) (before : (part.items file).All part.Storable) : (part.items final).All part.Storable :=
    (follows.parts part).all before fun same => same.storable
  exact ⟨follows.modelled storable.modelled, all .classDef storable.classDefs, all .classData storable.classData,
    all .codeItem storable.codes, all .debugInfo storable.debugInfos⟩

/-- Interning changes ids and type lists only. -/
theorem of_interns {α : Type} {step : Step DexFile α} {holds : α → Outline → Prop}
    (interns : Interns step file holds) :
    step.Ensures file (fun _ final => file.Stores final ∧ final.Sound) file.Stores :=
  Step.Ensures.imp interns (fun _ _ ⟨interned, _⟩ => ⟨of_keeps interned.grows.keeps, interned.sound⟩)
    fun _ interned => of_keeps interned.grows.keeps

theorem pushClass {item : ClassDef} (storable : Part.Storable .classDef item) :
    file.Stores { file with classDefs := (file.classDefs.push item).2 } :=
  fun before => { before with classDefs := before.classDefs.push storable }

theorem modifyData (id : Id ClassData) {change : ClassData → ClassData}
    (refs : ∀ data, data.Refs .linked → (change data).Refs .linked) :
    file.Stores { file with classData := file.classData.modify id change } :=
  fun before => { before with
    classData := before.classData.modify fun data found => ⟨refs data (before.classData _ data found).1, trivial⟩ }

theorem addCode {code : CodeItem} (addable : code.Addable file) : (addCode code).Leads Stores file := by
  unfold DexFile.addCode
  exact .get (.check (.refl file) fun linked run =>
    ⟨fun before => { before with codes := before.codes.push (addable.storable run) }⟩)

theorem addDebugInfo {info : DebugInfo} (addable : info.Addable file) : (addDebugInfo info).Leads Stores file :=
  ⟨fun before => { before with
    debugInfos := before.debugInfos.push ⟨addable.linked, addable.sound.mapRefs _ _⟩ }⟩

theorem memberData (id : Id ClassDef) (file : DexFile) : (memberData id).Leads Stores file := by
  unfold DexFile.memberData
  refine .get ?_
  split
  · exact .fail (.refl file) _
  · exact .pure (.refl file) _
  · refine ⟨fun before => { before with
      classData := before.classData.push ⟨⟨List.forall_mem_nil _, List.forall_mem_nil _⟩, trivial⟩
      classDefs := before.classDefs.modify fun item found => ?_ }⟩
    obtain ⟨⟨type, superclass, interfaces, sourceFile, _⟩, shaped⟩ := before.classDefs id item found
    exact ⟨⟨type, superclass, interfaces, sourceFile, fun none => by cases none⟩, shaped⟩

theorem addField (sound : file.Sound) (id : Id ClassDef) (key : FieldKey) (flags : UInt32) :
    (addField id key flags).Leads Stores file := by
  unfold DexFile.addField
  refine .get (.check (.refl file) fun _ _ => ?_)
  refine .bind_of_ensures trans (of_interns (sound.internField key)) fun field between _ => ?_
  refine .bind trans (memberData id between) fun data final _ => .get ?_
  simp only
  split
  · exact ⟨.refl final⟩
  · exact ⟨modifyData data fun _ refs => refs.addField (IndexRef.linked_ofId field)⟩

theorem addMethod (sound : file.Sound) (id : Id ClassDef) (key : MethodKey) (flags : UInt32) (code : Option CodeItem)
    (addable : ∀ item ∈ code, ∀ method between, DexFile.internMethod key file = .ok method between →
      item.Addable between) : (addMethod id key flags code).Leads Stores file := by
  unfold DexFile.addMethod
  refine .get (.check (.refl file) fun _ _ => ?_)
  have interned : (DexFile.internMethod key).Ensures file (fun method between => file.Stores between ∧
      ∀ item ∈ code, item.Addable between) file.Stores := by
    have interns := of_interns (sound.internMethod key)
    cases run : DexFile.internMethod key file with
    | ok method between => exact .of_ok run ⟨(interns.ok run).1, fun item inside => addable item inside _ _ run⟩
    | error fault between => exact .of_error run (interns.error run)
  refine .bind_of_ensures trans interned fun method between addable => .get ?_
  simp only
  split
  · exact ⟨.refl between⟩
  have coded : (code.mapM DexFile.addCode).Leads Stores between := by
    cases code with
    | none => exact .pure (.refl between) _
    | some code => exact .map (addCode (addable code rfl)) _
  refine .bind trans coded fun code first _ => ?_
  refine .bind trans (memberData id first) fun data final _ =>
    ⟨modifyData data fun _ refs => refs.addMethod (IndexRef.linked_ofId method) ?_⟩
  cases code with
  | none => exact fun _ => rfl
  | some id => exact OffsetRef.linked_ofId id

theorem defineClass (sound : file.Sound) (descriptor : String) (flags : UInt32) (superclass : Option String) :
    (defineClass descriptor flags superclass).Leads Stores file := by
  unfold DexFile.defineClass
  refine .check (.refl file) fun _ _ => ?_
  simp only
  split
  case isFalse => exact ⟨.refl file⟩
  have checked : (superclass.forM fun descriptor =>
      (liftM (checkTypeDescriptor descriptor) : Step DexFile Unit)).Ensures file
        (fun _ between => file.Stores between ∧ between = file) file.Stores := by
    cases superclass with
    | none => exact .of_ok rfl ⟨.refl file, rfl⟩
    | some descriptor => exact .monadLift (fun _ _ => ⟨.refl file, rfl⟩) (.refl file)
  refine .bind_of_ensures trans checked fun _ between same => .get ?_
  subst same
  split
  · exact ⟨.refl between⟩
  refine .bind_of_ensures trans (of_interns (sound.internType descriptor)) fun type first sound => ?_
  have above : (superclass.mapM DexFile.internType).Leads Stores first := by
    cases superclass with
    | none => exact .pure (.refl first) _
    | some descriptor => exact .map ⟨(of_interns (sound.internType descriptor)).imp (fun _ _ => And.left) fun _ => id⟩ _
  refine .bind trans above fun superclass final _ => ⟨pushClass ⟨⟨IndexRef.linked_ofId type, ?_, fun _ => rfl,
    fun _ => rfl, fun _ => rfl⟩, rfl, rfl⟩⟩
  cases superclass with
  | none => exact fun _ => rfl
  | some id => exact IndexRef.linked_ofId id

theorem removeClass (sound : file.Sound) (id : Id ClassDef) : (removeClass id).Leads Stores file := by
  refine .of_ends fun final ends storable => ?_
  rcases ends with ⟨item, run⟩ | ⟨fault, run⟩
  · obtain ⟨_, classDefs, classData, codes, debugInfos, others⟩ := removesClass sound.valid run
    rw [others]
    exact {
      modelled := storable.modelled
      classDefs := fun other image found => storable.classDefs other image (classDefs.item?_eq_some.1 found).1
      classData := fun other data found => storable.classData other data (classData.item?_eq_some.1 found).1
      codes := fun other code found => storable.codes other code (codes.item?_eq_some.1 found).1
      debugInfos := fun other info found => storable.debugInfos other info (debugInfos.item?_eq_some.1 found).1 }
  · rw [removeClass_apply] at run
    split at run
    · cases run
      exact storable
    · cases run

theorem shareDebugInfo (infos : file.debugInfos.Valid) : file.Stores file.shareDebugInfo.2 := by
  intro storable
  unfold DexFile.shareDebugInfo
  generalize duplicates [] file.debugInfos.entries = replaced
  have loses := (Section.Loses.nothing infos).removeAll infos (replaced.map Prod.fst)
  rw [List.foldl_map] at loses
  exact { storable with
    codes := by
      refine Section.all_map.2 fun id (code : CodeItem) found => ?_
      obtain ⟨⟨_, references, handlers⟩, scanned, guarded⟩ := storable.codes id code found
      split
      · obtain ⟨few, handled, used, named⟩ := guarded
        exact ⟨⟨(fun none => by cases none), references, handlers⟩, scanned, few, handled, used, named⟩
      · exact storable.codes id code found
    debugInfos := fun id info found => storable.debugInfos id info (loses.item?_eq_some.1 found).1 }

end Stores

end DexFile

namespace Edit

/-- Code and debug information that an edit adds can be stored, where it is linked. The code of a method is linked
behind the interning of the key. -/
def Storable (file : DexFile) : Edit → Prop
  | addCode code => code.Addable file
  | addMethod _ key _ code => ∀ item ∈ code, ∀ method between, DexFile.internMethod key file = .ok method between →
      item.Addable between
  | addDebugInfo info => info.Addable file
  | _ => True

end Edit

namespace DexFile

variable {file final : DexFile} {options : WriteOptions} {bytes : Bytes}

/-- Members can be stored behind every edit, whether it succeeds or fails. -/
theorem Stores.after (sound : file.Sound) {edit : Edit} (storable : edit.Storable file) :
    file.Stores (edit.after file) := by
  have interned {α : Type} {step : Step DexFile α} {holds : α → Outline → Prop}
      (interns : Interns step file holds) : (Functor.discard step).Leads Stores file :=
    .discard ⟨(of_interns interns).imp (fun _ _ => And.left) fun _ => id⟩
  have ends := edit.ends_after file
  cases edit with
  | internString text => exact (interned (sound.internString text)).ends ends
  | internType descriptor => exact (interned (sound.internType descriptor)).ends ends
  | internTypeList descriptors => exact (interned (sound.internTypeList descriptors)).ends ends
  | internProto key => exact (interned (sound.internProto key)).ends ends
  | internField key => exact (interned (sound.internField key)).ends ends
  | internMethod key => exact (interned (sound.internMethod key)).ends ends
  | renameString id text =>
      have leads : (DexFile.renameString id text).Leads Stores file :=
        ⟨(sound.renameString id text).imp (fun _ _ here => of_keeps here.2.1) fun _ here => of_keeps here.2.1⟩
      exact leads.ends ends
  | renameType id descriptor =>
      have leads : (DexFile.renameType id descriptor).Leads Stores file :=
        ⟨(sound.renameType id descriptor).imp (fun _ _ renamed => of_keeps renamed.keeps)
          fun _ renamed => of_keeps renamed.keeps⟩
      exact leads.ends ends
  | defineClass descriptor flags superclass => exact (defineClass sound descriptor flags superclass).discard.ends ends
  | addField id key flags => exact (addField sound id key flags).discard.ends ends
  | addMethod id key flags code => exact (addMethod sound id key flags code storable).discard.ends ends
  | addCode code => exact (addCode storable).discard.ends ends
  | addDebugInfo info => exact (addDebugInfo storable).discard.ends ends
  | removeClass id => exact (removeClass sound id).discard.ends ends
  | shareDebugInfo =>
      have leads : (Edit.step .shareDebugInfo).Leads Stores file := .modify (shareDebugInfo (sound.valid .debugInfo))
      exact leads.ends ends
  | sortIds =>
      have leads : (Edit.step .sortIds).Leads Stores file :=
        .modify (of_follows (follows_sortIds sound.valid sound.strings))
      exact leads.ends ends
  | refresh options => exact of_follows ((Follows.refresh options file).ends ends)
  | toBytes options => exact of_follows ((Follows.toBytes options file).discard.ends ends)

theorem Reached.built {allowed : DexFile → Edit → Prop} (reached : file.Reached allowed) : file.Built := by
  induction reached with
  | new => exact .new
  | edit _ _ built => exact built.edit _

theorem Reached.membersStorable (reached : file.Reached Edit.Storable) : file.MembersStorable := by
  induction reached with
  | new =>
      refine ⟨fun entry inside => ?_, ?_, ?_, ?_, ?_⟩
      · obtain ⟨kind, _, rfl⟩ := List.mem_map.1 inside
        exact ⟨kind, rfl⟩
      all_goals
        intro id item found
        cases found
  | edit reached allowed storable => exact Stores.after reached.sound allowed storable

namespace MembersStorable

variable (storable : file.MembersStorable) (sound : file.Sound)
include storable sound

/-- In a sound file, what keys are built on names items. -/
theorem linked (part : Part) : (part.items file).All (part.Refs .linked) := by
  intro id item found
  cases part with
  | typeId => exact (sound.names_of_type found).live.absent
  | protoId =>
      obtain ⟨shorty, returnType, parameters⟩ := sound.names_of_proto found
      exact ⟨shorty.live.absent, returnType.live.absent, parameters.absent⟩
  | fieldId =>
      obtain ⟨owner, type, name⟩ := sound.names_of_field found
      exact ⟨owner.live.absent, type.live.absent, name.live.absent⟩
  | methodId =>
      obtain ⟨owner, proto, name⟩ := sound.names_of_method found
      exact ⟨owner.live.absent, proto.live.absent, name.live.absent⟩
  | typeList => exact fun ref inside => (sound.names_of_list found inside).live.absent
  | classDef => exact (storable.classDefs id item found).1
  | classData => exact (storable.classData id item found).1
  | codeItem => exact (storable.codes id item found).1
  | debugInfo => exact (storable.debugInfos id item found).1

/-- A written file can be read if the handler lists of its code are short. -/
theorem legible (current : Current options file)
    (short : file.codes.All fun code => (CodeItem.handlerBytes code.handlers).length < 0x10000) : file.Legible where
  map := storable.modelled.mapSound current
  strings id item found := by
    obtain ⟨text, decoded⟩ := Option.isSome_iff_exists.1 (sound.complete.strings id item found)
    cases value : item.value with
    | decoded text => trivial
    | raw size bytes =>
        rw [value] at decoded
        cases decoded
  writable part id item found := by
    cases part with
    | fieldId => exact current.indexed.short.fields id item found
    | methodId => exact current.indexed.short.methods id item found
    | typeList => exact current.indexed.short.typeLists id item found
    | codeItem =>
        obtain ⟨_, _, few, handled, used, named⟩ := storable.codes id item found
        exact CodeItem.writable_of_short few named used (short id item found) handled
    | debugInfo => exact (storable.debugInfos id item found).2
    | typeId | protoId | classDef | classData => trivial
  faithful part := (storable.linked sound part).imp fun _ refs => refs.imp (RefTest.linked_implies_faithful file)
  scanned id code found := (storable.codes id code found).2.1
  keys := sound.keysDistinct

end MembersStorable

/-- A file that is reached by edits is read back from its bytes with the same contents, and written again as the same
bytes, as long as the handler list of each code stays below 64 KiB. -/
theorem reread_of_reached (reached : file.Reached Edit.Storable) (run : toBytes options file = .ok bytes final)
    (short : final.codes.All fun code => (CodeItem.handlerBytes code.handlers).length < 0x10000) :
    ∃ again, read bytes {} = .ok again ∧ again.listing = final.listing ∧
      ∃ last, toBytes options again = .ok bytes last := by
  have later : final.Reached Edit.Storable := by
    have edited : ((Edit.toBytes options).after file).Reached Edit.Storable := reached.edit trivial
    rwa [show (Edit.toBytes options).after file = final from Edit.after_of_ok rfl run] at edited
  have storable := later.membersStorable
  have written := written_of_toBytes reached.built.regular run
  have legible := storable.legible later.sound written.current short
  obtain ⟨again, readBack, reread⟩ := read_of_written written legible (storable.modelled.rawsRead written.current)
  refine ⟨again, readBack, reread.listing written.stable legible.writable, ?_⟩
  refine reread.toBytes written legible.scanned storable.modelled fun id item found => ?_
  obtain ⟨annotations, staticValues⟩ := (storable.classDefs id item found).2
  rw [annotations, staticValues]
  exact ⟨rfl, rfl⟩

/-- Code with a handler that catches everything, next to its debug information. -/
theorem reread_of_reached_code :
    let code : CodeItem := {
      units := #[0x000e]
      debugInfo := .ofId ⟨0⟩
      tries := [⟨0, 1, 0⟩]
      handlers := [{ catchAll := some 0 }] }
    let file := (Edit.addCode code).after ((Edit.addDebugInfo {}).after {})
    let options : WriteOptions := { updateChecksum := false }
    ∃ bytes final, toBytes options file = .ok bytes final ∧ ∃ again, read bytes {} = .ok again ∧
      again.listing = final.listing ∧ ∃ last, toBytes options again = .ok bytes last := by
  intro code file options
  have info : DebugInfo.Addable {} {} := by
    refine ⟨⟨(fun dirty => by cases dirty), fun _ => rfl, fun _ => List.forall_mem_nil _⟩, ?_, ?_⟩
    · exact List.forall_mem_nil _
    · exact List.forall_mem_nil _
  have added : code.Addable ((Edit.addDebugInfo {}).after {}) := by
    refine ⟨⟨by decide, by decide, by decide, by decide⟩, fun linked run => ?_⟩
    have same : code.link ((Edit.addDebugInfo {}).after {}).ids = .ok code := rfl
    cases same.symm.trans run
    refine ⟨OffsetRef.linked_ofId _, List.forall_mem_nil _, fun handler inside entry listed => ?_⟩
    cases List.mem_singleton.1 inside
    cases listed
  have reached : file.Reached Edit.Storable := .edit (.edit .new info) added
  have runs : (match toBytes options file with
      | .ok _ final => final.codes.entries.map fun entry => (CodeItem.handlerBytes entry.2.handlers).length
      | .error _ _ => []) = [3] := by
    decide +kernel
  cases run : toBytes options file with
  | error fault stop =>
      rw [run] at runs
      cases runs
  | ok bytes final =>
      rw [run] at runs
      dsimp only at runs
      refine ⟨bytes, final, rfl, reread_of_reached reached run fun id code found => ?_⟩
      have valid := (written_of_toBytes reached.built.regular run).current.ready.orderly.valid .codeItem
      have listed : (CodeItem.handlerBytes code.handlers).length ∈
          final.codes.entries.map fun entry => (CodeItem.handlerBytes entry.2.handlers).length :=
        List.mem_map.2 ⟨(id, code), valid.mem_entries.2 found, rfl⟩
      rw [runs] at listed
      dsimp only
      rw [List.mem_singleton.1 listed]
      decide

end DexFile
end DexArsc.Dex
