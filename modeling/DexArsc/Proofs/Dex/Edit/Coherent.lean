/-
Coherent files. Their keys are sound whatever their classes define, different lists name different types,
and the members of classes are live. Every edit keeps this, and one that renames nothing keeps all keys.
-/

import DexArsc.Proofs.Dex.Edit.Anchored
import DexArsc.Proofs.Dex.Edit.Substitution
import DexArsc.Proofs.Dex.File.HiddenApi

namespace DexArsc.Dex

/-- Fields and methods that are live, and any other references. -/
def RefTest.members (file : DexFile) : RefTest where
  string _ := True
  type _ := True
  proto _ := True
  field ref := ref.Anchored file.fields.items
  method ref := ref.Anchored file.methods.items
  typeList _ := True
  classData _ := True
  code _ := True
  debugInfo _ := True

theorem RefTest.Kept.members (file : DexFile) : (RefTest.members file).Kept file where
  string _ _ _ here := here
  type _ _ _ here := here
  proto _ _ _ here := here
  field items _ _ anchored := anchored.refresh items
  method items _ _ anchored := anchored.refresh items
  typeList _ _ _ here := here
  classData _ _ _ here := here
  code _ _ _ here := here
  debugInfo _ _ _ here := here

/-- Fields and methods of a file that are live in another one. -/
theorem RefTest.members_implies {file final : DexFile}
    (fields : ∀ id, (file.fields.items.item? id).isSome → (final.fields.items.item? id).isSome)
    (methods : ∀ id, (file.methods.items.item? id).isSome → (final.methods.items.item? id).isSome) :
    (RefTest.members file).Implies (.members final) where
  string _ here := here
  type _ here := here
  proto _ here := here
  field _ anchored id named := fields id (anchored id named)
  method _ anchored id named := methods id (anchored id named)
  typeList _ here := here
  classData _ here := here
  code _ here := here
  debugInfo _ here := here

variable {file between final third : DexFile}

/-- Items that follow each other do so without the class definitions. -/
theorem Part.Follows.unclassed {part : Part} {item image : part.Item} (follows : part.Follows file item image) :
    part.Follows file.unclassed item image where
  traced := by
    have traced := follows.traced
    cases part <;> exact traced
  kept test kept := follows.kept test { kept with }
  shaped := follows.shaped

theorem Pooled.keyOf?_unclassed (file : DexFile) (kind : Pooled) :
    kind.keyOf? file.unclassed = kind.keyOf? file := by
  cases kind <;> rfl

theorem Pooled.outlined?_unclassed (file : DexFile) (kind : Pooled) :
    kind.outlined? file.unclassed.outline = kind.outlined? file.outline := by
  cases kind <;> rfl

namespace DexFile

/-- Files that follow each other do so without their class definitions. -/
theorem Follows.unclassed (follows : file.Follows final) : file.unclassed.Follows final.unclassed where
  parts part := by
    have same := follows.parts part
    cases part with
    | classDef => exact .refl Part.Follows.refl _
    | _ => exact ⟨same.kind, same.valid, same.live, fun id item image here there =>
        (same.items id item image here there).unclassed⟩
  strings := follows.strings
  stringKeys := follows.stringKeys
  typeKeys := follows.typeKeys
  protoKeys := follows.protoKeys
  fieldKeys := follows.fieldKeys
  methodKeys := follows.methodKeys
  header := follows.header
  raws := follows.raws
  modelled := follows.modelled
  distinct := follows.distinct
  sections := follows.sections
  classes := .refl _
  readClasses := follows.readClasses

/-- A step that changes the same items of a file and of one without class definitions. -/
theorem Appends.of_unclassed (appends : file.unclassed.Appends final.unclassed)
    (classes : final.classDefs = file.classDefs) : file.Appends final where
  items kind := by
    have items := appends.items kind
    cases kind <;> exact items
  others := by
    have others := congrArg (fun file : DexFile => { file with classDefs := final.classDefs }) appends.others
    rw [classes] at others
    exact (congrArg (fun classDefs => ({ final with classDefs } : DexFile)) classes).trans others

theorem SameItems.of_unclassed (same : file.unclassed.SameItems final.unclassed)
    (classes : final.classDefs = file.classDefs) : file.SameItems final where
  strings := same.strings
  types := same.types
  protos := same.protos
  fields := same.fields
  methods := same.methods
  others := by
    have others := congrArg (fun file : DexFile => { file with classDefs := final.classDefs }) same.others
    rw [classes] at others
    exact (congrArg (fun classDefs => ({ final with classDefs } : DexFile)) classes).trans others

theorem Recasts.of_unclassed {names types : String → String}
    (recasts : file.unclassed.Recasts names types final.unclassed)
    (classes : final.classDefs = file.classDefs) : file.Recasts names types final where
  keys kind id key found := by
    rw [← kind.keyOf?_unclassed] at found ⊢
    exact recasts.keys kind id key found
  strings := recasts.strings
  index kind other := by
    have index := recasts.index kind other
    cases kind <;> exact index
  others := by
    have others := congrArg (fun file : DexFile => { file with classDefs := final.classDefs }) recasts.others
    rw [classes] at others
    exact (congrArg (fun classDefs => ({ final with classDefs } : DexFile)) classes).trans others

theorem Turns.of_unclassed {names types : String → String} {old new : String}
    (turns : file.unclassed.Turns names types old new final.unclassed)
    (classes : final.classDefs = file.classDefs) : file.Turns names types old new final :=
  ⟨fun equal => (turns.same equal).of_unclassed classes, fun other => (turns.recasts other).of_unclassed classes⟩

/-- Keys that are sound whatever the classes define, lists that name different types, and live members. -/
structure Coherent (file : DexFile) : Prop where
  sound : file.unclassed.Sound
  lists : Separates file.outline.list
  members : file.classData.All (ClassData.Refs (.members file))

/-- The keys of a coherent file are read off its outline. -/
theorem Coherent.keyOf?_eq (coherent : file.Coherent) (kind : Pooled) :
    kind.keyOf? file = kind.outlined? file.outline := by
  rw [← kind.keyOf?_unclassed, Pooled.keyOf?_eq coherent.sound.complete, kind.outlined?_unclassed]

/-- What an edit of a coherent file keeps: it stays coherent, and every item has the key that it had. -/
structure Retains (file final : DexFile) : Prop where
  coherent : file.Coherent → final.Coherent
  keys : file.Coherent → ∀ kind : Pooled, Within (kind.keyOf? file) (kind.keyOf? final)

namespace Retains

theorem refl (file : DexFile) : file.Retains file :=
  ⟨fun coherent => coherent, fun _ _ => .refl _⟩

theorem trans (before : file.Retains between) (behind : between.Retains final) : file.Retains final where
  coherent coherent := behind.coherent (before.coherent coherent)
  keys coherent kind := (before.keys coherent kind).trans (behind.keys (before.coherent coherent) kind)

theorem of_outline (coherent : final.Coherent) (same : final.outline = file.outline) : file.Retains final where
  coherent _ := coherent
  keys before kind := by
    rw [before.keyOf?_eq, coherent.keyOf?_eq, same]
    exact .refl _

/-- Only coherent files count. -/
theorem of_coherent (holds : file.Coherent → file.Retains final) : file.Retains final :=
  ⟨fun coherent => (holds coherent).coherent coherent, fun coherent => (holds coherent).keys coherent⟩

/-- Other classes, members, code and debug information. -/
theorem withMembers {classDefs : Section ClassDef} {classData : Section ClassData} {codes : Section CodeItem}
    {debugInfos : Section DebugInfo} (dataValid : file.classData.Valid → classData.Valid)
    (codesValid : file.codes.Valid → codes.Valid) (debugValid : file.debugInfos.Valid → debugInfos.Valid)
    (members : file.Coherent → classData.All (ClassData.Refs (.members file))) :
    file.Retains (file.withMembers classDefs classData codes debugInfos) where
  coherent coherent := {
    sound := coherent.sound.withMembers (Section.valid_empty _) (dataValid (coherent.sound.valid .classData))
      (codesValid (coherent.sound.valid .codeItem)) (debugValid (coherent.sound.valid .debugInfo))
      coherent.sound.complete.classes coherent.sound.outline
    lists := coherent.lists
    members := members coherent }
  keys _ kind := by
    have same : kind.keyOf? (file.withMembers classDefs classData codes debugInfos) = kind.keyOf? file := by
      cases kind <;> rfl
    rw [same]
    exact .refl _

theorem classDefs (classDefs : Section ClassDef) : file.Retains { file with classDefs } :=
  withMembers id id id fun coherent => coherent.members

theorem codes {codes : Section CodeItem} (valid : file.codes.Valid → codes.Valid) :
    file.Retains { file with codes } :=
  withMembers id valid id fun coherent => coherent.members

theorem debugInfos {debugInfos : Section DebugInfo} (valid : file.debugInfos.Valid → debugInfos.Valid) :
    file.Retains { file with debugInfos } :=
  withMembers id id valid fun coherent => coherent.members

/-- New members of class data. -/
theorem modifyData (id : Id ClassData) {change : ClassData → ClassData}
    (refs : ∀ data, data.Refs (.members file) → (change data).Refs (.members file)) :
    file.Retains { file with classData := file.classData.modify id change } :=
  withMembers (fun valid => valid.modify id change) (fun valid => valid) (fun valid => valid) fun coherent =>
    coherent.members.modify fun data found => refs data (coherent.members id data found)

/-- New class data of a class. -/
theorem pushData (classDefs : Section ClassDef) :
    file.Retains { file with classData := (file.classData.push {}).2, classDefs } :=
  withMembers (fun valid => valid.push {}) id id fun coherent =>
    coherent.members.push ⟨List.forall_mem_nil _, List.forall_mem_nil _⟩

theorem of_follows (follows : file.Follows final) : file.Retains final := by
  refine of_coherent fun coherent => ?_
  have sound := coherent.sound.follow follows.unclassed
  have outline := coherent.sound.outline_follow follows.unclassed
  have lists : final.outline.list = file.outline.list := congrArg (fun outline => outline.list) outline
  have members := ((follows.parts .classData).all coherent.members fun same refs =>
    same.kept _ (.members file) refs).imp fun _ refs => refs.imp (RefTest.members_implies
      (fun id => ((follows.parts .fieldId).live id).trans) fun id => ((follows.parts .methodId).live id).trans)
  have after : final.Coherent := ⟨sound, lists ▸ coherent.lists, members⟩
  refine ⟨fun _ => after, fun _ kind => ?_⟩
  rw [coherent.keyOf?_eq, after.keyOf?_eq, ← kind.outlined?_unclassed file, ← kind.outlined?_unclassed final, outline]
  exact .refl _

end Retains

section

variable {kind : Pooled} {key : kind.Key} {id : Id kind.Item}

/-- What interning yields is an item with the key, and all other items are as they were. -/
theorem Coherent.interned (coherent : file.Coherent) (run : kind.intern key file = .ok id final) :
    file.Retains final ∧ file.Appends final ∧ kind.keyOf? final id = some key := by
  obtain ⟨rerun, classes⟩ := (kind.ignoresClasses key).ok run
  have grammar : kind.check key = .ok () := by
    cases grammar : kind.check key with
    | ok _ => rfl
    | error fault => cases run.symm.trans (kind.intern_of_fault grammar)
  obtain ⟨other, last, again, enlarges⟩ := kind.adds coherent.sound grammar
  cases rerun.symm.trans again
  obtain ⟨interned, named⟩ := (kind.interns coherent.sound key).ok rerun
  have appends := enlarges.toAppends.of_unclassed classes
  have members : final.classData.All (ClassData.Refs (.members final)) := by
    rw [appends.others]
    exact coherent.members.imp fun _ refs => refs.imp (RefTest.members_implies
      (fun id => ((appends.items .field).item).isSome) fun id => ((appends.items .method).item).isSome)
  have after : final.Coherent := ⟨interned.sound, enlarges.lists coherent.lists, members⟩
  refine ⟨⟨fun _ => after, fun _ kind => ?_⟩, appends, ?_⟩
  · rw [coherent.keyOf?_eq, after.keyOf?_eq, ← kind.outlined?_unclassed file, ← kind.outlined?_unclassed final]
    exact Pooled.within_outlined? interned.grows.outline kind
  · rw [after.keyOf?_eq, ← kind.outlined?_unclassed]
    exact named

/-- A key that follows the grammar is interned. -/
theorem Coherent.intern_ok (coherent : file.Coherent) (grammar : kind.check key = .ok ()) :
    ∃ id final, kind.intern key file = .ok id final := by
  obtain ⟨id, last, run, _⟩ := kind.adds coherent.sound grammar
  exact ⟨id, _, (kind.ignoresClasses key).of_ok run⟩

/-- A key that is refused leaves the file as it is. -/
theorem Coherent.refused {fault : Fault} (coherent : file.Coherent)
    (run : kind.intern key file = .error fault final) : final = file := by
  cases grammar : kind.check key with
  | ok _ =>
      obtain ⟨id, last, done⟩ := coherent.intern_ok grammar
      cases run.symm.trans done
  | error other =>
      cases run.symm.trans (kind.intern_of_fault grammar)
      rfl

/-- A key that an item has yields this item, and all items stay as they are. -/
theorem Coherent.known (coherent : file.Coherent) (named : kind.keyOf? file id = some key) :
    ∃ final, kind.intern key file = .ok id final ∧ file.SameItems final := by
  rw [coherent.keyOf?_eq, ← kind.outlined?_unclassed] at named
  obtain ⟨last, run, same⟩ := kind.finds coherent.sound coherent.lists named
  have rerun := (kind.ignoresClasses key).of_ok run
  obtain ⟨again, _⟩ := (kind.ignoresClasses key).ok rerun
  rw [(EStateM.Result.ok.inj (run.symm.trans again)).2] at same
  exact ⟨_, rerun, .of_unclassed same rfl⟩

/-- Every live item has a key that follows the grammar. -/
theorem Coherent.keyOf?_of_live (coherent : file.Coherent) (live : ((kind.items file).item? id).isSome) :
    ∃ key, kind.keyOf? file id = some key ∧ kind.check key = .ok () := by
  rw [← kind.keyOf?_unclassed]
  refine kind.keyOf?_of_live coherent.sound ?_
  cases kind <;> exact live

/-- Interning in a coherent file keeps all keys and yields an item with the key. -/
theorem Coherent.interns (coherent : file.Coherent) (kind : Pooled) (key : kind.Key) :
    (kind.intern key).Ensures file
      (fun id final => file.Retains final ∧ final.Coherent ∧ kind.keyOf? final id = some key) file.Retains := by
  unfold Step.Ensures
  cases run : kind.intern key file with
  | ok id final =>
      obtain ⟨retains, _, named⟩ := coherent.interned run
      exact ⟨retains, retains.coherent coherent, named⟩
  | error fault final => exact coherent.refused run ▸ .refl file

theorem retains_intern (kind : Pooled) (key : kind.Key) (file : DexFile) :
    (kind.intern key).Leads Retains file :=
  .of_ends fun _ ends => .of_coherent fun coherent =>
    (Step.Leads.mk ((coherent.interns kind key).imp (fun _ _ here => here.1) fun _ retains => retains)).ends ends

end

variable {α : Type} {step : Step DexFile α}

/-- It is enough that an edit keeps the keys of coherent files. -/
theorem retains_of_coherent (holds : file.Coherent → step.Leads Retains file) : step.Leads Retains file :=
  .of_ends fun _ ends => .of_coherent fun coherent => (holds coherent).ends ends

/-- An id keeps its key behind a step that keeps all keys. -/
theorem Coherent.carries (coherent : file.Coherent) (leads : step.Leads Retains file) {kind : Pooled}
    {id : Id kind.Item} {key : kind.Key} (named : kind.keyOf? file id = some key) :
    step.Ensures file (fun _ final => file.Retains final ∧ final.Coherent ∧ kind.keyOf? final id = some key)
      file.Retains :=
  leads.ensures.imp (fun _ _ retains => ⟨retains, retains.coherent coherent, retains.keys coherent kind id key named⟩)
    fun _ retains => retains

theorem retains_memberData (id : Id ClassDef) (file : DexFile) : (memberData id).Leads Retains file := by
  unfold memberData
  refine .get ?_
  split
  · exact .fail (.refl file) _
  · exact .pure (.refl file) _
  · exact .bind Retains.trans ⟨.pushData _⟩ fun _ file _ => .pure (.refl file) _

theorem retains_addCode (code : CodeItem) (file : DexFile) : (addCode code).Leads Retains file := by
  unfold addCode
  exact .get (.check (.refl file) fun _ _ => ⟨.codes fun valid => valid.push _⟩)

theorem retains_addField (id : Id ClassDef) (key : FieldKey) (flags : UInt32) (file : DexFile) :
    (addField id key flags).Leads Retains file := by
  refine retains_of_coherent fun coherent => ?_
  unfold addField
  refine .get (.check (.refl file) fun _ _ => ?_)
  refine .bind_of_ensures Retains.trans (coherent.interns .field key) fun field between ⟨coherent, named⟩ => ?_
  refine .bind_of_ensures Retains.trans (coherent.carries (retains_memberData id between) named)
    fun data final ⟨_, named⟩ => .get ?_
  have live := Section.isSome_of_keyOf? (Option.isSome_iff_exists.2 ⟨key, named⟩)
  simp only
  split
  · exact ⟨.refl final⟩
  · exact ⟨.modifyData data fun _ refs => refs.addField (IndexRef.anchored_ofId live)⟩

theorem retains_addMethod (id : Id ClassDef) (key : MethodKey) (flags : UInt32) (code : Option CodeItem)
    (file : DexFile) : (addMethod id key flags code).Leads Retains file := by
  refine retains_of_coherent fun coherent => ?_
  unfold addMethod
  refine .get (.check (.refl file) fun _ _ => ?_)
  refine .bind_of_ensures Retains.trans (coherent.interns .method key)
    fun method between ⟨coherent, named⟩ => .get ?_
  simp only
  split
  · exact ⟨.refl between⟩
  have coded : (code.mapM addCode).Leads Retains between := by
    cases code with
    | none => exact .pure (.refl between) _
    | some code => exact .bind Retains.trans (retains_addCode code between) fun _ file _ => .pure (.refl file) _
  refine .bind_of_ensures Retains.trans (coherent.carries coded named) fun code first ⟨coherent, named⟩ => ?_
  refine .bind_of_ensures Retains.trans (coherent.carries (retains_memberData id first) named)
    fun data final ⟨_, named⟩ => ⟨.modifyData data fun _ refs => ?_⟩
  have live := Section.isSome_of_keyOf? (Option.isSome_iff_exists.2 ⟨key, named⟩)
  exact refs.addMethod (IndexRef.anchored_ofId live) trivial

theorem retains_defineClass (descriptor : String) (flags : UInt32) (superclass : Option String) (file : DexFile) :
    (defineClass descriptor flags superclass).Leads Retains file := by
  unfold defineClass
  refine .check (.refl file) fun _ _ => ?_
  simp only
  split
  case isFalse => exact ⟨.refl file⟩
  have checked : (superclass.forM fun descriptor =>
      (liftM (checkTypeDescriptor descriptor) : Step DexFile Unit)).Leads Retains file := by
    cases superclass with
    | none => exact .pure (.refl file) _
    | some descriptor => exact .lift (.refl file) _
  refine .bind Retains.trans checked fun _ file _ => .get ?_
  split
  · exact ⟨.refl file⟩
  refine .bind Retains.trans (retains_intern .type descriptor file) fun type file _ => ?_
  have above : (superclass.mapM internType).Leads Retains file := by
    cases superclass with
    | none => exact .pure (.refl file) _
    | some descriptor =>
        exact .bind Retains.trans (retains_intern .type descriptor file) fun _ file _ => .pure (.refl file) _
  exact .bind Retains.trans above fun superclass file _ => ⟨.classDefs _⟩

theorem RemovesClass.retains {id : Id ClassDef} {item : ClassDef} (removes : file.RemovesClass id item final)
    (valid : ∀ part : Part, (part.items final).Valid) : file.Retains final := by
  rw [removes.others]
  exact .withMembers (fun _ => valid .classData) (fun _ => valid .codeItem) (fun _ => valid .debugInfo)
    fun coherent other data found => coherent.members other data (removes.classData.item?_eq_some.1 found).1

/-- An edit that renames nothing keeps all keys, whether it succeeds or fails. -/
theorem retains_after (built : file.Built) {edit : Edit} (other : edit.newText? = none) :
    file.Retains (edit.after file) := by
  have valid := built.regular.orderly.valid
  have after := (built.edit edit).regular.orderly.valid
  have ends := edit.ends_after file
  cases edit with
  | internString text => exact (retains_intern .string text file).discard.ends ends
  | internType descriptor => exact (retains_intern .type descriptor file).discard.ends ends
  | internTypeList descriptors => exact (retains_intern .typeList descriptors file).discard.ends ends
  | internProto key => exact (retains_intern .proto key file).discard.ends ends
  | internField key => exact (retains_intern .field key file).discard.ends ends
  | internMethod key => exact (retains_intern .method key file).discard.ends ends
  | renameString id text => cases other
  | renameType id descriptor => cases other
  | defineClass descriptor flags superclass =>
      exact (retains_defineClass descriptor flags superclass file).discard.ends ends
  | addField id key flags => exact (retains_addField id key flags file).discard.ends ends
  | addMethod id key flags code => exact (retains_addMethod id key flags code file).discard.ends ends
  | addCode code => exact (retains_addCode code file).discard.ends ends
  | addDebugInfo info => exact .debugInfos fun valid => valid.push _
  | removeClass id =>
      cases run : DexFile.removeClass id file with
      | ok item final =>
          rw [Edit.after_of_ok rfl run] at after ⊢
          exact (removesClass valid run).retains after
      | error fault final =>
          have leads : (DexFile.removeClass id).Leads Retains file := .of_ends fun final ends => by
            rcases ends with ⟨item, done⟩ | ⟨other, failed⟩
            · cases run.symm.trans done
            · rw [removeClass_apply] at failed
              split at failed <;> cases failed
              exact .refl file
          exact leads.discard.ends ends
  | shareDebugInfo =>
      exact .withMembers id (fun _ => after .codeItem) (fun _ => after .debugInfo) fun coherent => coherent.members
  | sortIds => exact .of_follows (follows_sortIds valid built.regular.orderly.strings)
  | refresh options => exact .of_follows ((Follows.refresh options file).ends ends)
  | toBytes options => exact .of_follows ((Follows.toBytes options file).discard.ends ends)

end DexFile
end DexArsc.Dex
