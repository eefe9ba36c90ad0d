/-
Runs of edits. A run starts from the empty file and goes on behind every failure, and every file on
its way has the keys that its items say.
-/

import DexArsc.Proofs.Dex.Edit.Members
import DexArsc.Proofs.Dex.Edit.Steady

namespace DexArsc.Dex

variable {α κ : Type}

/-- An edit of a file. -/
inductive Edit
  | internString (text : String)
  | internType (descriptor : String)
  | internTypeList (descriptors : List String)
  | internProto (key : Prototype)
  | internField (key : FieldKey)
  | internMethod (key : MethodKey)
  | renameString (id : Id StringItem) (text : String)
  | renameType (id : Id TypeItem) (descriptor : String)
  | defineClass (descriptor : String) (flags : UInt32) (superclass : Option String)
  | addField (id : Id ClassDef) (key : FieldKey) (flags : UInt32)
  | addMethod (id : Id ClassDef) (key : MethodKey) (flags : UInt32) (code : Option CodeItem)
  | addCode (code : CodeItem)
  | addDebugInfo (info : DebugInfo)
  | removeClass (id : Id ClassDef)
  | shareDebugInfo
  | sortIds
  | refresh (options : WriteOptions)
  | toBytes (options : WriteOptions)

namespace Edit

/-- The step of an edit, without its result. -/
def step : Edit → Step DexFile Unit
  | internString text => discard (DexFile.internString text)
  | internType descriptor => discard (DexFile.internType descriptor)
  | internTypeList descriptors => discard (DexFile.internTypeList descriptors)
  | internProto key => discard (DexFile.internProto key)
  | internField key => discard (DexFile.internField key)
  | internMethod key => discard (DexFile.internMethod key)
  | renameString id text => DexFile.renameString id text
  | renameType id descriptor => DexFile.renameType id descriptor
  | defineClass descriptor flags superclass =>
    discard (DexFile.defineClass descriptor flags superclass)
  | addField id key flags => discard (DexFile.addField id key flags)
  | addMethod id key flags code => discard (DexFile.addMethod id key flags code)
  | addCode code => discard (DexFile.addCode code)
  | addDebugInfo info => discard (DexFile.addDebugInfo info)
  | removeClass id => discard (DexFile.removeClass id)
  | shareDebugInfo => modify fun file => file.shareDebugInfo.2
  | sortIds => modify DexFile.sortIds
  | refresh options => DexFile.refresh options
  | toBytes options => discard (DexFile.toBytes options)

/-- The text that a renaming gives. -/
def newText? : Edit → Option String
  | renameString _ text => some text
  | renameType _ descriptor => some descriptor
  | _ => none

/-- The file behind an edit that succeeds or fails. -/
def after (edit : Edit) (file : DexFile) : DexFile :=
  match edit.step file with
  | .ok _ final => final
  | .error _ final => final

/-- The file behind the edits of a list, one after the other. -/
def run (edits : List Edit) : DexFile :=
  edits.foldl (fun file edit => edit.after file) {}

/-- An edit ends at the file behind it. -/
theorem ends_after (edit : Edit) (file : DexFile) : edit.step.Ends file (edit.after file) := by
  unfold Edit.after
  cases run : edit.step file with
  | ok value final => exact Step.ends_ok run
  | error fault final => exact Step.ends_error run

theorem run_concat (edits : List Edit) (edit : Edit) : run (edits ++ [edit]) = edit.after (run edits) := by
  unfold run
  rw [List.foldl_append, List.foldl_cons, List.foldl_nil]

/-- The file behind an edit whose step succeeds, whatever the step yields. -/
theorem after_of_ok {α : Type} {edit : Edit} {step : Step DexFile α} (same : edit.step = discard step)
    {file final : DexFile} {value : α} (run : step file = .ok value final) : edit.after file = final := by
  have ends : edit.step file = .ok () final := by
    rw [same]
    exact Step.map_eq_ok.2 ⟨value, run, rfl⟩
  rw [Edit.after, ends]

end Edit

/-- Every item has a key that follows the grammar, and different items have different keys. -/
structure Section.KeyedBy (items : Section α) (key? : α → Option κ) (grammar : κ → Prop) : Prop where
  keyed : ∀ id item, items.item? id = some item → ∃ key, key? item = some key ∧ grammar key
  apart : Separates (items.keyOf? key?)

/-- A section whose items have keys in an outline that tells them apart. -/
theorem Section.keyedBy {items : Section α} {key? : α → Option κ} {grammar : κ → Prop}
    {outlined : Id α → Option κ} (same : items.keyOf? key? = outlined) (separates : Separates outlined)
    (keyed : ∀ id item, items.item? id = some item → ∃ key, outlined id = some key ∧ grammar key) :
    items.KeyedBy key? grammar where
  keyed id item found := by
    obtain ⟨key, here, follows⟩ := keyed id item found
    rw [← same, keyOf?_of_item? found] at here
    exact ⟨key, here, follows⟩
  apart := same ▸ separates

namespace DexFile

/-- Different items have different keys, all keys follow their grammar, and the key maps can be
rebuilt. -/
structure WellKeyed (file : DexFile) : Prop where
  strings : file.strings.items.KeyedBy (fun item => item.value.text?) fun _ => True
  types : file.types.items.KeyedBy file.typeKey? fun descriptor =>
    checkTypeDescriptor descriptor = .ok ()
  protos : file.protos.items.KeyedBy file.protoKey? fun key => key.check = .ok ()
  fields : file.fields.items.KeyedBy file.fieldKey? fun key => key.check = .ok ()
  methods : file.methods.items.KeyedBy file.methodKey? fun key =>
    key.checkNames = .ok () ∧ key.prototype.check = .ok ()
  /-- No two class definitions name the same type. -/
  classes : file.classDefs.KeyedBy (fun item => file.descriptorOf? item.type) fun descriptor =>
    checkTypeDescriptor descriptor = .ok ()
  rebuilds : ∃ final, rebuildKeys file = .ok () final

variable {file final : DexFile}

theorem Complete.keyOf?_classes (complete : file.Complete) :
    file.classDefs.keyOf? (fun item => file.descriptorOf? item.type) = file.outline.className? := by
  funext id
  simp only [complete.descriptorOf?]
  exact (Option.bind_assoc ..).symm

theorem Sound.wellKeyed (sound : file.Sound) : file.WellKeyed := by
  have complete := sound.complete
  have distinct := sound.outline.distinct
  refine {
    strings := {
      keyed := fun id item found => ?_
      apart := distinct.strings }
    types := Section.keyedBy complete.keyOf?_types distinct.separates_descriptor? fun id item found => ?_
    protos := Section.keyedBy complete.keyOf?_protos distinct.separates_protoKey? fun id item found => ?_
    fields := Section.keyedBy complete.keyOf?_fields distinct.separates_fieldKey? fun id item found => ?_
    methods := Section.keyedBy complete.keyOf?_methods distinct.separates_methodKey? fun id item found => ?_
    classes := Section.keyedBy complete.keyOf?_classes distinct.separates_className? fun id item found => ?_
    rebuilds := sound.rebuildKeys.imp fun _ here => here.1 }
  · obtain ⟨text, value⟩ := Option.isSome_iff_exists.1 (complete.strings id item found)
    exact ⟨text, value, trivial⟩
  · obtain ⟨name, named⟩ := Option.isSome_iff_exists.1 (complete.types id item found)
    obtain ⟨text, here, grammar⟩ :=
      sound.outline.descriptor? ((Section.keyOf?_of_item? found _).trans named)
    exact ⟨text, here, checkTypeDescriptor_eq_ok.2 grammar⟩
  · obtain ⟨proto, shape⟩ := Option.isSome_iff_exists.1 (complete.protos id item found)
    exact sound.outline.protoKey? ((Section.keyOf?_of_item? found _).trans shape)
  · obtain ⟨field, shape⟩ := Option.isSome_iff_exists.1 (complete.fields id item found)
    exact sound.outline.fieldKey? ((Section.keyOf?_of_item? found _).trans shape)
  · obtain ⟨method, shape⟩ := Option.isSome_iff_exists.1 (complete.methods id item found)
    exact sound.outline.methodKey? ((Section.keyOf?_of_item? found _).trans shape)
  · obtain ⟨type, typed⟩ := Option.isSome_iff_exists.1 (complete.classes id item found)
    obtain ⟨text, here, grammar⟩ :=
      sound.outline.className? ((Section.keyOf?_of_item? found _).trans typed)
    exact ⟨text, here, checkTypeDescriptor_eq_ok.2 grammar⟩

/-- The empty file is sound. -/
theorem sound_empty : ({} : DexFile).Sound := by
  have item? {α : Type} (kind : SectionKind) (id : Id α) : ({ kind } : Section α).item? id = none := rfl
  have all {α : Type} (kind : SectionKind) (property : α → Prop) :
      ({ kind } : Section α).All property := fun id item found => by cases found
  have separates {α β : Type} : Separates fun _ : α => (none : Option β) :=
    fun _ _ _ found => by cases found
  have reflects {α κ : Type} [BEq κ] [Hashable κ] (kind : SectionKind) :
      (Pool.empty kind : Pool κ α).Reflects fun _ => none := fun _ key id => by
    unfold Pool.empty
    simp
  exact {
    valid := fun part => by cases part <;> exact Section.valid_empty _
    strings := Section.valid_empty _
    complete := ⟨all _ _, all _ _, all _ _, all _ _, all _ _, all _ _, all _ _⟩
    outline := {
      distinct := ⟨separates, separates, separates, separates, separates, separates⟩
      types := fun _ _ found => by cases found
      lists := fun _ _ found => by cases found
      protos := fun _ _ found => by cases found
      fields := fun _ _ found => by cases found
      methods := fun _ _ found => by cases found
      classes := fun _ _ found => by cases found }
    parameters := all _ _
    stringKeys := reflects _
    typeKeys := reflects _
    protoKeys := reflects _
    fieldKeys := reflects _
    methodKeys := reflects _ }

theorem Follows.edited (follows : file.Follows final) : file.Edited final where
  sound sound := sound.follow follows
  shorties sound := by rw [sound.outline_follow follows]
  titles sound _ _ found := .inl (sound.outline_follow follows ▸ found)

/-- What an edit leaves that renames nothing, whether it succeeds or fails. -/
theorem edited_step {edit : Edit} (other : edit.newText? = none) (file : DexFile) :
    edit.step.Leads Edited file := by
  cases edit with
  | internString text => exact .discard (edited_of_interns fun sound => sound.internString text)
  | internType descriptor => exact .discard (edited_of_interns fun sound => sound.internType descriptor)
  | internTypeList descriptors =>
      exact .discard (edited_of_interns fun sound => sound.internTypeList descriptors)
  | internProto key => exact .discard (edited_of_interns fun sound => sound.internProto key)
  | internField key => exact .discard (edited_of_interns fun sound => sound.internField key)
  | internMethod key => exact .discard (edited_of_interns fun sound => sound.internMethod key)
  | renameString id text => cases other
  | renameType id descriptor => cases other
  | defineClass descriptor flags superclass =>
      exact .discard (edited_defineClass descriptor flags superclass file)
  | addField id key flags => exact .discard (edited_addField id key flags file)
  | addMethod id key flags code => exact .discard (edited_addMethod id key flags code file)
  | addCode code => exact .discard (edited_addCode code file)
  | addDebugInfo info => exact .discard (edited_addDebugInfo info file)
  | removeClass id => exact .discard (edited_removeClass id file)
  | shareDebugInfo => exact .modify (edited_shareDebugInfo file)
  | sortIds =>
      exact edited_of_sound fun sound => .modify (follows_sortIds sound.valid sound.strings).edited
  | refresh options => exact (Follows.refresh options file).imp fun _ follows => follows.edited
  | toBytes options => exact .discard ((Follows.toBytes options file).imp fun _ follows => follows.edited)

/-- What an edit leaves of a sound file, by what it renames. -/
theorem Sound.after_cases (sound : file.Sound) (edit : Edit) :
    (edit.newText? = none ∧ file.Edited (edit.after file)) ∨
      (∃ id text, edit = .renameString id text ∧ (edit.after file).Sound ∧
        ((edit.after file).outline = file.outline ∨ file.outline.Renames id text (edit.after file).outline)) ∨
      ∃ id text, edit = .renameType id text ∧ Renamed text file (edit.after file) := by
  have ends := edit.ends_after file
  cases renames : edit.newText? with
  | none => exact .inl ⟨rfl, (edited_step renames file).ends ends⟩
  | some new =>
      cases edit with
      | renameString id text =>
          refine .inr (.inl ⟨id, text, rfl, ?_⟩)
          rcases ends with ⟨_, run⟩ | ⟨_, run⟩
          · obtain ⟨kept, _, outline⟩ := (sound.renameString id text).ok run
            exact ⟨kept, outline⟩
          · obtain ⟨kept, _, outline⟩ := (sound.renameString id text).error run
            exact ⟨kept, .inl outline⟩
      | renameType id text =>
          refine .inr (.inr ⟨id, text, rfl, ?_⟩)
          rcases ends with ⟨_, run⟩ | ⟨_, run⟩
          · exact (sound.renameType id text).ok run
          · exact (sound.renameType id text).error run
      | _ => cases renames

/-- A sound file stays sound behind every edit, whether it succeeds or fails. -/
theorem Sound.after (sound : file.Sound) (edit : Edit) : (edit.after file).Sound := by
  rcases sound.after_cases edit with ⟨_, edited⟩ | ⟨_, _, _, kept, _⟩ | ⟨_, _, _, renamed⟩
  · exact edited.sound sound
  · exact kept
  · exact renamed.sound

/-- Every file on the way of a run is sound. -/
theorem sound_run (edits : List Edit) : (Edit.run edits).Sound := by
  unfold Edit.run
  have from_ (file : DexFile) (sound : file.Sound) :
      (edits.foldl (fun file edit => edit.after file) file).Sound := by
    induction edits generalizing file with
    | nil => exact sound
    | cons edit rest ih => exact ih _ (sound.after edit)
  exact from_ {} sound_empty

end DexFile

/-- Behind every run of edits, failing ones included, strings, descriptors and keys are pairwise
distinct and follow their grammar, no two classes name the same type, and the key maps can be rebuilt. -/
theorem Edit.wellKeyed_run (edits : List Edit) : (Edit.run edits).WellKeyed :=
  (DexFile.sound_run edits).wellKeyed

end DexArsc.Dex

namespace DexArsc.Dex.DexFile

variable {file : DexFile}

/-- Fresh key maps stay as they are. -/
theorem rebuildKeys_of_fresh (fresh : file.Fresh) : rebuildKeys file = .ok () file := by
  obtain ⟨strings, types, protos, fields, methods⟩ := fresh
  unfold rebuildKeys Pool.freshen
  simp only [Step.bind_apply, Step.get_apply, Step.set_apply, strings, types, protos, fields, methods,
    Bool.false_eq_true, if_false, liftM, Step.monadLift_ok]

/-- The file with a new type and a new string for its descriptor. -/
def withNewType (file : DexFile) (descriptor : String) : DexFile :=
  (file.withString descriptor).withType descriptor ⟨file.strings.items.cells.size⟩

theorem Fresh.withString (fresh : file.Fresh) (text : String) : (file.withString text).Fresh :=
  { fresh with }

theorem Fresh.withNewType (fresh : file.Fresh) (descriptor : String) :
    (file.withNewType descriptor).Fresh :=
  { fresh with }

theorem internString_of_new (fresh : file.Fresh) {text : String}
    (new : file.strings.keys[StringData.decoded text]? = none) :
    internString text file = .ok ⟨file.strings.items.cells.size⟩ (file.withString text) := by
  have item := internItem_apply strings (fun strings file => { file with strings })
    (StringData.decoded text) { value := .decoded text } (fun _ _ => rfl) rfl fresh.strings
  rw [new] at item
  unfold internString
  rw [Step.bind_ok (rebuildKeys_of_fresh fresh)]
  exact item

theorem internType_of_new (fresh : file.Fresh) {descriptor : String}
    (grammar : checkTypeDescriptor descriptor = .ok ())
    (newString : file.strings.keys[StringData.decoded descriptor]? = none)
    (newType : file.types.keys[descriptor]? = none) :
    internType descriptor file =
      .ok ⟨file.types.items.cells.size⟩ (file.withNewType descriptor) := by
  have item := internItem_apply types (fun types file => { file with types }) descriptor
    { descriptor := .ofId ⟨file.strings.items.cells.size⟩ } (fun _ _ => rfl) rfl
    (fresh.withString descriptor).types
  have known : (file.withString descriptor).types.keys[descriptor]? = none := newType
  rw [known] at item
  have absent : file.types.find? descriptor = none := by
    rw [Pool.find?, fresh.types]
    exact newType
  unfold internType
  rw [grammar]
  change (rebuildKeys >>= _) file = _
  rw [Step.bind_ok (rebuildKeys_of_fresh fresh), Step.bind_ok (Step.get_apply file), absent]
  change (internString descriptor >>= _) file = _
  rw [Step.bind_ok (internString_of_new fresh newString)]
  exact item

/-- A class of a new type and without a superclass. -/
theorem defineClass_of_new (fresh : file.Fresh) {descriptor : String} (flags : UInt32)
    (grammar : checkTypeDescriptor descriptor = .ok ()) (reference : descriptor.startsWith "L" = true)
    (undefined : file.findClass? descriptor = none)
    (newString : file.strings.keys[StringData.decoded descriptor]? = none)
    (newType : file.types.keys[descriptor]? = none) :
    defineClass descriptor flags none file = .ok ⟨file.classDefs.cells.size⟩
      { file.withNewType descriptor with
        classDefs := (file.classDefs.push
          { type := .ofId ⟨file.types.items.cells.size⟩, flags }).2 } := by
  unfold defineClass
  rw [grammar, reference]
  have checked : (liftM (Except.ok () : Except Fault Unit) : Step DexFile Unit) file = .ok () file := rfl
  have above : (none.forM fun descriptor => liftM (checkTypeDescriptor descriptor) :
      Step DexFile Unit) file = .ok () file := rfl
  simp only [if_true]
  rw [Step.bind_ok checked, Step.bind_ok above, Step.bind_ok (Step.get_apply file), undefined]
  simp only [Option.isSome_none, Bool.false_eq_true, if_false]
  rw [Step.bind_ok (internType_of_new fresh grammar newString newType)]
  rfl

/-- Two different types in a new file. -/
theorem run_internType {first second : String} (different : first ≠ second)
    (grammar : checkTypeDescriptor first = .ok ()) (grammar' : checkTypeDescriptor second = .ok ()) :
    Edit.run [.internType first, .internType second] =
      (withNewType {} first).withNewType second := by
  have fresh : ({} : DexFile).Fresh := ⟨rfl, rfl, rfl, rfl, rfl⟩
  have before := internType_of_new fresh grammar Std.HashMap.getElem?_empty Std.HashMap.getElem?_empty
  have newString : (withNewType {} first).strings.keys[StringData.decoded second]? = none := by
    change ((∅ : Std.HashMap StringData (Id StringItem)).insert _ _)[_]? = none
    simp [different]
  have newType : (withNewType {} first).types.keys[second]? = none := by
    change ((∅ : Std.HashMap String (Id TypeItem)).insert _ _)[_]? = none
    simp [different]
  have behind := internType_of_new (fresh.withNewType first) grammar' newString newType
  change (Edit.internType second).after ((Edit.internType first).after {}) = _
  rw [Edit.after_of_ok rfl before, Edit.after_of_ok rfl behind]

end DexArsc.Dex.DexFile
