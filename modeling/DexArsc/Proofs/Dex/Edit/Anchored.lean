/-
References to live items. Edits that only add items keep them live, and what an edit removes is used
by nothing that stays.
-/

import DexArsc.Proofs.Dex.Edit.Removal
import DexArsc.Proofs.Dex.Edit.Run

namespace DexArsc.Dex

variable {α : Type}

namespace IndexRef

variable {items : Section α} {ref : IndexRef α}

/-- The item that the reference names is live. -/
def Anchored (items : Section α) (ref : IndexRef α) : Prop :=
  ∀ id, ref.item = some id → (items.item? id).isSome

theorem anchored_ofId {id : Id α} (live : (items.item? id).isSome) : (ofId id).Anchored items :=
  (live_ofId live).found

/-- A reference that is linked by its index names an item in the order. -/
theorem Anchored.link (anchored : ref.Anchored items) (valid : items.Valid) :
    (ref.link items).Anchored items := by
  intro id named
  rcases Option.or_eq_some_iff.1 named with here | ⟨_, found⟩
  · exact anchored id here
  · unfold Section.get? at found
    split at found
    · cases found
    · exact valid.item?_getElem found

/-- A refresh keeps the item or leaves none. -/
theorem Anchored.refresh (anchored : ref.Anchored items) (others : Section α) :
    (ref.refresh others).Anchored items := by
  unfold IndexRef.refresh
  cases named : ref.item with
  | none => exact anchored
  | some id =>
      dsimp only
      split
      · intro other there
        exact anchored other (named.trans there)
      · intro other there
        cases there

end IndexRef

namespace OffsetRef

variable {items : Section α} {ref : OffsetRef α}

/-- The item that the reference names is live. -/
def Anchored (items : Section α) (ref : OffsetRef α) : Prop :=
  ∀ id, ref.item = some id → (items.item? id).isSome

theorem anchored_ofId {id : Id α} (live : (items.item? id).isSome) : (ofId id).Anchored items :=
  (live_ofId live).found

/-- A live reference stays as it is when it is linked. -/
theorem Live.link (live : ref.Live items) (others : Section α) : ref.link others = ref := by
  obtain ⟨raw, item⟩ := ref
  cases item with
  | some id => rfl
  | none =>
      have zero : raw = 0 := live.absent rfl
      rw [zero]
      rfl

/-- A refresh keeps the item or leaves none. -/
theorem Anchored.refresh (anchored : ref.Anchored items) (others : Section α) :
    (ref.refresh others).Anchored items := by
  unfold OffsetRef.refresh
  cases named : ref.item with
  | none => exact anchored
  | some id =>
      dsimp only
      split
      · intro other there
        exact anchored other (named.trans there)
      · intro other there
        cases there

end OffsetRef

/-- References whose items are live. -/
def RefTest.anchored (file : DexFile) : RefTest where
  string ref := ref.Anchored file.strings.items
  type ref := ref.Anchored file.types.items
  proto ref := ref.Anchored file.protos.items
  field ref := ref.Anchored file.fields.items
  method ref := ref.Anchored file.methods.items
  typeList ref := ref.Anchored file.typeLists
  classData ref := ref.Anchored file.classData
  code ref := ref.Anchored file.codes
  debugInfo ref := ref.Anchored file.debugInfos

theorem RefTest.Kept.anchored (file : DexFile) : (RefTest.anchored file).Kept file where
  string items _ _ anchored := anchored.refresh items
  type items _ _ anchored := anchored.refresh items
  proto items _ _ anchored := anchored.refresh items
  field items _ _ anchored := anchored.refresh items
  method items _ _ anchored := anchored.refresh items
  typeList items _ _ anchored := anchored.refresh items
  classData items _ _ anchored := anchored.refresh items
  code items _ _ anchored := anchored.refresh items
  debugInfo items _ _ anchored := anchored.refresh items

namespace DexFile

variable {file between final third : DexFile}

/-- Every reference outside debug information names a live item or none. -/
def Anchored (file : DexFile) : Prop :=
  ∀ part : Part, part ≠ .debugInfo → (part.items file).All (part.Refs (.anchored file))

/-- The references of classes, members and code name live items or none. -/
structure MembersAnchored (file : DexFile) : Prop where
  classDefs : file.classDefs.All (ClassDef.Refs (.anchored file))
  classData : file.classData.All (ClassData.Refs (.anchored file))
  codes : file.codes.All (CodeItem.Refs (.anchored file))

/-- In a sound file, what keys are built on is live, so only members are left. -/
theorem MembersAnchored.anchored (members : file.MembersAnchored) (sound : file.Sound) :
    file.Anchored := by
  intro part other id item found
  cases part with
  | typeId => exact (sound.names_of_type found).live.found
  | protoId =>
      obtain ⟨shorty, returnType, parameters⟩ := sound.names_of_proto found
      exact ⟨shorty.live.found, returnType.live.found, parameters.found⟩
  | fieldId =>
      obtain ⟨owner, type, name⟩ := sound.names_of_field found
      exact ⟨owner.live.found, type.live.found, name.live.found⟩
  | methodId =>
      obtain ⟨owner, proto, name⟩ := sound.names_of_method found
      exact ⟨owner.live.found, proto.live.found, name.live.found⟩
  | typeList => exact fun ref inside => (sound.names_of_list found inside).live.found
  | classDef => exact members.classDefs id item found
  | classData => exact members.classData id item found
  | codeItem => exact members.codes id item found
  | debugInfo => exact absurd rfl other

/-- Every live item of a file is live in another one. -/
structure LiveWithin (file final : DexFile) : Prop where
  strings : ∀ id, (file.strings.items.item? id).isSome → (final.strings.items.item? id).isSome
  parts : ∀ (part : Part) id, ((part.items file).item? id).isSome →
    ((part.items final).item? id).isSome

namespace LiveWithin

theorem refl (file : DexFile) : file.LiveWithin file :=
  ⟨fun _ live => live, fun _ _ live => live⟩

theorem trans (before : file.LiveWithin final) (behind : final.LiveWithin third) :
    file.LiveWithin third :=
  ⟨fun id live => behind.strings id (before.strings id live),
    fun part id live => behind.parts part id (before.parts part id live)⟩

theorem of_sameLive (same : file.SameLive final) : file.LiveWithin final :=
  ⟨fun id => (same.strings id).trans, fun part id => (same.parts part id).trans⟩

theorem of_keeps (keeps : file.Keeps final) : file.LiveWithin final where
  strings := keeps.strings
  parts part := by
    cases part with
    | typeId => exact keeps.types
    | protoId => exact keeps.protos
    | fieldId => exact keeps.fields
    | methodId => exact keeps.methods
    | typeList => exact keeps.typeLists
    | _ =>
        rw [keeps.others]
        exact fun _ live => live

/-- More classes, members, code and debug information. -/
theorem withMembers {classDefs : Section ClassDef} {classData : Section ClassData}
    {codes : Section CodeItem} {debugInfos : Section DebugInfo}
    (moreDefs : ∀ id, (file.classDefs.item? id).isSome → (classDefs.item? id).isSome)
    (moreData : ∀ id, (file.classData.item? id).isSome → (classData.item? id).isSome)
    (moreCodes : ∀ id, (file.codes.item? id).isSome → (codes.item? id).isSome)
    (moreInfos : ∀ id, (file.debugInfos.item? id).isSome → (debugInfos.item? id).isSome) :
    file.LiveWithin (file.withMembers classDefs classData codes debugInfos) where
  strings _ live := live
  parts part := by
    cases part with
    | classDef => exact moreDefs
    | classData => exact moreData
    | codeItem => exact moreCodes
    | debugInfo => exact moreInfos
    | _ => exact fun _ live => live

theorem implies (within : file.LiveWithin final) : (RefTest.anchored file).Implies (.anchored final) where
  string _ anchored id named := within.strings id (anchored id named)
  type _ anchored id named := within.parts .typeId id (anchored id named)
  proto _ anchored id named := within.parts .protoId id (anchored id named)
  field _ anchored id named := within.parts .fieldId id (anchored id named)
  method _ anchored id named := within.parts .methodId id (anchored id named)
  typeList _ anchored id named := within.parts .typeList id (anchored id named)
  classData _ anchored id named := within.parts .classData id (anchored id named)
  code _ anchored id named := within.parts .codeItem id (anchored id named)
  debugInfo _ anchored id named := within.parts .debugInfo id (anchored id named)

end LiveWithin

/-- No item is lost, and if all references of members named live items, they still do. -/
structure Secures (file final : DexFile) : Prop where
  live : file.LiveWithin final
  anchored : file.MembersAnchored → final.MembersAnchored

namespace Secures

theorem refl (file : DexFile) : file.Secures file :=
  ⟨.refl file, fun anchored => anchored⟩

theorem trans (before : file.Secures final) (behind : final.Secures third) : file.Secures third :=
  ⟨before.live.trans behind.live, fun anchored => behind.anchored (before.anchored anchored)⟩

/-- Every item is one from before or has references to live items only. -/
theorem of_items (live : file.LiveWithin final)
    (classDefs : ∀ id item, final.classDefs.item? id = some item →
      file.classDefs.item? id = some item ∨ (file.MembersAnchored → item.Refs (.anchored final)))
    (classData : ∀ id item, final.classData.item? id = some item →
      file.classData.item? id = some item ∨ (file.MembersAnchored → item.Refs (.anchored final)))
    (codes : ∀ id item, final.codes.item? id = some item →
      file.codes.item? id = some item ∨ (file.MembersAnchored → item.Refs (.anchored final))) :
    file.Secures final where
  live := live
  anchored before := {
    classDefs := fun id item found => (classDefs id item found).elim
      (fun here => (before.classDefs id item here).imp live.implies) (· before)
    classData := fun id item found => (classData id item found).elim
      (fun here => (before.classData id item here).imp live.implies) (· before)
    codes := fun id item found => (codes id item found).elim
      (fun here => (before.codes id item here).imp live.implies) (· before) }

theorem of_keeps (keeps : file.Keeps final) : file.Secures final := by
  refine of_items (.of_keeps keeps) ?_ ?_ ?_ <;>
  · rw [keeps.others]
    exact fun _ _ found => .inl found

theorem of_interned (interned : file.Interned final) : file.Secures final :=
  of_keeps interned.grows.keeps

theorem of_follows (follows : file.Follows final) : file.Secures final where
  live := .of_sameLive follows.sameLive
  anchored before := by
    have all (part : Part) (before : (part.items file).All (part.Refs (.anchored file))) :
        (part.items final).All (part.Refs (.anchored final)) :=
      ((follows.parts part).all before fun same refs => same.kept _ (.anchored file) refs).imp
        fun _ refs => refs.imp (LiveWithin.of_sameLive follows.sameLive).implies
    exact ⟨all .classDef before.classDefs, all .classData before.classData, all .codeItem before.codes⟩

/-- A new class definition. -/
theorem pushClass {item : ClassDef} (refs : item.Refs (.anchored file)) :
    file.Secures { file with classDefs := (file.classDefs.push item).2 } := by
  have live : file.LiveWithin { file with classDefs := (file.classDefs.push item).2 } :=
    .withMembers (fun _ => (Section.within_push file.classDefs item).isSome) (fun _ live => live)
      (fun _ live => live) fun _ live => live
  refine of_items live (fun id other found => ?_) (fun _ _ found => .inl found)
    fun _ _ found => .inl found
  rw [Section.item?_push] at found
  split at found
  · cases found
    exact .inr fun _ => refs.imp live.implies
  · exact .inl found

/-- New code. -/
theorem pushCode {code : CodeItem} (refs : code.Refs (.anchored file)) :
    file.Secures { file with codes := (file.codes.push code).2 } := by
  have live : file.LiveWithin { file with codes := (file.codes.push code).2 } :=
    .withMembers (fun _ live => live) (fun _ live => live)
      (fun _ => (Section.within_push file.codes code).isSome) fun _ live => live
  refine of_items live (fun _ _ found => .inl found) (fun _ _ found => .inl found)
    fun id other found => ?_
  rw [Section.item?_push] at found
  split at found
  · cases found
    exact .inr fun _ => refs.imp live.implies
  · exact .inl found

/-- New debug information. -/
theorem pushDebugInfo (info : DebugInfo) :
    file.Secures { file with debugInfos := (file.debugInfos.push info).2 } :=
  of_items (.withMembers (fun _ live => live) (fun _ live => live) (fun _ live => live)
      fun _ => (Section.within_push file.debugInfos info).isSome)
    (fun _ _ found => .inl found) (fun _ _ found => .inl found) fun _ _ found => .inl found

/-- New members of class data. -/
theorem modifyData (id : Id ClassData) {change : ClassData → ClassData}
    (refs : ∀ data, data.Refs (.anchored file) → (change data).Refs (.anchored file)) :
    file.Secures { file with classData := file.classData.modify id change } := by
  have live : file.LiveWithin { file with classData := file.classData.modify id change } :=
    .withMembers (fun _ live => live)
      (fun other => (Section.isSome_item?_modify file.classData id other change).trans)
      (fun _ live => live) fun _ live => live
  refine of_items live (fun _ _ found => .inl found) (fun other data found => ?_)
    fun _ _ found => .inl found
  rw [Section.item?_modify] at found
  split at found
  · obtain ⟨old, here, rfl⟩ := Option.map_eq_some_iff.1 found
    exact .inr fun before => (refs old (before.classData _ old here)).imp live.implies
  · exact .inl found

/-- New class data of a class. -/
theorem pushData (id : Id ClassDef) :
    file.Secures { file with
      classData := (file.classData.push {}).2
      classDefs := file.classDefs.modify id fun item =>
        { item with classData := item.classData.setItem (some (file.classData.push {}).1) } } := by
  have new : ((file.classData.push {}).2.item? (file.classData.push {}).1).isSome := by
    rw [Section.item?_push, if_pos rfl]
    rfl
  have live : file.LiveWithin { file with
      classData := (file.classData.push {}).2
      classDefs := file.classDefs.modify id fun item =>
        { item with classData := item.classData.setItem (some (file.classData.push {}).1) } } :=
    .withMembers (fun other => (Section.isSome_item?_modify file.classDefs id other _).trans)
      (fun _ => (Section.within_push file.classData {}).isSome) (fun _ live => live) fun _ live => live
  refine of_items live (fun other item found => ?_) (fun other data found => ?_)
    fun _ _ found => .inl found
  · rw [Section.item?_modify] at found
    split at found
    · obtain ⟨old, here, rfl⟩ := Option.map_eq_some_iff.1 found
      refine .inr fun before => ?_
      obtain ⟨type, superclass, interfaces, sourceFile, _⟩ :=
        (before.classDefs _ old here).imp live.implies
      exact ⟨type, superclass, interfaces, sourceFile, OffsetRef.anchored_ofId new⟩
    · exact .inl found
  · rw [Section.item?_push] at found
    split at found
    · cases found
      exact .inr fun _ => ⟨List.forall_mem_nil _, List.forall_mem_nil _⟩
    · exact .inl found

end Secures

end DexFile

namespace ClassData

variable {data : ClassData} {test : RefTest}

theorem fields_addMethod (data : ClassData) (member : EncodedMethod) :
    (data.addMethod member).fields = data.fields := by
  unfold addMethod
  split <;> rfl

theorem methods_addField (data : ClassData) (member : EncodedField) :
    (data.addField member).methods = data.methods := by
  unfold addField
  split <;> rfl

theorem mem_fields_addField {member other : EncodedField} :
    other ∈ (data.addField member).fields ↔ other ∈ data.fields ∨ other = member := by
  unfold addField fields
  split <;> simp [or_comm, or_left_comm]

theorem mem_methods_addMethod {member other : EncodedMethod} :
    other ∈ (data.addMethod member).methods ↔ other ∈ data.methods ∨ other = member := by
  unfold addMethod methods
  split <;> simp [or_comm, or_left_comm]

theorem Refs.addField (refs : data.Refs test) {member : EncodedField}
    (holds : test.field member.field) : (data.addField member).Refs test := by
  refine ⟨fun other inside => ?_, ?_⟩
  · rcases mem_fields_addField.1 inside with here | rfl
    · exact refs.1 other here
    · exact holds
  · rw [methods_addField]
    exact refs.2

theorem Refs.addMethod (refs : data.Refs test) {member : EncodedMethod}
    (holds : test.method member.method) (coded : test.code member.code) :
    (data.addMethod member).Refs test := by
  refine ⟨?_, fun other inside => ?_⟩
  · rw [fields_addMethod]
    exact refs.1
  · rcases mem_methods_addMethod.1 inside with here | rfl
    · exact refs.2 other here
    · exact ⟨holds, coded⟩

end ClassData

/-- Code that may be added: its debug information is absent or live, and the exception types that it
is linked to are live. Its operands are linked when it is added. -/
structure CodeItem.Fits (code : CodeItem) (file : DexFile) : Prop where
  debugInfo : code.debugInfo.Live file.debugInfos
  handlers : ∀ handler ∈ code.handlers, ∀ entry ∈ handler.catches,
    IndexRef.Anchored file.types.items entry.1

theorem CodeItem.Fits.imp {code : CodeItem} {file final : DexFile} (fits : code.Fits file)
    (within : file.LiveWithin final) : code.Fits final where
  debugInfo := fits.debugInfo.imp (within.parts .debugInfo)
  handlers handler inside entry listed := within.implies.type _ (fits.handlers handler inside entry listed)

/-- Operands are linked to live items. -/
theorem CodeItem.anchored_linkOperands {file : DexFile} (sound : file.Sound) {units : Array UInt16}
    {found : List Operand} {refs : List OperandRef}
    (run : linkOperands file.ids units found = .ok refs) :
    ∀ ref ∈ refs, (RefTest.anchored file).item ref.target := by
  have linked {target : ItemRef} {kind : OperandKind} {index : UInt32}
      (made : ItemRef.ofOperand? kind index = some target) :
      (RefTest.anchored file).item (target.link file.ids) := by
    have raw {β : Type} (items : Section β) : (IndexRef.ofRaw index).Anchored items :=
      fun id none => by cases none
    cases kind with
    | callSite | methodHandle => cases made
    | string =>
        cases made
        exact (raw _).link sound.strings
    | type =>
        cases made
        exact (raw _).link (sound.valid .typeId)
    | methodProto =>
        cases made
        exact (raw _).link (sound.valid .protoId)
    | field =>
        cases made
        exact (raw _).link (sound.valid .fieldId)
    | method =>
        cases made
        exact (raw _).link (sound.valid .methodId)
  induction found generalizing refs with
  | nil =>
      cases run
      exact List.forall_mem_nil _
  | cons operand rest ih =>
      rw [linkOperands] at run
      cases index : operand.index? units with
      | none =>
          rw [index] at run
          cases run
      | some index' =>
          rw [index] at run
          obtain ⟨others, later, run⟩ := Except.bind_eq_ok.1 run
          cases made : ItemRef.ofOperand? operand.kind index' with
          | none =>
              rw [made] at run
              cases run
              exact ih later
          | some target =>
              rw [made] at run
              cases run
              exact List.forall_mem_cons.2 ⟨linked made, ih later⟩

/-- Code that fits names live items only when it is linked. -/
theorem CodeItem.Fits.anchored {code linked : CodeItem} {file : DexFile} (fits : code.Fits file)
    (sound : file.Sound) (run : code.link file.ids = .ok linked) :
    (linked.linkDebugInfo file.debugInfos).Refs (.anchored file) := by
  obtain ⟨found, _, run⟩ := Except.bind_eq_ok.1 run
  obtain ⟨references, operands, run⟩ := Except.bind_eq_ok.1 run
  cases run
  refine ⟨?_, anchored_linkOperands sound operands, ?_⟩
  · show (code.debugInfo.link file.debugInfos).Anchored file.debugInfos
    rw [fits.debugInfo.link]
    exact fits.debugInfo.found
  · rintro _ inside entry listed
    obtain ⟨handler, before, rfl⟩ := List.mem_map.1 inside
    obtain ⟨old, there, rfl⟩ := List.mem_map.1 listed
    exact (fits.handlers handler before old there).link (sound.valid .typeId)

namespace DexFile

variable {file between final third : DexFile}

/-- Interning leaves a sound file and loses nothing. -/
theorem Interns.secures {step : Step DexFile α} {holds : α → Outline → Prop}
    (interns : Interns step file holds) : step.Ensures file
      (fun value final => file.Secures final ∧ final.Sound ∧ holds value final.outline) file.Secures :=
  Step.Ensures.imp interns
    (fun _ _ ⟨interned, here⟩ => ⟨.of_interned interned, interned.sound, here⟩)
    fun _ interned => .of_interned interned

theorem Sound.secures_addCode (sound : file.Sound) {code : CodeItem} (fits : code.Fits file) :
    (addCode code).Ensures file
      (fun id final => file.Secures final ∧ (final.codes.item? id).isSome) file.Secures := by
  unfold addCode
  refine .get (.check (.refl file) fun linked run => .of_ok rfl ⟨.pushCode (fits.anchored sound run), ?_⟩)
  have new := Section.item?_push file.codes (linked.linkDebugInfo file.debugInfos)
    (file.codes.push (linked.linkDebugInfo file.debugInfos)).1
  rw [if_pos rfl] at new
  exact Option.isSome_iff_exists.2 ⟨_, new⟩

theorem secures_memberData (id : Id ClassDef) (file : DexFile) :
    (memberData id).Leads Secures file := by
  unfold memberData
  refine .get ?_
  split
  · exact .fail (.refl file) _
  · exact .pure (.refl file) _
  · exact .bind Secures.trans ⟨.pushData id⟩ fun _ file _ => .pure (.refl file) _

theorem Sound.secures_addField (sound : file.Sound) (id : Id ClassDef) (key : FieldKey)
    (flags : UInt32) : (addField id key flags).Leads Secures file := by
  unfold addField
  refine .get (.check (.refl file) fun _ _ => ?_)
  refine .bind_of_ensures Secures.trans (Interns.secures (sound.internField key))
    fun field between ⟨_, named⟩ => ?_
  have live : (between.fields.items.item? field).isSome :=
    Section.isSome_of_keyOf? (Option.isSome_of_isSome_bind (Option.isSome_iff_exists.2 ⟨key, named⟩))
  have housed : (memberData id).Ensures between
      (fun _ final => between.Secures final ∧ (final.fields.items.item? field).isSome)
      between.Secures :=
    (secures_memberData id between).ensures.imp
      (fun _ _ secures => ⟨secures, secures.live.parts .fieldId field live⟩) fun _ secures => secures
  refine .bind_of_ensures Secures.trans housed fun data final live => .get ?_
  simp only
  split
  · exact ⟨.refl final⟩
  · exact ⟨.modifyData data fun _ refs => refs.addField (IndexRef.anchored_ofId live)⟩

theorem Sound.secures_addMethod (sound : file.Sound) (id : Id ClassDef) (key : MethodKey)
    (flags : UInt32) (code : Option CodeItem) (fits : ∀ item ∈ code, item.Fits file) :
    (addMethod id key flags code).Leads Secures file := by
  unfold addMethod
  refine .get (.check (.refl file) fun _ _ => ?_)
  have interned : (DexFile.internMethod key).Ensures file
      (fun method between => file.Secures between ∧ between.Sound ∧
        (between.methods.items.item? method).isSome ∧ ∀ item ∈ code, item.Fits between)
      file.Secures := (Interns.secures (sound.internMethod key)).imp
    (fun method between ⟨secures, sound, named⟩ => ⟨secures, sound,
      Section.isSome_of_keyOf? (Option.isSome_of_isSome_bind (Option.isSome_iff_exists.2 ⟨key, named⟩)),
      fun item inside => (fits item inside).imp secures.live⟩)
    fun _ secures => secures
  refine .bind_of_ensures Secures.trans interned fun method between ⟨sound, live, fits⟩ => .get ?_
  simp only
  split
  · exact ⟨.refl between⟩
  have coded : (code.mapM addCode).Ensures between
      (fun code final => between.Secures final ∧ (final.methods.items.item? method).isSome ∧
        ∀ id ∈ code, (final.codes.item? id).isSome) between.Secures := by
    cases code with
    | none => exact .of_ok rfl ⟨.refl between, live, fun _ none => by cases none⟩
    | some code =>
        refine Step.Ensures.map (Step.Ensures.imp (sound.secures_addCode (fits code rfl))
          (fun id final ⟨secures, found⟩ => ⟨secures, secures.live.parts .methodId method live, ?_⟩)
          fun _ secures => secures)
        rintro _ ⟨⟩
        exact found
  refine .bind_of_ensures Secures.trans coded fun code first ⟨live, coded⟩ => ?_
  have housed : (memberData id).Ensures first
      (fun _ final => first.Secures final ∧ (final.methods.items.item? method).isSome ∧
        ∀ id ∈ code, (final.codes.item? id).isSome) first.Secures :=
    (secures_memberData id first).ensures.imp (fun _ _ secures => ⟨secures,
      secures.live.parts .methodId method live,
      fun id inside => secures.live.parts .codeItem id (coded id inside)⟩) fun _ secures => secures
  refine .bind_of_ensures Secures.trans housed fun data final ⟨live, coded⟩ =>
    ⟨.modifyData data fun _ refs => ?_⟩
  refine refs.addMethod (IndexRef.anchored_ofId live) ?_
  cases code with
  | none => exact (OffsetRef.live_absent _).found
  | some id => exact OffsetRef.anchored_ofId (coded id rfl)

theorem live_of_descriptor {id : Id TypeItem} {descriptor : String}
    (named : file.outline.descriptor? id = some descriptor) : (file.types.items.item? id).isSome :=
  Section.isSome_of_keyOf? (Option.isSome_of_isSome_bind (Option.isSome_iff_exists.2 ⟨descriptor, named⟩))

theorem Sound.secures_defineClass (sound : file.Sound) (descriptor : String) (flags : UInt32)
    (superclass : Option String) : (defineClass descriptor flags superclass).Leads Secures file := by
  unfold defineClass
  refine .check (.refl file) fun _ _ => ?_
  simp only
  split
  case isFalse => exact ⟨.refl file⟩
  have checked : (superclass.forM fun descriptor =>
      (liftM (checkTypeDescriptor descriptor) : Step DexFile Unit)).Ensures file
        (fun _ between => file.Secures between ∧ between = file) file.Secures := by
    cases superclass with
    | none => exact .of_ok rfl ⟨.refl file, rfl⟩
    | some descriptor => exact .monadLift (fun _ _ => ⟨.refl file, rfl⟩) (.refl file)
  refine .bind_of_ensures Secures.trans checked fun _ between same => .get ?_
  subst same
  split
  · exact ⟨.refl between⟩
  have typed : (DexFile.internType descriptor).Ensures between
      (fun type first => between.Secures first ∧ first.Sound ∧
        (first.types.items.item? type).isSome)
      between.Secures := (Interns.secures (sound.internType descriptor)).imp
    (fun type first ⟨secures, sound, named⟩ => ⟨secures, sound, live_of_descriptor named⟩)
    fun _ secures => secures
  refine .bind_of_ensures Secures.trans typed fun type first ⟨sound, live⟩ => ?_
  have above : (superclass.mapM DexFile.internType).Ensures first
      (fun superclass final => first.Secures final ∧ (final.types.items.item? type).isSome ∧
        ∀ id ∈ superclass, (final.types.items.item? id).isSome) first.Secures := by
    cases superclass with
    | none => exact .of_ok rfl ⟨.refl first, live, fun _ none => by cases none⟩
    | some descriptor =>
        refine Step.Ensures.map (Step.Ensures.imp (Interns.secures (sound.internType descriptor))
          (fun id final ⟨secures, _, named⟩ => ⟨secures, secures.live.parts .typeId type live, ?_⟩)
          fun _ secures => secures)
        rintro _ ⟨⟩
        exact live_of_descriptor named
  refine .bind_of_ensures Secures.trans above fun superclass final ⟨live, above⟩ =>
    ⟨.pushClass ⟨IndexRef.anchored_ofId live, ?_, (OffsetRef.live_absent _).found,
      (IndexRef.live_absent _).found, (OffsetRef.live_absent _).found⟩⟩
  cases superclass with
  | none => exact (IndexRef.live_absent _).found
  | some id => exact IndexRef.anchored_ofId (above id rfl)

/-- What stays behind the removal of a class uses nothing that is gone. -/
theorem RemovesClass.membersAnchored {id : Id ClassDef} {item : ClassDef}
    (removes : file.RemovesClass id item final) (anchored : file.MembersAnchored) :
    final.MembersAnchored := by
  obtain ⟨_, classDefs, classData, codes, debugInfos, others⟩ := removes
  generalize final.classDefs = laterDefs at classDefs others
  generalize final.classData = laterData at classData others
  generalize final.codes = laterCodes at codes others
  generalize final.debugInfos = laterInfos at debugInfos others
  subst others
  refine ⟨fun other image found => ?_, fun other data found => ?_, fun other code found => ?_⟩
  · obtain ⟨here, stays⟩ := classDefs.item?_eq_some.1 found
    obtain ⟨type, superclass, interfaces, sourceFile, live⟩ := anchored.classDefs other image here
    exact ⟨type, superclass, interfaces, sourceFile, fun data named =>
      classData.isSome (live data named) (Section.not_abandons here stays named)⟩
  · obtain ⟨here, stays⟩ := classData.item?_eq_some.1 found
    obtain ⟨fields, methods⟩ := anchored.classData other data here
    refine ⟨fields, fun member inside => ⟨(methods member inside).1, fun code named => ?_⟩⟩
    exact codes.isSome ((methods member inside).2 code named)
      (Section.not_abandons here stays ⟨member, inside, named⟩)
  · obtain ⟨here, stays⟩ := codes.item?_eq_some.1 found
    obtain ⟨live, references, handlers⟩ := anchored.codes other code here
    exact ⟨fun info named => debugInfos.isSome (live info named) (Section.not_abandons here stays named),
      references, handlers⟩

/-- Every duplicate gives way to debug information that is no duplicate itself. -/
theorem duplicates_spec (kept infos : List (Id DebugInfo × DebugInfo))
    (distinct : ((kept ++ infos).map Prod.fst).Nodup) :
    ∀ pair ∈ duplicates kept infos, pair.1 ∈ infos.map Prod.fst ∧
      pair.2 ∈ (kept ++ infos).map Prod.fst ∧ pair.2 ∉ (duplicates kept infos).map Prod.fst := by
  induction infos generalizing kept with
  | nil =>
      intro pair none
      cases none
  | cons entry rest ih =>
      obtain ⟨id, info⟩ := entry
      rw [duplicates]
      split
      · rename_i shared other found
        have listed : shared ∈ kept.map Prod.fst := List.mem_map_of_mem (List.mem_of_find?_eq_some found)
        rw [List.map_append, List.map_cons, List.nodup_middle, List.nodup_cons, ← List.map_append]
          at distinct
        obtain ⟨new, distinct⟩ := distinct
        have ih := ih kept distinct
        have apart : shared ∉ (duplicates kept rest).map Prod.fst := fun inside => by
          obtain ⟨pair, inside, same⟩ := List.mem_map.1 inside
          rw [List.map_append] at distinct
          exact List.disjoint_of_nodup_append distinct listed (same ▸ (ih pair inside).1)
        have shares : shared ∈ (kept ++ rest).map Prod.fst := by
          rw [List.map_append]
          exact List.mem_append_left _ listed
        have wider {id' : Id DebugInfo} (inside : id' ∈ (kept ++ rest).map Prod.fst) :
            id' ∈ (kept ++ (id, info) :: rest).map Prod.fst := by
          rw [List.map_append, List.mem_append] at inside
          rw [List.map_append, List.mem_append, List.map_cons, List.mem_cons]
          exact inside.imp_right .inr
        refine List.forall_mem_cons.2 ⟨⟨List.mem_cons_self, wider shares, ?_⟩, fun pair inside => ?_⟩
        · rw [List.map_cons, List.mem_cons, not_or]
          exact ⟨fun same => new (same ▸ shares), apart⟩
        · obtain ⟨first, second, stays⟩ := ih pair inside
          refine ⟨List.mem_cons_of_mem _ first, wider second, ?_⟩
          rw [List.map_cons, List.mem_cons, not_or]
          exact ⟨fun same => new (same ▸ second), stays⟩
      · have same : kept ++ (id, info) :: rest = kept ++ [(id, info)] ++ rest := by simp
        rw [same] at distinct ⊢
        exact fun pair inside => (ih _ distinct pair inside).imp_left (List.mem_cons_of_mem _)

/-- Debug information that is shared is not removed, and no code has what is removed. -/
theorem membersAnchored_shareDebugInfo (debugInfos : file.debugInfos.Valid)
    (anchored : file.MembersAnchored) : file.shareDebugInfo.2.MembersAnchored := by
  have distinct : (file.debugInfos.entries.map Prod.fst).Nodup := by
    rw [debugInfos.map_fst_entries]
    exact debugInfos.nodup
  have spec := duplicates_spec [] file.debugInfos.entries distinct
  unfold shareDebugInfo
  generalize duplicates [] file.debugInfos.entries = replaced at spec
  have loses := (Section.Loses.nothing debugInfos).removeAll debugInfos (replaced.map Prod.fst)
  rw [List.foldl_map] at loses
  have codes (id : Id CodeItem) (live : (file.codes.item? id).isSome)
      (change : CodeItem → CodeItem) : ((file.codes.map change).item? id).isSome := by
    rwa [Section.item?_map, Option.isSome_map]
  refine ⟨fun id item found => ?_, fun id data found => ?_, fun id code found => ?_⟩
  · exact anchored.classDefs id item found
  · obtain ⟨fields, methods⟩ := anchored.classData id data found
    exact ⟨fields, fun member inside => ⟨(methods member inside).1, fun code named =>
      codes code ((methods member inside).2 code named) _⟩⟩
  · rw [Section.item?_map] at found
    obtain ⟨old, here, rfl⟩ := Option.map_eq_some_iff.1 found
    obtain ⟨live, references, handlers⟩ := anchored.codes id old here
    have stays {info : Id DebugInfo} (live : (file.debugInfos.item? info).isSome)
        (other : info ∉ replaced.map Prod.fst) :=
      loses.isSome live (not_or.2 ⟨False.elim, other⟩)
    dsimp only
    split
    · rename_i shared named
      obtain ⟨info, _, found⟩ := Option.bind_eq_some_iff.1 named
      obtain ⟨before, behind, parts, _⟩ := List.lookup_eq_some_iff.1 found
      have inside : (info, shared) ∈ replaced := by simp [parts]
      obtain ⟨_, listed, other⟩ := spec (info, shared) inside
      refine ⟨?_, references, handlers⟩
      rintro _ ⟨⟩
      rw [List.nil_append, debugInfos.map_fst_entries, Array.mem_toList_iff,
        debugInfos.mem_order_iff] at listed
      exact stays listed other
    · rename_i unnamed
      refine ⟨fun info named => stays (live info named) fun inside => ?_, references, handlers⟩
      rw [named, Option.bind_some, List.lookup_eq_none_iff] at unnamed
      obtain ⟨pair, listed, rfl⟩ := List.mem_map.1 inside
      have other := unnamed pair listed
      rw [bne_self_eq_false] at other
      cases other

end DexFile
end DexArsc.Dex
