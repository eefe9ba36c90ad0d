/-
Regular files stay regular: every edit keeps the kinds and the validity of the sections, the form of the
header and the distinctness of the layout, wherever it ends and whatever the keys of the file are.
-/

import DexArsc.Proofs.Dex.Edit.Run
import DexArsc.Proofs.Dex.Key
import DexArsc.Proofs.Dex.Section.Change
import DexArsc.Proofs.Dex.Section.Removal

namespace DexArsc.Dex

variable {α κ : Type}

/-- A section of the same kind that stays valid. -/
structure Section.Upholds (items final : Section α) : Prop where
  kind : final.kind = items.kind
  valid : items.Valid → final.Valid

namespace Section.Upholds

variable {items final third : Section α}

theorem refl (items : Section α) : items.Upholds items :=
  ⟨rfl, id⟩

theorem trans (before : items.Upholds final) (behind : final.Upholds third) : items.Upholds third :=
  ⟨behind.kind.trans before.kind, fun valid => behind.valid (before.valid valid)⟩

theorem push (items : Section α) (item : α) : items.Upholds (items.push item).2 :=
  ⟨rfl, fun valid => valid.push item⟩

theorem modify (items : Section α) (id : Id α) (change : α → α) :
    items.Upholds (items.modify id change) :=
  ⟨rfl, fun valid => valid.modify id change⟩

theorem map (items : Section α) (change : α → α) : items.Upholds (items.map change) :=
  ⟨rfl, fun valid => valid.map change⟩

theorem sortBy (items : Section α) (compare : α → α → Ordering) :
    items.Upholds (items.sortBy compare) :=
  ⟨rfl, fun valid => valid.sortBy compare⟩

theorem remove (items : Section α) (id : Id α) : items.Upholds (items.remove id).2 where
  kind := by
    unfold Section.remove
    cases items.live? id with
    | none => rfl
    | some cell => rfl
  valid valid := valid.remove id

end Section.Upholds

/-- A section whose ids stay in their order, but for some that go away and for new ones behind them. -/
structure Section.Lists (items final : Section α) : Prop extends items.Upholds final where
  slots : items.cells.size ≤ final.cells.size
  order : ∃ kept new, final.order.toList = kept ++ new ∧ kept.Sublist items.order.toList ∧
    ∀ id ∈ new, items.cells.size ≤ id.slot

namespace Section.Lists

variable {items final third : Section α}

theorem of_sameIds (upholds : items.Upholds final) (same : items.SameIds final) : items.Lists final where
  toUpholds := upholds
  slots := Nat.le_of_eq same.slots.symm
  order := ⟨_, [], by rw [List.append_nil, same.order], .refl _, by simp⟩

theorem refl (items : Section α) : items.Lists items :=
  of_sameIds (.refl items) (.refl items)

theorem trans (before : items.Lists final) (behind : final.Lists third) : items.Lists third where
  toUpholds := before.toUpholds.trans behind.toUpholds
  slots := Nat.le_trans before.slots behind.slots
  order := by
    obtain ⟨kept, new, listed, inside, fresh⟩ := before.order
    obtain ⟨others, more, listed', inside', fresh'⟩ := behind.order
    rw [listed] at inside'
    obtain ⟨still, late, rfl, first, second⟩ := List.sublist_append_iff.1 inside'
    refine ⟨still, late ++ more, by rw [listed', List.append_assoc], first.trans inside, fun id found => ?_⟩
    rcases List.mem_append.1 found with old | last
    · exact fresh id (second.subset old)
    · exact Nat.le_trans before.slots (fresh' id last)

theorem push (items : Section α) (item : α) : items.Lists (items.push item).2 where
  toUpholds := .push items item
  slots := by
    rw [Section.push, Array.size_push]
    exact Nat.le_succ _
  order := by
    refine ⟨_, [(items.push item).1], by rw [order_push, Array.toList_push]; rfl, .refl _, fun id found => ?_⟩
    rw [List.mem_singleton.1 found]
    exact Nat.le_refl _

theorem modify (items : Section α) (id : Id α) (change : α → α) : items.Lists (items.modify id change) :=
  of_sameIds (.modify ..) ⟨rfl, Array.size_modify⟩

theorem map (items : Section α) (change : α → α) : items.Lists (items.map change) :=
  of_sameIds (.map ..) (.map ..)

theorem remove (items : Section α) (id : Id α) : items.Lists (items.remove id).2 where
  toUpholds := .remove items id
  slots := Nat.le_of_eq (size_cells_remove ..).symm
  order := ⟨_, [], (List.append_nil _).symm, order_remove items id, by simp⟩

end Section.Lists

/-- A section whose items follow is one of the same kind that stays valid. -/
theorem Section.Follows.upholds {follows : α → α → Prop} {items final : Section α}
    (follow : items.Follows follows final) : items.Upholds final :=
  ⟨follow.kind, follow.valid⟩

namespace Pool

variable [BEq κ] [Hashable κ] [KeyText κ]

/-- A pool that answers with an item holds it before or receives it as the last one. -/
theorem upholds_findOrPush (key : κ) (item : Unit → α) (pool : Pool κ α) :
    (findOrPush key item).Leads (fun pool final => pool.items.Upholds final.items) pool := by
  refine .of_ends fun final ends => ?_
  unfold Step.Ends findOrPush at ends
  split at ends
  · rcases ends with ⟨_, run⟩ | ⟨_, run⟩ <;> cases run
    exact .refl _
  · split at ends <;> rcases ends with ⟨_, run⟩ | ⟨_, run⟩ <;> cases run
    · exact .refl _
    · exact .push ..

end Pool

namespace DexFile

variable {file between final third : DexFile}

/-- A file whose sections stay what they are, with a header in its form and a layout without
repetitions as far as the file has them. Classes are neither reordered nor taken for others. -/
structure Upholds (file final : DexFile) : Prop where
  parts : ∀ part : Part, (part.items file).Upholds (part.items final)
  strings : file.strings.items.Upholds final.strings.items
  header : file.header.Sound → final.header.Sound
  raws : final.raws.map RawSection.kind = file.raws.map RawSection.kind
  distinct : file.layout.Nodup → final.layout.Nodup
  sections : file.modelledKinds.Sublist final.modelledKinds
  classes : file.classDefs.Lists final.classDefs
  readClasses : final.readClasses = file.readClasses

namespace Upholds

theorem refl (file : DexFile) : file.Upholds file :=
  ⟨fun _ => .refl _, .refl _, id, rfl, id, .refl _, .refl _, rfl⟩

theorem trans (before : file.Upholds final) (behind : final.Upholds third) : file.Upholds third where
  parts part := (before.parts part).trans (behind.parts part)
  strings := before.strings.trans behind.strings
  header sound := behind.header (before.header sound)
  raws := behind.raws.trans before.raws
  distinct distinct := behind.distinct (before.distinct distinct)
  sections := before.sections.trans behind.sections
  classes := before.classes.trans behind.classes
  readClasses := behind.readClasses.trans before.readClasses

theorem of_follows (follows : file.Follows final) : file.Upholds final where
  parts part := (follows.parts part).upholds
  strings := follows.strings.upholds
  header := follows.header
  raws := follows.raws
  distinct := follows.distinct
  sections := follows.sections
  classes := .of_sameIds (follows.parts .classDef).upholds follows.classes
  readClasses := follows.readClasses

/-- A regular file stays regular. -/
theorem regular (upholds : file.Upholds final) (regular : file.Regular) : final.Regular where
  orderly := {
    kinds := fun part => (upholds.parts part).kind.trans (regular.orderly.kinds part)
    valid := fun part => (upholds.parts part).valid (regular.orderly.valid part)
    strings := upholds.strings.valid regular.orderly.strings
    raws := fun raw inside => by
      have listed : raw.kind ∈ file.raws.map RawSection.kind :=
        upholds.raws ▸ List.mem_map_of_mem inside
      obtain ⟨before, there, same⟩ := List.mem_map.1 listed
      rw [← same]
      exact regular.orderly.raws before there
    distinct := upholds.distinct regular.orderly.distinct }
  header := upholds.header regular.header

/-- Another section of the same kind that stays valid. -/
theorem put (part : Part) {items : Section part.Item} (upholds : (part.items file).Upholds items)
    (classes : part = .classDef → (part.items file).Lists items) : file.Upholds (part.put file items) where
  parts other := by
    by_cases same : other = part
    · subst same
      rwa [Part.items_put]
    · rw [Part.items_put_of_ne same]
      exact .refl _
  strings := by
    rw [Part.strings_put]
    exact .refl _
  header := by
    rw [Part.header_put]
    exact id
  raws := by rw [Part.raws_put]
  distinct := by
    rw [Part.layout_put]
    exact id
  sections := by simp only [modelledKinds, Part.layout_put, List.Sublist.refl]
  classes := by
    cases part with
    | classDef => exact classes rfl
    | _ => exact .refl _
  readClasses := by cases part <;> rfl

/-- Other class definitions. -/
theorem putClasses {items : Section ClassDef} (lists : file.classDefs.Lists items) :
    file.Upholds { file with classDefs := items } :=
  put .classDef lists.toUpholds fun _ => lists

/-- Other items than class definitions. -/
theorem putOther (part : Part) (other : part ≠ .classDef) {items : Section part.Item}
    (upholds : (part.items file).Upholds items) : file.Upholds (part.put file items) :=
  put part upholds fun isClass => absurd isClass other

/-- Other pools of ids, whatever their key maps are. -/
theorem withPools {strings : Pool StringData StringItem} {types : Pool String TypeItem}
    {protos : Pool Prototype ProtoItem} {fields : Pool FieldKey FieldItem}
    {methods : Pool MethodKey MethodItem}
    (keptStrings : file.strings.items.Upholds strings.items)
    (keptTypes : file.types.items.Upholds types.items)
    (keptProtos : file.protos.items.Upholds protos.items)
    (keptFields : file.fields.items.Upholds fields.items)
    (keptMethods : file.methods.items.Upholds methods.items) :
    file.Upholds { file with strings, types, protos, fields, methods } :=
  { refl file with
    parts := fun part => by cases part <;> first | assumption | exact .refl _
    strings := keptStrings }

theorem sortIds (file : DexFile) : file.Upholds file.sortIds :=
  withPools (.sortBy ..) (.sortBy ..) (.sortBy ..) (.sortBy ..) (.sortBy ..)

theorem rebuildKeys (file : DexFile) : rebuildKeys.Leads Upholds file := by
  have stage {pool : Type} {fresh : DexFile → Except Fault pool} {put : DexFile → pool → DexFile}
      {next : Step DexFile Unit} (keeps : ∀ file value, fresh file = .ok value →
        file.Upholds (put file value)) (rest : ∀ file, next.Leads Upholds file) (file : DexFile) :
      (get >>= fun file => monadLift (fresh file) >>= fun value =>
        set (put file value) >>= fun _ : PUnit => next : Step DexFile Unit).Leads Upholds file :=
    .get (.check (.refl file) fun value found =>
      .bind trans ⟨keeps file value found⟩ fun _ file _ => rest file)
  have same {κ α : Type} [BEq κ] [Hashable κ] [KeyText κ] {pool next : Pool κ α} {key? : α → Option κ}
      (run : pool.freshen key? = .ok next) : pool.items.Upholds next.items := by
    rw [Pool.items_freshen run]
    exact .refl _
  unfold DexFile.rebuildKeys
  refine stage (fun file strings run => withPools (same run) (.refl _) (.refl _) (.refl _) (.refl _))
    (fun file => ?_) file
  refine stage (fun file types run => withPools (.refl _) (same run) (.refl _) (.refl _) (.refl _))
    (fun file => ?_) file
  refine stage (fun file protos run => withPools (.refl _) (.refl _) (same run) (.refl _) (.refl _))
    (fun file => ?_) file
  refine stage (fun file fields run => withPools (.refl _) (.refl _) (.refl _) (same run) (.refl _))
    (fun file => ?_) file
  exact .get (.check (.refl file) fun methods run =>
    ⟨withPools (.refl _) (.refl _) (.refl _) (.refl _) (same run)⟩)

theorem internItem {κ α : Type} [BEq κ] [Hashable κ] [KeyText κ] {part : DexFile → Pool κ α}
    {put : Pool κ α → DexFile → DexFile} (key : κ) (item : α) {file : DexFile}
    (keeps : ∀ pool, (part file).items.Upholds pool.items →
      file.Upholds (put pool (put (.empty .header) file))) :
    (internItem part put key item).Leads Upholds file := by
  refine .of_ends fun final ends => ?_
  have leads := Pool.upholds_findOrPush key (fun _ => item) (part file)
  unfold Step.Ends DexFile.internItem at ends
  simp only at ends
  cases run : Pool.findOrPush key (fun _ => item) (part file) with
  | ok found pool =>
      rw [run] at ends
      rcases ends with ⟨_, run'⟩ | ⟨_, run'⟩ <;> cases run'
      exact keeps pool (leads.ends (Step.ends_ok run))
  | error fault pool =>
      rw [run] at ends
      rcases ends with ⟨_, run'⟩ | ⟨_, run'⟩ <;> cases run'
      exact keeps pool (leads.ends (Step.ends_error run))

theorem internString (text : String) (file : DexFile) : (internString text).Leads Upholds file := by
  unfold DexFile.internString
  exact .bind trans (rebuildKeys file) fun _ file _ => internItem _ _ fun pool kept =>
    withPools kept (.refl _) (.refl _) (.refl _) (.refl _)

theorem internType (descriptor : String) (file : DexFile) :
    (internType descriptor).Leads Upholds file := by
  unfold DexFile.internType
  refine .check (.refl file) fun _ _ => .bind trans (rebuildKeys file) fun _ file _ => .get ?_
  split
  · exact .pure (.refl file) _
  refine .bind trans (internString descriptor file) fun _ file _ => internItem _ _ fun pool kept => ?_
  exact withPools (.refl _) kept (.refl _) (.refl _) (.refl _)

theorem internTypeList (descriptors : List String) (file : DexFile) :
    (internTypeList descriptors).Leads Upholds file := by
  unfold DexFile.internTypeList
  refine .bind trans (.forM refl trans (fun _ _ file => .lift (.refl file) _) file) fun _ file _ => ?_
  refine .bind trans (.mapM refl trans (fun descriptor _ => internType descriptor) file)
    fun _ file _ => .get ?_
  split
  · exact .pure (.refl file) _
  · exact .bind trans ⟨putOther .typeList (by decide) (.push ..)⟩ fun _ file _ => .pure (.refl file) _

theorem internProto (key : Prototype) (file : DexFile) : (internProto key).Leads Upholds file := by
  unfold DexFile.internProto
  refine .check (.refl file) fun _ _ => .bind trans (rebuildKeys file) fun _ file _ => .get ?_
  split
  · exact .pure (.refl file) _
  refine .bind trans (internString key.shorty file) fun _ file _ => ?_
  refine .bind trans (internType key.returnType file) fun _ file _ => ?_
  have keeps (parameters : OffsetRef TypeList) (file : DexFile) (shorty : Id StringItem)
      (returnType : Id TypeItem) : (DexFile.internItem protos (fun protos file => { file with protos }) key
        { shorty := .ofId shorty, returnType := .ofId returnType, parameters }).Leads Upholds file :=
    internItem _ _ fun pool kept => withPools (.refl _) (.refl _) kept (.refl _) (.refl _)
  split
  · exact .bind trans (.pure (.refl file) _) fun _ file _ => keeps _ file _ _
  · exact .bind trans (.map (internTypeList key.parameters file) _) fun _ file _ => keeps _ file _ _

theorem internField (key : FieldKey) (file : DexFile) : (internField key).Leads Upholds file := by
  unfold DexFile.internField
  refine .check (.refl file) fun _ _ => .bind trans (rebuildKeys file) fun _ file _ => .get ?_
  split
  · exact .pure (.refl file) _
  refine .bind trans (internType key.owner file) fun _ file _ => ?_
  refine .bind trans (internType key.type file) fun _ file _ => ?_
  refine .bind trans (internString key.name file) fun _ file _ => internItem _ _ fun pool kept => ?_
  exact withPools (.refl _) (.refl _) (.refl _) kept (.refl _)

theorem internMethod (key : MethodKey) (file : DexFile) : (internMethod key).Leads Upholds file := by
  unfold DexFile.internMethod
  refine .check (.refl file) fun _ _ => .check (.refl file) fun _ _ => ?_
  refine .bind trans (rebuildKeys file) fun _ file _ => .get ?_
  split
  · exact .pure (.refl file) _
  refine .bind trans (internType key.owner file) fun _ file _ => ?_
  refine .bind trans (internProto key.prototype file) fun _ file _ => ?_
  refine .bind trans (internString key.name file) fun _ file _ => internItem _ _ fun pool kept => ?_
  exact withPools (.refl _) (.refl _) (.refl _) (.refl _) kept

theorem renameString (id : Id StringItem) (text : String) (file : DexFile) :
    (renameString id text).Leads Upholds file := by
  unfold DexFile.renameString
  refine .bind trans (rebuildKeys file) fun _ file _ => .get ?_
  split
  · exact .fail (.refl file) _
  · simp only
    split
    · refine .check (.refl file) fun _ _ => .check (.refl file) fun strings run => ⟨?_⟩
      have renamed : file.strings.items.Upholds
          (strings.items.modify id fun item => { item with value := .decoded text }) := by
        rw [← Pool.items_rekey run]
        exact .modify ..
      exact withPools renamed (.refl _) (.refl _) (.refl _) (.refl _)
    · exact .pure (.refl file) _

theorem renameType (id : Id TypeItem) (new : String) (file : DexFile) :
    (renameType id new).Leads Upholds file := by
  unfold DexFile.renameType
  refine .check (.refl file) fun _ _ => .bind trans (rebuildKeys file) fun _ file _ => .get ?_
  split
  · exact .fail (.refl file) _
  · simp only
    split
    case isFalse => exact .pure (.refl file) _
    split
    · exact ⟨.refl file⟩
    split
    · exact ⟨.refl file⟩
    refine .bind trans (internString new file) fun string file _ => .get ?_
    refine .check (.refl file) fun types run => ⟨?_⟩
    have renamed : file.types.items.Upholds (types.items.modify id fun item =>
        { descriptor := item.descriptor.setItem (some string) }) := by
      rw [← Pool.items_rekey run]
      exact .modify ..
    exact withPools (.refl _) renamed (.refl _) (.refl _) (.refl _)

theorem defineClass (descriptor : String) (flags : UInt32) (superclass : Option String)
    (file : DexFile) : (defineClass descriptor flags superclass).Leads Upholds file := by
  unfold DexFile.defineClass
  refine .check (.refl file) fun _ _ => ?_
  simp only
  split
  case isFalse => exact ⟨.refl file⟩
  have checked : (superclass.forM fun descriptor =>
      (liftM (checkTypeDescriptor descriptor) : Step DexFile Unit)).Leads Upholds file := by
    cases superclass with
    | none => exact .pure (.refl file) _
    | some descriptor => exact .lift (.refl file) _
  refine .bind trans checked fun _ file _ => .get ?_
  split
  · exact ⟨.refl file⟩
  have above (file : DexFile) : (superclass.mapM DexFile.internType).Leads Upholds file := by
    cases superclass with
    | none => exact .pure (.refl file) _
    | some descriptor => exact .map (internType descriptor file) _
  refine .bind trans (internType descriptor file) fun _ file _ => ?_
  exact .bind trans (above file) fun _ file _ => ⟨putClasses (.push ..)⟩

theorem memberData (id : Id ClassDef) (file : DexFile) : (memberData id).Leads Upholds file := by
  unfold DexFile.memberData
  refine .get ?_
  split
  · exact .fail (.refl file) _
  · exact .pure (.refl file) _
  · exact ⟨trans (putOther .classData (by decide) (.push file.classData {})) (putClasses (.modify ..))⟩

theorem addField (id : Id ClassDef) (key : FieldKey) (flags : UInt32) (file : DexFile) :
    (addField id key flags).Leads Upholds file := by
  unfold DexFile.addField
  refine .get (.check (.refl file) fun _ _ => ?_)
  refine .bind trans (internField key file) fun _ file _ => ?_
  refine .bind trans (memberData id file) fun data file _ => .get ?_
  simp only
  split
  · exact ⟨.refl file⟩
  · exact ⟨putOther .classData (by decide) (.modify ..)⟩

theorem addCode (code : CodeItem) (file : DexFile) : (addCode code).Leads Upholds file := by
  unfold DexFile.addCode
  exact .get (.check (.refl file) fun linked _ => ⟨putOther .codeItem (by decide) (.push ..)⟩)

theorem addDebugInfo (info : DebugInfo) (file : DexFile) : (addDebugInfo info).Leads Upholds file :=
  ⟨putOther .debugInfo (by decide) (.push ..)⟩

theorem addMethod (id : Id ClassDef) (key : MethodKey) (flags : UInt32) (code : Option CodeItem)
    (file : DexFile) : (addMethod id key flags code).Leads Upholds file := by
  unfold DexFile.addMethod
  refine .get (.check (.refl file) fun _ _ => ?_)
  refine .bind trans (internMethod key file) fun _ file _ => .get ?_
  simp only
  split
  · exact ⟨.refl file⟩
  have coded : (code.mapM DexFile.addCode).Leads Upholds file := by
    cases code with
    | none => exact .pure (.refl file) _
    | some code => exact .map (addCode code file) _
  refine .bind trans coded fun _ file _ => ?_
  refine .bind trans (memberData id file) fun data file _ => ?_
  exact ⟨putOther .classData (by decide) (.modify ..)⟩

theorem releaseDebugInfo (file : DexFile) (id : Id DebugInfo) :
    file.Upholds (file.releaseDebugInfo id) := by
  unfold DexFile.releaseDebugInfo
  split
  · exact .refl file
  · exact putOther .debugInfo (by decide) (.remove ..)

theorem releaseCode (file : DexFile) (id : Id CodeItem) : file.Upholds (file.releaseCode id) := by
  unfold DexFile.releaseCode
  split
  · exact .refl file
  split
  · exact .refl file
  rename_i code codes removed
  have released : file.Upholds { file with codes } := by
    have kept := Section.Upholds.remove file.codes id
    rw [removed] at kept
    exact putOther .codeItem (by decide) kept
  cases code.debugInfo.item with
  | none => exact released
  | some info => exact released.trans (releaseDebugInfo _ info)

theorem releaseClassData (file : DexFile) (id : Id ClassData) :
    file.Upholds (file.releaseClassData id) := by
  unfold DexFile.releaseClassData
  split
  · exact .refl file
  split
  · exact .refl file
  rename_i data classData removed
  have released : file.Upholds { file with classData } := by
    have kept := Section.Upholds.remove file.classData id
    rw [removed] at kept
    exact putOther .classData (by decide) kept
  refine released.trans ?_
  generalize ({ file with classData } : DexFile) = between
  induction data.methods.filterMap (·.code.item) generalizing between with
  | nil => exact .refl between
  | cons code rest ih => exact (releaseCode between code).trans (ih _)

theorem removeClass (id : Id ClassDef) (file : DexFile) : (removeClass id).Leads Upholds file := by
  unfold DexFile.removeClass
  refine .get ?_
  split
  · exact .fail (.refl file) _
  rename_i item classDefs removed
  have released : file.Upholds { file with classDefs } := by
    have kept := Section.Lists.remove file.classDefs id
    rw [removed] at kept
    exact putClasses kept
  refine ⟨?_⟩
  change file.Upholds (item.classData.item.elim _ _)
  cases item.classData.item with
  | none => exact released
  | some data => exact released.trans (releaseClassData _ data)

theorem shareDebugInfo (file : DexFile) : file.Upholds file.shareDebugInfo.2 := by
  unfold DexFile.shareDebugInfo
  refine trans (putOther .codeItem (by decide) (.map ..)) (putOther .debugInfo (by decide) ?_)
  generalize duplicates [] file.debugInfos.entries = replaced
  change file.debugInfos.Upholds _
  generalize file.debugInfos = infos
  induction replaced generalizing infos with
  | nil => exact .refl infos
  | cons pair rest ih => exact .trans (.remove infos pair.1) (ih _)

/-- Wherever an edit ends, the file there is regular if the one before is. -/
theorem step (edit : Edit) (file : DexFile) : edit.step.Leads Upholds file := by
  cases edit with
  | internString text => exact .discard (internString text file)
  | internType descriptor => exact .discard (internType descriptor file)
  | internTypeList descriptors => exact .discard (internTypeList descriptors file)
  | internProto key => exact .discard (internProto key file)
  | internField key => exact .discard (internField key file)
  | internMethod key => exact .discard (internMethod key file)
  | renameString id text => exact renameString id text file
  | renameType id descriptor => exact renameType id descriptor file
  | defineClass descriptor flags superclass =>
      exact .discard (defineClass descriptor flags superclass file)
  | addField id key flags => exact .discard (addField id key flags file)
  | addMethod id key flags code => exact .discard (addMethod id key flags code file)
  | addCode code => exact .discard (addCode code file)
  | addDebugInfo info => exact .discard (addDebugInfo info file)
  | removeClass id => exact .discard (removeClass id file)
  | shareDebugInfo => exact .modify (.shareDebugInfo file)
  | sortIds => exact .modify (.sortIds file)
  | refresh options => exact (Follows.refresh options file).imp fun _ => .of_follows
  | toBytes options => exact .discard ((Follows.toBytes options file).imp fun _ => .of_follows)

end Upholds
end DexFile
end DexArsc.Dex
