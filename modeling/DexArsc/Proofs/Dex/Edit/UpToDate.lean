/-
Refreshes and layout passes that may fail midway: wherever one ends, the file there follows the file
that it started from.
-/

import DexArsc.Proofs.Dex.Edit.Refresh

namespace DexArsc.Dex

variable {α : Type}

/-- Sections that differ in places only. -/
def Section.SamePlaceless (items final : Section α) : Prop :=
  final.unplaced = items.unplaced

namespace Section.SamePlaceless

variable {items between final : Section α}

theorem refl : items.SamePlaceless items := rfl

theorem trans (before : items.SamePlaceless between) (behind : between.SamePlaceless final) :
    items.SamePlaceless final :=
  Eq.trans behind before

theorem placeItems [Codec α] (alignment : Nat) (ids : List (Id α)) (placed : Placement)
    (items : Section α) : (placeItems alignment ids placed).Leads SamePlaceless items := by
  induction ids generalizing placed items with
  | nil => exact .pure refl placed
  | cons id rest ih =>
      refine .bind trans (.lift refl _) fun offset items _ => ?_
      refine .bind trans (.modify (unplaced_setItemOffset items id offset)) fun _ items _ => ?_
      exact .get (ih _ items)

theorem placeStart (position : Nat) (items : Section α) :
    (placeStart position).Leads SamePlaceless items :=
  .bind trans (.lift refl _) fun _ _ _ => .modify rfl

theorem placeWithItems [Codec α] (placed : Placement) (items : Section α) :
    (placeWithItems placed).Leads SamePlaceless items :=
  .bind trans (placeStart _ items) fun _ items _ => .get (placeItems _ _ _ items)

end Section.SamePlaceless

/-- String ids that differ in places only, those of their data included. -/
def Section.SameStrings (items final : Section StringItem) : Prop :=
  (final.map StringItem.unplaced).SamePlaceless (items.map StringItem.unplaced)

namespace Section.SameStrings

variable {items between final : Section StringItem}

theorem refl : items.SameStrings items := rfl

theorem trans (before : items.SameStrings between) (behind : between.SameStrings final) :
    items.SameStrings final :=
  Eq.trans before behind

theorem of_samePlaceless (same : items.SamePlaceless final) : items.SameStrings final := by
  unfold SameStrings SamePlaceless
  rw [unplaced_map, unplaced_map]
  exact congrArg (Section.map · _) (Eq.symm same)

theorem placeStringIds (ids : List (Id StringItem)) (position : Nat) (items : Section StringItem) :
    (placeStringIds ids position).Leads SameStrings items := by
  induction ids generalizing position items with
  | nil => exact .pure refl position
  | cons id rest ih =>
      refine .bind trans (.lift refl _) fun offset items _ => ?_
      refine .bind trans (.modify (.of_samePlaceless (unplaced_setItemOffset items id offset)))
        fun _ items _ => ?_
      exact ih _ items

theorem placeStringData (ids : List (Id StringItem)) (placed : Placement)
    (items : Section StringItem) : (placeStringData ids placed).Leads SameStrings items := by
  induction ids generalizing placed items with
  | nil => exact .pure refl placed
  | cons id rest ih =>
      refine .get ?_
      cases found : items.item? id with
      | none => exact ih placed items
      | some item =>
          refine .bind trans (.lift refl _) fun offset items _ => ?_
          refine .bind trans (.modify ?_) fun _ items _ => ih _ items
          exact congrArg Section.unplaced (DataPlaced.map_modify id offset).symm

end Section.SameStrings

namespace DexFile

variable {file final : DexFile}

/-- Files that differ in places only. -/
def SamePlaceless (file final : DexFile) : Prop :=
  final.unplaced = file.unplaced

namespace SamePlaceless

theorem refl : file.SamePlaceless file := rfl

theorem trans {between : DexFile} (before : file.SamePlaceless between)
    (behind : between.SamePlaceless final) : file.SamePlaceless final :=
  Eq.trans behind before

theorem onStrings {β : Type} {step : Step (Section StringItem) β}
    (leads : step.Leads Section.SameStrings file.strings.items) :
    (onStrings step).Leads SamePlaceless file :=
  .onPart leads fun _ same => unplaced_strings (Eq.symm same)

theorem placeSection (entries : Nat) (kind : SectionKind) (placed : Placement) (file : DexFile) :
    (placeSection entries kind placed).Leads SamePlaceless file := by
  cases found : Part.ofKind? kind with
  | some part =>
      obtain rfl := Part.ofKind?_eq_some.1 found
      rw [Part.placeSection_kind]
      refine .onPart (Section.SamePlaceless.placeWithItems placed _) fun items same => ?_
      unfold SamePlaceless
      rw [unplaced_put, show items.unplaced = _ from same, ← items_unplaced, Part.put_items]
  | none =>
      cases kind with
      | header => exact .pure refl _
      | mapList => exact .pure refl _
      | stringId =>
          refine onStrings ?_
          refine .bind Section.SameStrings.trans
            (Step.Leads.imp (Section.SamePlaceless.placeStart _ _) fun _ => .of_samePlaceless) fun _ items _ => ?_
          exact .get (.bind Section.SameStrings.trans (Section.SameStrings.placeStringIds _ _ items)
            fun _ items _ => .pure Section.SameStrings.refl _)
      | stringData => exact onStrings (.get (Section.SameStrings.placeStringData _ _ _))
      | typeId | protoId | fieldId | methodId | classDef | typeList | classData | codeItem |
        debugInfo => cases found
      | _ => exact .fail refl _

theorem setArea (kind : SectionKind) (size offset : UInt32) (file : DexFile) :
    file.SamePlaceless { file with header := file.header.setArea kind size offset } := by
  unfold SamePlaceless unplaced
  simp only [Header.unplaced_setArea]

theorem placeEntry (entries : Nat) (entry : LayoutEntry) (count start : Nat) (pass : LayoutPass)
    (file : DexFile) : (placeEntry entries entry count start pass).Leads SamePlaceless file := by
  have finish (result : Placement × MapItem) (file : DexFile) :
      (do
        let stop ← narrow32 "section end" result.1.position
        return { pass with
          placed := { result.1 with offsets := result.1.offsets.push stop }
          map := pass.map ++ [result.2] } : Step DexFile LayoutPass).Leads SamePlaceless file :=
    .bind trans (.lift refl _) fun _ _ _ => .pure refl _
  refine .get ?_
  cases entry with
  | raw index =>
      refine .bind trans (.lift refl _) fun offset file _ => ?_
      have placed : (modify (List.modify · index fun raw => { raw with offset }) :
          Step (List RawSection) PUnit).Leads (fun raws changed =>
            changed.map RawSection.unplaced = raws.map RawSection.unplaced) file.raws := .modify ?_
      refine .bind trans (.onPart placed fun raws same => ?_) fun _ file _ =>
        .get (finish (_, _) file)
      · unfold SamePlaceless unplaced
        simp only [same]
      · apply List.ext_getElem?
        intro place
        simp only [List.getElem?_map, List.getElem?_modify]
        split <;> cases file.raws[place]? <;> rfl
  | modelled kind =>
      refine .bind trans (placeSection _ _ _ file) fun placed file _ => ?_
      refine .bind trans (.lift refl _) fun offset file _ => ?_
      exact .bind trans (.modify (setArea _ _ _ file)) fun _ file _ => finish (_, _) file

theorem placeEntries (options : WriteOptions) (entries : Nat) (rest : List LayoutEntry)
    (pass : LayoutPass) (file : DexFile) :
    (placeEntries options entries rest pass).Leads SamePlaceless file := by
  induction rest generalizing pass file with
  | nil => exact .pure refl pass
  | cons entry rest ih =>
      refine .get ?_
      by_cases empty : file.countOf entry = 0
      · simp only [empty, if_true]
        exact .bind trans ⟨setArea _ _ _ file⟩ fun _ file _ => ih pass file
      · simp only [empty, if_false]
        exact .bind trans (placeEntry _ _ _ _ _ file) fun pass file _ => ih pass file

theorem layoutPass (options : WriteOptions) (file : DexFile) :
    (layoutPass options).Leads SamePlaceless file := by
  refine .get (.bind trans (placeEntries _ _ _ _ file) fun pass file _ => ?_)
  refine .bind trans (.lift refl _) fun size file _ => ?_
  exact .bind trans (.modify rfl) fun _ file _ => .pure refl _

end SamePlaceless
end DexFile

/-- Sections with the live ids of a file. -/
structure IdSections.Living (ids : IdSections) (file : DexFile) : Prop where
  strings : file.strings.items.SameLive ids.strings
  types : file.types.items.SameLive ids.types
  protos : file.protos.items.SameLive ids.protos
  fields : file.fields.items.SameLive ids.fields
  methods : file.methods.items.SameLive ids.methods

theorem IdSections.living_ids (file : DexFile) : file.ids.Living file :=
  ⟨fun _ => rfl, fun _ => rfl, fun _ => rfl, fun _ => rfl, fun _ => rfl⟩

namespace IdSections.Living

variable {ids : IdSections} {file final : DexFile}

theorem follows (living : ids.Living file) (follows : file.Follows final) : ids.Living final where
  strings id := (living.strings id).trans (follows.sameLive.strings id).symm
  types id := (living.types id).trans (follows.sameLive.parts .typeId id).symm
  protos id := (living.protos id).trans (follows.sameLive.parts .protoId id).symm
  fields id := (living.fields id).trans (follows.sameLive.parts .fieldId id).symm
  methods id := (living.methods id).trans (follows.sameLive.parts .methodId id).symm

theorem traces (living : ids.Living file) : (RefMap.indexes ids).Traces file :=
  RefMap.traces_refresh (.inr ⟨_, living.strings, rfl⟩) (.inr ⟨_, living.types, rfl⟩)
    (.inr ⟨_, living.protos, rfl⟩) (.inr ⟨_, living.fields, rfl⟩) (.inr ⟨_, living.methods, rfl⟩)
    (.inl rfl) (.inl rfl) (.inl rfl) (.inl rfl)

end IdSections.Living

namespace Part.Follows

variable {file : DexFile}

theorem typeList_refresh {types : Section TypeItem} (same : file.types.items.SameLive types)
    (list : TypeList) : (TypeList.refresh types).Leads (typeList.Follows file) list := by
  have entry (ref image : IndexRef TypeItem) (ends : (refreshListEntry types).Ends ref image) :
      image = ref.refresh types := by
    have changes : (refreshListEntry types).Leads (fun ref image => image = IndexRef.refresh ref types)
        ref := by
      constructor
      exact Step.Ensures.monadLift (fun _ _ => rfl) rfl
    exact changes.ends ends
  have entries : (Step.onEach (refreshListEntry types)).Leads (fun refs images =>
      images.length = refs.length ∧ ∀ (place : Nat) (ref image : IndexRef TypeItem),
        refs[place]? = some ref → images[place]? = some image →
          image = ref ∨ image = ref.refresh types) list.types :=
    .of_ends fun images ends => by
      obtain ⟨length, each⟩ := Step.onEach_ends ends
      exact ⟨length, fun place ref image here there => (each place ref image here there).imp id
        (entry ref image)⟩
  refine Step.Leads.onPart entries fun images ⟨length, each⟩ => ?_
  · have pair (place : Nat) : images[place]?.map (IndexRef.traced file.types.items) =
        list.types[place]?.map (IndexRef.traced file.types.items) := by
      cases here : list.types[place]? with
      | none =>
          rw [List.getElem?_eq_none_iff] at here
          rw [List.getElem?_eq_none_iff.2 (by omega)]
      | some ref =>
          have inside := (List.getElem?_eq_some_iff.1 here).1
          have there : images[place]? = some images[place] := List.getElem?_eq_getElem (by omega)
          rw [there, Option.map_some, Option.map_some]
          rcases each place ref _ here there with kept | fresh
          · rw [kept]
          · rw [fresh, IndexRef.traced_refresh same]
    refine ⟨?_, fun test kept refs image inside => ?_, fun _ => trivial⟩
    · refine congrArg TypeList.mk (List.ext_getElem? fun place => ?_)
      rw [List.getElem?_map, List.getElem?_map]
      exact pair place
    · obtain ⟨place, found⟩ := List.getElem?_of_mem inside
      have bound : place < images.length := (List.getElem?_eq_some_iff.1 found).1
      have here : list.types[place]? = some list.types[place] := List.getElem?_eq_getElem (by omega)
      have before : test.type list.types[place] := refs _ (List.mem_of_getElem? here)
      rcases each place _ image here found with old | fresh
      · rwa [old]
      · rw [fresh]
        exact kept.type types same _ before

theorem fieldId_refresh {ids : IdSections} (living : ids.Living file) (item : FieldItem) :
    (FieldItem.refreshChecked ids).Leads (fieldId.Follows file) item := by
  have follows : fieldId.Follows file item (FieldItem.withRefs (.indexes ids) item) :=
    .withRefs living.traces fun _ => trivial
  unfold FieldItem.refreshChecked
  refine .bind Part.Follows.trans (.modify follows) fun _ item _ => .get ?_
  exact .bind Part.Follows.trans (.lift (.refl item) _) fun _ item _ => .lift (.refl item) _

theorem methodId_refresh {ids : IdSections} (living : ids.Living file) (item : MethodItem) :
    (MethodItem.refreshChecked ids).Leads (methodId.Follows file) item := by
  have follows : methodId.Follows file item (MethodItem.withRefs (.indexes ids) item) :=
    .withRefs living.traces fun _ => trivial
  unfold MethodItem.refreshChecked
  refine .bind Part.Follows.trans (.modify follows) fun _ item _ => .get ?_
  exact .bind Part.Follows.trans (.lift (.refl item) _) fun _ item _ => .lift (.refl item) _

/-- However far a refresh of code gets, its operands stay, and its try blocks with their handlers. -/
theorem codeItem_refresh {ids : IdSections} {infos : Section DebugInfo} (living : ids.Living file)
    (same : file.debugInfos.SameLive infos) (code : CodeItem) :
    (CodeItem.refresh ids infos).Leads (codeItem.Follows file) code := by
  have targets {test : RefTest} (kept : test.Kept file) (refs : List OperandRef)
      (units : Array UInt16) (holds : ∀ ref ∈ refs, test.item ref.target) :
      ∀ ref ∈ (OperandRef.refreshAll ids refs units).1, test.item ref.target := by
    have one (ref : OperandRef) (holds : test.item ref.target) :
        test.item (ref.refreshed ids).target := by
      unfold OperandRef.refreshed
      cases target : ref.target <;> rw [target] at holds
      · exact kept.string _ living.strings _ holds
      · exact kept.type _ living.types _ holds
      · exact kept.proto _ living.protos _ holds
      · exact kept.field _ living.fields _ holds
      · exact kept.method _ living.methods _ holds
    induction refs generalizing units with
    | nil => exact holds
    | cons ref rest ih =>
        obtain ⟨first, rest⟩ := List.forall_mem_cons.1 holds
        rw [OperandRef.refreshAll_cons]
        split
        · exact List.forall_mem_cons.2 ⟨one ref first, rest⟩
        · exact List.forall_mem_cons.2 ⟨one ref first, ih _ rest⟩
  obtain ⟨operands, size, frame⟩ := OperandRef.refreshAll_frame ids code.references code.units
  have targets {test : RefTest} (kept : test.Kept file) :=
    targets kept code.references code.units
  refine .of_ends fun final ends => ?_
  unfold Step.Ends at ends
  rw [CodeItem.refresh_apply] at ends
  rcases outcome : OperandRef.refreshAll ids code.references code.units with
    ⟨references, units, result⟩
  rw [outcome] at ends operands size frame targets
  cases result with
  | error fault =>
      rcases ends with ⟨_, run⟩ | ⟨_, run⟩ <;> cases run
      exact ⟨trivial, fun _ kept ⟨debug, refs, handlers⟩ => ⟨debug, targets kept refs, handlers⟩,
        fun ⟨scanned, few, handled, used, named⟩ =>
          ⟨scanned.withUnits operands size frame, few, handled, used, named⟩⟩
  | ok nothing =>
      rcases ends with ⟨_, run⟩ | ⟨_, run⟩ <;> cases run
      refine ⟨trivial, fun test kept ⟨debug, refs, handlers⟩ =>
          ⟨kept.debugInfo _ same _ debug, targets kept refs, ?_⟩,
        fun ⟨scanned, guarded⟩ => ⟨scanned.withUnits operands size frame, guarded.few, ?_, ?_, ?_⟩⟩
      · rintro _ inside entry listed
        obtain ⟨handler, before, rfl⟩ := List.mem_map.1 inside
        obtain ⟨old, there, rfl⟩ := List.mem_map.1 listed
        exact kept.type _ living.types _ (handlers handler before old there)
      · rintro _ inside
        obtain ⟨handler, before, rfl⟩ := List.mem_map.1 inside
        exact (guarded.handled handler before).imp (fun some none => some (List.map_eq_nil_iff.1 none)) id
      · exact fun none => List.map_eq_nil_iff.2 (guarded.used none)
      · exact fun block inside => by
          rw [List.length_map]
          exact guarded.named block inside

end Part.Follows

namespace DexFile

variable {file final : DexFile} {ids : IdSections}

namespace Follows

/-- A step on a section of other items than classes, which follow. -/
theorem onPart {β : Type} (part : Part) (other : part ≠ .classDef) {step : Step (Section part.Item) β}
    (leads : step.Leads (Section.Follows (part.Follows file)) (part.items file)) :
    (Step.onPart (fun file => part.items file) (fun items file => part.put file items) step).Leads
      Follows file :=
  .onPart leads fun _ follows => .put part follows fun isClass => absurd isClass other

/-- A change of every item of a section. -/
theorem onPart_map (part : Part) {change : part.Item → part.Item}
    (holds : ∀ item, part.Follows file item (change item)) :
    (Step.onPart (fun file => part.items file) (fun items file => part.put file items)
      (modify (Section.map · change))).Leads Follows file := by
  have leads : (modify (Section.map · change) : Step (Section part.Item) PUnit).Leads
      (fun items final => final = items.map change) (part.items file) := .modify rfl
  refine .onPart leads fun items same => ?_
  subst same
  exact .put part (.map holds _) fun _ => .map ..

/-- A change of every item of a section that refreshes references. -/
theorem onPart_withRefs (part : Part) {change : RefMap} (traces : change.Traces file)
    (shaped : ∀ item, part.Shaped item → part.Shaped (part.withRefs change item)) :
    (Step.onPart (fun file => part.items file) (fun items file => part.put file items)
      (modify (Section.map · (part.withRefs change)))).Leads Follows file :=
  onPart_map part fun item => .withRefs traces (shaped item)

/-- A step that keeps the kinds of the sections that are kept as bytes. -/
theorem onRaws {β : Type} {step : Step (List RawSection) β}
    (leads : step.Leads (fun raws changed => changed.map RawSection.kind = raws.map RawSection.kind)
      file.raws) : (onRaws step).Leads Follows file :=
  .onPart leads fun raws kinds =>
    { Follows.refl file with
      parts := fun part => by cases part <;> exact .refl (fun item => .refl item) _
      raws := kinds }

theorem refreshIndexes (file : DexFile) : refreshIndexes.Leads Follows file := by
  unfold DexFile.refreshIndexes
  have living := IdSections.living_ids file
  refine .get (.bind trans (onPart_withRefs .typeId living.traces fun _ _ => trivial)
    fun _ file _ => .get ?_)
  have living := IdSections.living_ids file
  generalize file.ids = ids at living
  refine .bind trans (onPart .typeList (by decide)
    (Section.Follows.onItems (@Part.Follows.refl _ .typeList)
      (fun _ => Part.Follows.typeList_refresh living.types) _))
    fun _ file follows => ?_
  have living := living.follows follows
  refine .bind trans (onPart_withRefs .protoId living.traces fun _ _ => trivial)
    fun _ file follows => ?_
  have living := living.follows follows
  refine .bind trans (onPart .fieldId (by decide)
    (Section.Follows.onItems (@Part.Follows.refl _ .fieldId)
      (fun _ => Part.Follows.fieldId_refresh living) _)) fun _ file _ => .get ?_
  have living := IdSections.living_ids file
  refine .bind trans (onPart .methodId (by decide)
    (Section.Follows.onItems (@Part.Follows.refl _ .methodId)
      (fun _ => Part.Follows.methodId_refresh living) _)) fun _ file _ => .get ?_
  have living := IdSections.living_ids file
  generalize file.ids = ids at living
  refine .bind trans (onPart_withRefs .debugInfo living.traces
    fun info sound => DebugSequence.Sound.mapRefs _ _ sound) fun _ file follows => ?_
  have living := living.follows follows
  refine .bind trans (onPart_map .classData fun data => ?_) fun _ file follows => ?_
  · exact ⟨trivial, fun test kept refs => ClassData.refs_sorted.2 (ClassData.refs_withRefs.2
      (ClassData.Refs.imp refs (living.traces.kept test kept))), fun _ => trivial⟩
  have living := living.follows follows
  refine .bind trans (onPart_withRefs .classDef living.traces fun _ shaped => shaped)
    fun _ file follows => onRaws (.of_ends fun raws ends => ?_)
  obtain ⟨length, each⟩ := Step.onEach_ends ends
  apply List.ext_getElem?
  intro place
  rw [List.getElem?_map, List.getElem?_map]
  cases here : file.raws[place]? with
  | none => rw [List.getElem?_eq_none_iff.2 (length ▸ List.getElem?_eq_none_iff.1 here)]
  | some raw =>
      have inside : place < raws.length := length ▸ (List.getElem?_eq_some_iff.1 here).1
      have there : raws[place]? = some raws[place] := List.getElem?_eq_getElem inside
      rw [there, Option.map_some, Option.map_some]
      rcases each place raw _ here there with same | ends
      · rw [same]
      · rw [(RawSection.refreshIndexes_frame ends).1]

theorem refreshOffsets (file : DexFile) : refreshOffsets.Leads Follows file := by
  have offsets {file : DexFile} {lists : Section TypeList} {data : Section ClassData}
      {codes : Section CodeItem} (sameLists : file.typeLists.SameLive lists)
      (sameData : file.classData.SameLive data) (sameCodes : file.codes.SameLive codes) :
      RefMap.Traces file {
        typeList := (·.refresh lists)
        classData := (·.refresh data)
        code := (·.refresh codes) } :=
    RefMap.traces_refresh (.inl rfl) (.inl rfl) (.inl rfl) (.inl rfl) (.inl rfl)
      (.inr ⟨_, sameLists, rfl⟩) (.inr ⟨_, sameData, rfl⟩) (.inr ⟨_, sameCodes, rfl⟩) (.inl rfl)
  unfold DexFile.refreshOffsets
  refine .get (.bind trans (onPart_withRefs .protoId (offsets (fun _ => rfl) (fun _ => rfl)
    fun _ => rfl) fun _ _ => trivial) fun _ first before => .get ?_)
  refine .bind trans (onPart .codeItem (by decide) (Section.Follows.onItems (@Part.Follows.refl _ .codeItem)
    (fun _ => Part.Follows.codeItem_refresh (IdSections.living_ids first) fun _ => rfl) _))
    fun _ second between => .get ?_
  refine .bind trans (onPart_withRefs .classData (offsets (fun _ => rfl) (fun _ => rfl)
    fun _ => rfl) fun _ _ => trivial) fun _ third behind => .get ?_
  have lists : third.typeLists.SameLive file.typeLists := fun id =>
    (((before.trans between).trans behind).sameLive.parts .typeList id).symm
  refine .bind trans (onPart_map .classDef fun item => ?_) fun _ final _ => onRaws (.modify ?_)
  · obtain ⟨traced, kept, _⟩ := @Part.Follows.withRefs _ .classDef item _
      (offsets lists (fun _ => rfl) fun _ => rfl) fun shaped => shaped
    exact ⟨traced, kept, fun ⟨annotations, staticValues⟩ => ⟨by
      change RawOffset.relocate _ (ClassDef.annotations item) = _
      rw [annotations]
      rfl, by
      change RawOffset.relocate _ (ClassDef.staticValues item) = _
      rw [staticValues]
      rfl⟩⟩
  · rw [List.map_map]
    rfl

theorem settle (options : WriteOptions) (passes : Nat) (before : Option (Array UInt32))
    (file : DexFile) : (settle options passes before).Leads Follows file := by
  induction passes generalizing before file with
  | zero => exact .fail (.refl file) _
  | succ passes ih =>
      refine .bind trans ((SamePlaceless.layoutPass options file).imp fun _ => of_unplaced)
        fun offsets file _ => ?_
      refine .bind trans (refreshOffsets file) fun _ file _ => ?_
      by_cases same : before = some offsets
      · simp only [same, if_true]
        exact .pure (.refl file) _
      · simp only [same, if_false]
        exact ih _ file

/-- The order of the sections is completed and data about single classes may go. -/
theorem withLayout (file : DexFile) : file.Follows file.completeLayout.dropHiddenApi := by
  have sections : file.modelledKinds.Sublist file.completeLayout.dropHiddenApi.modelledKinds := by
    rw [modelledKinds_dropHiddenApi]
    exact modelledKinds_completeLayout file
  obtain ⟨complete, first, completed⟩ := completeLayout_eq file
  obtain ⟨layout, second, sublist, _⟩ := dropHiddenApi_eq { file with layout := complete }
  rw [first, second] at sections ⊢
  exact { Follows.refl file with
    parts := fun part => by cases part <;> exact .refl (fun item => .refl item) _
    distinct := fun distinct => sublist.nodup (completed.distinct distinct)
    sections
    modelled := fun modelled entry inside => by
      cases entry with
      | modelled kind => exact ⟨kind, rfl⟩
      | raw index => exact modelled _ ((completed.raw_mem_iff index).1 (sublist.subset inside)) }

theorem refresh (options : WriteOptions) (file : DexFile) :
    (refresh options).Leads Follows file := by
  unfold DexFile.refresh
  have laidOut : (modify fun file : DexFile => file.completeLayout.dropHiddenApi :
      Step DexFile PUnit).Leads Follows file := .modify (withLayout file)
  refine .bind trans laidOut fun _ file _ => ?_
  refine .bind trans (refreshIndexes file) fun _ file _ => ?_
  exact settle options maxPasses none file

/-- Another signature and another checksum. -/
theorem withSeal {signature : List UInt8} (length : signature.length = 20) (checksum : UInt32)
    (file : DexFile) :
    file.Follows { file with header := { file.header with signature, checksum } } := by
  refine withHeader fun sound => ?_
  exact ⟨sound.magicLength, sound.magicStart, sound.magicEnd, length, sound.endian⟩

theorem toBytes (options : WriteOptions) (file : DexFile) :
    (toBytes options).Leads Follows file := by
  unfold DexFile.toBytes
  refine .bind trans (refresh options file) fun _ file _ => .get ?_
  refine .bind trans (.lift (.refl file) _) fun out file _ => ?_
  by_cases update : options.updateChecksum = true
  · simp only [update, if_true]
    exact .bind trans (.modify (withSeal (length_sha1 _) _ file)) fun _ file _ => .pure (.refl file) _
  · simp only [update, Bool.false_eq_true, if_false]
    exact .pure (.refl file) _

end Follows
end DexFile
end DexArsc.Dex
