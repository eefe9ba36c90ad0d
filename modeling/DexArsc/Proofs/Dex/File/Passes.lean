/-
How often a layout is tried. When code stands before class data, the sizes of code settle in the
second pass, the sizes of class data in the third one, and the fourth pass reports what the third
one has reported: no refresh fails because its layout does not settle.
-/

import DexArsc.Proofs.Dex.File.HiddenApi

namespace DexArsc

/-- A result that does not fail with a cause. -/
structure Except.Avoids {α : Type} (cause : Cause) (result : Except Fault α) : Prop where
  ne : ∀ fault, result = .error fault → fault.cause ≠ cause

namespace Except.Avoids

variable {α β : Type} {cause : Cause} {dex : DexCause} {result : Except Fault α}
  {next : α → Except Fault β}

theorem ok (value : α) : Except.Avoids cause (.ok value) :=
  ⟨fun _ failed => nomatch failed⟩

theorem error {fault : Fault} (different : fault.cause ≠ cause) :
    Except.Avoids cause (.error fault : Except Fault α) := by
  refine ⟨fun other failed => ?_⟩
  cases failed
  exact different

theorem fail {other : Cause} (different : other ≠ cause) :
    Except.Avoids cause (DexArsc.fail other : Except Fault α) :=
  error different

theorem bind (first : Except.Avoids cause result) (second : ∀ value, Except.Avoids cause (next value)) :
    Except.Avoids cause (result >>= next) := by
  cases result with
  | ok value => exact second value
  | error fault => exact error (first.ne fault rfl)

theorem map (avoids : Except.Avoids cause result) (change : α → β) :
    Except.Avoids cause (result.map change) := by
  cases result with
  | ok value => exact ok _
  | error fault => exact error (avoids.ne fault rfl)

theorem within (avoids : Except.Avoids cause result) (place : String) :
    Except.Avoids cause (Except.within place result) := by
  cases result with
  | ok value => exact ok value
  | error fault => exact error (avoids.ne fault rfl)

/-- A number that does not fit is no failure of its own kind. -/
theorem narrow (slot : Slot) (what : String) (value : Int) :
    Except.Avoids (.dex dex) (slot.narrow what value) := by
  unfold Slot.narrow
  split
  · exact ok value
  · exact fail (by simp)

theorem narrow16 (what : String) (value : Nat) :
    Except.Avoids (.dex dex) (DexArsc.narrow16 what value) :=
  map (narrow Slot.half what value) _

theorem narrow32 (what : String) (value : Nat) :
    Except.Avoids (.dex dex) (DexArsc.narrow32 what value) :=
  map (narrow Slot.word what value) _

end Except.Avoids

/-- A step that never fails with a cause. -/
structure Step.Avoids {state α : Type} (cause : Cause) (step : Step state α) : Prop where
  ne : ∀ initial fault final, step initial = .error fault final → fault.cause ≠ cause

namespace Step.Avoids

variable {state inner α β : Type} {cause : Cause} {step : Step state α} {next : α → Step state β}

theorem pure (value : α) : (Pure.pure value : Step state α).Avoids cause :=
  ⟨fun _ _ _ failed => nomatch failed⟩

theorem get : (MonadState.get : Step state state).Avoids cause :=
  ⟨fun _ _ _ failed => nomatch failed⟩

theorem set (value : state) : (MonadStateOf.set value : Step state PUnit).Avoids cause :=
  ⟨fun _ _ _ failed => nomatch failed⟩

theorem modify (change : state → state) : (modify change : Step state PUnit).Avoids cause :=
  ⟨fun _ _ _ failed => nomatch failed⟩

theorem fail {other : Cause} (different : other ≠ cause) :
    (DexArsc.fail other : Step state α).Avoids cause := by
  refine ⟨fun initial fault final failed => ?_⟩
  cases failed
  exact different

theorem lift {result : Except Fault α} (avoids : Except.Avoids cause result) :
    (MonadLift.monadLift result : Step state α).Avoids cause := by
  cases result with
  | ok value => exact pure value
  | error fault =>
      refine ⟨fun initial other final failed => ?_⟩
      cases failed
      exact avoids.ne fault rfl

theorem bind (first : step.Avoids cause) (second : ∀ value, (next value).Avoids cause) :
    (step >>= next).Avoids cause := by
  refine ⟨fun initial fault final failed => ?_⟩
  rw [bind_apply] at failed
  cases run : step initial with
  | ok value between =>
      rw [run] at failed
      exact (second value).ne between fault final failed
  | error other between =>
      rw [run] at failed
      cases failed
      exact first.ne initial fault final run

theorem onPart {part : state → inner} {put : inner → state → state} {step : Step inner α}
    (avoids : step.Avoids cause) : (Step.onPart part put step).Avoids cause := by
  refine ⟨fun initial fault final failed => ?_⟩
  unfold Step.onPart at failed
  cases run : step (part initial) with
  | ok value between =>
      rw [run] at failed
      cases failed
  | error other between =>
      rw [run] at failed
      cases failed
      exact avoids.ne _ fault between run

theorem onEach {step : Step inner Unit} (avoids : step.Avoids cause) :
    (Step.onEach step).Avoids cause := by
  have behind (values : List inner) : ∀ (done : List inner) (fault : Fault) (final : List inner),
      Step.onEachFrom step done values = .error fault final → fault.cause ≠ cause := by
    induction values with
    | nil => exact fun _ _ _ failed => nomatch failed
    | cons value rest ih =>
        intro done fault final failed
        unfold Step.onEachFrom at failed
        cases run : step value with
        | ok nothing image =>
            rw [run] at failed
            exact ih _ fault final failed
        | error other image =>
            rw [run] at failed
            cases failed
            exact avoids.ne value fault image run
  exact ⟨fun values fault final failed => behind values [] fault final failed⟩

theorem onItems {step : UInt32 → Step α Unit} (avoids : ∀ offset, (step offset).Avoids cause) :
    (Dex.Section.onItems step).Avoids cause := by
  have cells : (Dex.Section.onCell step).Avoids cause := by
    refine ⟨fun cell fault final failed => ?_⟩
    unfold Dex.Section.onCell at failed
    cases content : cell.item with
    | none =>
        rw [content] at failed
        cases failed
    | some item =>
        rw [content] at failed
        cases run : step cell.offset item with
        | ok nothing image =>
            simp only [run] at failed
            cases failed
        | error other image =>
            simp only [run] at failed
            cases failed
            exact (avoids _).ne item fault image run
  refine ⟨fun items fault final failed => ?_⟩
  rw [Dex.Section.onItems_apply] at failed
  cases run : Step.onEach (Dex.Section.onCell step) items.cells.toList with
  | ok nothing images =>
      rw [run] at failed
      cases failed
  | error other images =>
      rw [run] at failed
      cases failed
      exact cells.onEach.ne _ fault images run

end Step.Avoids

namespace Dex

variable {α : Type}

/-- The cause that a layout does not settle. -/
def unsettled : Cause :=
  .dex (.unsettledLayout DexFile.maxPasses)

theorem avoids_placeItems [Codec α] (alignment : Nat) (ids : List (Id α)) (placed : Placement) :
    (placeItems alignment ids placed).Avoids unsettled := by
  induction ids generalizing placed with
  | nil => exact .pure _
  | cons id rest ih =>
      unfold placeItems
      exact .bind (.lift (.narrow32 ..)) fun _ => .bind (.modify _) fun _ => .bind .get fun _ => ih _

theorem avoids_placeStart (position : Nat) :
    (placeStart position : Step (Section α) Unit).Avoids unsettled :=
  .bind (.lift (.narrow32 ..)) fun _ => .modify _

theorem avoids_placeWithItems [Codec α] (placed : Placement) :
    (placeWithItems placed : Step (Section α) Placement).Avoids unsettled :=
  .bind (avoids_placeStart _) fun _ => .bind .get fun _ => avoids_placeItems ..

theorem avoids_placeStringIds (ids : List (Id StringItem)) (position : Nat) :
    (placeStringIds ids position).Avoids unsettled := by
  induction ids generalizing position with
  | nil => exact .pure _
  | cons id rest ih =>
      unfold placeStringIds
      exact .bind (.lift (.narrow32 ..)) fun _ => .bind (.modify _) fun _ => ih _

theorem avoids_placeStringData (ids : List (Id StringItem)) (placed : Placement) :
    (placeStringData ids placed).Avoids unsettled := by
  induction ids generalizing placed with
  | nil => exact .pure _
  | cons id rest ih =>
      unfold placeStringData
      refine .bind .get fun items => ?_
      cases items.item? id with
      | none => exact ih placed
      | some item => exact .bind (.lift (.narrow32 ..)) fun _ => .bind (.modify _) fun _ => ih _

namespace DexFile

theorem avoids_placeSection (entries : Nat) (kind : SectionKind) (placed : Placement) :
    (placeSection entries kind placed).Avoids unsettled := by
  have part {α : Type} [Codec α] {read : DexFile → Section α} {put : Section α → DexFile → DexFile} :
      (Step.onPart read put (placeWithItems placed)).Avoids unsettled :=
    .onPart (avoids_placeWithItems placed)
  unfold placeSection
  split
  case h_1 | h_2 => exact .pure _
  case h_3 =>
    exact .onPart (.bind (avoids_placeStart _) fun _ => .bind .get fun _ =>
      .bind (avoids_placeStringIds ..) fun _ => .pure _)
  case h_4 => exact .onPart (.bind .get fun _ => avoids_placeStringData ..)
  case h_14 => exact .fail (by simp [unsettled])
  all_goals exact part

theorem avoids_placeEntry (entries : Nat) (entry : LayoutEntry) (count start : Nat) (pass : LayoutPass) :
    (placeEntry entries entry count start pass).Avoids unsettled := by
  unfold placeEntry
  refine .bind .get fun file => ?_
  cases entry with
  | raw index =>
      exact .bind (.lift (.narrow32 ..)) fun _ => .bind (.onPart (.modify _)) fun _ =>
        .bind .get fun _ => .bind (.pure _) fun _ => .bind (.lift (.narrow32 ..)) fun _ => .pure _
  | modelled kind =>
      exact .bind (avoids_placeSection ..) fun _ => .bind (.lift (.narrow32 ..)) fun _ =>
        .bind (.modify _) fun _ => .bind (.pure _) fun _ => .bind (.lift (.narrow32 ..)) fun _ => .pure _

theorem avoids_placeEntries (options : WriteOptions) (entries : Nat) (layout : List LayoutEntry)
    (pass : LayoutPass) : (placeEntries options entries layout pass).Avoids unsettled := by
  induction layout generalizing pass with
  | nil => exact .pure _
  | cons entry rest ih =>
      unfold placeEntries
      refine .bind .get fun file => ?_
      simp only
      split
      · exact .bind (.set _) fun _ => ih _
      · exact .bind (avoids_placeEntry ..) fun _ => ih _

theorem avoids_layoutPass (options : WriteOptions) : (layoutPass options).Avoids unsettled :=
  .bind .get fun _ => .bind (avoids_placeEntries ..) fun _ => .bind (.lift (.narrow32 ..)) fun _ =>
    .bind (.modify _) fun _ => .pure _

end DexFile

theorem OperandRef.avoids_store (ref : OperandRef) (units : Array UInt16) :
    Except.Avoids unsettled (ref.store units) := by
  have outside : (.dex (.operandBeyond ref.position units.size)) ≠ unsettled := by simp [unsettled]
  unfold store
  split <;> simp only <;> split
  · exact .bind (.fail outside) fun _ => .ok _
  · exact .ok _
  · exact .bind (.fail outside) fun _ => .bind (.narrow16 ..) fun _ => .ok _
  · exact .bind (.narrow16 ..) fun _ => .ok _

theorem OperandRef.avoids_refreshAll (ids : IdSections) (refs : List OperandRef) (units : Array UInt16) :
    Except.Avoids unsettled (refreshAll ids refs units).2.2 := by
  induction refs generalizing units with
  | nil => exact .ok _
  | cons ref rest ih =>
      rw [refreshAll_cons]
      cases stored : (ref.refreshed ids).store units with
      | ok units => exact ih units
      | error fault =>
          exact .error ((avoids_store (ref.refreshed ids) units).ne fault stored)

theorem CodeItem.avoids_refresh (ids : IdSections) (infos : Section DebugInfo) :
    (CodeItem.refresh ids infos).Avoids unsettled :=
  .bind .get fun code => .bind (.set _) fun _ =>
    .bind (.lift (OperandRef.avoids_refreshAll ids code.references code.units)) fun _ => .modify _

theorem RawSlot.avoids_encode (slot : RawSlot) (source : List UInt8) (read index : UInt32) :
    Except.Avoids unsettled (slot.encode source read index) := by
  unfold RawSlot.encode
  split
  · exact .ok _
  · cases slot with
    | half => exact .bind (.narrow16 ..) fun _ => .ok _
    | word => exact .ok _
    | leb => exact .ok _
    | value =>
        cases source with
        | nil => exact .fail (by simp [unsettled])
        | cons first rest => exact .ok _

theorem RawSection.avoids_reencode (ids : IdSections) (kind : SectionKind) (source : Bytes)
    (fixups : List Fixup) (copied size : Nat) :
    Except.Avoids unsettled (reencode ids kind source copied size fixups).2 := by
  induction fixups generalizing copied size with
  | nil => exact .ok _
  | cons fixup rest ih =>
      cases fixup with
      | offset position origin => exact ih copied size
      | index position length slot read target =>
          unfold reencode
          simp only
          split
          · rename_i fault failed
            refine .error (Except.Avoids.ne ?_ fault failed)
            refine .bind (.within (RawSlot.avoids_encode ..) _) fun written => ?_
            split
            · exact .bind (.ok _) fun _ => .ok _
            · exact .bind (.narrow32 ..) fun _ => .bind (.ok _) fun _ => .ok _
          · exact .map (ih ..) _

theorem RawSection.avoids_refreshIndexes (ids : IdSections) :
    (RawSection.refreshIndexes ids).Avoids unsettled :=
  .bind .get fun raw => .bind (.set _) fun _ =>
    .bind (.lift (avoids_reencode ids raw.kind raw.source raw.fixups 0 0)) fun _ => .set _

theorem avoids_checkShortIndex (what : String) (ref : IndexRef α) :
    Except.Avoids unsettled (checkShortIndex what ref) :=
  .map (.narrow16 ..) _

namespace DexFile

theorem avoids_refreshIndexes : refreshIndexes.Avoids unsettled := by
  unfold refreshIndexes onTypes onTypeLists onProtos onFields onMethods onDebugInfos onClassData
    onClassDefs onRaws onItems
  refine .bind .get fun _ => .bind (.onPart (.modify _)) fun _ => .bind .get fun _ =>
    .bind (.onPart (.onItems fun _ => .onPart (.onEach ?_))) fun _ =>
    .bind (.onPart (.modify _)) fun _ => .bind (.onPart (.onItems fun _ => ?_)) fun _ =>
    .bind .get fun _ => .bind (.onPart (.onItems fun _ => ?_)) fun _ => .bind .get fun _ =>
    .bind (.onPart (.modify _)) fun _ => .bind (.onPart (.modify _)) fun _ =>
    .bind (.onPart (.modify _)) fun _ => .onPart (.onEach (RawSection.avoids_refreshIndexes _))
  · exact .bind (.modify _) fun _ => .bind .get fun _ => .lift (avoids_checkShortIndex ..)
  · exact .bind (.modify _) fun _ => .bind .get fun _ =>
      .bind (.lift (avoids_checkShortIndex ..)) fun _ => .lift (avoids_checkShortIndex ..)
  · exact .bind (.modify _) fun _ => .bind .get fun _ =>
      .bind (.lift (avoids_checkShortIndex ..)) fun _ => .lift (avoids_checkShortIndex ..)

theorem avoids_refreshOffsets : refreshOffsets.Avoids unsettled := by
  unfold refreshOffsets onProtos onCodes onClassData onClassDefs onRaws onItems
  exact .bind .get fun _ => .bind (.onPart (.modify _)) fun _ => .bind .get fun _ =>
    .bind (.onPart (.onItems fun _ => CodeItem.avoids_refresh ..)) fun _ => .bind .get fun _ =>
    .bind (.onPart (.modify _)) fun _ => .bind .get fun _ => .bind (.onPart (.modify _)) fun _ =>
    .onPart (.modify _)

end DexFile

namespace Section

variable {items final : Section α}

theorem sizes_congr {size : α → Nat} (order : final.order = items.order)
    (same : ∀ id, (final.item? id).map size = (items.item? id).map size) :
    final.sizes size = items.sizes size := by
  unfold sizes
  rw [order]
  simp only [same]

theorem sizes_map {size : α → Nat} {change : α → α} (same : ∀ item, size (change item) = size item) :
    (items.map change).sizes size = items.sizes size :=
  sizes_congr (order_map items change) fun id => by
    rw [item?_map, Option.map_map]
    exact congrArg (Option.map · _) (funext same)

end Section

namespace CodeItem

/-- The place of the debug information takes the same room whatever it is. -/
theorem byteSize_debugInfo (code : CodeItem) (debugInfo : OffsetRef DebugInfo) :
    byteSize { code with debugInfo } = byteSize code :=
  rfl

/-- Code that was refreshed changes in a second refresh by the place of its debug information alone. -/
theorem refresh_again {ids : IdSections} {infos others : Section DebugInfo} {code mid final : CodeItem}
    (first : CodeItem.refresh ids infos code = .ok () mid)
    (second : CodeItem.refresh ids others mid = .ok () final) :
    final = { mid with debugInfo := mid.debugInfo.refresh others } := by
  have kept := refresh_refresh first
  rw [refresh_apply] at kept second
  rcases run : OperandRef.refreshAll ids mid.references mid.units with ⟨references, units, result⟩
  rw [run] at kept second
  cases result with
  | error fault => cases kept
  | ok nothing =>
      have same := (EStateM.Result.ok.inj kept).2
      obtain rfl := (EStateM.Result.ok.inj second).2
      have handlers := congrArg CodeItem.handlers same
      have sameUnits := congrArg CodeItem.units same
      have sameReferences := congrArg CodeItem.references same
      simp only at handlers sameUnits sameReferences
      rw [handlers, sameUnits, sameReferences]

end CodeItem

theorem ProtoItem.byteSize_withRefs (change : RefMap) (item : ProtoItem) :
    byteSize (item.withRefs change) = byteSize item :=
  rfl

theorem ClassDef.byteSize_withRefs (change : RefMap) (item : ClassDef) :
    byteSize (item.withRefs change) = byteSize item :=
  rfl

/-- Only the places of code count for the offsets in class data. -/
theorem ClassData.withRefs_offsetMap {file other : DexFile}
    (same : ∀ id, other.codes.offsetOf? id = file.codes.offsetOf? id) (data : ClassData) :
    data.withRefs other.offsetMap = data.withRefs file.offsetMap := by
  unfold withRefs EncodedField.withRefs EncodedMethod.withRefs DexFile.offsetMap
  simp only [OffsetRef.refresh_congr same]

namespace DexFile

/-- A refresh with a number of layout passes. -/
def refreshWithin (passes : Nat) (options : WriteOptions) : Step DexFile Unit := do
  modify fun file => file.completeLayout.dropHiddenApi
  refreshIndexes
  settle options passes none

theorem refresh_eq (options : WriteOptions) : refresh options = refreshWithin maxPasses options := rfl

variable {options : WriteOptions} {file mid final : DexFile}

/-- A run of layout passes that ends, in whatever way, before the passes are used up. -/
structure SettlesWithin (options : WriteOptions) (passes : Nat) (before : Option (Array UInt32))
    (file : DexFile) : Prop where
  more : ∀ others, settle options (passes + others) before file = settle options passes before file
  avoids : ∀ fault final, settle options passes before file = .error fault final → fault.cause ≠ unsettled

/-- A run ends with a pass that fails or that reports what the pass before it has reported, and else
goes on behind this pass. -/
theorem settlesWithin_succ {passes : Nat} {before : Option (Array UInt32)}
    (next : ∀ reported mid final, layoutPass options file = .ok reported mid →
      refreshOffsets mid = .ok () final →
        before = some reported ∨ SettlesWithin options passes (some reported) final) :
    SettlesWithin options (passes + 1) before file := by
  have both : ∀ others, settle options (passes + others + 1) before file = settle options (passes + 1) before file ∧
      ∀ fault final, settle options (passes + 1) before file = .error fault final → fault.cause ≠ unsettled := by
    intro others
    unfold settle
    rw [Step.bind_apply, Step.bind_apply]
    cases pass : layoutPass options file with
    | error fault stop =>
        refine ⟨rfl, fun other final failed => ?_⟩
        cases failed
        exact (avoids_layoutPass options).ne file fault stop pass
    | ok reported mid =>
        simp only [Step.bind_apply]
        cases refresh : refreshOffsets mid with
        | error fault stop =>
            refine ⟨rfl, fun other final failed => ?_⟩
            cases failed
            exact avoids_refreshOffsets.ne mid fault stop refresh
        | ok nothing final =>
            simp only
            by_cases agree : before = some reported
            · rw [if_pos agree, if_pos agree]
              refine ⟨rfl, fun fault stop failed => ?_⟩
              cases failed
            · rw [if_neg agree, if_neg agree]
              have later := (next reported mid final pass refresh).resolve_left agree
              exact ⟨later.more others, later.avoids⟩
  refine ⟨fun others => ?_, (both 0).2⟩
  rw [Nat.add_right_comm]
  exact (both others).1

theorem sizes_of_refresh (refresh : refreshOffsets file = .ok () final) {part : Part}
    (fixed : part ≠ .codeItem ∧ part ≠ .classData) :
    (part.items final).sizes byteSize = (part.items file).sizes byteSize := by
  obtain ⟨whole, _⟩ := refreshOffsets_eq_ok.1 refresh
  rw [whole]
  cases part with
  | codeItem => exact absurd rfl fixed.1
  | classData => exact absurd rfl fixed.2
  | protoId => exact Section.sizes_map (ProtoItem.byteSize_withRefs file.offsetMap)
  | classDef =>
      exact Section.sizes_map fun item =>
        (ClassDef.byteSize_relocated file.relocator (item.withRefs file.offsetMap)).trans
          (ClassDef.byteSize_withRefs file.offsetMap item)
  | _ => rfl

/-- Code and class data apart, the sections take the same room behind a refresh of the offsets. -/
theorem block_of_refresh (refresh : refreshOffsets file = .ok () final) (entries : Nat)
    {entry : LayoutEntry}
    (codes : entry = .modelled .codeItem → final.codes.sizes byteSize = file.codes.sizes byteSize)
    (data : entry = .modelled .classData →
      final.classData.sizes byteSize = file.classData.sizes byteSize) :
    final.block entries entry = file.block entries entry := by
  have shape := SameShape.of_refresh refresh
  have counts := shape.counts entry
  cases entry with
  | raw index =>
      have raws : final.raws[index]? = file.raws[index]?.map (·.relocate file.relocator) := by
        rw [(refreshOffsets_eq_ok.1 refresh).1]
        exact List.getElem?_map
      simp only [block, shape.kinds, raws, Option.map_map, Function.comp_def, RawSection.size_relocate]
      rfl
  | modelled kind =>
      have strings := (refreshOffsets_frame refresh).strings
      have sizes {part : Part} (same : part.kind = kind) :
          (part.items final).sizes byteSize = (part.items file).sizes byteSize := by
        by_cases code : part = .codeItem
        · subst code
          exact codes (congrArg _ same.symm)
        by_cases classData : part = .classData
        · subst classData
          exact data (congrArg _ same.symm)
        exact sizes_of_refresh refresh ⟨code, classData⟩
      cases found : Part.ofKind? kind with
      | some part =>
          have same := Part.ofKind?_eq_some.1 found
          subst same
          rw [block_kind, block_kind, sizes rfl, (refreshOffsets_frame refresh).parts part |>.size]
      | none =>
          cases kind with
          | stringId | stringData => simp only [block, strings]
          | header | mapList => rfl
          | _ => first | rfl | cases found

theorem plan_append (options : WriteOptions) (position : Nat) (first second : List Block) :
    plan options position (first ++ second) =
      plan options position first ++ plan options (planEnd options position first) second := by
  induction first generalizing position with
  | nil => rfl
  | cons block rest ih => simp only [List.cons_append, plan, planEnd, ih]

/-- The slot of a section behind the blocks before it. -/
theorem pair_of_split (options : WriteOptions) {before after : List LayoutEntry} {entry : LayoutEntry}
    (split : file.present = before ++ entry :: after) :
    let block := file.block file.present.length
    (entry, { block := block entry
              start := sectionStart options (file.kindOf entry) (planEnd options 0 (before.map block)) }) ∈
      file.present.zip (file.slots options) := by
  intro block
  have whole : file.slots options = plan options 0 (before.map block) ++
      plan options (planEnd options 0 (before.map block)) (block entry :: after.map block) := by
    rw [slots, blocks, ← plan_append, ← List.map_cons, ← List.map_append, ← split]
  have lengths : before.length = (plan options 0 (before.map block)).length := by
    rw [length_plan, List.length_map]
  rw [whole, split, List.zip_append lengths, plan, kind_block, List.zip_cons_cons]
  exact List.mem_append_right _ List.mem_cons_self

/-- Two plans that agree up to a section assign the same places to it. -/
theorem offsetsAt_of_split {one two other : DexFile} {before after : List LayoutEntry}
    {entry : LayoutEntry} (first : Planned options one mid) (second : Planned options two other)
    (present : two.present = one.present) (split : one.present = before ++ entry :: after)
    (same : ∀ listed ∈ before ++ [entry],
      two.block one.present.length listed = one.block one.present.length listed) :
    other.offsetsAt entry = mid.offsetsAt entry := by
  have here := same entry (List.mem_append_right _ (List.mem_singleton.2 rfl))
  have kind := congrArg Block.kind here
  rw [kind_block, kind_block] at kind
  have earlier : before.map (two.block one.present.length) = before.map (one.block one.present.length) :=
    List.map_congr_left fun listed inside => same listed (List.mem_append_left _ inside)
  rw [second.placed _ (pair_of_split options (present.trans split)), first.placed _ (pair_of_split options split)]
  simp only [present, here, kind, earlier]

/-- The layout, once it is complete, has code before class data. -/
def CodesFirst (file : DexFile) : Prop :=
  [.codeItem, .classData].Sublist file.completeLayout.modelledKinds

instance (file : DexFile) : Decidable file.CodesFirst :=
  inferInstanceAs (Decidable (List.Sublist _ _))

/-- Two elements of a list without repetitions have one order. -/
theorem not_sublist_swap {α : Type} {first second : α} {values : List α} (distinct : values.Nodup)
    (different : first ≠ second) (one : [first, second].Sublist values) :
    ¬[second, first].Sublist values := by
  induction values with
  | nil => cases one
  | cons value rest ih =>
      obtain ⟨new, distinct⟩ := List.nodup_cons.1 distinct
      intro other
      cases one with
      | cons _ one =>
          cases other with
          | cons _ other => exact ih distinct one other
          | cons_cons _ other => exact new (one.subset (List.mem_cons_of_mem _ List.mem_cons_self))
      | cons_cons _ one =>
          cases other with
          | cons _ other => exact new (other.subset (List.mem_cons_of_mem _ List.mem_cons_self))
          | cons_cons _ other => exact different rfl

/-- No class data stands before code that is present. -/
theorem exists_split (distinct : file.layout.Nodup)
    (codes : [.codeItem, .classData].Sublist file.modelledKinds)
    (listed : .modelled .codeItem ∈ file.present) : ∃ before after,
      file.present = before ++ .modelled .codeItem :: after ∧ .modelled .classData ∉ before := by
  obtain ⟨before, after, split⟩ := List.mem_iff_append.1 listed
  refine ⟨before, after, split, fun inside => ?_⟩
  have kinds : file.modelledKinds.Nodup := distinct.filterMap fun entry other kind here there => by
    cases entry <;> cases other <;> simp_all
  have swapped : [LayoutEntry.modelled .classData, .modelled .codeItem].Sublist file.layout := by
    refine List.Sublist.trans ?_ (List.filter_sublist (p := fun entry => decide (0 < file.countOf entry)))
    change List.Sublist _ file.present
    rw [split]
    exact (List.singleton_sublist.2 inside).append (List.cons_sublist_cons.2 (List.nil_sublist _))
  refine not_sublist_swap kinds (by decide) codes ?_
  refine List.Sublist.trans ?_ (swapped.filterMap _)
  exact List.Sublist.refl _

/-- A layout pass that succeeds, with the refresh of the offsets behind it. -/
structure Pass (options : WriteOptions) (file mid final : DexFile) : Prop where
  ready : file.Ready
  planned : Planned options file mid
  refreshed : refreshOffsets mid = .ok () final

namespace Pass

variable {next behind : DexFile}

theorem readyFinal (pass : Pass options file mid final) : final.Ready :=
  (pass.ready.of_unplaced pass.planned.unplaced).refreshOffsets pass.refreshed

theorem shape (pass : Pass options file mid final) : file.SameShape final :=
  (SameShape.of_unplaced pass.planned.unplaced).trans (.of_refresh pass.refreshed)

theorem modelledKinds (pass : Pass options file mid final) : final.modelledKinds = file.modelledKinds := by
  unfold DexFile.modelledKinds
  rw [pass.shape.layout]

/-- Code and class data apart, the sections take the same room behind a pass. -/
theorem block (pass : Pass options file mid final) (entries : Nat) {entry : LayoutEntry}
    (codes : entry = .modelled .codeItem → final.codes.sizes byteSize = mid.codes.sizes byteSize)
    (data : entry = .modelled .classData → final.classData.sizes byteSize = mid.classData.sizes byteSize) :
    final.block entries entry = file.block entries entry :=
  (block_of_refresh pass.refreshed entries codes data).trans (block_of_unplaced pass.planned.unplaced entries entry)

/-- Code takes the same room from the second pass on. -/
theorem sizes_codes (first : Pass options file mid next) (second : Pass options next behind final) :
    final.codes.sizes byteSize = behind.codes.sizes byteSize := by
  have run := (refreshOffsets_eq_ok.1 first.refreshed).2
  have again := (refreshOffsets_eq_ok.1 second.refreshed).2
  have frame := (refreshOffsets_frame second.refreshed).parts .codeItem
  have step : CodeItem.refresh behind.ids behind.debugInfos = CodeItem.refresh mid.ids behind.debugInfos :=
    (CodeItem.refresh_congr (sameIndexes_of_unplaced second.planned.unplaced) fun _ => rfl).trans
      (CodeItem.refresh_congr (refreshOffsets_frame first.refreshed).ids fun _ => rfl)
  refine Section.sizes_congr frame.order fun id => ?_
  cases found : final.codes.item? id with
  | none =>
      have live : (behind.codes.item? id).isSome = (final.codes.item? id).isSome := by
        rw [← Section.isSome_offsetOf?, ← Section.isSome_offsetOf?]
        exact congrArg Option.isSome (frame.offsetOf? id).symm
      rw [found, Option.isSome_none, Option.isSome_eq_false_iff, Option.isNone_iff_eq_none] at live
      rw [live]
  | some last =>
      obtain ⟨code, here, later⟩ := Section.item?_of_onItems again id last found
      have there : next.codes.item? id = some code :=
        (item?_of_unplaced second.planned.unplaced .codeItem id).symm.trans here
      obtain ⟨_, _, earlier⟩ := Section.item?_of_onItems run id code there
      rw [step] at later
      rw [here, CodeItem.refresh_again earlier later]
      exact congrArg some (code.byteSize_debugInfo _)

/-- Code stands at the same places from the second pass on. -/
theorem offsets_codes {third last : DexFile} (first : Pass options file mid next)
    (second : Pass options next behind final) (later : Pass options final third last)
    (codes : [.codeItem, .classData].Sublist next.modelledKinds) (id : Id CodeItem) :
    third.codes.offsetOf? id = behind.codes.offsetOf? id := by
  have validThird := (later.ready.orderly.of_unplaced later.planned.unplaced).valid .codeItem
  have validBehind := (second.ready.orderly.of_unplaced second.planned.unplaced).valid .codeItem
  have orderThird := Section.order_of_unplaced (items_of_unplaced later.planned.unplaced .codeItem)
  have orderBehind := Section.order_of_unplaced (items_of_unplaced second.planned.unplaced .codeItem)
  have frame := (refreshOffsets_frame second.refreshed).parts .codeItem
  have present := second.shape.present
  refine Section.offsetOf?_of_offsets validBehind validThird (orderThird.trans frame.order) ?_ id
  by_cases listed : .modelled .codeItem ∈ next.present
  · obtain ⟨before, after, split, data⟩ := exists_split second.ready.orderly.distinct codes listed
    have places := offsetsAt_of_split second.planned later.planned present split fun entry inside =>
      second.block _ (fun _ => sizes_codes first second) fun same => by
        subst same
        rcases List.mem_append.1 inside with inside | inside
        · exact absurd inside data
        · cases List.mem_singleton.1 inside
    exact (offsetsAt_kind third .codeItem).symm.trans (places.trans (offsetsAt_kind behind .codeItem))
  · have empty : behind.codes.order = #[] := by
      have count : next.countOf (.modelled .codeItem) = 0 := by
        by_contra some
        exact listed (mem_present.2 ⟨second.ready.complete .codeItem rfl, Nat.pos_of_ne_zero some⟩)
      exact orderBehind.trans (Array.eq_empty_of_size_eq_zero count)
    have emptyThird : third.codes.order = #[] := orderThird.trans (frame.order.trans empty)
    change third.codes.offsets = behind.codes.offsets
    rw [Section.offsets, Section.offsets, empty, emptyThird]
    rfl

/-- Class data stays as it is when code stands where it stood. -/
theorem sizes_classData {third last : DexFile} (second : Pass options next behind final)
    (later : Pass options final third last)
    (codes : ∀ id, third.codes.offsetOf? id = behind.codes.offsetOf? id) :
    last.classData.sizes byteSize = third.classData.sizes byteSize := by
  have before : final.classData = behind.classData.map (·.withRefs behind.offsetMap) := by
    rw [(refreshOffsets_eq_ok.1 second.refreshed).1]
    rfl
  have after : last.classData = third.classData.map (·.withRefs third.offsetMap) := by
    rw [(refreshOffsets_eq_ok.1 later.refreshed).1]
    rfl
  rw [after]
  refine Section.sizes_congr (Section.order_map ..) fun id => ?_
  have items := item?_of_unplaced later.planned.unplaced .classData id
  change third.classData.item? id = final.classData.item? id at items
  rw [Section.item?_map, items, before, Section.item?_map]
  cases behind.classData.item? id with
  | none => rfl
  | some data =>
      simp only [Option.map_some]
      rw [ClassData.withRefs_offsetMap codes, ← ClassData.withRefs_after, offsetMap_after]

/-- The sections take the same room from the third pass on. -/
theorem blocks {third last : DexFile} (first : Pass options file mid next)
    (second : Pass options next behind final) (later : Pass options final third last)
    (codes : [.codeItem, .classData].Sublist next.modelledKinds) : last.blocks = final.blocks := by
  unfold DexFile.blocks
  rw [later.shape.present]
  exact List.map_congr_left fun entry _ => later.block _ (fun _ => sizes_codes second later) fun _ =>
    sizes_classData second later (offsets_codes first second later codes)

end Pass

/-- Four passes settle a file that is ready and has code before class data. -/
theorem Ready.settlesWithin (ready : file.Ready) (codes : [.codeItem, .classData].Sublist file.modelledKinds)
    (options : WriteOptions) : SettlesWithin options 4 none file := by
  have pass {file mid final : DexFile} {reported : Array UInt32} (ready : file.Ready)
      (run : DexFile.layoutPass options file = .ok reported mid)
      (refresh : DexFile.refreshOffsets mid = .ok () final) :
      Pass options file mid final ∧
        reported = (((file.slots options).flatMap Slot.reported).map UInt32.ofNat).toArray :=
    have done := (ready.layoutPass options).ok run
    ⟨⟨ready, done.2, refresh⟩, done.1⟩
  refine settlesWithin_succ fun _ _ _ run refresh => .inr ?_
  obtain ⟨first, -⟩ := pass ready run refresh
  refine settlesWithin_succ fun _ _ _ run refresh => .inr ?_
  obtain ⟨second, -⟩ := pass first.readyFinal run refresh
  refine settlesWithin_succ fun _ _ _ run refresh => .inr ?_
  obtain ⟨third, reported⟩ := pass second.readyFinal run refresh
  refine settlesWithin_succ fun _ _ _ run refresh => .inl ?_
  obtain ⟨_, again⟩ := pass third.readyFinal run refresh
  rw [reported, again, slots, slots,
    Pass.blocks first second third (by rw [first.modelledKinds]; exact codes)]

/-- A refresh of a regular file with code before class data ends within four passes. -/
theorem Regular.refresh_eq_refreshWithin (regular : file.Regular) (codes : file.CodesFirst)
    (options : WriteOptions) : refresh options file = refreshWithin 4 options file ∧
      ∀ fault final, refresh options file = .error fault final → fault.cause ≠ unsettled := by
  have kinds : [.codeItem, .classData].Sublist file.completeLayout.dropHiddenApi.modelledKinds := by
    rw [modelledKinds_dropHiddenApi]
    exact codes
  obtain ⟨layout, start, ready⟩ := regular.start
  rw [start] at kinds
  rw [refresh_eq]
  unfold refreshWithin
  rw [Step.bind_ok (Step.modify_apply _ _), Step.bind_ok (Step.modify_apply _ _), start, Step.bind_apply,
    Step.bind_apply]
  cases run : refreshIndexes { file with layout } with
  | error fault stop =>
      refine ⟨rfl, fun other final failed => ?_⟩
      cases failed
      exact avoids_refreshIndexes.ne _ fault stop run
  | ok nothing mid =>
      have settles := (ready.refreshIndexes run).settlesWithin (by
        unfold modelledKinds
        rw [(refreshIndexes_frame run).layout]
        exact kinds) options
      have more := settles.more 12
      simp only
      refine ⟨more, fun fault final failed => settles.avoids fault final (more ▸ failed)⟩

/-- Edits of an empty file leave code before class data. -/
theorem Later.codesFirst (later : Later {} file) : file.CodesFirst := by
  have new : [.codeItem, .classData].Sublist (modelledKinds {}) := by decide
  exact (new.trans later.upholds.sections).trans (modelledKinds_completeLayout file)

/-- However a file with code before class data is built, and whatever offsets it holds, a refresh under any
options sees two passes in a row that report the same offsets within four passes, unless it fails before;
it never fails because the layout does not settle. Files that are built from nothing have code before
class data. -/
theorem refresh_of_built_codesFirst (built : file.Built) (codes : file.CodesFirst ∨ Later {} file)
    (options : WriteOptions) : refresh options file = refreshWithin 4 options file ∧
      ∀ fault final, refresh options file = .error fault final → fault.cause ≠ unsettled :=
  built.regular.refresh_eq_refreshWithin (codes.elim id Later.codesFirst) options

/-- A file with two code items, and with class data of a method whose code is named by a reference. -/
def twoCodes (code : OffsetRef CodeItem) : DexFile where
  header := { fileSize := 214, mapOffset := 112, data := { size := 102, offset := 112 } }
  map := { items := [⟨.header, 1, 0⟩, ⟨.mapList, 1, 112⟩, ⟨.codeItem, 2, 164⟩, ⟨.classData, 2, 202⟩] }
  codes := .fresh .codeItem 164 [(164, { units := #[0x000e] }), (184, { units := #[0x000e] })]
  classData := .fresh .classData 202 [
    (202, { directMethods := [{ method := .ofRaw 0, flags := 0, code }] }),
    (210, {})]
  layout := (completeLayout {
    layout := [.modelled .header, .modelled .mapList, .modelled .codeItem, .modelled .classData] }).layout

/-- The bytes of a file with two code items, the second of which is the code of a method. -/
def twoCodesBytes : Bytes :=
  (EStateM.run' (toBytes { updateChecksum := false }) (twoCodes (.ofId ⟨1⟩))).getD #[]

theorem linked_twoCodes (code : OffsetRef CodeItem) :
    (twoCodes code).linked (twoCodes code).codes = twoCodes (code.link (twoCodes code).codes) := by
  have data : (twoCodes code).classData.map (·.withRefs (twoCodes code).linkMap) =
      (twoCodes (code.link (twoCodes code).codes)).classData := Section.map_fresh _
  have none {α : Type} (kind : SectionKind) (change : α → α) : Section.map { kind } change = { kind } := by
    simp [Section.map]
  unfold linked
  rw [data]
  simp only [twoCodes, Pool.empty, none, List.map_nil]

theorem read_twoCodesBytes : read twoCodesBytes {} = .ok (twoCodes { raw := 184, item := some ⟨1⟩ }) := by
  have head : (readHead {}).run twoCodesBytes = .ok ((twoCodes {}).header, (twoCodes {}).map) := by
    decide +kernel
  have codes : (readItems ⟨.codeItem, 2, 164⟩).run twoCodesBytes =
      .ok [(164, ({ units := #[0x000e] } : CodeItem)), (184, { units := #[0x000e] })] := by
    decide +kernel
  have classData : (readItems ⟨.classData, 2, 202⟩).run twoCodesBytes = .ok [
      (202, ({ directMethods := [{ method := .ofRaw 0, flags := 0, code := .ofRaw 184 }] } : ClassData)),
      (210, {})] := by
    decide +kernel
  have found : (twoCodes {}).codes.getAt? 184 = some ⟨1⟩ := (Section.getAt?_fresh (by decide) 184 ⟨1⟩).2 rfl
  have named : OffsetRef.link (.ofRaw 184) (twoCodes {}).codes = { raw := 184, item := some ⟨1⟩ } := by
    unfold OffsetRef.link
    rw [show (OffsetRef.ofRaw 184 : OffsetRef CodeItem).raw = 184 from rfl, if_neg (by decide), found]
    rfl
  refine @read_of_ordered _ _ _ _ _ _ { twoCodes (.ofRaw 184) with map := {} } head (by decide +kernel)
    (by decide +kernel) (loadLayout_eq_ok.2 ⟨[], ?_, rfl⟩) ?_ ?_
  · exact .modelled rfl (.modelled rfl (.modelled rfl (.modelled rfl .nil)))
  · have entries : (twoCodes {}).map.items.filter (·.kind.isModelled) = (twoCodes {}).map.items := by decide
    rw [entries]
    simp only [twoCodes, List.foldlM_cons, List.foldlM_nil, loadSection, Section.load, codes, classData]
    rfl
  · have links : link (twoCodes (.ofRaw 184)) = .ok () (twoCodes { raw := 184, item := some ⟨1⟩ }) := by
      rw [← named]
      refine link_eq_ok.2 ⟨(linked_twoCodes _).symm, @Section.onItems_fresh CodeItem CodeItem _ _ _
        [(164, { units := #[0x000e] }), (184, { units := #[0x000e] })] id id fun row inside => ?_⟩
      rcases List.mem_pair.1 inside with rfl | rfl
      · rfl
      · rfl
    exact (Step.bind_ok links).trans (rebuildKeys_of_fresh ⟨rfl, rfl, rfl, rfl, rfl⟩)

/-- A handler that catches a type by a number that is no longer its index. -/
def catchMissing (code : CodeItem) : CodeItem :=
  { code with
    tries := [⟨0, 1, 0⟩]
    handlers := [{ catches := [({ raw := 0, item := some ⟨0⟩ }, 0)] }] }

/-- The file that was read, with a handler in the code before the code of the method. -/
def staleCode : DexFile :=
  let read := twoCodes { raw := 184, item := some ⟨1⟩ }
  { read with codes := read.codes.modify ⟨0⟩ catchMissing }

theorem built_staleCode : staleCode.Built :=
  (Built.read read_twoCodesBytes).changeCode ⟨0⟩ catchMissing

/-- Code that still holds the old number of a type settles within four passes. -/
theorem refresh_of_built_codesFirst_staleCode : staleCode.Built ∧ staleCode.CodesFirst ∧
    refresh { alignment := 8174 } staleCode = refreshWithin 4 { alignment := 8174 } staleCode ∧
      ∀ fault final, refresh { alignment := 8174 } staleCode = .error fault final → fault.cause ≠ unsettled := by
  have codes : staleCode.CodesFirst := by decide +kernel
  exact ⟨built_staleCode, codes, refresh_of_built_codesFirst built_staleCode (.inl codes) { alignment := 8174 }⟩

/-- The first pass still places code with the old number of the type, so that the second one moves the code
behind it, and the class data grows behind the second pass: three passes are not enough. -/
theorem staleCode_unsettled : staleCode.Built ∧ staleCode.CodesFirst ∧
    (∃ final, refresh { alignment := 8174 } staleCode = .ok () final) ∧
      ∃ fault stop, refreshWithin 3 { alignment := 8174 } staleCode = .error fault stop ∧ fault.cause = unsettled := by
  refine ⟨built_staleCode, by decide +kernel, ?_, ?_⟩
  · exact Step.run'_eq_some.1 (by decide +kernel)
  · exact Step.cause?_eq_some.1 (by decide +kernel)

end DexFile
end Dex
end DexArsc
