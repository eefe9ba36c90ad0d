/-
Files that follow a file: their sections have the same live ids, and every item names the same live
items as before. This is what all steps keep that bring a file up to date, wherever they end.
-/

import DexArsc.Proofs.Dex.File.Rewrite

namespace DexArsc.Dex

variable {α : Type}

/-- Two sections with the same live ids. -/
def Section.SameLive (items final : Section α) : Prop :=
  ∀ id, (final.item? id).isSome = (items.item? id).isSome

namespace IndexRef

variable {items final : Section α} {ref image : IndexRef α}

/-- The reference with its item for its index. A reference to a lost item is absent. -/
def traced (items : Section α) (ref : IndexRef α) : IndexRef α :=
  match ref.item with
  | none => ref
  | some id => if (items.item? id).isSome then ofId id else {}

theorem traced_congr (same : items.SameLive final) (ref : IndexRef α) :
    ref.traced final = ref.traced items := by
  unfold traced
  cases ref.item with
  | none => rfl
  | some id => simp only [same id]

/-- A reference with the same trace as one to a live item names this item. -/
theorem item_of_traced (same : image.traced items = ref.traced items) {id : Id α}
    (named : ref.item = some id) (live : (items.item? id).isSome) : image.item = some id := by
  unfold traced at same
  rw [named] at same
  simp only [live, if_true] at same
  cases other : image.item with
  | none =>
      rw [other] at same
      cases other.symm.trans (congrArg IndexRef.item same)
  | some id' =>
      rw [other] at same
      by_cases there : (items.item? id').isSome
      · simp only [there, if_true] at same
        exact congrArg IndexRef.item same
      · simp only [there] at same
        cases congrArg IndexRef.item same

theorem traced_refresh (same : items.SameLive final) (ref : IndexRef α) :
    (ref.refresh final).traced items = ref.traced items := by
  unfold refresh
  cases named : ref.item with
  | none => rfl
  | some id =>
      have live := same id
      rw [← Section.isSome_indexOf?] at live
      cases place : final.indexOf? id with
      | none =>
          rw [place] at live
          simp [traced, named, place, ← live]
      | some index =>
          rw [place] at live
          simp [traced, named, place, ← live]

theorem Live.refresh_of (same : items.SameLive final) (live : ref.Live items) :
    (ref.refresh final).Live items :=
  have lives : ref.Live final := live.imp fun id found => (same id).trans found
  lives.refresh.imp fun id found => (same id).symm.trans found

end IndexRef

namespace OffsetRef

variable {items final : Section α} {ref image : OffsetRef α}

/-- The reference with its item for its offset. A reference to a lost item is absent. -/
def traced (items : Section α) (ref : OffsetRef α) : OffsetRef α :=
  match ref.item with
  | none => ref
  | some id => if (items.item? id).isSome then ofId id else {}

theorem traced_congr (same : items.SameLive final) (ref : OffsetRef α) :
    ref.traced final = ref.traced items := by
  unfold traced
  cases ref.item with
  | none => rfl
  | some id => simp only [same id]

/-- A live reference with the same trace as a live one names the same item. -/
theorem Live.item_eq (same : image.traced items = ref.traced items) (live : ref.Live items)
    (after : image.Live items) : image.item = ref.item := by
  unfold traced at same
  cases named : ref.item with
  | none =>
      rw [named] at same
      cases other : image.item with
      | none => rfl
      | some id =>
          rw [other] at same
          simp only [after.found id other, if_true] at same
          rw [← same] at named
          cases named
  | some id =>
      rw [named] at same
      simp only [live.found id named, if_true] at same
      cases other : image.item with
      | none =>
          rw [other] at same
          cases other.symm.trans (congrArg OffsetRef.item same)
      | some id' =>
          rw [other] at same
          simp only [after.found id' other, if_true] at same
          exact congrArg OffsetRef.item same

theorem traced_refresh (same : items.SameLive final) (ref : OffsetRef α) :
    (ref.refresh final).traced items = ref.traced items := by
  unfold refresh
  cases named : ref.item with
  | none => rfl
  | some id =>
      have live := same id
      rw [← Section.isSome_offsetOf?] at live
      cases place : final.offsetOf? id with
      | none =>
          rw [place] at live
          simp [traced, named, place, ← live]
      | some offset =>
          rw [place] at live
          simp [traced, named, place, ← live]

theorem Live.refresh_of (same : items.SameLive final) (live : ref.Live items) :
    (ref.refresh final).Live items :=
  have lives : ref.Live final := live.imp fun id found => (same id).trans found
  lives.refresh.imp fun id found => (same id).symm.trans found

end OffsetRef

/-- Two files whose sections have the same live ids. -/
structure DexFile.SameLive (file final : DexFile) : Prop where
  strings : file.strings.items.SameLive final.strings.items
  parts : ∀ part : Part, (part.items file).SameLive (part.items final)

theorem DexFile.SameLive.symm {file final : DexFile} (same : file.SameLive final) :
    final.SameLive file :=
  ⟨fun id => (same.strings id).symm, fun part id => (same.parts part id).symm⟩

/-- References to live items. -/
def RefTest.live (file : DexFile) : RefTest where
  string ref := ref.Live file.strings.items
  type ref := ref.Live file.types.items
  proto ref := ref.Live file.protos.items
  field ref := ref.Live file.fields.items
  method ref := ref.Live file.methods.items
  typeList ref := ref.Live file.typeLists
  classData ref := ref.Live file.classData
  code ref := ref.Live file.codes
  debugInfo ref := ref.Live file.debugInfos

/-- The references with their items for their indexes and offsets. -/
def RefMap.traced (file : DexFile) : RefMap where
  string ref := ref.traced file.strings.items
  type ref := ref.traced file.types.items
  proto ref := ref.traced file.protos.items
  field ref := ref.traced file.fields.items
  method ref := ref.traced file.methods.items
  typeList ref := ref.traced file.typeLists
  classData ref := ref.traced file.classData
  code ref := ref.traced file.codes
  debugInfo ref := ref.traced file.debugInfos

namespace DexFile.SameLive

variable {file final : DexFile} (same : file.SameLive final)
include same

theorem traced : RefMap.traced final = .traced file := by
  unfold RefMap.traced
  simp only [RefMap.mk.injEq]
  exact ⟨funext (IndexRef.traced_congr same.strings), funext (IndexRef.traced_congr (same.parts .typeId)),
    funext (IndexRef.traced_congr (same.parts .protoId)),
    funext (IndexRef.traced_congr (same.parts .fieldId)),
    funext (IndexRef.traced_congr (same.parts .methodId)),
    funext (OffsetRef.traced_congr (same.parts .typeList)),
    funext (OffsetRef.traced_congr (same.parts .classData)),
    funext (OffsetRef.traced_congr (same.parts .codeItem)),
    funext (OffsetRef.traced_congr (same.parts .debugInfo))⟩

end DexFile.SameLive

/-- A property that a reference keeps when it is refreshed in a section with the live ids of a file. -/
structure RefTest.Kept (file : DexFile) (test : RefTest) : Prop where
  string : ∀ items, file.strings.items.SameLive items → ∀ ref, test.string ref →
    test.string (ref.refresh items)
  type : ∀ items, file.types.items.SameLive items → ∀ ref, test.type ref →
    test.type (ref.refresh items)
  proto : ∀ items, file.protos.items.SameLive items → ∀ ref, test.proto ref →
    test.proto (ref.refresh items)
  field : ∀ items, file.fields.items.SameLive items → ∀ ref, test.field ref →
    test.field (ref.refresh items)
  method : ∀ items, file.methods.items.SameLive items → ∀ ref, test.method ref →
    test.method (ref.refresh items)
  typeList : ∀ items, file.typeLists.SameLive items → ∀ ref, test.typeList ref →
    test.typeList (ref.refresh items)
  classData : ∀ items, file.classData.SameLive items → ∀ ref, test.classData ref →
    test.classData (ref.refresh items)
  code : ∀ items, file.codes.SameLive items → ∀ ref, test.code ref → test.code (ref.refresh items)
  debugInfo : ∀ items, file.debugInfos.SameLive items → ∀ ref, test.debugInfo ref →
    test.debugInfo (ref.refresh items)

namespace RefTest.Kept

variable {file final : DexFile}

theorem congr {test : RefTest} (kept : test.Kept file) (same : file.SameLive final) :
    test.Kept final where
  string items there := kept.string items fun id => (there id).trans (same.strings id)
  type items there := kept.type items fun id => (there id).trans (same.parts .typeId id)
  proto items there := kept.proto items fun id => (there id).trans (same.parts .protoId id)
  field items there := kept.field items fun id => (there id).trans (same.parts .fieldId id)
  method items there := kept.method items fun id => (there id).trans (same.parts .methodId id)
  typeList items there := kept.typeList items fun id => (there id).trans (same.parts .typeList id)
  classData items there := kept.classData items fun id => (there id).trans (same.parts .classData id)
  code items there := kept.code items fun id => (there id).trans (same.parts .codeItem id)
  debugInfo items there := kept.debugInfo items fun id => (there id).trans (same.parts .debugInfo id)

/-- Live references stay live. -/
theorem live (file : DexFile) : (RefTest.live file).Kept file where
  string _ same _ := .refresh_of same
  type _ same _ := .refresh_of same
  proto _ same _ := .refresh_of same
  field _ same _ := .refresh_of same
  method _ same _ := .refresh_of same
  typeList _ same _ := .refresh_of same
  classData _ same _ := .refresh_of same
  code _ same _ := .refresh_of same
  debugInfo _ same _ := .refresh_of same

end RefTest.Kept

/-- Images with the same traces, which keep every property that refreshes keep. -/
structure RefMap.Traces (file : DexFile) (change : RefMap) : Prop where
  traced : (RefMap.traced file).after change = .traced file
  kept : ∀ test : RefTest, test.Kept file → test.Implies (test.on change)

/-- References are refreshed in sections with the live ids of the file, or they stay. -/
theorem RefMap.traces_refresh {file : DexFile} {change : RefMap}
    (string : change.string = id ∨ ∃ items, file.strings.items.SameLive items ∧
      change.string = (·.refresh items))
    (type : change.type = id ∨ ∃ items, file.types.items.SameLive items ∧
      change.type = (·.refresh items))
    (proto : change.proto = id ∨ ∃ items, file.protos.items.SameLive items ∧
      change.proto = (·.refresh items))
    (field : change.field = id ∨ ∃ items, file.fields.items.SameLive items ∧
      change.field = (·.refresh items))
    (method : change.method = id ∨ ∃ items, file.methods.items.SameLive items ∧
      change.method = (·.refresh items))
    (typeList : change.typeList = id ∨ ∃ items, file.typeLists.SameLive items ∧
      change.typeList = (·.refresh items))
    (classData : change.classData = id ∨ ∃ items, file.classData.SameLive items ∧
      change.classData = (·.refresh items))
    (code : change.code = id ∨ ∃ items, file.codes.SameLive items ∧
      change.code = (·.refresh items))
    (debugInfo : change.debugInfo = id ∨ ∃ items, file.debugInfos.SameLive items ∧
      change.debugInfo = (·.refresh items)) : change.Traces file := by
  have index {α : Type} {items : Section α} {one : IndexRef α → IndexRef α}
      (cases : one = id ∨ ∃ final, items.SameLive final ∧ one = (·.refresh final)) (ref : IndexRef α) :
      (one ref).traced items = ref.traced items := by
    rcases cases with rfl | ⟨final, same, rfl⟩
    · rfl
    · exact IndexRef.traced_refresh same ref
  have offset {α : Type} {items : Section α} {one : OffsetRef α → OffsetRef α}
      (cases : one = id ∨ ∃ final, items.SameLive final ∧ one = (·.refresh final))
      (ref : OffsetRef α) : (one ref).traced items = ref.traced items := by
    rcases cases with rfl | ⟨final, same, rfl⟩
    · rfl
    · exact OffsetRef.traced_refresh same ref
  have stays {ρ σ : Type} {same : σ → Prop} {refresh : ρ → σ → ρ} {one : ρ → ρ} {holds : ρ → Prop}
      (cases : one = id ∨ ∃ items, same items ∧ one = fun ref => refresh ref items)
      (kept : ∀ items, same items → ∀ ref, holds ref → holds (refresh ref items)) (ref : ρ)
      (here : holds ref) : holds (one ref) := by
    rcases cases with rfl | ⟨items, there, rfl⟩
    · exact here
    · exact kept items there ref here
  constructor
  · unfold RefMap.after RefMap.traced
    simp only [RefMap.mk.injEq]
    exact ⟨funext (index string), funext (index type), funext (index proto), funext (index field),
      funext (index method), funext (offset typeList), funext (offset classData),
      funext (offset code), funext (offset debugInfo)⟩
  · exact fun test kept => ⟨stays string kept.string, stays type kept.type, stays proto kept.proto,
      stays field kept.field, stays method kept.method, stays typeList kept.typeList,
      stays classData kept.classData, stays code kept.code, stays debugInfo kept.debugInfo⟩

/-- Code whose try blocks are few, each with a handler, and whose handlers handle something. Handlers
without a try block would not be written. -/
structure CodeItem.Guarded (code : CodeItem) : Prop where
  few : code.tries.length ≤ 0xFFFF
  handled : ∀ handler ∈ code.handlers, handler.catches ≠ [] ∨ handler.catchAll.isSome
  used : code.tries = [] → code.handlers = []
  named : ∀ block ∈ code.tries, block.handler < code.handlers.length

namespace Part

/-- The parts of an item that no refresh may break. -/
def Shaped : (part : Part) → part.Item → Prop
  | classDef => fun item : ClassDef => item.annotations = {} ∧ item.staticValues = {}
  | codeItem => fun code : CodeItem => code.Scanned ∧ code.Guarded
  | debugInfo => fun info : DebugInfo => info.sequence.Sound
  | _ => fun _ => True

/-- The references that keys are built on have the same traces. -/
def Traced (file : DexFile) : (part : Part) → part.Item → part.Item → Prop
  | classDef => fun item image : ClassDef =>
    image.type.traced file.types.items = item.type.traced file.types.items
  | classData => fun _ _ => True
  | codeItem => fun _ _ => True
  | debugInfo => fun _ _ => True
  | typeId => fun item image => typeId.withRefs (.traced file) image = typeId.withRefs (.traced file) item
  | protoId => fun item image => protoId.withRefs (.traced file) image = protoId.withRefs (.traced file) item
  | fieldId => fun item image => fieldId.withRefs (.traced file) image = fieldId.withRefs (.traced file) item
  | methodId => fun item image => methodId.withRefs (.traced file) image = methodId.withRefs (.traced file) item
  | typeList => fun item image => typeList.withRefs (.traced file) image = typeList.withRefs (.traced file) item

/-- What a refresh leaves of an item. -/
structure Follows (file : DexFile) (part : Part) (item image : part.Item) : Prop where
  traced : part.Traced file item image
  kept : ∀ test : RefTest, test.Kept file → part.Refs test item → part.Refs test image
  shaped : part.Shaped item → part.Shaped image

variable {file final : DexFile} {part : Part} {item image third : part.Item}

/-- References to live items stay live. -/
theorem Follows.live (follows : part.Follows file item image) (refs : part.Refs (.live file) item) :
    part.Refs (.live file) image :=
  follows.kept _ (.live file) refs

theorem Follows.refl (item : part.Item) : part.Follows file item item :=
  ⟨by cases part <;> first | rfl | trivial, fun _ _ refs => refs, fun shaped => shaped⟩

theorem Follows.trans (before : part.Follows file item image) (behind : part.Follows file image third) :
    part.Follows file item third where
  traced := by
    have first := before.traced
    have second := behind.traced
    cases part <;> first | trivial | exact Eq.trans second first
  kept test kept refs := behind.kept test kept (before.kept test kept refs)
  shaped shaped := behind.shaped (before.shaped shaped)

theorem Follows.congr (same : file.SameLive final) : part.Follows final = part.Follows file := by
  funext item image
  have traced : part.Traced final item image ↔ part.Traced file item image := by
    cases part with
    | classDef =>
        have types (ref : IndexRef TypeItem) : ref.traced final.types.items =
            ref.traced file.types.items := IndexRef.traced_congr (same.parts .typeId) ref
        exact ⟨fun here => (types _).symm.trans (here.trans (types _)),
          fun here => (types _).trans (here.trans (types _).symm)⟩
    | classData | codeItem | debugInfo => exact Iff.rfl
    | _ =>
        unfold Traced
        rw [same.traced]
  exact propext
    ⟨fun ⟨here, kept, shaped⟩ => ⟨traced.1 here, fun test there => kept test (there.congr same), shaped⟩,
      fun ⟨here, kept, shaped⟩ =>
        ⟨traced.2 here, fun test there => kept test (there.congr same.symm), shaped⟩⟩

/-- Images under a map with the same traces follow. -/
theorem Follows.withRefs {change : RefMap} (traces : change.Traces file)
    (shaped : part.Shaped item → part.Shaped (part.withRefs change item)) :
    part.Follows file item (part.withRefs change item) where
  traced := by
    have same : part.withRefs (.traced file) (part.withRefs change item) =
        part.withRefs (.traced file) item := by
      rw [← Part.withRefs_after, traces.traced]
    cases part with
    | classDef => exact congrArg ClassDef.type same
    | classData | codeItem | debugInfo => trivial
    | _ => exact same
  kept test kept refs := Part.refs_withRefs.2 (refs.imp (traces.kept test kept))
  shaped := shaped

end Part
end DexArsc.Dex
