/-
What interning yields: the id of an item with the given key, in a file that has grown. Where a step
fails, the file has grown as well.
-/

import DexArsc.Proofs.Dex.Edit.NewIds

namespace DexArsc.Dex.DexFile

variable {α β : Type} {file final : DexFile}

/-- A step that only interns, and what holds of its result. -/
def Interns (step : Step DexFile α) (file : DexFile) (holds : α → Outline → Prop) : Prop :=
  step.Ensures file (fun value final => file.Interned final ∧ holds value final.outline) file.Interned

namespace Interns

variable {step : Step DexFile α} {next : α → Step DexFile β} {holds other : α → Outline → Prop}
  {result : β → Outline → Prop}

theorem of_ok {value : α} (run : step file = .ok value final) (interned : file.Interned final)
    (fits : holds value final.outline) : Interns step file holds :=
  Step.Ensures.of_ok run ⟨interned, fits⟩

theorem pure {value : α} (sound : file.Sound) (fits : holds value file.outline) :
    Interns (Pure.pure value) file holds :=
  of_ok rfl (.refl sound) fits

/-- A check in front of a step. -/
theorem check {check : Except Fault α} (sound : file.Sound)
    (second : ∀ value, check = .ok value → Interns (next value) file result) :
    Interns ((MonadLift.monadLift check : Step DexFile α) >>= next) file result :=
  Step.Ensures.check (.refl sound) second

/-- What a step yields behind steps that intern. -/
theorem after {between : DexFile} (interned : file.Interned between) (interns : Interns step between holds) :
    Interns step between holds ∧
      step.Ensures between (fun value final => file.Interned final ∧ holds value final.outline)
        file.Interned :=
  ⟨interns, Step.Ensures.imp interns (fun _ _ ⟨behind, fits⟩ => ⟨interned.trans behind, fits⟩)
    fun _ behind => interned.trans behind⟩

theorem bind (first : Interns step file holds) (second : ∀ value between, file.Interned between →
    holds value between.outline → Interns (next value) between result) :
    Interns (step >>= next) file result :=
  Step.Ensures.bind first fun value between ⟨interned, fits⟩ =>
    (after interned (second value between interned fits)).2

theorem get {next : DexFile → Step DexFile β} (second : Interns (next file) file result) :
    Interns (MonadState.get >>= next) file result :=
  second

theorem imp (interns : Interns step file holds)
    (implies : ∀ value outline, holds value outline → other value outline) :
    Interns step file other :=
  Step.Ensures.imp interns (fun _ _ ⟨interned, fits⟩ => ⟨interned, implies _ _ fits⟩) fun _ same => same

theorem map {change : α → β} (first : Interns step file holds)
    (fits : ∀ value outline, holds value outline → result (change value) outline) :
    Interns (change <$> step) file result := by
  rw [← bind_pure_comp]
  exact first.bind fun value _ interned here => .pure interned.sound (fits value _ here)

/-- A check of every element of a list. -/
theorem forM {values : List α} {check : α → Except Fault Unit} (sound : file.Sound) :
    Interns (values.forM fun value => (liftM (check value) : Step DexFile Unit)) file
      fun _ _ => True := by
  induction values generalizing file with
  | nil => exact .pure sound trivial
  | cons value rest ih =>
      rw [List.forM_eq_forM] at *
      rw [List.forM_cons]
      exact .check sound fun _ _ => ih sound

/-- A step behind a rebuild of the keys. -/
theorem rebuild (sound : file.Sound) {next : Unit → Step DexFile β}
    (second : ∀ between, file.Interned between → between.Fresh →
      Interns (next ()) between result) : Interns (rebuildKeys >>= next) file result := by
  obtain ⟨between, run, same, fresh, keeps⟩ := sound.rebuildKeys
  have interned : file.Interned between :=
    ⟨keeps, .of_sameItems same, fun shorties => same.outline ▸ shorties, fun _ => fresh⟩
  have behind := (after interned (second between interned fresh)).2
  unfold Interns Step.Ensures at *
  rwa [Step.bind_ok run]

/-- A lookup in a fresh pool, which yields a known item or a new one. -/
theorem item {κ : Type} [BEq κ] [Hashable κ] [KeyText κ] {part : DexFile → Pool κ α}
    {put : Pool κ α → DexFile → DexFile} {key : κ} {item : α} {holds : Id α → Outline → Prop}
    (putPut : ∀ first second, put first (put second file) = put first file)
    (putPart : put (part file) file = file) (fresh : (part file).stale = false) (sound : file.Sound)
    (known : ∀ id, (part file).keys[key]? = some id → holds id file.outline)
    (new : (part file).keys[key]? = none →
      file.Interned (put ((part file).pushKeyed key item) file) ∧
        holds ((part file).items.push item).1 (put ((part file).pushKeyed key item) file).outline) :
    Interns (internItem part put key item) file holds := by
  have run := internItem_apply part put key item putPut putPart fresh
  cases found : (part file).keys[key]? with
  | some id =>
      rw [found] at run
      exact of_ok run (.refl sound) (known id found)
  | none =>
      rw [found] at run
      exact of_ok run (new found).1 (new found).2

end Interns

variable (sound : file.Sound)
include sound

theorem Sound.internString (text : String) :
    Interns (internString text) file fun id outline => outline.string id = some text :=
  .rebuild sound fun _ interned fresh =>
    .item (fun _ _ => rfl) rfl fresh.strings interned.sound
      (fun id found => Outline.value?_eq_some.1 ((interned.sound.stringKeys fresh.strings _ id).1 found))
      (interned.sound.withString fresh.strings)

theorem Sound.internType (descriptor : String) : Interns (internType descriptor) file
    fun id outline => outline.descriptor? id = some descriptor := by
  refine .check sound fun _ passed => ?_
  have grammar := checkTypeDescriptor_eq_ok.1 passed
  refine .rebuild sound fun between interned fresh => .get ?_
  unfold Pool.find?
  rw [fresh.types]
  cases found : between.types.keys[descriptor]? with
  | some id => exact .pure interned.sound ((interned.sound.typeKeys fresh.types _ id).1 found)
  | none =>
      refine .bind (interned.sound.internString descriptor) fun name final grown named => ?_
      have fresh := grown.fresh fresh
      exact .item (fun _ _ => rfl) rfl fresh.types grown.sound
        (fun id found => (grown.sound.typeKeys fresh.types _ id).1 found)
        fun absent => grown.sound.withType fresh.types absent named grammar

theorem Sound.internTypes (descriptors : List String) : Interns (descriptors.mapM DexFile.internType) file
    fun types outline => types.mapM outline.descriptor? = some descriptors := by
  induction descriptors generalizing file with
  | nil => exact .pure sound rfl
  | cons descriptor rest ih =>
      rw [List.mapM_cons]
      refine .bind (sound.internType descriptor) fun type between interned here => ?_
      refine .bind (ih interned.sound) fun types final grown there => .pure grown.sound ?_
      simp [grown.grows.outline.descriptor? _ _ here, there]

/-- The list that is found or made names types with the given descriptors. -/
theorem Sound.internTypeList (descriptors : List String) :
    Interns (internTypeList descriptors) file fun id outline => ∃ types,
      outline.list id = some types ∧ types.mapM outline.descriptor? = some descriptors := by
  refine .bind (.forM sound) fun _ checked interned _ => ?_
  refine .bind (interned.sound.internTypes descriptors) fun types between grown named => .get ?_
  cases found : between.typeLists.entries.find? fun entry => entry.2.names types with
  | some entry =>
      obtain ⟨id, list⟩ := entry
      refine .pure grown.sound ⟨types, ?_, named⟩
      have listed := List.mem_of_find?_eq_some found
      have names : list.types.map IndexRef.item = types.map some := by
        simpa [TypeList.names] using List.find?_some found
      have here : between.typeLists.item? id = some list := by
        simp only [Section.entries, List.mem_filterMap, Option.map_eq_some_iff, Prod.mk.injEq] at listed
        obtain ⟨other, _, item, here, rfl, rfl⟩ := listed
        exact here
      rw [show between.outline.list id = list.ids? from Section.keyOf?_of_item? here _]
      exact TypeList.ids?_eq_some.2 names
  | none =>
      have fits : between.outline.FitsList types := fun type inside => by
        obtain ⟨text, _, found⟩ := mem_of_mapM_eq_some named inside
        rw [found]
        rfl
      obtain ⟨grows, list⟩ := grown.sound.withList fits
      exact .of_ok rfl grows ⟨types, list, grows.grows.outline.descriptor?.mapM _ _ named⟩

theorem Sound.internProto (key : Prototype) : Interns (internProto key) file
    fun id outline => outline.protoKey? id = some key := by
  refine .check sound fun _ grammar => ?_
  refine .rebuild sound fun between interned fresh => .get ?_
  unfold Pool.find?
  rw [fresh.protos]
  cases found : between.protos.keys[key]? with
  | some id => exact .pure interned.sound ((interned.sound.protoKeys fresh.protos _ id).1 found)
  | none =>
      refine .bind (interned.sound.internString key.shorty) fun shorty first grown named => ?_
      have fresh := grown.fresh fresh
      refine .bind (grown.sound.internType key.returnType) fun returnType second grown returns => ?_
      have named := grown.grows.outline.string _ _ named
      have fresh := grown.fresh fresh
      have finish (third : DexFile) (grown : second.Interned third) (ref : OffsetRef TypeList)
          (linked : ref.Linked) (list : ∃ types, ref.item.elim (some []) third.outline.list = some types ∧
            types.mapM third.outline.descriptor? = some key.parameters) :
          Interns (internItem DexFile.protos (fun protos file => { file with protos }) key
            { shorty := .ofId shorty, returnType := .ofId returnType, parameters := ref }) third
            fun id outline => outline.protoKey? id = some key := by
        obtain ⟨types, list, texts⟩ := list
        have named := grown.grows.outline.string _ _ named
        have returns := grown.grows.outline.descriptor? _ _ returns
        have fresh := grown.fresh fresh
        have outlined : ProtoItem.outline? third.outline.list
            { shorty := .ofId shorty, returnType := .ofId returnType, parameters := ref } =
              some { shorty, returnType, parameters := types } := by
          simp [ProtoItem.outline?, IndexRef.ofId, list]
        have keyed : third.outline.prototype? (returnType, types) = some key := by
          simp [Outline.prototype?, returns, texts]
        exact .item (fun _ _ => rfl) rfl fresh.protos grown.sound
          (fun id found => (grown.sound.protoKeys fresh.protos _ id).1 found)
          fun absent => grown.sound.withProto fresh.protos absent outlined keyed linked named
            fun parameter inside => ((Prototype.check_eq_ok.1 grammar).2 parameter inside).2
      by_cases empty : key.parameters.isEmpty
      · simp only [empty, if_true]
        refine finish second (.refl grown.sound) {} (fun _ => rfl) ⟨[], rfl, ?_⟩
        rw [List.isEmpty_iff.1 empty]
        rfl
      · simp only [empty]
        have parameters : Interns (OffsetRef.ofId <$> DexFile.internTypeList key.parameters) second
            fun ref outline => ref.Linked ∧ ∃ types, ref.item.elim (some []) outline.list = some types ∧
              types.mapM outline.descriptor? = some key.parameters :=
          .map (grown.sound.internTypeList key.parameters) fun id outline list =>
            ⟨fun none => (Option.some_ne_none id none).elim, list⟩
        exact parameters.bind fun ref third grown list => finish third grown ref list.1 list.2

theorem Sound.internField (key : FieldKey) : Interns (internField key) file
    fun id outline => outline.fieldKey? id = some key := by
  refine .check sound fun _ grammar => ?_
  refine .rebuild sound fun between interned fresh => .get ?_
  unfold Pool.find?
  rw [fresh.fields]
  cases found : between.fields.keys[key]? with
  | some id => exact .pure interned.sound ((interned.sound.fieldKeys fresh.fields _ id).1 found)
  | none =>
      refine .bind (interned.sound.internType key.owner) fun owner first grown owns => ?_
      have fresh := grown.fresh fresh
      refine .bind (grown.sound.internType key.type) fun type second grown types => ?_
      have owns := grown.grows.outline.descriptor? _ _ owns
      have fresh := grown.fresh fresh
      refine .bind (grown.sound.internString key.name) fun name third grown named => ?_
      have owns := grown.grows.outline.descriptor? _ _ owns
      have types := grown.grows.outline.descriptor? _ _ types
      have fresh := grown.fresh fresh
      have keyed : third.outline.memberField? { owner, type, name } = some key := by
        simp [Outline.memberField?, owns, types, named]
      exact .item (fun _ _ => rfl) rfl fresh.fields grown.sound
        (fun id found => (grown.sound.fieldKeys fresh.fields _ id).1 found)
        fun absent => grown.sound.withField fresh.fields absent rfl keyed grammar

theorem Sound.internMethod (key : MethodKey) : Interns (internMethod key) file
    fun id outline => outline.methodKey? id = some key := by
  refine .check sound fun _ grammar => .check sound fun _ _ => ?_
  refine .rebuild sound fun between interned fresh => .get ?_
  unfold Pool.find?
  rw [fresh.methods]
  cases found : between.methods.keys[key]? with
  | some id => exact .pure interned.sound ((interned.sound.methodKeys fresh.methods _ id).1 found)
  | none =>
      refine .bind (interned.sound.internType key.owner) fun owner first grown owns => ?_
      have fresh := grown.fresh fresh
      refine .bind (grown.sound.internProto key.prototype) fun proto second grown prototype => ?_
      have owns := grown.grows.outline.descriptor? _ _ owns
      have fresh := grown.fresh fresh
      refine .bind (grown.sound.internString key.name) fun name third grown named => ?_
      have owns := grown.grows.outline.descriptor? _ _ owns
      have prototype := grown.grows.outline.protoKey? _ _ prototype
      have fresh := grown.fresh fresh
      have keyed : third.outline.memberMethod? { owner, proto, name } = some key := by
        simp [Outline.memberMethod?, owns, prototype, named]
      exact .item (fun _ _ => rfl) rfl fresh.methods grown.sound
        (fun id found => (grown.sound.methodKeys fresh.methods _ id).1 found)
        fun absent => grown.sound.withMethod fresh.methods absent rfl keyed grammar

end DexArsc.Dex.DexFile
