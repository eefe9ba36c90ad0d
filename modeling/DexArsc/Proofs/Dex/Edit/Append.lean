/-
What interning does to a file whose keys are sound: a key that follows the grammar is always interned. When
its item is there, nothing changes, and otherwise the new items stand behind all others.
-/

import DexArsc.Proofs.Dex.Edit.Pooled

namespace DexArsc

/-- Checks of all elements of a list are one check. -/
theorem Step.forM_lift {state α : Type} (values : List α) (check : α → Except Fault Unit) (initial : state) :
    (values.forM fun value => (liftM (check value) : Step state Unit)) initial =
      (liftM (values.forM check) : Step state Unit) initial := by
  induction values with
  | nil => rfl
  | cons value rest ih =>
      have first : (value :: rest).forM check = check value >>= fun _ => rest.forM check := rfl
      rw [Step.forM_cons, Step.bind_apply, first]
      cases check value with
      | error fault => rfl
      | ok _ => exact ih

namespace Dex

variable {α β κ : Type}

/-- Items are only added, all of them behind the others. -/
structure Section.Appends (items final : Section α) : Prop where
  item : Within items.item? final.item?
  index : Within items.indexOf? final.indexOf?
  order : items.order.toList <+: final.order.toList

namespace Section.Appends

theorem refl (items : Section α) : items.Appends items :=
  ⟨.refl _, .refl _, List.prefix_refl _⟩

theorem trans {items between final : Section α} (before : items.Appends between)
    (behind : between.Appends final) : items.Appends final :=
  ⟨before.item.trans behind.item, before.index.trans behind.index, before.order.trans behind.order⟩

theorem push (items : Section α) (item : α) : items.Appends (items.push item).2 where
  item := within_push items item
  index id index here := by
    have live := congrArg Option.isSome here
    rw [isSome_indexOf?] at live
    have other : id.slot ≠ items.cells.size := fun same => by
      rw [show id = (items.push item).1 from Id.eq_iff.2 same, item?_id_push] at live
      cases live
    rw [indexOf?, live?_push, if_neg other]
    exact here
  order := by
    rw [order_push, Array.toList_push]
    exact List.prefix_append ..

end Section.Appends

theorem Pooled.items_of_sameItems {file final : DexFile} (same : file.SameItems final) (kind : Pooled) :
    kind.items final = kind.items file := by
  cases kind with
  | string => exact same.strings
  | type => exact same.types
  | typeList => exact same.items .typeList
  | proto => exact same.protos
  | field => exact same.fields
  | method => exact same.methods

namespace DexFile

variable {file between final : DexFile}

/-- Items that are shared are only added, all of them behind the others, and nothing else changes. -/
structure Appends (file final : DexFile) : Prop where
  items : ∀ kind : Pooled, (kind.items file).Appends (kind.items final)
  others : final = { file with
    strings := final.strings
    types := final.types
    protos := final.protos
    fields := final.fields
    methods := final.methods
    typeLists := final.typeLists }

namespace Appends

theorem refl (file : DexFile) : file.Appends file :=
  ⟨fun _ => .refl _, rfl⟩

theorem trans (before : file.Appends between) (behind : between.Appends final) : file.Appends final where
  items kind := (before.items kind).trans (behind.items kind)
  others := by
    have first := before.others
    have second := behind.others
    rw [first] at second
    exact second

theorem of_sameItems (same : file.SameItems final) : file.Appends final where
  items kind := by
    rw [kind.items_of_sameItems same]
    exact .refl _
  others := (Grows.of_sameItems same).others

end Appends

/-- The same, and lists that name different types stay apart. -/
structure Enlarges (file final : DexFile) : Prop extends Appends file final where
  lists : Separates file.outline.list → Separates final.outline.list

namespace Enlarges

theorem refl (file : DexFile) : file.Enlarges file :=
  ⟨.refl file, fun lists => lists⟩

theorem trans (before : file.Enlarges between) (behind : between.Enlarges final) : file.Enlarges final :=
  ⟨before.toAppends.trans behind.toAppends, fun lists => behind.lists (before.lists lists)⟩

theorem of_sameItems (same : file.SameItems final) : file.Enlarges final :=
  ⟨.of_sameItems same, fun lists => same.outline ▸ lists⟩

end Enlarges

/-- The step succeeds, and all that it does is to add items. -/
def Adds (step : Step DexFile α) (file : DexFile) : Prop :=
  ∃ value final, step file = .ok value final ∧ file.Enlarges final

namespace Adds

variable {step : Step DexFile α} {next : α → Step DexFile β}

theorem pure (value : α) (file : DexFile) : Adds (Pure.pure value) file :=
  ⟨value, file, rfl, .refl file⟩

theorem bind (first : Adds step file)
    (second : ∀ value between, step file = .ok value between → Adds (next value) between) :
    Adds (step >>= next) file := by
  obtain ⟨value, between, run, here⟩ := first
  obtain ⟨result, final, behind, there⟩ := second value between run
  exact ⟨result, final, (Step.bind_ok run).trans behind, here.trans there⟩

theorem get {next : DexFile → Step DexFile β} (second : Adds (next file) file) :
    Adds (MonadState.get >>= next) file :=
  second

/-- A check that passes in front of a step. -/
theorem check {check : Except Fault α} {value : α} (passed : check = .ok value) (second : Adds (next value) file) :
    Adds ((MonadLift.monadLift check : Step DexFile α) >>= next) file := by
  subst passed
  exact second

/-- A step behind a rebuild of the keys. -/
theorem rebuild (sound : file.Sound) {next : Unit → Step DexFile β}
    (second : ∀ between : DexFile, between.Sound → between.Fresh → Adds (next ()) between) :
    Adds (rebuildKeys >>= next) file := by
  obtain ⟨between, run, same, fresh, keeps⟩ := sound.rebuildKeys
  refine bind ⟨(), between, run, .of_sameItems same⟩ fun _ other here => ?_
  cases run.symm.trans here
  exact second between keeps fresh

/-- A step behind one that interns, in a file that is sound and has fresh key maps again. -/
theorem behind (first : Adds step file) {named : α → Outline → Prop} (interns : Interns step file named)
    (fresh : file.Fresh) (second : ∀ value (between : DexFile), between.Sound → between.Fresh →
      Adds (next value) between) : Adds (step >>= next) file :=
  bind first fun value between run =>
    have interned := (interns.ok run).1
    second value between interned.sound (interned.fresh fresh)

/-- A lookup in a fresh pool, which yields a known item or a new one. -/
theorem item [BEq κ] [Hashable κ] [KeyText κ] {part : DexFile → Pool κ α} {put : Pool κ α → DexFile → DexFile}
    {key : κ} {item : α} (putPut : ∀ first second, put first (put second file) = put first file)
    (putPart : put (part file) file = file) (fresh : (part file).stale = false)
    (new : file.Enlarges (put ((part file).pushKeyed key item) file)) :
    Adds (internItem part put key item) file := by
  have run := internItem_apply part put key item putPut putPart fresh
  cases found : (part file).keys[key]? with
  | some id => exact ⟨id, file, by rw [run, found], .refl file⟩
  | none => exact ⟨_, _, by rw [run, found], new⟩

end Adds

section

variable (sound : file.Sound)
include sound

theorem Sound.adds_internString (text : String) : Adds (DexFile.internString text) file :=
  .rebuild sound fun between sound fresh => .item (fun _ _ => rfl) rfl fresh.strings {
    items := fun kind => by cases kind <;> first | exact .push .. | exact .refl _
    others := rfl
    lists := fun lists => lists }

theorem Sound.adds_internType {descriptor : String} (grammar : checkTypeDescriptor descriptor = .ok ()) :
    Adds (DexFile.internType descriptor) file := by
  refine .check grammar (.rebuild sound fun between sound fresh => .get ?_)
  unfold Pool.find?
  rw [fresh.types]
  cases found : between.types.keys[descriptor]? with
  | some id => exact .pure id between
  | none =>
      refine .behind (sound.adds_internString descriptor) (sound.internString descriptor) fresh
        fun name final _ fresh => ?_
      exact .item (fun _ _ => rfl) rfl fresh.types {
        items := fun kind => by cases kind <;> first | exact .push .. | exact .refl _
        others := rfl
        lists := fun lists => lists }

theorem Sound.adds_internTypes {descriptors : List String}
    (grammar : ∀ text ∈ descriptors, checkTypeDescriptor text = .ok ()) :
    Adds (descriptors.mapM DexFile.internType) file := by
  induction descriptors generalizing file with
  | nil => exact .pure [] file
  | cons descriptor rest ih =>
      obtain ⟨first, others⟩ := List.forall_mem_cons.1 grammar
      rw [List.mapM_cons]
      refine .bind (sound.adds_internType first) fun type between run => ?_
      have interned := ((sound.internType descriptor).ok run).1
      exact .bind (ih interned.sound others) fun types final _ => .pure _ final

/-- A list of types that is not there yet is a new one. -/
theorem Sound.enlarges_withList {types : List (Id TypeItem)}
    (absent : (file.typeLists.entries.find? fun entry => entry.2.names types) = none) :
    file.Enlarges (file.withList types) where
  items kind := by cases kind <;> first | exact .push .. | exact .refl _
  others := rfl
  lists separates := by
    have valid : file.typeLists.Valid := sound.valid .typeList
    have new (id : Id TypeList) : file.outline.list id ≠ some types := fun listed => by
      obtain ⟨list, found, ids⟩ := Section.keyOf?_eq_some.1 listed
      have other := List.find?_eq_none.1 absent (id, list) (valid.mem_entries.2 found)
      rw [TypeList.names, beq_iff_eq] at other
      exact other (TypeList.ids?_eq_some.1 ids)
    have ids : TypeList.ids? { types := types.map .ofId } = some types :=
      TypeList.ids?_eq_some.2 (List.map_map ..)
    change Separates ((file.typeLists.push _).2.keyOf? TypeList.ids?)
    rw [Section.keyOf?_push, ids]
    exact separates.update _ new

theorem Sound.adds_internTypeList {descriptors : List String}
    (grammar : Pooled.typeList.check descriptors = .ok ()) : Adds (DexFile.internTypeList descriptors) file := by
  have each := forM_eq_ok.1 grammar
  have checked := Step.forM_lift descriptors (fun text => checkTypeDescriptor text) file
  rw [show (descriptors.forM fun text => checkTypeDescriptor text) = .ok () from grammar] at checked
  refine .bind ⟨(), file, checked, .refl file⟩ fun _ other run => ?_
  cases checked.symm.trans run
  refine .bind (sound.adds_internTypes each) fun types between run => .get ?_
  have interned := ((sound.internTypes descriptors).ok run).1
  cases absent : between.typeLists.entries.find? fun entry => entry.2.names types with
  | some entry => exact .pure entry.1 between
  | none => exact ⟨_, _, rfl, interned.sound.enlarges_withList absent⟩

theorem Sound.adds_internProto {key : Prototype} (grammar : key.check = .ok ()) :
    Adds (DexFile.internProto key) file := by
  refine .check grammar (.rebuild sound fun between sound fresh => .get ?_)
  unfold Pool.find?
  rw [fresh.protos]
  cases found : between.protos.keys[key]? with
  | some id => exact .pure id between
  | none =>
      obtain ⟨returns, parameters⟩ := Prototype.check_eq_ok.1 grammar
      refine .behind (sound.adds_internString key.shorty) (sound.internString key.shorty) fresh
        fun shorty first sound fresh => ?_
      refine .behind (sound.adds_internType (checkTypeDescriptor_eq_ok.2 returns)) (sound.internType key.returnType)
        fresh fun returnType second sound fresh => ?_
      have last (third : DexFile) (fresh : third.Fresh) (item : ProtoItem) :
          Adds (internItem DexFile.protos (fun protos file => { file with protos }) key item) third :=
        .item (fun _ _ => rfl) rfl fresh.protos {
          items := fun kind => by cases kind <;> first | exact .push .. | exact .refl _
          others := rfl
          lists := fun lists => lists }
      split
      · exact .bind (.pure _ second) fun _ third run => by
          cases run
          exact last second fresh _
      · have list : Pooled.typeList.check key.parameters = .ok () := forM_eq_ok.2 fun text inside =>
          checkTypeDescriptor_eq_ok.2 (parameters text inside).1
        have list' : Adds (OffsetRef.ofId <$> DexFile.internTypeList key.parameters) second := by
          rw [← bind_pure_comp]
          exact .bind (sound.adds_internTypeList list) fun id third _ => .pure _ third
        refine .bind list' fun parameters third run => ?_
        obtain ⟨id, listed, _⟩ := Step.map_eq_ok.1 run
        exact last third (((sound.internTypeList key.parameters).ok listed).1.fresh fresh) _

theorem Sound.adds_internField {key : FieldKey} (grammar : key.check = .ok ()) :
    Adds (DexFile.internField key) file := by
  refine .check grammar (.rebuild sound fun between sound fresh => .get ?_)
  unfold Pool.find?
  rw [fresh.fields]
  cases found : between.fields.keys[key]? with
  | some id => exact .pure id between
  | none =>
      obtain ⟨owner, _, type, _⟩ := FieldKey.check_eq_ok.1 grammar
      refine .behind (sound.adds_internType (checkTypeDescriptor_eq_ok.2 owner)) (sound.internType key.owner)
        fresh fun owner first sound fresh => ?_
      refine .behind (sound.adds_internType (checkTypeDescriptor_eq_ok.2 type)) (sound.internType key.type)
        fresh fun type second sound fresh => ?_
      refine .behind (sound.adds_internString key.name) (sound.internString key.name) fresh
        fun name third _ fresh => ?_
      exact .item (fun _ _ => rfl) rfl fresh.fields {
        items := fun kind => by cases kind <;> first | exact .push .. | exact .refl _
        others := rfl
        lists := fun lists => lists }

theorem Sound.adds_internMethod {key : MethodKey} (grammar : Pooled.method.check key = .ok ()) :
    Adds (DexFile.internMethod key) file := by
  obtain ⟨names, prototype⟩ := Except.check_eq_ok.1 grammar
  refine .check names (.check prototype (.rebuild sound fun between sound fresh => .get ?_))
  unfold Pool.find?
  rw [fresh.methods]
  cases found : between.methods.keys[key]? with
  | some id => exact .pure id between
  | none =>
      obtain ⟨owner, _⟩ := MethodKey.checkNames_eq_ok.1 names
      refine .behind (sound.adds_internType (checkTypeDescriptor_eq_ok.2 owner)) (sound.internType key.owner)
        fresh fun owner first sound fresh => ?_
      refine .behind (sound.adds_internProto prototype) (sound.internProto key.prototype) fresh
        fun proto second sound fresh => ?_
      refine .behind (sound.adds_internString key.name) (sound.internString key.name) fresh
        fun name third _ fresh => ?_
      exact .item (fun _ _ => rfl) rfl fresh.methods {
        items := fun kind => by cases kind <;> first | exact .push .. | exact .refl _
        others := rfl
        lists := fun lists => lists }

end

theorem SameItems.refl (file : DexFile) : file.SameItems file :=
  ⟨rfl, rfl, rfl, rfl, rfl, rfl⟩

theorem SameItems.trans (before : file.SameItems between) (behind : between.SameItems final) :
    file.SameItems final where
  strings := behind.strings.trans before.strings
  types := behind.types.trans before.types
  protos := behind.protos.trans before.protos
  fields := behind.fields.trans before.fields
  methods := behind.methods.trans before.methods
  others := by
    have first := before.others
    have second := behind.others
    rw [first] at second
    exact second

/-- The step yields a value, and all items stay as they are. -/
def Finds (step : Step DexFile α) (file : DexFile) (value : α) : Prop :=
  ∃ final, step file = .ok value final ∧ file.SameItems final

namespace Finds

variable {step : Step DexFile α} {next : α → Step DexFile β} {value : α} {result : β}

theorem pure (value : α) (file : DexFile) : Finds (Pure.pure value) file value :=
  ⟨file, rfl, .refl file⟩

theorem bind (first : Finds step file value)
    (second : ∀ between, file.SameItems between → step file = .ok value between → Finds (next value) between result) :
    Finds (step >>= next) file result := by
  obtain ⟨between, run, here⟩ := first
  obtain ⟨final, behind, there⟩ := second between here run
  exact ⟨final, (Step.bind_ok run).trans behind, here.trans there⟩

/-- A check that passes in front of a step. -/
theorem check {check : Except Fault α} (passed : check = .ok value) (second : Finds (next value) file result) :
    Finds ((MonadLift.monadLift check : Step DexFile α) >>= next) file result := by
  subst passed
  exact second

/-- A step behind a rebuild of the keys. -/
theorem rebuild (sound : file.Sound) {next : Unit → Step DexFile β}
    (second : ∀ between : DexFile, between.outline = file.outline → between.Sound → between.Fresh →
      Finds (next ()) between result) : Finds (rebuildKeys >>= next) file result := by
  obtain ⟨between, run, same, fresh, keeps⟩ := sound.rebuildKeys
  refine bind ⟨between, run, same⟩ fun other _ here => ?_
  cases run.symm.trans here
  exact second between same.outline keeps fresh

end Finds

section

variable (sound : file.Sound)
include sound

theorem Sound.finds_internString {id : Id StringItem} {text : String} (known : file.outline.string id = some text) :
    Finds (DexFile.internString text) file id := by
  refine .rebuild sound fun between same sound fresh => ?_
  have run := internItem_apply DexFile.strings (fun strings file => { file with strings }) (StringData.decoded text)
    { value := .decoded text } (fun _ _ => rfl) rfl fresh.strings
  have here := (sound.stringKeys fresh.strings (.decoded text) id).2
    (Outline.value?_eq_some.2 (by rw [same, known]))
  exact ⟨between, by rw [run, here], .refl between⟩

theorem Sound.finds_internType {id : Id TypeItem} {descriptor : String}
    (known : file.outline.descriptor? id = some descriptor) : Finds (DexFile.internType descriptor) file id := by
  have grammar := checkTypeDescriptor_eq_ok.2 (sound.outline.grammar known)
  refine .check grammar (.rebuild sound fun between same sound fresh => ?_)
  have here := (sound.typeKeys fresh.types descriptor id).2 (by rw [same, known])
  exact ⟨between, by simp [Step.bind_apply, Pool.find?, fresh.types, here], .refl between⟩

theorem Sound.finds_internTypes {types : List (Id TypeItem)} {descriptors : List String}
    (known : types.mapM file.outline.descriptor? = some descriptors) :
    Finds (descriptors.mapM DexFile.internType) file types := by
  induction types generalizing file descriptors with
  | nil =>
      cases known
      exact .pure [] file
  | cons type rest ih =>
      obtain ⟨descriptor, others, first, behind, rfl⟩ := List.forall₂_cons_left_iff.1 (mapM_eq_some.1 known)
      rw [List.mapM_cons]
      refine .bind (sound.finds_internType first) fun between same run => ?_
      have interned := ((sound.internType descriptor).ok run).1
      have behind := mapM_eq_some.2 behind
      exact .bind (ih interned.sound (by rw [same.outline, behind])) fun final _ _ => .pure _ final

theorem Sound.finds_internTypeList (lists : Separates file.outline.list) {id : Id TypeList}
    {types : List (Id TypeItem)} {descriptors : List String} (listed : file.outline.list id = some types)
    (known : types.mapM file.outline.descriptor? = some descriptors) :
    Finds (DexFile.internTypeList descriptors) file id := by
  obtain ⟨texts, there, grammar⟩ := sound.outline.descriptors? listed
  cases known.symm.trans there
  have grammar : (descriptors.forM fun text => checkTypeDescriptor text) = .ok () :=
    forM_eq_ok.2 fun text inside => checkTypeDescriptor_eq_ok.2 (grammar text inside)
  have checked := Step.forM_lift descriptors (fun text => checkTypeDescriptor text) file
  rw [grammar] at checked
  refine .bind ⟨file, checked, .refl file⟩ fun other _ run => ?_
  cases checked.symm.trans run
  refine .bind (sound.finds_internTypes known) fun between same run => ?_
  have interned := ((sound.internTypes descriptors).ok run).1
  have valid : between.typeLists.Valid := interned.sound.valid .typeList
  rw [← same.outline] at listed lists
  obtain ⟨list, found, ids⟩ := Section.keyOf?_eq_some.1 listed
  have names : list.names types = true := beq_iff_eq.2 (TypeList.ids?_eq_some.1 ids)
  refine ⟨between, ?_, .refl between⟩
  cases first : between.typeLists.entries.find? fun entry => entry.2.names types with
  | none => exact absurd names (List.find?_eq_none.1 first (id, list) (valid.mem_entries.2 found))
  | some entry =>
      obtain ⟨other, image⟩ := entry
      have named : image.names types = true := by simpa using List.find?_some first
      have inside := valid.mem_entries.1 (List.mem_of_find?_eq_some first)
      have listed' : between.outline.list other = some types :=
        Section.keyOf?_eq_some.2 ⟨image, inside, TypeList.ids?_eq_some.2 (beq_iff_eq.1 named)⟩
      cases lists other id types listed' listed
      simp only [Step.bind_apply, Step.get_apply, first]
      rfl

theorem Sound.finds_internProto {id : Id ProtoItem} {key : Prototype} (known : file.outline.protoKey? id = some key) :
    Finds (DexFile.internProto key) file id := by
  obtain ⟨proto, here, _⟩ := Option.bind_eq_some_iff.1 known
  obtain ⟨other, keyed, grammar⟩ := sound.outline.protoKey? here
  cases known.symm.trans keyed
  refine .check grammar (.rebuild sound fun between same sound fresh => ?_)
  have here := (sound.protoKeys fresh.protos key id).2 (by rw [same, known])
  exact ⟨between, by simp [Step.bind_apply, Pool.find?, fresh.protos, here], .refl between⟩

theorem Sound.finds_internField {id : Id FieldItem} {key : FieldKey} (known : file.outline.fieldKey? id = some key) :
    Finds (DexFile.internField key) file id := by
  obtain ⟨field, here, _⟩ := Option.bind_eq_some_iff.1 known
  obtain ⟨other, keyed, grammar⟩ := sound.outline.fieldKey? here
  cases known.symm.trans keyed
  refine .check grammar (.rebuild sound fun between same sound fresh => ?_)
  have here := (sound.fieldKeys fresh.fields key id).2 (by rw [same, known])
  exact ⟨between, by simp [Step.bind_apply, Pool.find?, fresh.fields, here], .refl between⟩

theorem Sound.finds_internMethod {id : Id MethodItem} {key : MethodKey}
    (known : file.outline.methodKey? id = some key) : Finds (DexFile.internMethod key) file id := by
  obtain ⟨method, here, _⟩ := Option.bind_eq_some_iff.1 known
  obtain ⟨other, keyed, names, prototype⟩ := sound.outline.methodKey? here
  cases known.symm.trans keyed
  refine .check names (.check prototype (.rebuild sound fun between same sound fresh => ?_))
  have here := (sound.methodKeys fresh.methods key id).2 (by rw [same, known])
  exact ⟨between, by simp [Step.bind_apply, Pool.find?, fresh.methods, here], .refl between⟩

end

end DexFile

namespace Pooled

variable {file final : DexFile} {kind : Pooled} {key : kind.Key}

/-- A key that follows the grammar is always interned. -/
theorem adds (sound : file.Sound) (grammar : kind.check key = .ok ()) : DexFile.Adds (kind.intern key) file := by
  cases kind with
  | string => exact sound.adds_internString key
  | type => exact sound.adds_internType grammar
  | typeList => exact sound.adds_internTypeList grammar
  | proto => exact sound.adds_internProto grammar
  | field => exact sound.adds_internField grammar
  | method => exact sound.adds_internMethod grammar

/-- A key that does not follow the grammar is refused before anything is done. -/
theorem intern_of_fault {fault : Fault} (refused : kind.check key = .error fault) :
    kind.intern key file = .error fault file := by
  have checked {α β : Type} {check : Except Fault α} (next : α → Step DexFile β) (refused : check = .error fault) :
      ((liftM check : Step DexFile α) >>= next) file = .error fault file := by
    rw [refused]
    rfl
  cases kind with
  | string => cases refused
  | type => exact checked _ refused
  | typeList =>
      have run := Step.forM_lift key (fun text => checkTypeDescriptor text) file
      rw [show (List.forM key fun text => checkTypeDescriptor text) = .error fault from refused] at run
      exact (Step.bind_apply ..).trans (by rw [run]; rfl)
  | proto => exact checked _ refused
  | field => exact checked _ refused
  | method =>
      change (key.checkNames >>= fun _ => key.prototype.check) = _ at refused
      cases names : MethodKey.checkNames key with
      | error other =>
          rw [names] at refused
          cases refused
          exact checked _ names
      | ok _ =>
          rw [names] at refused
          have prototype : (MethodKey.prototype key).check = .error fault := refused
          change (liftM (MethodKey.checkNames key) >>= _ : Step DexFile _) file = _
          rw [names]
          change (liftM (MethodKey.prototype key).check >>= _ : Step DexFile _) file = _
          exact checked _ prototype

/-- A key whose item is there yields this item. -/
theorem finds (sound : file.Sound) (lists : Separates file.outline.list) {id : Id kind.Item}
    (known : kind.outlined? file.outline id = some key) : DexFile.Finds (kind.intern key) file id := by
  cases kind with
  | string => exact sound.finds_internString known
  | type => exact sound.finds_internType known
  | typeList =>
      obtain ⟨types, listed, named⟩ := Option.bind_eq_some_iff.1 known
      exact sound.finds_internTypeList lists listed named
  | proto => exact sound.finds_internProto known
  | field => exact sound.finds_internField known
  | method => exact sound.finds_internMethod known

end Pooled
end Dex
end DexArsc
