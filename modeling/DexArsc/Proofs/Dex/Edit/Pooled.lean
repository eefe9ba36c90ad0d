/-
Steps that neither read nor change the class definitions. On a file without any they do the same.
-/

import DexArsc.Dex.File.Keys
import DexArsc.Proofs.Dex.Edit.Run
import DexArsc.Proofs.Step

namespace DexArsc.Dex.DexFile

variable {α β κ : Type}

/-- The file without its class definitions. -/
def unclassed (file : DexFile) : DexFile :=
  { file with classDefs := { kind := .classDef } }

/-- The result of a step with other class definitions. -/
def resultWith (classDefs : Section ClassDef) : EStateM.Result Fault DexFile α → EStateM.Result Fault DexFile α
  | .ok value final => .ok value { final with classDefs }
  | .error fault final => .error fault { final with classDefs }

/-- The step does the same whatever the class definitions are, and keeps them. -/
def IgnoresClasses (step : Step DexFile α) : Prop :=
  ∀ file classDefs, step { file with classDefs } = resultWith classDefs (step file)

namespace IgnoresClasses

variable {step : Step DexFile α} {file final : DexFile} {value : α} {fault : Fault}

theorem pure (value : α) : IgnoresClasses (pure value) := fun _ _ => rfl

theorem bind {next : α → Step DexFile β} (first : IgnoresClasses step)
    (second : ∀ value, IgnoresClasses (next value)) : IgnoresClasses (step >>= next) := by
  intro file classDefs
  rw [Step.bind_apply, Step.bind_apply, first]
  cases step file with
  | ok value between => exact second value between classDefs
  | error fault between => rfl

/-- A check in front of a step. -/
theorem check {check : Except Fault α} {next : α → Step DexFile β}
    (second : ∀ value, IgnoresClasses (next value)) :
    IgnoresClasses ((MonadLift.monadLift check : Step DexFile α) >>= next) := by
  refine bind (fun file classDefs => ?_) second
  cases check <;> rfl

theorem map {change : α → β} (first : IgnoresClasses step) : IgnoresClasses (change <$> step) := by
  rw [← bind_pure_comp]
  exact bind first fun _ => pure _

/-- A look at the file that does not see the class definitions. -/
theorem get {next : DexFile → Step DexFile β}
    (second : ∀ file classDefs, next { file with classDefs } { file with classDefs } =
      resultWith classDefs (next file file)) : IgnoresClasses (MonadState.get >>= next) :=
  second

theorem mapM {values : List β} {step : β → Step DexFile α} (each : ∀ value, IgnoresClasses (step value)) :
    IgnoresClasses (values.mapM step) := by
  induction values with
  | nil => exact pure []
  | cons value rest ih =>
      rw [List.mapM_cons]
      exact bind (each value) fun _ => bind ih fun _ => pure _

theorem forM {values : List α} {check : α → Except Fault Unit} :
    IgnoresClasses (values.forM fun value => (liftM (check value) : Step DexFile Unit)) := by
  induction values with
  | nil => exact pure ()
  | cons value rest ih => exact IgnoresClasses.check fun _ => ih

/-- Where a step succeeds, it does so without the class definitions. -/
theorem ok (ignores : IgnoresClasses step) (run : step file = .ok value final) :
    step file.unclassed = .ok value final.unclassed ∧ final.classDefs = file.classDefs := by
  constructor
  · exact (ignores file _).trans (congrArg (resultWith _) run)
  · have same : step file = resultWith file.classDefs (step file) := ignores file file.classDefs
    rw [run] at same
    exact (congrArg DexFile.classDefs (EStateM.Result.ok.inj same).2).trans rfl

/-- Where a step fails, it does so without the class definitions. -/
theorem error (ignores : IgnoresClasses step) (run : step file = .error fault final) :
    step file.unclassed = .error fault final.unclassed ∧ final.classDefs = file.classDefs := by
  constructor
  · exact (ignores file _).trans (congrArg (resultWith _) run)
  · have same : step file = resultWith file.classDefs (step file) := ignores file file.classDefs
    rw [run] at same
    exact (congrArg DexFile.classDefs (EStateM.Result.error.inj same).2).trans rfl

/-- What a step yields without the class definitions it yields with them. -/
theorem of_ok (ignores : IgnoresClasses step) (run : step file.unclassed = .ok value final) :
    step file = .ok value { final with classDefs := file.classDefs } :=
  (ignores file.unclassed file.classDefs).trans (congrArg (resultWith file.classDefs) run)

theorem ensures (ignores : IgnoresClasses step) {done : α → DexFile → Prop} {failed : DexFile → Prop}
    (ensures : step.Ensures file.unclassed done failed) :
    step.Ensures file (fun value final => done value final.unclassed ∧ final.classDefs = file.classDefs)
      fun final => failed final.unclassed ∧ final.classDefs = file.classDefs := by
  unfold Step.Ensures
  cases run : step file with
  | ok value final =>
      obtain ⟨run, classes⟩ := ignores.ok run
      exact ⟨ensures.ok run, classes⟩
  | error fault final =>
      obtain ⟨run, classes⟩ := ignores.error run
      exact ⟨ensures.error run, classes⟩

/-- A pool that is computed from the file without its class definitions. -/
theorem replace {γ : Type} (compute : DexFile → Except Fault γ) (put : γ → DexFile → DexFile)
    {next : PUnit → Step DexFile β}
    (computes : ∀ file classDefs, compute { file with classDefs } = compute file)
    (puts : ∀ pool file classDefs, put pool { file with classDefs } = { put pool file with classDefs })
    (rest : IgnoresClasses (next ⟨⟩)) :
    IgnoresClasses (MonadState.get >>= fun file =>
      (MonadLift.monadLift (compute file) : Step DexFile γ) >>= fun pool => set (put pool file) >>= next) := by
  refine get fun file classDefs => ?_
  rw [computes]
  cases compute file with
  | error fault => rfl
  | ok pool =>
      change next ⟨⟩ (put pool { file with classDefs }) = resultWith classDefs (next ⟨⟩ (put pool file))
      rw [puts, rest]

theorem rebuildKeys : IgnoresClasses rebuildKeys := by
  unfold DexFile.rebuildKeys
  refine replace (fun file => file.strings.freshen fun item => some item.value)
    (fun strings file => { file with strings }) (fun _ _ => rfl) (fun _ _ _ => rfl) ?_
  refine replace (fun file => file.types.freshen file.typeKey?)
    (fun types file => { file with types }) (fun _ _ => rfl) (fun _ _ _ => rfl) ?_
  refine replace (fun file => file.protos.freshen file.protoKey?)
    (fun protos file => { file with protos }) (fun _ _ => rfl) (fun _ _ _ => rfl) ?_
  refine replace (fun file => file.fields.freshen file.fieldKey?)
    (fun fields file => { file with fields }) (fun _ _ => rfl) (fun _ _ _ => rfl) ?_
  exact replace (fun file => file.methods.freshen file.methodKey?)
    (fun methods file => { file with methods }) (fun _ _ => rfl) (fun _ _ _ => rfl) (pure _)

theorem internItem [BEq κ] [Hashable κ] [KeyText κ] {part : DexFile → Pool κ α}
    {put : Pool κ α → DexFile → DexFile} {key : κ} {item : α}
    (parts : ∀ file classDefs, part { file with classDefs } = part file)
    (puts : ∀ pool file classDefs, put pool { file with classDefs } = { put pool file with classDefs }) :
    IgnoresClasses (internItem part put key item) := by
  intro file classDefs
  unfold DexFile.internItem
  dsimp only
  rw [parts]
  cases Pool.findOrPush key (fun _ => item) (part file) <;>
    exact congrArg _ ((congrArg _ (puts ..)).trans (puts ..))

theorem internString (text : String) : IgnoresClasses (internString text) :=
  rebuildKeys.bind fun _ => internItem (fun _ _ => rfl) fun _ _ _ => rfl

theorem internType (descriptor : String) : IgnoresClasses (internType descriptor) := by
  refine check fun _ => rebuildKeys.bind fun _ => get fun file classDefs => ?_
  dsimp only
  cases file.types.find? descriptor with
  | some id => rfl
  | none =>
      refine ((internString descriptor).bind fun _ => ?_) file classDefs
      exact internItem (fun _ _ => rfl) fun _ _ _ => rfl

theorem internTypeList (descriptors : List String) : IgnoresClasses (internTypeList descriptors) := by
  refine forM.bind fun _ => (mapM internType).bind fun types => get fun file classDefs => ?_
  dsimp only
  cases file.typeLists.entries.find? fun entry => entry.2.names types with
  | some entry => rfl
  | none => rfl

theorem internProto (key : Prototype) : IgnoresClasses (internProto key) := by
  refine check fun _ => rebuildKeys.bind fun _ => get fun file classDefs => ?_
  dsimp only
  cases file.protos.find? key with
  | some id => rfl
  | none =>
      refine ((internString key.shorty).bind fun _ => (internType key.returnType).bind fun _ => ?_) file classDefs
      split
      · refine (pure ({} : OffsetRef TypeList)).bind fun _ => ?_
        exact internItem (fun _ _ => rfl) fun _ _ _ => rfl
      · refine (internTypeList key.parameters).map.bind fun _ => ?_
        exact internItem (fun _ _ => rfl) fun _ _ _ => rfl

theorem internField (key : FieldKey) : IgnoresClasses (internField key) := by
  refine check fun _ => rebuildKeys.bind fun _ => get fun file classDefs => ?_
  dsimp only
  cases file.fields.find? key with
  | some id => rfl
  | none =>
      refine ((internType key.owner).bind fun _ => (internType key.type).bind fun _ => ?_) file classDefs
      exact (internString key.name).bind fun _ => internItem (fun _ _ => rfl) fun _ _ _ => rfl

theorem internMethod (key : MethodKey) : IgnoresClasses (internMethod key) := by
  refine check fun _ => check fun _ => rebuildKeys.bind fun _ => get fun file classDefs => ?_
  dsimp only
  cases file.methods.find? key with
  | some id => rfl
  | none =>
      refine ((internType key.owner).bind fun _ => (internProto key.prototype).bind fun _ => ?_) file classDefs
      exact (internString key.name).bind fun _ => internItem (fun _ _ => rfl) fun _ _ _ => rfl

theorem renameString (id : Id StringItem) (text : String) : IgnoresClasses (renameString id text) := by
  refine rebuildKeys.bind fun _ => get fun file classDefs => ?_
  dsimp only
  cases file.strings.items.item? id with
  | none => rfl
  | some item =>
      dsimp only
      split
      · change ((MonadLift.monadLift (file.checkRole id item.value.lossyText text) :
          Step DexFile Unit) >>= _) _ = _
        cases file.checkRole id item.value.lossyText text with
        | error fault => rfl
        | ok _ => cases file.strings.rekey id item.value (.decoded text) <;> rfl
      · rfl

theorem renameType (id : Id TypeItem) (new : String) : IgnoresClasses (renameType id new) := by
  refine check fun _ => rebuildKeys.bind fun _ => get fun file classDefs => ?_
  have keys : ({ file with classDefs } : DexFile).typeKey? = file.typeKey? := rfl
  dsimp only
  rw [keys]
  cases (file.types.items.item? id).bind file.typeKey? with
  | none => rfl
  | some old =>
      dsimp only
      split
      · split
        · rfl
        · split
          · rfl
          · refine ((internString new).bind fun string => get fun file classDefs => ?_) file classDefs
            dsimp only
            cases file.types.rekey id old new <;> rfl
      · rfl

end IgnoresClasses
end DexArsc.Dex.DexFile

namespace DexArsc.Dex

/-- A kind of item that is found by its key. -/
inductive Pooled
  | string
  | type
  | typeList
  | proto
  | field
  | method

namespace Pooled

/-- What an item of a kind is found by. -/
def Key : Pooled → Type
  | string => String
  | type => String
  | typeList => List String
  | proto => Prototype
  | field => FieldKey
  | method => MethodKey

/-- The items of a kind. -/
def Item : Pooled → Type
  | string => StringItem
  | type => TypeItem
  | typeList => TypeList
  | proto => ProtoItem
  | field => FieldItem
  | method => MethodItem

/-- The section of a kind in a file. -/
def items (file : DexFile) : (kind : Pooled) → Section kind.Item
  | string => file.strings.items
  | type => file.types.items
  | typeList => file.typeLists
  | proto => file.protos.items
  | field => file.fields.items
  | method => file.methods.items

/-- The key of an item: the text of a string, and for all others what their references lead to. -/
def key? (file : DexFile) : (kind : Pooled) → kind.Item → Option kind.Key
  | string => fun item : StringItem => item.value.text?
  | type => file.typeKey?
  | typeList => fun list : TypeList => list.types.mapM file.descriptorOf?
  | proto => file.protoKey?
  | field => file.fieldKey?
  | method => file.methodKey?

/-- The key of the item with an id. -/
def keyOf? (file : DexFile) (kind : Pooled) (id : Id kind.Item) : Option kind.Key :=
  (kind.items file).keyOf? (kind.key? file) id

/-- The grammar of keys. -/
def check : (kind : Pooled) → kind.Key → Except Fault Unit
  | string => fun _ => .ok ()
  | type => checkTypeDescriptor
  | typeList => fun descriptors : List String => descriptors.forM fun text => checkTypeDescriptor text
  | proto => Prototype.check
  | field => FieldKey.check
  | method => fun key : MethodKey => do
    key.checkNames
    key.prototype.check

/-- The item with a key, or else a new one. -/
def intern : (kind : Pooled) → kind.Key → Step DexFile (Id kind.Item)
  | string => DexFile.internString
  | type => DexFile.internType
  | typeList => DexFile.internTypeList
  | proto => DexFile.internProto
  | field => DexFile.internField
  | method => DexFile.internMethod

/-- The key of an id in an outline. -/
def outlined? (outline : Outline) : (kind : Pooled) → Id kind.Item → Option kind.Key
  | string => outline.string
  | type => outline.descriptor?
  | typeList => fun id => (outline.list id).bind fun types => types.mapM outline.descriptor?
  | proto => outline.protoKey?
  | field => outline.fieldKey?
  | method => outline.methodKey?

variable {file final : DexFile}

theorem keyOf?_eq (complete : file.Complete) (kind : Pooled) :
    kind.keyOf? file = kind.outlined? file.outline := by
  cases kind with
  | string => rfl
  | type => exact complete.keyOf?_types
  | typeList => exact funext fun id => complete.parametersOf? (some id)
  | proto => exact complete.keyOf?_protos
  | field => exact complete.keyOf?_fields
  | method => exact complete.keyOf?_methods

/-- Every live item has a key that follows the grammar. -/
theorem keyOf?_of_live (sound : file.Sound) {kind : Pooled} {id : Id kind.Item}
    (live : ((kind.items file).item? id).isSome) :
    ∃ key, kind.keyOf? file id = some key ∧ kind.check key = .ok () := by
  obtain ⟨item, found⟩ := Option.isSome_iff_exists.1 live
  rw [keyOf?, Section.keyOf?_of_item? found]
  have keyed := sound.wellKeyed
  cases kind with
  | string => exact (keyed.strings.keyed id item found).imp fun text here => ⟨here.1, rfl⟩
  | type => exact keyed.types.keyed id item found
  | proto => exact keyed.protos.keyed id item found
  | field => exact keyed.fields.keyed id item found
  | method =>
      obtain ⟨key, here, names, prototype⟩ := keyed.methods.keyed id item found
      exact ⟨key, here, Except.check_eq_ok.2 ⟨names, prototype⟩⟩
  | typeList =>
      obtain ⟨types, named⟩ := Option.isSome_iff_exists.1 (sound.complete.lists id item found)
      have listed : file.outline.list id = some types := (Section.keyOf?_of_item? found _).trans named
      obtain ⟨texts, here, grammar⟩ := sound.outline.descriptors? listed
      have keyed : typeList.keyOf? file id = some texts := by
        rw [keyOf?_eq sound.complete]
        exact Option.bind_eq_some_iff.2 ⟨types, listed, here⟩
      exact ⟨texts, (Section.keyOf?_of_item? found _).symm.trans keyed,
        forM_eq_ok.2 fun text inside => checkTypeDescriptor_eq_ok.2 (grammar text inside)⟩

/-- The keys of an outline are those of an outline that it grows to. -/
theorem within_outlined? {outline grown : Outline} (extended : outline.Extends grown) (kind : Pooled) :
    Within (kind.outlined? outline) (kind.outlined? grown) := by
  cases kind with
  | string => exact extended.string
  | type => exact extended.descriptor?
  | typeList => exact extended.list.bind extended.descriptor?.mapM
  | proto => exact extended.protoKey?
  | field => exact extended.fieldKey?
  | method => exact extended.methodKey?

theorem ignoresClasses (kind : Pooled) (key : kind.Key) : DexFile.IgnoresClasses (kind.intern key) := by
  cases kind with
  | string => exact .internString key
  | type => exact .internType key
  | typeList => exact .internTypeList key
  | proto => exact .internProto key
  | field => exact .internField key
  | method => exact .internMethod key

/-- What interning yields is an item with the key. -/
theorem interns (sound : file.Sound) (kind : Pooled) (key : kind.Key) :
    DexFile.Interns (kind.intern key) file fun id outline => kind.outlined? outline id = some key := by
  cases kind with
  | string => exact sound.internString key
  | type => exact sound.internType key
  | typeList =>
      exact (sound.internTypeList key).imp fun id outline ⟨types, listed, named⟩ =>
        Option.bind_eq_some_iff.2 ⟨types, listed, named⟩
  | proto => exact sound.internProto key
  | field => exact sound.internField key
  | method => exact sound.internMethod key

end Pooled
end DexArsc.Dex
