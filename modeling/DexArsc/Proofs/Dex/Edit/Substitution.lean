/-
What renaming does to keys: a text takes the place of another one in all of them, and every item keeps its
id and its index. A rename that fails leaves all items as they are.
-/

import DexArsc.Proofs.Dex.Edit.Append
import DexArsc.Proofs.Dex.Edit.Run

namespace DexArsc.Dex

/-- One text in the place of another one. -/
def substitute (old new text : String) : String :=
  if text = old then new else text

variable {old new : String}

theorem substitute_self (old new : String) : substitute old new old = new :=
  if_pos rfl

theorem substitute_of_ne {text : String} (different : text ≠ old) : substitute old new text = text :=
  if_neg different

theorem substitute_substitute (text : String) :
    substitute old new (substitute old new text) = substitute old new text := by
  by_cases same : text = old
  · rw [same, substitute_self]
    by_cases again : new = old
    · rw [again, substitute_self]
    · exact substitute_of_ne again
  · rw [substitute_of_ne same, substitute_of_ne same]

/-- Images of a list whose elements have changed values. -/
theorem mapM_map_of_each {α β γ : Type} {first : α → Option β} {second : α → Option γ} {change : β → γ}
    (each : ∀ argument value, first argument = some value → second argument = some (change value))
    {arguments : List α} {values : List β} (found : arguments.mapM first = some values) :
    arguments.mapM second = some (values.map change) :=
  mapM_eq_some.2 (List.forall₂_map_right_iff.2 ((mapM_eq_some.1 found).imp each))

variable {names types : String → String}

/-- A prototype of other types. -/
def Prototype.recast (types : String → String) (key : Prototype) : Prototype :=
  { returnType := types key.returnType, parameters := key.parameters.map types }

/-- A field with another name and of other types. -/
def FieldKey.recast (names types : String → String) (key : FieldKey) : FieldKey :=
  { owner := types key.owner, name := names key.name, type := types key.type }

/-- A method with another name and of other types. -/
def MethodKey.recast (names types : String → String) (key : MethodKey) : MethodKey :=
  { owner := types key.owner, name := names key.name, prototype := key.prototype.recast types }

namespace Pooled

/-- A key with other names and types. -/
def recast (names types : String → String) : (kind : Pooled) → kind.Key → kind.Key
  | string => names
  | type => types
  | typeList => List.map types
  | proto => Prototype.recast types
  | field => FieldKey.recast names types
  | method => MethodKey.recast names types

/-- What changes nothing more at its second time does so in keys. -/
theorem recast_recast (sameNames : ∀ text, names (names text) = names text)
    (sameTypes : ∀ text, types (types text) = types text) (kind : Pooled) (key : kind.Key) :
    kind.recast names types (kind.recast names types key) = kind.recast names types key := by
  have list (texts : List String) : (texts.map types).map types = texts.map types := by
    rw [List.map_map]
    exact List.map_congr_left fun text _ => sameTypes text
  have proto (key : Prototype) : (key.recast types).recast types = key.recast types := by
    simp only [Prototype.recast, sameTypes, list]
  have field (key : FieldKey) : (key.recast names types).recast names types = key.recast names types := by
    simp only [FieldKey.recast, sameNames, sameTypes]
  have method (key : MethodKey) : (key.recast names types).recast names types = key.recast names types := by
    simp only [MethodKey.recast, sameNames, sameTypes, proto]
  cases kind with
  | string => exact sameNames key
  | type => exact sameTypes key
  | typeList => exact list key
  | proto => exact proto key
  | field => exact field key
  | method => exact method key

end Pooled

namespace Outline

variable {outline final : Outline}

/-- The same items with other names and descriptors. -/
structure Recasts (outline : Outline) (names types : String → String) (final : Outline) : Prop where
  string : ∀ id text, outline.string id = some text → final.string id = some (names text)
  descriptor : ∀ id text, outline.descriptor? id = some text → final.descriptor? id = some (types text)
  list : final.list = outline.list
  proto : final.proto = outline.proto
  field : final.field = outline.field
  method : final.method = outline.method

namespace Recasts

variable (recasts : outline.Recasts names types final)
include recasts

theorem prototype? {parts : Id TypeItem × List (Id TypeItem)} {key : Prototype}
    (found : outline.prototype? parts = some key) : final.prototype? parts = some (key.recast types) := by
  simp only [Outline.prototype?, Option.bind_eq_some_iff, Option.map_eq_some_iff] at found ⊢
  obtain ⟨returnType, here, parameters, there, rfl⟩ := found
  exact ⟨_, recasts.descriptor _ _ here, _, mapM_map_of_each recasts.descriptor there, rfl⟩

theorem protoKey? {id : Id ProtoItem} {key : Prototype} (found : outline.protoKey? id = some key) :
    final.protoKey? id = some (key.recast types) := by
  obtain ⟨proto, here, there⟩ := Option.bind_eq_some_iff.1 found
  exact Option.bind_eq_some_iff.2 ⟨proto, recasts.proto ▸ here, recasts.prototype? there⟩

theorem fieldKey? {id : Id FieldItem} {key : FieldKey} (found : outline.fieldKey? id = some key) :
    final.fieldKey? id = some (key.recast names types) := by
  obtain ⟨field, here, there⟩ := Option.bind_eq_some_iff.1 found
  refine Option.bind_eq_some_iff.2 ⟨field, recasts.field ▸ here, ?_⟩
  simp only [memberField?, Option.bind_eq_some_iff, Option.map_eq_some_iff] at there ⊢
  obtain ⟨owner, owned, name, named, type, typed, rfl⟩ := there
  exact ⟨_, recasts.descriptor _ _ owned, _, recasts.string _ _ named, _, recasts.descriptor _ _ typed, rfl⟩

theorem methodKey? {id : Id MethodItem} {key : MethodKey} (found : outline.methodKey? id = some key) :
    final.methodKey? id = some (key.recast names types) := by
  obtain ⟨method, here, there⟩ := Option.bind_eq_some_iff.1 found
  refine Option.bind_eq_some_iff.2 ⟨method, recasts.method ▸ here, ?_⟩
  simp only [memberMethod?, Option.bind_eq_some_iff, Option.map_eq_some_iff] at there ⊢
  obtain ⟨owner, owned, name, named, prototype, shaped, rfl⟩ := there
  exact ⟨_, recasts.descriptor _ _ owned, _, recasts.string _ _ named, _, recasts.protoKey? shaped, rfl⟩

/-- Every key is recast. -/
theorem outlined? {kind : Pooled} {id : Id kind.Item} {key : kind.Key}
    (found : kind.outlined? outline id = some key) :
    kind.outlined? final id = some (kind.recast names types key) := by
  cases kind with
  | string => exact recasts.string id key found
  | type => exact recasts.descriptor id key found
  | typeList =>
      obtain ⟨list, here, there⟩ := Option.bind_eq_some_iff.1 found
      exact Option.bind_eq_some_iff.2 ⟨list, recasts.list ▸ here, mapM_map_of_each recasts.descriptor there⟩
  | proto => exact recasts.protoKey? found
  | field => exact recasts.fieldKey? found
  | method => exact recasts.methodKey? found

end Recasts

/-- A string that receives another text is recast wherever it stands. -/
theorem Renames.recasts (distinct : outline.Distinct) {id : Id StringItem} (found : outline.string id = some old)
    (renames : outline.Renames id new final) :
    outline.Recasts (substitute old new) (substitute old new) final := by
  have string (other : Id StringItem) (text : String) (here : outline.string other = some text) :
      final.string other = some (substitute old new text) := by
    rw [renames.string]
    split
    · rename_i same
      rw [same, found, Option.some.injEq] at here
      rw [← here, substitute_self]
    · rename_i apart
      rw [here, substitute_of_ne]
      rintro rfl
      exact apart (distinct.strings _ _ _ here found)
  have same := renames.final_eq
  refine {
    string
    descriptor := fun type text here => ?_
    list := by rw [same]
    proto := by rw [same]
    field := by rw [same]
    method := by rw [same] }
  obtain ⟨name, typed, here⟩ := Option.bind_eq_some_iff.1 here
  exact Option.bind_eq_some_iff.2 ⟨name, by rwa [same], string name text here⟩

/-- A type that receives another descriptor is recast wherever it stands. -/
theorem Retypes.recasts (distinct : outline.Distinct) {id : Id TypeItem} (found : outline.descriptor? id = some old)
    (retypes : outline.Retypes id new final) : outline.Recasts (fun text => text) (substitute old new) final := by
  obtain ⟨_, name, _, named, _, _, _, rfl⟩ := retypes.name
  refine {
    string := fun _ _ here => here
    descriptor := fun type text here => ?_
    list := rfl
    proto := rfl
    field := rfl
    method := rfl }
  change (Function.update outline.type id (some name) type).bind outline.string = _
  by_cases same : type = id
  · rw [same, found, Option.some.injEq] at here
    rw [same, Function.update_self, ← here, substitute_self]
    exact named
  · rw [Function.update_of_ne same, substitute_of_ne]
    · exact here
    · rintro rfl
      exact same (distinct.separates_descriptor? _ _ _ here found)

end Outline

namespace DexFile

variable {file between final : DexFile}

/-- Every item has its id, its index and the recast of its key. Only strings may be new. -/
structure Recasts (file : DexFile) (names types : String → String) (final : DexFile) : Prop where
  keys : ∀ (kind : Pooled) id key, kind.keyOf? file id = some key →
    kind.keyOf? final id = some (kind.recast names types key)
  strings : Within file.strings.items.indexOf? final.strings.items.indexOf?
  index : ∀ kind : Pooled, kind ≠ .string → (kind.items final).indexOf? = (kind.items file).indexOf?
  others : final = { file with
    strings := final.strings
    types := final.types
    protos := { final.protos with items := file.protos.items }
    fields := { final.fields with items := file.fields.items }
    methods := { final.methods with items := file.methods.items } }

/-- What a rename does: it recasts all keys when the new text is another one, and nothing otherwise. -/
structure Turns (file : DexFile) (names types : String → String) (old new : String) (final : DexFile) : Prop where
  same : old = new → file.SameItems final
  recasts : old ≠ new → file.Recasts names types final

/-- Key maps do not count. -/
theorem Recasts.of_sameItems {names types : String → String} (sound : file.Sound) (kept : between.Sound)
    (same : file.SameItems between) (recasts : between.Recasts names types final) :
    file.Recasts names types final where
  keys kind id key found := by
    rw [Pooled.keyOf?_eq sound.complete, ← same.outline, ← Pooled.keyOf?_eq kept.complete] at found
    exact recasts.keys kind id key found
  strings := same.strings ▸ recasts.strings
  index kind other := kind.items_of_sameItems same ▸ recasts.index kind other
  others := by
    have others := recasts.others
    rw [same.protos, same.fields, same.methods, same.others] at others
    exact others

theorem Sound.recasts_withText (sound : file.Sound) (fresh : file.Fresh) {id : Id StringItem} {old text : String}
    (found : file.outline.string id = some old) (different : old ≠ text)
    (roles : file.checkRole id old text = .ok ()) {strings : Pool StringData StringItem}
    (run : file.strings.rekey id (.decoded old) (.decoded text) = .ok strings) :
    file.Recasts (substitute old text) (substitute old text) (file.withText strings id text) ∧
      (file.withText strings id text).strings.items.indexOf? = file.strings.items.indexOf? := by
  obtain ⟨kept, _, renames⟩ := sound.withText fresh found different roles run
  have items := (sound.stringKeys.rekey fresh.strings (Outline.value?_eq_some.2 found) (by simpa using different)
    run).1
  have places : (file.withText strings id text).strings.items.indexOf? = file.strings.items.indexOf? := by
    funext other
    change (strings.items.modify id _).indexOf? other = _
    rw [Section.indexOf?_modify, items]
  refine ⟨{
    keys := fun kind other key here => ?_
    strings := by
      rw [places]
      exact .refl _
    index := fun kind other => by cases kind <;> first | rfl | exact absurd rfl other
    others := rfl }, places⟩
  rw [Pooled.keyOf?_eq sound.complete] at here
  rw [Pooled.keyOf?_eq kept.complete]
  exact (renames.recasts sound.outline.distinct found).outlined? here

/-- Where renaming a string ends: in all keys the new text stands for the old one, or nothing is changed. -/
theorem Sound.recasts_renameString (sound : file.Sound) (id : Id StringItem) (text : String) :
    (DexFile.renameString id text).Ensures file
      (fun _ final => final.Sound ∧ ∃ old, file.outline.string id = some old ∧
        file.Turns (substitute old text) (substitute old text) old text final ∧
        final.strings.items.indexOf? = file.strings.items.indexOf?)
      fun final => final.Sound ∧ file.SameItems final := by
  obtain ⟨between, run, same, fresh, kept⟩ := sound.rebuildKeys
  unfold DexFile.renameString Step.Ensures
  rw [Step.bind_ok run, Step.bind_ok (Step.get_apply between)]
  cases found : between.strings.items.item? id with
  | none => exact ⟨kept, same⟩
  | some item =>
      obtain ⟨old, value⟩ := kept.complete.decoded found
      have named : between.outline.string id = some old := by
        rw [show between.outline.string id = item.value.text? from Section.keyOf?_of_item? found _, value]
        rfl
      have told : file.outline.string id = some old := same.outline ▸ named
      simp only [value]
      by_cases different : StringData.decoded old ≠ .decoded text
      · rw [if_pos different]
        have different : old ≠ text := by simpa using different
        refine Step.Ensures.check ⟨kept, same⟩ fun _ roles => Step.Ensures.check ⟨kept, same⟩ fun strings rekeyed => ?_
        obtain ⟨recasts, places⟩ := kept.recasts_withText fresh named different roles rekeyed
        exact ⟨(kept.withText fresh named different roles rekeyed).1, old, told,
          ⟨fun equal => absurd equal different, fun _ => recasts.of_sameItems sound kept same⟩,
          same.strings ▸ places⟩
      · rw [if_neg different]
        exact ⟨kept, old, told, ⟨fun _ => same, fun other => absurd (by simpa using other) different⟩,
          same.strings ▸ rfl⟩

theorem Sound.recasts_withDescriptor (sound : file.Sound) (fresh : file.Fresh) {id : Id TypeItem}
    {old new : String} {name : Id StringItem} (found : file.outline.descriptor? id = some old)
    (different : old ≠ new) (letter : shortyChar old = shortyChar new)
    (grammar : isTypeDescriptor new) (named : file.outline.string name = some new)
    {types : Pool String TypeItem} (run : file.types.rekey id old new = .ok types) :
    file.Recasts (fun text => text) (substitute old new) (file.withDescriptor types id name) := by
  obtain ⟨kept, _, retypes⟩ := sound.withDescriptor fresh found different letter grammar named run
  have places : (file.withDescriptor types id name).types.items.indexOf? = file.types.items.indexOf? := by
    funext other
    change (types.items.modify id _).indexOf? other = _
    rw [Section.indexOf?_modify, (sound.typeKeys.rekey fresh.types found different run).1]
  refine {
    keys := fun kind other key here => ?_
    strings := .refl _
    index := fun kind other => ?_
    others := rfl }
  · rw [Pooled.keyOf?_eq sound.complete] at here
    rw [Pooled.keyOf?_eq kept.complete]
    exact (retypes.recasts sound.outline.distinct found).outlined? here
  · cases kind with
    | string => exact absurd rfl other
    | type => exact places
    | _ => rfl

/-- A text in a file with fresh key maps is there, or it is one new string. -/
theorem internString_of_fresh (fresh : file.Fresh) (text : String) : ∃ name strings,
    internString text file = .ok name { file with strings } ∧
      Within file.strings.items.indexOf? strings.items.indexOf? := by
  have run := internItem_apply DexFile.strings (fun strings file => { file with strings }) (StringData.decoded text)
    { value := .decoded text } (fun _ _ => rfl) rfl fresh.strings
  unfold internString
  rw [Step.bind_ok (rebuildKeys_of_fresh fresh)]
  cases known : file.strings.keys[StringData.decoded text]? with
  | some id =>
      rw [known] at run
      exact ⟨id, file.strings, run, .refl _⟩
  | none =>
      rw [known] at run
      exact ⟨_, _, run, (Section.Appends.push ..).index⟩

/-- More strings, of which keys are built on the same ones. -/
theorem Recasts.of_strings {names types : String → String} {strings : Pool StringData StringItem}
    (sound : file.Sound) (kept : DexFile.Sound { file with strings })
    (within : file.outline.Extends (DexFile.outline { file with strings }))
    (places : Within file.strings.items.indexOf? strings.items.indexOf?)
    (recasts : DexFile.Recasts { file with strings } names types final) : file.Recasts names types final where
  keys kind id key found := by
    rw [Pooled.keyOf?_eq sound.complete] at found
    refine recasts.keys kind id key ?_
    rw [Pooled.keyOf?_eq kept.complete]
    exact Pooled.within_outlined? within kind id key found
  strings := places.trans recasts.strings
  index kind other := by
    refine (recasts.index kind other).trans ?_
    cases kind <;> first | rfl | exact absurd rfl other
  others := recasts.others

/-- A descriptor that no type has yet replaces the one of a type, behind the string for it. -/
theorem Sound.recasts_newDescriptor (sound : file.Sound) (fresh : file.Fresh) {id : Id TypeItem} {old new : String}
    (found : file.outline.descriptor? id = some old) (different : old ≠ new)
    (letter : shortyChar old = shortyChar new) (grammar : isTypeDescriptor new)
    (free : file.types.keys[new]? = none) :
    ∃ name between types, DexFile.internString new file = .ok name between ∧
      between.types.rekey id old new = .ok types ∧ (between.withDescriptor types id name).Sound ∧
      file.Recasts (fun text => text) (substitute old new) (between.withDescriptor types id name) := by
  obtain ⟨name, strings, named, places⟩ := internString_of_fresh fresh new
  obtain ⟨grown, text⟩ := (sound.internString new).ok named
  have later := grown.fresh fresh
  have reached := grown.grows.outline.descriptor? _ _ found
  obtain ⟨types, rekeyed⟩ : ∃ types, file.types.rekey id old new = .ok types := by
    rw [Pool.rekey, free]
    exact ⟨_, rfl⟩
  obtain ⟨last, _⟩ := grown.sound.withDescriptor later reached different letter grammar text rekeyed
  have recasts := grown.sound.recasts_withDescriptor later reached different letter grammar text rekeyed
  exact ⟨name, _, types, named, rekeyed, last, recasts.of_strings sound grown.sound grown.grows.outline places⟩

/-- Where renaming a type ends: in all keys the new descriptor stands for the old one, or nothing is changed. -/
theorem Sound.recasts_renameType (sound : file.Sound) (id : Id TypeItem) (new : String) :
    (DexFile.renameType id new).Ensures file
      (fun _ final => final.Sound ∧ ∃ old, file.outline.descriptor? id = some old ∧
        file.Turns (fun text => text) (substitute old new) old new final)
      fun final => final.Sound ∧ file.SameItems final := by
  unfold DexFile.renameType
  refine Step.Ensures.check ⟨sound, .refl file⟩ fun _ passed => ?_
  have grammar := checkTypeDescriptor_eq_ok.1 passed
  obtain ⟨between, run, same, fresh, kept⟩ := sound.rebuildKeys
  unfold Step.Ensures
  rw [Step.bind_ok run, Step.bind_ok (Step.get_apply between)]
  rw [show (between.types.items.item? id).bind between.typeKey? = between.outline.descriptor? id from
    congrFun kept.complete.keyOf?_types id, same.outline]
  cases told : file.outline.descriptor? id with
  | none => exact ⟨kept, same⟩
  | some old =>
      have found : between.outline.descriptor? id = some old := same.outline ▸ told
      simp only
      change Step.Ensures _ between _ _
      have refused {next : Unit → Step DexFile Unit} {done : Unit → DexFile → Prop} (cause : Cause) :
          (fail cause >>= next).Ensures between done fun final => final.Sound ∧ file.SameItems final :=
        .of_error rfl ⟨kept, same⟩
      by_cases different : old = new
      · simp only [different, ne_eq, not_true_eq_false, if_false]
        exact .of_ok rfl ⟨kept, new, rfl, fun _ => same, fun other => absurd rfl other⟩
      by_cases letter : shortyChar old = shortyChar new
      · cases taken : between.types.find? new with
        | some other =>
            simp only [different, letter, ne_eq, not_false_eq_true, not_true_eq_false, if_true, if_false,
              Option.isSome_some]
            exact refused _
        | none =>
            simp only [different, letter, ne_eq, not_false_eq_true, not_true_eq_false, if_true, if_false,
              Option.isSome_none, Bool.false_eq_true]
            have free : between.types.keys[new]? = none := by
              rwa [Pool.find?, fresh.types] at taken
            obtain ⟨name, grown, types, named, rekeyed, last, recasts⟩ :=
              kept.recasts_newDescriptor fresh found different letter grammar free
            unfold Step.Ensures
            rw [Step.bind_ok named, Step.bind_ok (Step.get_apply _), rekeyed]
            exact ⟨last, old, rfl, fun equal => absurd equal different, fun _ => recasts.of_sameItems sound kept same⟩
      · simp only [different, letter, ne_eq, not_false_eq_true, if_true]
        exact refused _

end DexFile
end DexArsc.Dex
