/-
How outlines grow: an edit adds one entry or removes one. An outline stays sound when each new
entry fits and differs from all others.
-/

import DexArsc.Proofs.Dex.Edit.Outline

namespace DexArsc.Dex

/-- Every value of one function is one of another, for the same argument. -/
def Within {α β : Type} (first second : α → Option β) : Prop :=
  ∀ argument value, first argument = some value → second argument = some value

namespace Within

variable {α β γ : Type} {first second third : α → Option β}

theorem refl (value? : α → Option β) : Within value? value? := fun _ _ found => found

theorem trans (before : Within first second) (behind : Within second third) : Within first third :=
  fun argument value found => behind argument value (before argument value found)

theorem isSome (within : Within first second) {argument : α} (some : (first argument).isSome) :
    (second argument).isSome := by
  obtain ⟨value, found⟩ := Option.isSome_iff_exists.1 some
  rw [within argument value found]
  rfl

/-- A function without new arguments is the same. -/
theorem eq (within : Within first second)
    (old : ∀ argument, (second argument).isSome → (first argument).isSome) : second = first := by
  funext argument
  cases here : first argument with
  | some value => exact within argument value here
  | none =>
      cases there : second argument with
      | none => rfl
      | some value =>
          have some := old argument (by rw [there]; rfl)
          rw [here] at some
          cases some

theorem bind {before behind : β → Option γ} (within : Within first second)
    (rest : Within before behind) :
    Within (fun argument => (first argument).bind before) fun argument =>
      (second argument).bind behind := by
  intro argument result found
  obtain ⟨value, here, there⟩ := Option.bind_eq_some_iff.1 found
  exact Option.bind_eq_some_iff.2 ⟨value, within argument value here, rest value result there⟩

theorem mapM (within : Within first second) :
    Within (fun arguments : List α => arguments.mapM first) fun arguments =>
      arguments.mapM second :=
  fun _ _ found => mapM_eq_some.2 ((mapM_eq_some.1 found).imp within)

/-- A value for an argument that has none. -/
theorem update [DecidableEq α] {argument : α} (none : first argument = none) (value : Option β) :
    Within first (Function.update first argument value) := by
  intro other result found
  rw [Function.update_apply, if_neg, found]
  rintro rfl
  rw [none] at found
  cases found

end Within

/-- An entry of an updated function is the new one or an old one. -/
theorem update_eq_some {α β : Type} [DecidableEq α] {value? : α → Option β} {argument other : α}
    {value result : β} (found : Function.update value? argument (some value) other = some result) :
    (other = argument ∧ result = value) ∨ value? other = some result := by
  rw [Function.update_apply] at found
  split at found
  · rename_i same
    exact .inl ⟨same, by rwa [Option.some.injEq, eq_comm] at found⟩
  · exact .inr found

namespace Outline

/-- Every entry of an outline is one of another outline. -/
structure Extends (outline final : Outline) : Prop where
  string : Within outline.string final.string
  type : Within outline.type final.type
  list : Within outline.list final.list
  proto : Within outline.proto final.proto
  field : Within outline.field final.field
  method : Within outline.method final.method
  defined : Within outline.defined final.defined

variable {outline final third : Outline}

namespace Extends

theorem refl (outline : Outline) : outline.Extends outline :=
  ⟨.refl _, .refl _, .refl _, .refl _, .refl _, .refl _, .refl _⟩

variable (extends' : outline.Extends final)
include extends'

theorem descriptor? : Within outline.descriptor? final.descriptor? :=
  extends'.type.bind extends'.string

theorem prototype? : Within outline.prototype? final.prototype? := by
  intro types key found
  simp only [Outline.prototype?, Option.bind_eq_some_iff, Option.map_eq_some_iff] at found ⊢
  obtain ⟨returnType, here, parameters, there, rfl⟩ := found
  exact ⟨returnType, extends'.descriptor? _ _ here, parameters,
    extends'.descriptor?.mapM _ _ there, rfl⟩

theorem protoKey? : Within outline.protoKey? final.protoKey? :=
  extends'.proto.bind fun proto => extends'.prototype? proto.types

theorem fieldKey? : Within outline.fieldKey? final.fieldKey? := by
  refine extends'.field.bind fun field key found => ?_
  simp only [memberField?, Option.bind_eq_some_iff, Option.map_eq_some_iff] at found ⊢
  obtain ⟨owner, hereOwner, name, hereName, type, hereType, rfl⟩ := found
  exact ⟨owner, extends'.descriptor? _ _ hereOwner, name, extends'.string _ _ hereName, type,
    extends'.descriptor? _ _ hereType, rfl⟩

theorem methodKey? : Within outline.methodKey? final.methodKey? := by
  refine extends'.method.bind fun method key found => ?_
  simp only [memberMethod?, Option.bind_eq_some_iff, Option.map_eq_some_iff] at found ⊢
  obtain ⟨owner, hereOwner, name, hereName, prototype, hereProto, rfl⟩ := found
  exact ⟨owner, extends'.descriptor? _ _ hereOwner, name, extends'.string _ _ hereName, prototype,
    extends'.protoKey? _ _ hereProto, rfl⟩

theorem fitsType {name : Id StringItem} (fits : outline.FitsType name) : final.FitsType name := by
  obtain ⟨text, found, grammar⟩ := fits
  exact ⟨text, extends'.string _ _ found, grammar⟩

theorem fitsList {types : List (Id TypeItem)} (fits : outline.FitsList types) :
    final.FitsList types :=
  fun type inside => extends'.descriptor?.isSome (fits type inside)

theorem fitsProto {proto : ProtoOutline} (fits : outline.FitsProto proto) :
    final.FitsProto proto where
  shorty := extends'.string.isSome fits.shorty
  returnType := extends'.descriptor?.isSome fits.returnType
  parameters type inside := by
    obtain ⟨text, found, value⟩ := fits.parameters type inside
    exact ⟨text, extends'.descriptor? _ _ found, value⟩

theorem fitsField {field : FieldOutline} (fits : outline.FitsField field) :
    final.FitsField field where
  owner := extends'.descriptor?.isSome fits.owner
  type := by
    obtain ⟨text, found, value⟩ := fits.type
    exact ⟨text, extends'.descriptor? _ _ found, value⟩
  name := by
    obtain ⟨text, found, grammar⟩ := fits.name
    exact ⟨text, extends'.string _ _ found, grammar⟩

theorem fitsMethod {method : MethodOutline} (fits : outline.FitsMethod method) :
    final.FitsMethod method where
  owner := extends'.descriptor?.isSome fits.owner
  proto := extends'.proto.isSome fits.proto
  name := by
    obtain ⟨text, found, grammar⟩ := fits.name
    exact ⟨text, extends'.string _ _ found, grammar⟩

end Extends

section Same

variable (sound : outline.Sound) (grows : outline.Extends final)
include sound grows

theorem Sound.descriptor?_eq (types : final.type = outline.type) :
    final.descriptor? = outline.descriptor? :=
  grows.descriptor?.eq fun id live => by
    obtain ⟨text, found⟩ := Option.isSome_iff_exists.1 live
    obtain ⟨name, here, _⟩ := Option.bind_eq_some_iff.1 found
    rw [types] at here
    obtain ⟨text, there, _⟩ := sound.descriptor? here
    rw [there]
    rfl

theorem Sound.protoKey?_eq (protos : final.proto = outline.proto) :
    final.protoKey? = outline.protoKey? :=
  grows.protoKey?.eq fun id live => by
    obtain ⟨key, found⟩ := Option.isSome_iff_exists.1 live
    obtain ⟨proto, here, _⟩ := Option.bind_eq_some_iff.1 found
    rw [protos] at here
    obtain ⟨key, there, _⟩ := sound.protoKey? here
    rw [there]
    rfl

theorem Sound.fieldKey?_eq (fields : final.field = outline.field) :
    final.fieldKey? = outline.fieldKey? :=
  grows.fieldKey?.eq fun id live => by
    obtain ⟨key, found⟩ := Option.isSome_iff_exists.1 live
    obtain ⟨field, here, _⟩ := Option.bind_eq_some_iff.1 found
    rw [fields] at here
    obtain ⟨key, there, _⟩ := sound.fieldKey? here
    rw [there]
    rfl

theorem Sound.methodKey?_eq (methods : final.method = outline.method) :
    final.methodKey? = outline.methodKey? :=
  grows.methodKey?.eq fun id live => by
    obtain ⟨key, found⟩ := Option.isSome_iff_exists.1 live
    obtain ⟨method, here, _⟩ := Option.bind_eq_some_iff.1 found
    rw [methods] at here
    obtain ⟨key, there, _⟩ := sound.methodKey? here
    rw [there]
    rfl

end Same

/-- The shorty of every prototype is the one of its key. -/
def Shorties (outline : Outline) : Prop :=
  ∀ id proto key, outline.proto id = some proto → outline.protoKey? id = some key →
    outline.string proto.shorty = some key.shorty

/-- A new prototype has to come with its shorty. -/
theorem Shorties.grow (shorties : outline.Shorties) (sound : outline.Sound)
    (grows : outline.Extends final)
    (new : ∀ id proto, final.proto id = some proto → outline.proto id = some proto ∨
      ∀ key, final.protoKey? id = some key → final.string proto.shorty = some key.shorty) :
    final.Shorties := by
  intro id proto key found keyed
  rcases new id proto found with old | fits
  · obtain ⟨other, here, _⟩ := sound.protoKey? old
    rw [grows.protoKey? _ _ here, Option.some.injEq] at keyed
    rw [← keyed]
    exact grows.string _ _ (shorties id proto other old here)
  · exact fits key keyed

/-- Every entry is one of another outline or fits. -/
structure Fitting (outline final : Outline) : Prop where
  types : ∀ id name, final.type id = some name → outline.type id = some name ∨ final.FitsType name := by
    exact fun _ _ found => .inl found
  lists : ∀ id types, final.list id = some types →
      outline.list id = some types ∨ final.FitsList types := by
    exact fun _ _ found => .inl found
  protos : ∀ id proto, final.proto id = some proto →
      outline.proto id = some proto ∨ final.FitsProto proto := by
    exact fun _ _ found => .inl found
  fields : ∀ id field, final.field id = some field →
      outline.field id = some field ∨ final.FitsField field := by
    exact fun _ _ found => .inl found
  methods : ∀ id method, final.method id = some method →
      outline.method id = some method ∨ final.FitsMethod method := by
    exact fun _ _ found => .inl found
  classes : ∀ id type, final.defined id = some type →
      outline.defined id = some type ∨ (final.descriptor? type).isSome := by
    exact fun _ _ found => .inl found

section Add

variable (sound : outline.Sound)
include sound

/-- An outline whose new entries fit is sound. -/
theorem Sound.grow (grows : outline.Extends final) (distinct : final.Distinct)
    (fitting : outline.Fitting final) : final.Sound where
  distinct := distinct
  types id name found := (fitting.types id name found).elim
    (fun old => grows.fitsType (sound.types id name old)) fun fits => fits
  lists id types found := (fitting.lists id types found).elim
    (fun old => grows.fitsList (sound.lists id types old)) fun fits => fits
  protos id proto found := (fitting.protos id proto found).elim
    (fun old => grows.fitsProto (sound.protos id proto old)) fun fits => fits
  fields id field found := (fitting.fields id field found).elim
    (fun old => grows.fitsField (sound.fields id field old)) fun fits => fits
  methods id method found := (fitting.methods id method found).elim
    (fun old => grows.fitsMethod (sound.methods id method old)) fun fits => fits
  classes id type found := (fitting.classes id type found).elim
    (fun old => grows.descriptor?.isSome (sound.classes id type old)) fun fits => fits

/-- A new string has a text that no other one has. -/
theorem Sound.addString {id : Id StringItem} (free : outline.string id = none) {text : String}
    (new : ∀ other, outline.string other ≠ some text) :
    Sound { outline with string := Function.update outline.string id (some text) } :=
  sound.grow { Extends.refl outline with string := .update free _ }
    { sound.distinct with strings := sound.distinct.strings.update id new } {}

/-- A new type has a descriptor of its own. -/
theorem Sound.addType {id : Id TypeItem} (free : outline.type id = none) {name : Id StringItem}
    (fits : outline.FitsType name) (new : ∀ other, outline.type other ≠ some name) :
    Sound { outline with type := Function.update outline.type id (some name) } := by
  refine sound.grow { Extends.refl outline with type := .update free _ }
    { sound.distinct with types := sound.distinct.types.update id new }
    { types := fun other name found => ?_ }
  exact (update_eq_some found).elim (fun new => .inr (new.2 ▸ fits)) .inl

/-- A new list names types. -/
theorem Sound.addList {id : Id TypeList} (free : outline.list id = none) {types : List (Id TypeItem)}
    (fits : outline.FitsList types) :
    Sound { outline with list := Function.update outline.list id (some types) } := by
  refine sound.grow { Extends.refl outline with list := .update free _ } { sound.distinct with }
    { lists := fun other list found => ?_ }
  exact (update_eq_some found).elim (fun new => .inr (new.2 ▸ fits)) .inl

/-- A new prototype has types that no other one has. -/
theorem Sound.addProto {id : Id ProtoItem} (free : outline.proto id = none) {proto : ProtoOutline}
    (fits : outline.FitsProto proto)
    (new : ∀ other, (outline.proto other).map ProtoOutline.types ≠ some proto.types) :
    Sound { outline with proto := Function.update outline.proto id (some proto) } := by
  have types : (fun other => (Function.update outline.proto id (some proto) other).map
      ProtoOutline.types) = Function.update (fun other => (outline.proto other).map ProtoOutline.types)
        id (some proto.types) := by
    funext other
    rw [Function.update_apply, Function.update_apply]
    split <;> rfl
  have protos := sound.distinct.protos.update id new
  rw [← types] at protos
  refine sound.grow { Extends.refl outline with proto := .update free _ }
    { sound.distinct with protos } { protos := fun other result found => ?_ }
  rcases update_eq_some found with ⟨_, rfl⟩ | old
  · exact .inr { fits with }
  · exact .inl old

/-- A new field has a class, a type and a name that no other one has. -/
theorem Sound.addField {id : Id FieldItem} (free : outline.field id = none) {field : FieldOutline}
    (fits : outline.FitsField field) (new : ∀ other, outline.field other ≠ some field) :
    Sound { outline with field := Function.update outline.field id (some field) } := by
  refine sound.grow { Extends.refl outline with field := .update free _ }
    { sound.distinct with fields := sound.distinct.fields.update id new }
    { fields := fun other result found => ?_ }
  rcases update_eq_some found with ⟨_, rfl⟩ | old
  · exact .inr { fits with }
  · exact .inl old

/-- A new method has a class, a prototype and a name that no other one has. -/
theorem Sound.addMethod {id : Id MethodItem} (free : outline.method id = none)
    {method : MethodOutline} (fits : outline.FitsMethod method)
    (new : ∀ other, outline.method other ≠ some method) :
    Sound { outline with method := Function.update outline.method id (some method) } := by
  refine sound.grow { Extends.refl outline with method := .update free _ }
    { sound.distinct with methods := sound.distinct.methods.update id new }
    { methods := fun other result found => ?_ }
  rcases update_eq_some found with ⟨_, rfl⟩ | old
  · exact .inr { fits with }
  · exact .inl old

/-- A new class definition defines a type that no other one defines. -/
theorem Sound.addClass {id : Id ClassDef} (free : outline.defined id = none) {type : Id TypeItem}
    (live : (outline.descriptor? type).isSome) (new : ∀ other, outline.defined other ≠ some type) :
    Sound { outline with defined := Function.update outline.defined id (some type) } := by
  refine sound.grow { Extends.refl outline with defined := .update free _ }
    { sound.distinct with classes := sound.distinct.classes.update id new }
    { classes := fun other result found => ?_ }
  exact (update_eq_some found).elim (fun new => .inr (new.2 ▸ live)) .inl

/-- A class definition is removed. -/
theorem Sound.removeClass (id : Id ClassDef) :
    Sound { outline with defined := Function.update outline.defined id none } where
  distinct := { sound.distinct with classes := sound.distinct.classes.erase id }
  types := sound.types
  lists := sound.lists
  protos id proto found := { sound.protos id proto found with }
  fields id field found := { sound.fields id field found with }
  methods id method found := { sound.methods id method found with }
  classes other type found := by
    simp only [Function.update_apply] at found
    split at found
    · cases found
    · exact sound.classes other type found

end Add

end Outline
end DexArsc.Dex
