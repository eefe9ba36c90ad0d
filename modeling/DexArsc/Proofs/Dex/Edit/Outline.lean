/-
Outlines: the texts of strings and, for every other id, the items that its key is built on. The
keys of a file are read off its outline, and a step on a file is a small change of the outline.
-/

import DexArsc.Dex.File.Keys
import DexArsc.Proofs.Dex.Key
import DexArsc.Proofs.Paired
import Mathlib.Logic.Function.Basic

namespace DexArsc.Dex

/-- Different arguments have different values, as far as they have any. -/
def Separates {α β : Type} (value? : α → Option β) : Prop :=
  ∀ first second value, value? first = some value → value? second = some value → first = second

namespace Separates

variable {α β γ : Type}

theorem bind {first : α → Option β} {second : β → Option γ} (separates : Separates first)
    (behind : Separates second) : Separates fun argument => (first argument).bind second := by
  intro a b value atA atB
  obtain ⟨x, hereA, thereA⟩ := Option.bind_eq_some_iff.1 atA
  obtain ⟨y, hereB, thereB⟩ := Option.bind_eq_some_iff.1 atB
  obtain rfl := behind x y value thereA thereB
  exact separates a b x hereA hereB

/-- A value that no argument has yet. -/
theorem update [DecidableEq α] {value? : α → Option β} (separates : Separates value?)
    (argument : α) {value : β} (new : ∀ other, value? other ≠ some value) :
    Separates (Function.update value? argument (some value)) := by
  intro a b result atA atB
  rw [Function.update_apply] at atA atB
  by_cases first : a = argument <;> by_cases second : b = argument
  · rw [first, second]
  · rw [if_pos first] at atA
    rw [if_neg second, ← atA] at atB
    exact absurd atB (new b)
  · rw [if_pos second] at atB
    rw [if_neg first, ← atB] at atA
    exact absurd atA (new a)
  · rw [if_neg first] at atA
    rw [if_neg second] at atB
    exact separates a b result atA atB

/-- An argument loses its value. -/
theorem erase [DecidableEq α] {value? : α → Option β} (separates : Separates value?)
    (argument : α) : Separates (Function.update value? argument none) := by
  intro a b result atA atB
  rw [Function.update_apply] at atA atB
  split at atA
  · cases atA
  · split at atB
    · cases atB
    · exact separates a b result atA atB

theorem mapM {value? : α → Option β} (separates : Separates value?) :
    Separates fun arguments : List α => arguments.mapM value? := by
  intro first second values atFirst atSecond
  have unique : Relator.LeftUnique fun argument value => value? argument = some value :=
    fun _ _ _ here there => separates _ _ _ here there
  exact List.left_unique_forall₂' unique (mapM_eq_some.1 atFirst) (mapM_eq_some.1 atSecond)

end Separates

/-- A list whose values all have images with a property. -/
theorem mapM_of_each {α β : Type} {property : β → Prop} {image? : α → Option β} {values : List α}
    (each : ∀ value ∈ values, ∃ image, image? value = some image ∧ property image) :
    ∃ images, values.mapM image? = some images ∧ ∀ image ∈ images, property image := by
  induction values with
  | nil => exact ⟨[], rfl, by simp⟩
  | cons value rest ih =>
      obtain ⟨image, here, holds⟩ := each value List.mem_cons_self
      obtain ⟨images, there, hold⟩ := ih fun other inside => each other (List.mem_cons_of_mem _ inside)
      exact ⟨image :: images, by simp [here, there], List.forall_mem_cons.2 ⟨holds, hold⟩⟩

/-- What a prototype is built on. -/
structure ProtoOutline where
  shorty : Id StringItem
  returnType : Id TypeItem
  parameters : List (Id TypeItem)

/-- What a field is built on. -/
structure FieldOutline where
  owner : Id TypeItem
  type : Id TypeItem
  name : Id StringItem

/-- What a method is built on. -/
structure MethodOutline where
  owner : Id TypeItem
  proto : Id ProtoItem
  name : Id StringItem

/-- The texts of strings and what the other ids are built on. -/
structure Outline where
  string : Id StringItem → Option String
  type : Id TypeItem → Option (Id StringItem)
  list : Id TypeList → Option (List (Id TypeItem))
  proto : Id ProtoItem → Option ProtoOutline
  field : Id FieldItem → Option FieldOutline
  method : Id MethodItem → Option MethodOutline
  /-- The type that a class definition defines. -/
  defined : Id ClassDef → Option (Id TypeItem)

/-- The return type and the parameters, which tell prototypes apart. -/
def ProtoOutline.types (proto : ProtoOutline) : Id TypeItem × List (Id TypeItem) :=
  (proto.returnType, proto.parameters)

namespace Outline

/-- The value of a string. -/
def value? (outline : Outline) (id : Id StringItem) : Option StringData :=
  (outline.string id).map .decoded

theorem value?_eq_some {outline : Outline} {id : Id StringItem} {text : String} :
    outline.value? id = some (.decoded text) ↔ outline.string id = some text := by
  simp [value?]

/-- The descriptor of a type. -/
def descriptor? (outline : Outline) (id : Id TypeItem) : Option String :=
  (outline.type id).bind outline.string

/-- The key of return and parameter types. -/
def prototype? (outline : Outline) (types : Id TypeItem × List (Id TypeItem)) : Option Prototype :=
  (outline.descriptor? types.1).bind fun returnType =>
    (types.2.mapM outline.descriptor?).map fun parameters => { returnType, parameters }

/-- The key of a prototype. -/
def protoKey? (outline : Outline) (id : Id ProtoItem) : Option Prototype :=
  (outline.proto id).bind fun proto => outline.prototype? proto.types

/-- The key of a field's parts. -/
def memberField? (outline : Outline) (field : FieldOutline) : Option FieldKey :=
  (outline.descriptor? field.owner).bind fun owner => (outline.string field.name).bind fun name =>
    (outline.descriptor? field.type).map fun type => { owner, name, type }

/-- The key of a field. -/
def fieldKey? (outline : Outline) (id : Id FieldItem) : Option FieldKey :=
  (outline.field id).bind outline.memberField?

/-- The key of a method's parts. -/
def memberMethod? (outline : Outline) (method : MethodOutline) : Option MethodKey :=
  (outline.descriptor? method.owner).bind fun owner => (outline.string method.name).bind fun name =>
    (outline.protoKey? method.proto).map fun prototype => { owner, name, prototype }

/-- The key of a method. -/
def methodKey? (outline : Outline) (id : Id MethodItem) : Option MethodKey :=
  (outline.method id).bind outline.memberMethod?

/-- The descriptor of the type that a class definition defines. -/
def className? (outline : Outline) (id : Id ClassDef) : Option String :=
  (outline.defined id).bind outline.descriptor?

/-- A type rests on a string that is a descriptor. -/
def FitsType (outline : Outline) (name : Id StringItem) : Prop :=
  ∃ text, outline.string name = some text ∧ isTypeDescriptor text

/-- A list rests on types. -/
def FitsList (outline : Outline) (types : List (Id TypeItem)) : Prop :=
  ∀ type ∈ types, (outline.descriptor? type).isSome

/-- A prototype rests on a shorty, a return type and parameter types that have values. -/
structure FitsProto (outline : Outline) (proto : ProtoOutline) : Prop where
  shorty : (outline.string proto.shorty).isSome
  returnType : (outline.descriptor? proto.returnType).isSome
  parameters : ∀ type ∈ proto.parameters, ∃ text, outline.descriptor? type = some text ∧ text ≠ "V"

/-- A field rests on a class, on a type that has values and on a member name. -/
structure FitsField (outline : Outline) (field : FieldOutline) : Prop where
  owner : (outline.descriptor? field.owner).isSome
  type : ∃ text, outline.descriptor? field.type = some text ∧ text ≠ "V"
  name : ∃ text, outline.string field.name = some text ∧ isMemberName text

/-- A method rests on a class, on a prototype and on a member name. -/
structure FitsMethod (outline : Outline) (method : MethodOutline) : Prop where
  owner : (outline.descriptor? method.owner).isSome
  proto : (outline.proto method.proto).isSome
  name : ∃ text, outline.string method.name = some text ∧ isMemberName text

/-- Different ids are built on different parts. -/
structure Distinct (outline : Outline) : Prop where
  strings : Separates outline.string
  types : Separates outline.type
  protos : Separates fun id => (outline.proto id).map ProtoOutline.types
  fields : Separates outline.field
  methods : Separates outline.method
  classes : Separates outline.defined

/-- Different ids are built on different parts, and every id on parts that fit. -/
structure Sound (outline : Outline) : Prop where
  distinct : outline.Distinct
  types : ∀ id name, outline.type id = some name → outline.FitsType name
  lists : ∀ id types, outline.list id = some types → outline.FitsList types
  protos : ∀ id proto, outline.proto id = some proto → outline.FitsProto proto
  fields : ∀ id field, outline.field id = some field → outline.FitsField field
  methods : ∀ id method, outline.method id = some method → outline.FitsMethod method
  classes : ∀ id type, outline.defined id = some type → (outline.descriptor? type).isSome

variable {outline : Outline}

section Sound

variable (sound : outline.Sound)
include sound

theorem Sound.descriptor? {id : Id TypeItem} {name : Id StringItem}
    (found : outline.type id = some name) :
    ∃ text, outline.descriptor? id = some text ∧ isTypeDescriptor text := by
  obtain ⟨text, here, grammar⟩ := sound.types id name found
  exact ⟨text, by rw [Outline.descriptor?, found, Option.bind_some, here], grammar⟩

theorem Sound.grammar {id : Id TypeItem} {text : String}
    (found : outline.descriptor? id = some text) : isTypeDescriptor text := by
  obtain ⟨name, here, _⟩ := Option.bind_eq_some_iff.1 found
  obtain ⟨other, there, grammar⟩ := sound.descriptor? here
  rw [found, Option.some.injEq] at there
  rwa [there]

/-- The descriptors of the types of a list. -/
theorem Sound.descriptors? {id : Id TypeList} {types : List (Id TypeItem)}
    (found : outline.list id = some types) : ∃ texts, types.mapM outline.descriptor? = some texts ∧
      ∀ text ∈ texts, DexArsc.Dex.isTypeDescriptor text := by
  have each : ∀ type ∈ types, ∃ text, outline.descriptor? type = some text ∧
      DexArsc.Dex.isTypeDescriptor text := fun type inside => by
    obtain ⟨text, here⟩ := Option.isSome_iff_exists.1 (sound.lists id types found type inside)
    exact ⟨text, here, sound.grammar here⟩
  exact mapM_of_each each

/-- The key of return and parameter types that have descriptors. -/
theorem Sound.prototype? {types : Id TypeItem × List (Id TypeItem)}
    (returnType : (outline.descriptor? types.1).isSome)
    (parameters : ∀ type ∈ types.2, ∃ text, outline.descriptor? type = some text ∧ text ≠ "V") :
    ∃ key, outline.prototype? types = some key ∧ key.check = .ok () := by
  obtain ⟨text, here⟩ := Option.isSome_iff_exists.1 returnType
  have each : ∀ type ∈ types.2, ∃ text, outline.descriptor? type = some text ∧
      DexArsc.Dex.isTypeDescriptor text ∧ text ≠ "V" := fun type inside =>
    (parameters type inside).imp fun _ found => ⟨found.1, sound.grammar found.1, found.2⟩
  obtain ⟨texts, there, values⟩ := mapM_of_each each
  refine ⟨{ returnType := text, parameters := texts }, by simp [Outline.prototype?, here, there], ?_⟩
  exact Prototype.check_eq_ok.2 ⟨sound.grammar here, values⟩

theorem Sound.protoKey? {id : Id ProtoItem} {proto : ProtoOutline}
    (found : outline.proto id = some proto) :
    ∃ key, outline.protoKey? id = some key ∧ key.check = .ok () := by
  have fits := sound.protos id proto found
  obtain ⟨key, here, grammar⟩ : ∃ key, outline.prototype? proto.types = some key ∧
      key.check = .ok () := sound.prototype? fits.returnType fits.parameters
  exact ⟨key, by rw [Outline.protoKey?, found, Option.bind_some, here], grammar⟩

theorem Sound.fieldKey? {id : Id FieldItem} {field : FieldOutline}
    (found : outline.field id = some field) :
    ∃ key, outline.fieldKey? id = some key ∧ key.check = .ok () := by
  have fits := sound.fields id field found
  obtain ⟨owner, hereOwner⟩ := Option.isSome_iff_exists.1 fits.owner
  obtain ⟨type, hereType, value⟩ := fits.type
  obtain ⟨name, hereName, grammar⟩ := fits.name
  refine ⟨{ owner, name, type }, by simp [Outline.fieldKey?, memberField?, *], ?_⟩
  exact FieldKey.check_eq_ok.2
    ⟨sound.grammar hereOwner, grammar, sound.grammar hereType, value⟩

theorem Sound.methodKey? {id : Id MethodItem} {method : MethodOutline}
    (found : outline.method id = some method) :
    ∃ key, outline.methodKey? id = some key ∧ key.checkNames = .ok () ∧ key.prototype.check = .ok () := by
  have fits := sound.methods id method found
  obtain ⟨owner, hereOwner⟩ := Option.isSome_iff_exists.1 fits.owner
  obtain ⟨proto, live⟩ := Option.isSome_iff_exists.1 fits.proto
  obtain ⟨prototype, hereProto, check⟩ := sound.protoKey? live
  obtain ⟨name, hereName, grammar⟩ := fits.name
  refine ⟨{ owner, name, prototype }, by simp [Outline.methodKey?, memberMethod?, *], ?_, check⟩
  exact MethodKey.checkNames_eq_ok.2 ⟨sound.grammar hereOwner, grammar⟩

theorem Sound.className? {id : Id ClassDef} {type : Id TypeItem}
    (found : outline.defined id = some type) :
    ∃ text, outline.className? id = some text ∧ DexArsc.Dex.isTypeDescriptor text := by
  obtain ⟨text, here⟩ := Option.isSome_iff_exists.1 (sound.classes id type found)
  exact ⟨text, by rw [Outline.className?, found, Option.bind_some, here], sound.grammar here⟩

end Sound

section Distinct

variable (distinct : outline.Distinct)
include distinct

theorem Distinct.separates_value? : Separates outline.value? := by
  intro first second value atFirst atSecond
  obtain ⟨text, here, rfl⟩ := Option.map_eq_some_iff.1 atFirst
  obtain ⟨other, there, same⟩ := Option.map_eq_some_iff.1 atSecond
  cases same
  exact distinct.strings first second text here there

theorem Distinct.separates_descriptor? : Separates outline.descriptor? :=
  distinct.types.bind distinct.strings

theorem Distinct.separates_prototype? : Separates outline.prototype? := by
  rintro ⟨returnA, typesA⟩ ⟨returnB, typesB⟩ key atA atB
  simp only [prototype?, Option.bind_eq_some_iff, Option.map_eq_some_iff] at atA atB
  obtain ⟨text, hereA, texts, thereA, rfl⟩ := atA
  obtain ⟨text', hereB, texts', thereB, same⟩ := atB
  cases same
  have separates := distinct.separates_descriptor?
  rw [separates _ _ _ hereA hereB, separates.mapM _ _ _ thereA thereB]

theorem Distinct.separates_protoKey? : Separates outline.protoKey? := by
  have both := distinct.protos.bind distinct.separates_prototype?
  simp only [Option.bind_map] at both
  exact both

theorem Distinct.separates_fieldKey? : Separates outline.fieldKey? := by
  refine distinct.fields.bind ?_
  rintro ⟨ownerA, typeA, nameA⟩ ⟨ownerB, typeB, nameB⟩ key atA atB
  simp only [memberField?, Option.bind_eq_some_iff, Option.map_eq_some_iff] at atA atB
  obtain ⟨owner, hereA, name, namedA, type, thereA, rfl⟩ := atA
  obtain ⟨owner', hereB, name', namedB, type', thereB, same⟩ := atB
  cases same
  have separates := distinct.separates_descriptor?
  rw [separates _ _ _ hereA hereB, separates _ _ _ thereA thereB,
    distinct.strings _ _ _ namedA namedB]

theorem Distinct.separates_methodKey? : Separates outline.methodKey? := by
  refine distinct.methods.bind ?_
  rintro ⟨ownerA, protoA, nameA⟩ ⟨ownerB, protoB, nameB⟩ key atA atB
  simp only [memberMethod?, Option.bind_eq_some_iff, Option.map_eq_some_iff] at atA atB
  obtain ⟨owner, hereA, name, namedA, proto, thereA, rfl⟩ := atA
  obtain ⟨owner', hereB, name', namedB, proto', thereB, same⟩ := atB
  cases same
  rw [distinct.separates_descriptor? _ _ _ hereA hereB,
    distinct.separates_protoKey? _ _ _ thereA thereB, distinct.strings _ _ _ namedA namedB]

theorem Distinct.separates_className? : Separates outline.className? :=
  distinct.classes.bind distinct.separates_descriptor?

end Distinct

end Outline
end DexArsc.Dex
