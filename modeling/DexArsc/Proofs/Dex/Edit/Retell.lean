/-
How outlines are retold: a string receives another text or a type another string. An outline stays
sound when every descriptor keeps its letter in shorties, and every name its grammar.
-/

import DexArsc.Proofs.Dex.Edit.Growth

namespace DexArsc.Dex.Outline

variable {outline final : Outline}

/-- Every string stays, every type keeps a descriptor with the same letter in a shorty, and the
members stay as they are. -/
structure Retells (outline final : Outline) : Prop where
  string : ∀ id, (outline.string id).isSome → (final.string id).isSome
  descriptor : ∀ id old, outline.descriptor? id = some old →
    ∃ new, final.descriptor? id = some new ∧ shortyChar new = shortyChar old
  list : final.list = outline.list
  proto : final.proto = outline.proto
  field : final.field = outline.field
  method : final.method = outline.method
  defined : final.defined = outline.defined

theorem Retells.isSome_descriptor? (retells : outline.Retells final) {id : Id TypeItem}
    (live : (outline.descriptor? id).isSome) : (final.descriptor? id).isSome := by
  obtain ⟨old, found⟩ := Option.isSome_iff_exists.1 live
  obtain ⟨new, there, _⟩ := retells.descriptor id old found
  rw [there]
  rfl

/-- The key of a prototype keeps its shorty. -/
theorem Retells.protoKey? (retells : outline.Retells final) {id : Id ProtoItem} {old : Prototype}
    (found : outline.protoKey? id = some old) :
    ∃ new, final.protoKey? id = some new ∧ new.shorty = old.shorty := by
  have whole (types : List (Id TypeItem)) (texts : List String)
      (here : types.mapM outline.descriptor? = some texts) : ∃ others,
        types.mapM final.descriptor? = some others ∧ others.map shortyChar = texts.map shortyChar := by
    induction types generalizing texts with
    | nil =>
        cases here
        exact ⟨[], rfl, rfl⟩
    | cons type rest ih =>
        simp only [List.mapM_cons, Option.bind_eq_bind, Option.bind_eq_some_iff, Option.pure_def,
          Option.some.injEq] at here ⊢
        obtain ⟨text, first, more, behind, rfl⟩ := here
        obtain ⟨new, there, letter⟩ := retells.descriptor type text first
        obtain ⟨others, rest, letters⟩ := ih more behind
        exact ⟨new :: others, ⟨new, there, others, rest, rfl⟩, by simp [letter, letters]⟩
  obtain ⟨proto, here, keyed⟩ := Option.bind_eq_some_iff.1 found
  simp only [prototype?, Option.bind_eq_some_iff, Option.map_eq_some_iff] at keyed
  obtain ⟨returnType, returns, parameters, list, rfl⟩ := keyed
  obtain ⟨text, there, letter⟩ := retells.descriptor _ _ returns
  obtain ⟨texts, others, letters⟩ := whole _ _ list
  refine ⟨{ returnType := text, parameters := texts }, ?_, by simp [Prototype.shorty, letter, letters]⟩
  rw [Outline.protoKey?, retells.proto, here, Option.bind_some, prototype?, there, Option.bind_some,
    others]
  rfl

/-- Prototypes whose shorties keep their texts have the shorties of their keys as before. -/
theorem Retells.shorties_iff (retells : outline.Retells final) (sound : outline.Sound)
    (kept : ∀ id proto, outline.proto id = some proto →
      final.string proto.shorty = outline.string proto.shorty) :
    final.Shorties ↔ outline.Shorties := by
  constructor
  · intro shorties id proto key found keyed
    obtain ⟨new, there, same⟩ := retells.protoKey? keyed
    rw [← kept id proto found, ← same]
    exact shorties id proto new (retells.proto ▸ found) there
  · intro shorties id proto key found keyed
    rw [retells.proto] at found
    obtain ⟨old, here, _⟩ := sound.protoKey? found
    obtain ⟨new, there, same⟩ := retells.protoKey? here
    rw [keyed, Option.some.injEq] at there
    rw [kept id proto found, there, same]
    exact shorties id proto old found here

/-- Every class definition has the name that it had, or a given one with the same letter in a shorty. -/
def Retitles (outline : Outline) (new : String) (final : Outline) : Prop :=
  ∀ id name, final.className? id = some name → outline.className? id = some name ∨
    name = new ∧ ∃ old, outline.className? id = some old ∧ shortyChar old = shortyChar new

theorem Retitles.trans {third : Outline} {new : String} (before : outline.Retitles new final)
    (behind : final.Retitles new third) : outline.Retitles new third := by
  intro id name found
  rcases behind id name found with same | ⟨rfl, old, here, letter⟩
  · exact before id name same
  rcases before id old here with same | ⟨rfl, other⟩
  · exact .inr ⟨rfl, old, same, letter⟩
  · exact .inr ⟨rfl, other⟩

section Retell

variable (sound : outline.Sound) (retells : outline.Retells final)
include sound retells

/-- A type that has values keeps them. -/
theorem Retells.value {id : Id TypeItem}
    (value : ∃ text, outline.descriptor? id = some text ∧ text ≠ "V") :
    ∃ text, final.descriptor? id = some text ∧ text ≠ "V" := by
  obtain ⟨old, found, value⟩ := value
  obtain ⟨new, there, letter⟩ := retells.descriptor id old found
  refine ⟨new, there, ?_⟩
  rintro rfl
  exact value (eq_void_of_shortyChar (sound.grammar found) letter.symm)

/-- An outline whose types and member names are retold according to the grammar is sound. -/
theorem Sound.retell (strings : Separates final.string) (types : Separates final.type)
    (fits : ∀ id name, final.type id = some name → final.FitsType name)
    (fieldNames : ∀ id field, outline.field id = some field →
      ∃ text, final.string field.name = some text ∧ isMemberName text)
    (methodNames : ∀ id method, outline.method id = some method →
      ∃ text, final.string method.name = some text ∧ isMemberName text) : final.Sound where
  distinct := {
    strings, types
    protos := by rw [retells.proto]; exact sound.distinct.protos
    fields := by rw [retells.field]; exact sound.distinct.fields
    methods := by rw [retells.method]; exact sound.distinct.methods
    classes := by rw [retells.defined]; exact sound.distinct.classes }
  types := fits
  lists id list found type inside :=
    retells.isSome_descriptor? (sound.lists id list (retells.list ▸ found) type inside)
  protos id proto found := by
    rw [retells.proto] at found
    have parts := sound.protos id proto found
    exact {
      shorty := retells.string _ parts.shorty
      returnType := retells.isSome_descriptor? parts.returnType
      parameters := fun type inside => retells.value sound (parts.parameters type inside) }
  fields id field found := by
    rw [retells.field] at found
    have parts := sound.fields id field found
    exact {
      owner := retells.isSome_descriptor? parts.owner
      type := retells.value sound parts.type
      name := fieldNames id field found }
  methods id method found := by
    rw [retells.method] at found
    have parts := sound.methods id method found
    exact {
      owner := retells.isSome_descriptor? parts.owner
      proto := by rw [retells.proto]; exact parts.proto
      name := methodNames id method found }
  classes id type found := by
    rw [retells.defined] at found
    exact retells.isSome_descriptor? (sound.classes id type found)

/-- Where all types keep their descriptors but for one that receives a new one, so do class definitions their
names. -/
theorem Retells.retitles {new : String} (kept : ∀ type text, final.descriptor? type = some text →
    outline.descriptor? type = some text ∨ text = new) : outline.Retitles new final := by
  intro id name found
  obtain ⟨type, defined, here⟩ := Option.bind_eq_some_iff.1 found
  rw [retells.defined] at defined
  rw [className?, defined, Option.bind_some]
  refine (kept type name here).imp_right fun equal => ?_
  obtain ⟨old, there⟩ := Option.isSome_iff_exists.1 (sound.classes id type defined)
  obtain ⟨other, same, letter⟩ := retells.descriptor type old there
  rw [here, Option.some.injEq] at same
  exact ⟨equal, old, there, by rw [← letter, ← same, equal]⟩

end Retell

/-- The names of fields and methods. -/
def IsMemberName (outline : Outline) (id : Id StringItem) : Prop :=
  (∃ other field, outline.field other = some field ∧ field.name = id) ∨
    ∃ other method, outline.method other = some method ∧ method.name = id

/-- The strings that are descriptors of types. -/
def IsDescriptor (outline : Outline) (id : Id StringItem) : Prop :=
  ∃ type, outline.type type = some id

/-- A string receives a text that no other one has and that suits its roles. -/
structure Renames (outline : Outline) (id : Id StringItem) (new : String) (final : Outline) : Prop where
  found : ∃ old, outline.string id = some old ∧ old ≠ new ∧
    (outline.IsDescriptor id → shortyChar old = shortyChar new)
  free : ∀ other, outline.string other ≠ some new
  descriptor : outline.IsDescriptor id → isTypeDescriptor new
  name : outline.IsMemberName id → isMemberName new
  final_eq : final = { outline with string := Function.update outline.string id (some new) }

namespace Renames

variable {id : Id StringItem} {new : String} (renames : outline.Renames id new final)
include renames

theorem string (other : Id StringItem) :
    final.string other = if other = id then some new else outline.string other := by
  rw [renames.final_eq]
  exact Function.update_apply ..

theorem isSome_string (other : Id StringItem) (live : (outline.string other).isSome) :
    (final.string other).isSome := by
  rw [renames.string]
  split
  · rfl
  · exact live

theorem retells : outline.Retells final := by
  obtain ⟨old, found, _, letter⟩ := renames.found
  have same := renames.final_eq
  refine {
    string := renames.isSome_string
    descriptor := fun type text here => ?_
    list := by rw [same]
    proto := by rw [same]
    field := by rw [same]
    method := by rw [same]
    defined := by rw [same] }
  have types : final.type = outline.type := by rw [same]
  obtain ⟨other, names, here⟩ := Option.bind_eq_some_iff.1 here
  rw [descriptor?, types, names, Option.bind_some, renames.string]
  split
  · rename_i equal
    subst equal
    rw [found, Option.some.injEq] at here
    subst here
    exact ⟨new, rfl, (letter ⟨type, names⟩).symm⟩
  · exact ⟨text, here, rfl⟩

/-- A member name stays one. -/
theorem isMemberName {other : Id StringItem} (role : outline.IsMemberName other)
    (fits : ∃ text, outline.string other = some text ∧ DexArsc.Dex.isMemberName text) :
    ∃ text, final.string other = some text ∧ DexArsc.Dex.isMemberName text := by
  obtain ⟨text, here, grammar⟩ := fits
  rw [renames.string]
  split
  · rename_i same
    exact ⟨new, rfl, renames.name (same ▸ role)⟩
  · exact ⟨text, here, grammar⟩

theorem sound (sound : outline.Sound) : final.Sound := by
  have types : final.type = outline.type := by rw [renames.final_eq]
  refine sound.retell renames.retells ?_ ?_ ?_ ?_ ?_
  · rw [renames.final_eq]
    exact sound.distinct.strings.update id renames.free
  · rw [types]
    exact sound.distinct.types
  · intro type other names
    rw [types] at names
    obtain ⟨text, here, grammar⟩ := sound.types type other names
    rw [FitsType, renames.string]
    split
    · rename_i same
      exact ⟨new, rfl, renames.descriptor ⟨type, same ▸ names⟩⟩
    · exact ⟨text, here, grammar⟩
  · exact fun other field here =>
      renames.isMemberName (.inl ⟨other, field, here, rfl⟩) (sound.fields other field here).name
  · exact fun other method here =>
      renames.isMemberName (.inr ⟨other, method, here, rfl⟩) (sound.methods other method here).name

/-- Shorties stay right exactly when the string is none. -/
theorem shorties_iff (sound : outline.Sound) (shorties : outline.Shorties) :
    final.Shorties ↔ ∀ other proto, outline.proto other = some proto → proto.shorty ≠ id := by
  constructor
  · rintro shorties' other proto found rfl
    obtain ⟨key, here, _⟩ := sound.protoKey? found
    obtain ⟨new', there, same⟩ := renames.retells.protoKey? here
    have before := shorties other proto key found here
    have behind := shorties' other proto new' (renames.retells.proto ▸ found) there
    obtain ⟨old, text, different, _⟩ := renames.found
    rw [renames.string, if_pos rfl, same, ← before, text, Option.some.injEq] at behind
    exact different behind.symm
  · intro others
    refine (renames.retells.shorties_iff sound fun other proto found => ?_).2 shorties
    rw [renames.string, if_neg (others other proto found)]

theorem retitles (sound : outline.Sound) : outline.Retitles new final :=
  renames.retells.retitles sound fun type text found => by
    obtain ⟨name, typed, here⟩ := Option.bind_eq_some_iff.1 found
    rw [renames.final_eq] at typed
    rw [renames.string] at here
    rw [descriptor?, typed, Option.bind_some]
    split at here
    · exact .inr (Option.some.inj here).symm
    · exact .inl here

end Renames

/-- A type receives another string, which no other type has, with a descriptor that has the same
letter in a shorty. -/
structure Retypes (outline : Outline) (id : Id TypeItem) (new : String) (final : Outline) : Prop where
  name : ∃ old name, outline.descriptor? id = some old ∧ outline.string name = some new ∧
    shortyChar old = shortyChar new ∧ isTypeDescriptor new ∧
    (∀ other, outline.type other ≠ some name) ∧
    final = { outline with type := Function.update outline.type id (some name) }

namespace Retypes

variable {id : Id TypeItem} {new : String} (retypes : outline.Retypes id new final)
include retypes

theorem retells : outline.Retells final := by
  obtain ⟨old, name, found, here, letter, _, _, rfl⟩ := retypes.name
  refine {
    list := rfl
    proto := rfl
    field := rfl
    method := rfl
    defined := rfl
    string := fun _ live => live
    descriptor := fun other text there => ?_ }
  by_cases same : other = id
  · subst same
    rw [found, Option.some.injEq] at there
    subst there
    exact ⟨new, by simp [descriptor?, here], letter.symm⟩
  · exact ⟨text, by simpa [descriptor?, same] using there, rfl⟩

theorem sound (sound : outline.Sound) : final.Sound := by
  have retells := retypes.retells
  obtain ⟨old, name, found, here, _, grammar, free, rfl⟩ := retypes.name
  refine sound.retell retells sound.distinct.strings (sound.distinct.types.update id free) ?_ ?_ ?_
  · intro other names there
    rcases update_eq_some there with ⟨_, rfl⟩ | there
    · exact ⟨new, here, grammar⟩
    · exact sound.types other names there
  · exact fun other field there => (sound.fields other field there).name
  · exact fun other method there => (sound.methods other method there).name

theorem shorties_iff (sound : outline.Sound) : final.Shorties ↔ outline.Shorties := by
  refine retypes.retells.shorties_iff sound fun _ proto _ => ?_
  obtain ⟨old, name, _, _, _, _, _, rfl⟩ := retypes.name
  rfl

theorem retitles (sound : outline.Sound) : outline.Retitles new final :=
  retypes.retells.retitles sound fun type text found => by
    obtain ⟨old, name, _, here, _, _, _, rfl⟩ := retypes.name
    obtain ⟨other, typed, there⟩ := Option.bind_eq_some_iff.1 found
    rcases update_eq_some typed with ⟨_, rfl⟩ | typed
    · exact .inr (Option.some.inj (there.symm.trans here))
    · rw [descriptor?, typed]
      exact .inl there

end Retypes
end DexArsc.Dex.Outline
