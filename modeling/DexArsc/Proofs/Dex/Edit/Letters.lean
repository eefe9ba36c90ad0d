/-
Shorties along a run of edits. Every step but one keeps the shorties of all prototypes right: the
renaming of a string knows the roles of descriptors and member names, but not the one of a shorty.
-/

import DexArsc.Proofs.Dex.Edit.Run
import Mathlib.Data.List.Induction

namespace DexArsc.Dex
namespace DexFile

variable {file : DexFile}

/-- The shorty of every prototype is the one of its key. -/
def ShortiesMatch (file : DexFile) : Prop :=
  ∀ id item key, file.protos.items.item? id = some item → file.protoKey? item = some key →
    file.stringOf? item.shorty = some key.shorty

/-- A string is the shorty of some prototype. -/
def IsShorty (file : DexFile) (id : Id StringItem) : Prop :=
  ∃ proto item, file.protos.items.item? proto = some item ∧ item.shorty.item = some id

theorem Sound.proto_outline (sound : file.Sound) {id : Id ProtoItem} {item : ProtoItem}
    (found : file.protos.items.item? id = some item) : ∃ proto, file.outline.proto id = some proto ∧
      item.shorty.item = some proto.shorty ∧ file.protoKey? item = file.outline.protoKey? id := by
  obtain ⟨proto, shape⟩ := Option.isSome_iff_exists.1 (sound.complete.protos id item found)
  have outlined : file.outline.proto id = some proto := (Section.keyOf?_of_item? found _).trans shape
  refine ⟨proto, outlined, ?_, ?_⟩
  · simp only [ProtoItem.outline?, Option.bind_eq_some_iff, Option.map_eq_some_iff] at shape
    obtain ⟨shorty, named, _, _, _, _, rfl⟩ := shape
    exact named
  · rw [Outline.protoKey?, outlined, Option.bind_some, sound.complete.protoKey? item shape]

theorem Sound.shortiesMatch_iff (sound : file.Sound) :
    file.ShortiesMatch ↔ file.outline.Shorties := by
  constructor
  · intro shorties id proto key outlined keyed
    obtain ⟨item, found, _⟩ := Section.keyOf?_eq_some.1 outlined
    obtain ⟨other, same, named, equal⟩ := sound.proto_outline found
    obtain rfl : proto = other := Option.some.inj (outlined.symm.trans same)
    have shorty := shorties id item key found (equal.trans keyed)
    rwa [sound.complete.stringOf?, named] at shorty
  · intro shorties id item key found keyed
    obtain ⟨proto, outlined, named, equal⟩ := sound.proto_outline found
    rw [sound.complete.stringOf?, named]
    exact shorties id proto key outlined (equal.symm.trans keyed)

theorem Sound.isShorty_iff (sound : file.Sound) (id : Id StringItem) :
    file.IsShorty id ↔ ∃ other proto, file.outline.proto other = some proto ∧ proto.shorty = id := by
  constructor
  · rintro ⟨other, item, found, named⟩
    obtain ⟨proto, outlined, here, _⟩ := sound.proto_outline found
    exact ⟨other, proto, outlined, Option.some.inj (here.symm.trans named)⟩
  · rintro ⟨other, proto, outlined, rfl⟩
    obtain ⟨item, found, _⟩ := Section.keyOf?_eq_some.1 outlined
    obtain ⟨same, there, here, _⟩ := sound.proto_outline found
    obtain rfl : proto = same := Option.some.inj (outlined.symm.trans there)
    exact ⟨other, item, found, here⟩

theorem shorties_empty : ({} : DexFile).outline.Shorties :=
  fun _ _ _ found => by cases found

end DexFile

namespace Edit

variable {file : DexFile}

/-- An edit keeps shorties right exactly when it leaves the texts of all shorties. Only the renaming of
a string may change one. -/
theorem shorties_after (sound : file.Sound) (shorties : file.outline.Shorties) (edit : Edit) :
    (edit.after file).outline.Shorties ↔ ∀ id text, edit = .renameString id text → file.IsShorty id →
      (edit.after file).outline.string id = file.outline.string id := by
  rcases sound.after_cases edit with ⟨other, edited⟩ | ⟨id, text, rfl, _, outcome⟩ | ⟨id, text, rfl, renamed⟩
  · refine ⟨fun _ id text same => ?_, fun _ => (edited.shorties sound).2 shorties⟩
    cases same
    cases other
  · rcases outcome with same | renames
    · rw [same]
      exact ⟨fun _ _ _ _ _ => rfl, fun _ => shorties⟩
    rw [renames.shorties_iff sound.outline shorties]
    constructor
    · rintro others other text' equal shorty
      cases equal
      obtain ⟨proto, item, outlined, named⟩ := (sound.isShorty_iff id).1 shorty
      exact absurd named (others proto item outlined)
    · rintro kept other proto outlined rfl
      obtain ⟨old, found, different, _⟩ := renames.found
      have same := kept _ text rfl ((sound.isShorty_iff _).2 ⟨other, proto, outlined, rfl⟩)
      rw [renames.string, if_pos rfl, found, Option.some.injEq] at same
      exact absurd same.symm different
  · refine ⟨fun _ _ _ same => ?_, fun _ => renamed.shorties.2 shorties⟩
    cases same

/-- The shorties of all prototypes are right all along a run exactly when no renaming of a string on its
way changes the text of a string that is a shorty there. -/
theorem shorties_run_iff (edits : List Edit) :
    (∀ before behind, edits = before ++ behind → (run before).ShortiesMatch) ↔
      ∀ before id text behind, edits = before ++ .renameString id text :: behind →
        (run before).IsShorty id →
          (run (before ++ [.renameString id text])).stringOf? (.ofId id) =
            (run before).stringOf? (.ofId id) := by
  have string (edits : List Edit) (id : Id StringItem) :
      (run edits).stringOf? (.ofId id) = (run edits).outline.string id :=
    (DexFile.sound_run edits).complete.stringOf? (.ofId id)
  simp only [(DexFile.sound_run _).shortiesMatch_iff, string]
  constructor
  · intro shorties before id text behind split
    have here := shorties before _ split
    have there := shorties (before ++ [.renameString id text]) behind (by simp [split])
    rw [run_concat] at there ⊢
    exact (shorties_after (DexFile.sound_run before) here _).1 there id text rfl
  · intro kept before
    induction before using List.reverseRecOn with
    | nil => exact fun _ _ => DexFile.shorties_empty
    | append_singleton before edit ih =>
        intro behind split
        rw [run_concat]
        have here := ih (edit :: behind) (by simp [split])
        refine (shorties_after (DexFile.sound_run before) here edit).2 fun id text same => ?_
        subst same
        rw [← run_concat]
        exact kept before id text behind (by simp [split])

end Edit
end DexArsc.Dex

namespace DexArsc.Dex

namespace DexFile

variable {file : DexFile}

/-- Every class definition has the descriptor of a class. -/
def NamesClasses (file : DexFile) : Prop :=
  ∀ id item, file.classDefs.item? id = some item →
    ∃ name, file.descriptorOf? item.type = some name ∧ name.startsWith "L"

/-- What holds of the descriptors of all class definitions. -/
theorem Sound.forall_className? (sound : file.Sound) {property : String → Prop} :
    (∀ id item, file.classDefs.item? id = some item →
      ∃ name, file.descriptorOf? item.type = some name ∧ property name) ↔
        ∀ id name, file.outline.className? id = some name → property name := by
  rw [← sound.complete.keyOf?_classes]
  constructor
  · intro holds id name found
    obtain ⟨item, live, named⟩ := Section.keyOf?_eq_some.1 found
    obtain ⟨other, same, here⟩ := holds id item live
    exact Option.some.inj (same.symm.trans named) ▸ here
  · intro holds id item live
    obtain ⟨name, named, _⟩ := sound.wellKeyed.classes.keyed id item live
    exact ⟨name, named, holds id name (Section.keyOf?_eq_some.2 ⟨item, live, named⟩)⟩

/-- Behind an edit a class definition has the name that it had, or it is new and has the name of a class, or it
is renamed and has the same letter as before. -/
theorem Sound.className?_after (sound : file.Sound) {edit : Edit} {id : Id ClassDef} {name : String}
    (found : (edit.after file).outline.className? id = some name) :
    file.outline.className? id = some name ∨ name.startsWith "L" ∨ edit.newText? = some name ∧
      ∃ old, file.outline.className? id = some old ∧ shortyChar old = shortyChar name := by
  rcases sound.after_cases edit with ⟨_, edited⟩ | ⟨_, text, rfl, _, same | renames⟩ | ⟨_, text, rfl, renamed⟩
  · exact (edited.titles sound id name found).imp_right .inl
  · exact .inl (same ▸ found)
  · rcases renames.retitles sound.outline id name found with same | ⟨rfl, changed⟩
    · exact .inl same
    · exact .inr (.inr ⟨rfl, changed⟩)
  · rcases renamed.titles id name found with same | ⟨rfl, changed⟩
    · exact .inl same
    · exact .inr (.inr ⟨rfl, changed⟩)

end DexFile

namespace Edit

/-- The name of a class definition has the letter of classes and arrays in shorties. -/
theorem shortyChar_run (edits : List Edit) : ∀ id name, (run edits).outline.className? id = some name →
    shortyChar name = 'L' := by
  induction edits using List.reverseRecOn with
  | nil => exact fun _ _ found => nomatch found
  | append_singleton edits edit ih =>
      intro id name found
      rw [run_concat] at found
      rcases (DexFile.sound_run edits).className?_after found with same | isClass | ⟨_, old, here, letter⟩
      · exact ih id name same
      · exact shortyChar_eq_iff.2 (.inl isClass)
      · exact letter ▸ ih id old here

/-- Along a run of edits every class definition has the descriptor of a class or of an array. All have descriptors
of classes exactly when no renaming on the way gives one of them a descriptor that starts otherwise. -/
theorem namesClasses_run_iff (edits : List Edit) :
    (∀ id item, (run edits).classDefs.item? id = some item → ∃ name, (run edits).descriptorOf? item.type = some name ∧
      (name.startsWith "L" ∨ name.startsWith "[")) ∧
    ((∀ before behind, edits = before ++ behind → (run before).NamesClasses) ↔
      ∀ before edit behind text, edits = before ++ edit :: behind → edit.newText? = some text →
        ∀ id item, (run (before ++ [edit])).classDefs.item? id = some item →
          (run (before ++ [edit])).descriptorOf? item.type = some text → text.startsWith "L") := by
  refine ⟨(DexFile.sound_run edits).forall_className?.2 fun id name found =>
    shortyChar_eq_iff.1 (shortyChar_run edits id name found), fun names before edit behind text split _ id item live
      named => ?_, fun kept before => ?_⟩
  · obtain ⟨name, here, isClass⟩ := names (before ++ [edit]) behind (by simp [split]) id item live
    exact Option.some.inj (here.symm.trans named) ▸ isClass
  · induction before using List.reverseRecOn with
    | nil => exact fun _ _ _ _ live => nomatch live
    | append_singleton before edit ih =>
        intro behind split
        have here := (DexFile.sound_run before).forall_className?.1 (ih (edit :: behind) (by simp [split]))
        refine (DexFile.sound_run (before ++ [edit])).forall_className?.2 fun id name found => ?_
        have found' := found
        rw [run_concat] at found'
        rcases (DexFile.sound_run before).className?_after found' with same | isClass | ⟨renames, _⟩
        · exact here id name same
        · exact isClass
        · rw [← (DexFile.sound_run (before ++ [edit])).complete.keyOf?_classes] at found
          obtain ⟨item, live, named⟩ := Section.keyOf?_eq_some.1 found
          exact kept before edit behind name (by simp [split]) renames id item live named

end Edit
end DexArsc.Dex
