/-
Renaming strings and types: a sound file stays sound, whether the step succeeds or fails, and no
item goes away.
-/

import DexArsc.Proofs.Dex.Edit.Intern
import DexArsc.Proofs.Dex.Edit.Retell

namespace DexArsc.Dex

variable {κ α : Type}

/-- An item that is replaced by an image has the key of the image. -/
theorem Section.keyOf?_modify (items : Section α) (id : Id α) (change : α → α) (key? : α → Option κ) :
    (items.modify id change).keyOf? key? =
      Function.update (items.keyOf? key?) id (items.keyOf? (fun item => key? (change item)) id) := by
  funext other
  rw [Function.update_apply, keyOf?, item?_modify]
  split
  · rename_i same
    rw [same, keyOf?, Option.bind_map]
    rfl
  · rfl

theorem Section.isSome_item?_modify (items : Section α) (id other : Id α) (change : α → α) :
    ((items.modify id change).item? other).isSome = (items.item? other).isSome := by
  rw [item?_modify]
  split <;> simp

theorem Section.All.modify {property : α → Prop} {items : Section α} (all : items.All property)
    {id : Id α} {change : α → α} (kept : ∀ item, items.item? id = some item → property (change item)) :
    (items.modify id change).All property := by
  intro other image found
  rw [item?_modify] at found
  split at found
  · rename_i same
    obtain ⟨item, here, rfl⟩ := Option.map_eq_some_iff.1 found
    exact kept item (same ▸ here)
  · exact all other image found

/-- A key map in which the key of an item is replaced. -/
theorem Pool.Reflects.rekey [BEq κ] [Hashable κ] [LawfulBEq κ] [KeyText κ] {pool final : Pool κ α}
    {keyOf? : Id α → Option κ} (reflects : pool.Reflects keyOf?) (fresh : pool.stale = false)
    {id : Id α} {old new : κ} (known : keyOf? id = some old) (different : old ≠ new)
    (run : pool.rekey id old new = .ok final) : final.items = pool.items ∧ final.stale = false ∧
      (∀ other, keyOf? other ≠ some new) ∧ final.Reflects (Function.update keyOf? id (some new)) := by
  unfold Pool.rekey at run
  have here : pool.keys[old]? = some id := (reflects fresh old id).2 known
  cases taken : pool.keys[new]? with
  | some owner =>
      rw [taken] at run
      have owned := (reflects fresh new owner).1 taken
      simp only at run
      split at run
      · cases run
      · rename_i same
        simp only [ne_eq, Decidable.not_not] at same
        rw [same, known, Option.some.injEq] at owned
        exact absurd owned different
  | none =>
      rw [taken] at run
      simp only [here, if_true, Except.ok.injEq] at run
      subst run
      have free (other : Id α) : keyOf? other ≠ some new := fun found => by
        rw [(reflects fresh new other).2 found] at taken
        cases taken
      refine ⟨rfl, fresh, free, fun _ key other => ?_⟩
      rw [Std.HashMap.getElem?_insert, Std.HashMap.getElem?_erase, Function.update_apply]
      by_cases equal : new = key
      · subst equal
        by_cases same : other = id
        · simp [same]
        · simp [same, free other, Ne.symm same]
      · rw [if_neg (by simpa using equal)]
        by_cases former : old = key
        · subst former
          rw [if_pos (beq_self_eq_true old)]
          by_cases same : other = id
          · simp [same, equal]
          · rw [if_neg same, ← reflects fresh, here]
            simpa using Ne.symm same
        · rw [if_neg (by simpa using former), reflects fresh]
          by_cases same : other = id
          · simp [same, known, former, equal]
          · rw [if_neg same]

namespace DexFile

variable {file final third : DexFile}

/-- No id goes away, and only ids and type lists change. -/
structure Keeps (file final : DexFile) : Prop where
  strings : ∀ id, (file.strings.items.item? id).isSome → (final.strings.items.item? id).isSome
  types : ∀ id, (file.types.items.item? id).isSome → (final.types.items.item? id).isSome
  protos : ∀ id, (file.protos.items.item? id).isSome → (final.protos.items.item? id).isSome
  fields : ∀ id, (file.fields.items.item? id).isSome → (final.fields.items.item? id).isSome
  methods : ∀ id, (file.methods.items.item? id).isSome → (final.methods.items.item? id).isSome
  typeLists : ∀ id, (file.typeLists.item? id).isSome → (final.typeLists.item? id).isSome
  others : final = { file with
    strings := final.strings
    types := final.types
    protos := final.protos
    fields := final.fields
    methods := final.methods
    typeLists := final.typeLists }

theorem Grows.keeps (grows : file.Grows final) : file.Keeps final where
  strings _ := grows.strings.isSome
  types _ := grows.types.isSome
  protos _ := grows.protos.isSome
  fields _ := grows.fields.isSome
  methods _ := grows.methods.isSome
  typeLists _ := grows.typeLists.isSome
  others := grows.others

theorem Keeps.trans (before : file.Keeps final) (behind : final.Keeps third) : file.Keeps third where
  strings id live := behind.strings id (before.strings id live)
  types id live := behind.types id (before.types id live)
  protos id live := behind.protos id (before.protos id live)
  fields id live := behind.fields id (before.fields id live)
  methods id live := behind.methods id (before.methods id live)
  typeLists id live := behind.typeLists id (before.typeLists id live)
  others := by
    have first := before.others
    have second := behind.others
    rw [first] at second
    exact second

theorem Sound.isDescriptor (sound : file.Sound) (id : Id StringItem) :
    file.isDescriptor id ↔ file.outline.IsDescriptor id := by
  have types : file.types.items.Valid := sound.valid .typeId
  unfold DexFile.isDescriptor Outline.IsDescriptor
  simp only [List.any_eq_true, Prod.exists, types.mem_entries, beq_iff_eq]
  exact exists_congr fun type => Section.keyOf?_eq_some.symm

theorem Sound.isMemberName (sound : file.Sound) (id : Id StringItem) :
    file.isMemberName id ↔ file.outline.IsMemberName id := by
  have fields : file.fields.items.Valid := sound.valid .fieldId
  have methods : file.methods.items.Valid := sound.valid .methodId
  unfold DexFile.isMemberName Outline.IsMemberName
  simp only [Bool.or_eq_true, List.any_eq_true, Prod.exists, fields.mem_entries, methods.mem_entries,
    beq_iff_eq]
  refine or_congr (exists_congr fun other => ⟨?_, ?_⟩) (exists_congr fun other => ⟨?_, ?_⟩)
  · rintro ⟨item, found, name⟩
    obtain ⟨field, outlined⟩ := Option.isSome_iff_exists.1 (sound.complete.fields other item found)
    have named := (FieldItem.outline?_eq_some.1 outlined).2.2
    rw [name, Option.some.injEq] at named
    exact ⟨field, Section.keyOf?_eq_some.2 ⟨item, found, outlined⟩, named.symm⟩
  · rintro ⟨field, outlined, rfl⟩
    obtain ⟨item, found, outlined⟩ := Section.keyOf?_eq_some.1 outlined
    exact ⟨item, found, (FieldItem.outline?_eq_some.1 outlined).2.2⟩
  · rintro ⟨item, found, name⟩
    obtain ⟨method, outlined⟩ := Option.isSome_iff_exists.1 (sound.complete.methods other item found)
    have named := (MethodItem.outline?_eq_some.1 outlined).2.2
    rw [name, Option.some.injEq] at named
    exact ⟨method, Section.keyOf?_eq_some.2 ⟨item, found, outlined⟩, named.symm⟩
  · rintro ⟨method, outlined, rfl⟩
    obtain ⟨item, found, outlined⟩ := Section.keyOf?_eq_some.1 outlined
    exact ⟨item, found, (MethodItem.outline?_eq_some.1 outlined).2.2⟩

/-- A text that passes the check suits every role of a string. -/
theorem checkRole_eq_ok {id : Id StringItem} {old new : String} :
    file.checkRole id old new = .ok () ↔
      (file.isDescriptor id → isTypeDescriptor new ∧ shortyChar old = shortyChar new) ∧
        (file.isMemberName id → Dex.isMemberName new) := by
  have names : (if file.isMemberName id then checkMemberName new else pure ()) = .ok () ↔
      (file.isMemberName id → Dex.isMemberName new) := by
    split
    · rename_i role
      simp [role, checkMemberName_eq_ok]
    · rename_i role
      simp [role, pure, Except.pure]
  unfold checkRole
  by_cases role : file.isDescriptor id
  · simp only [role, if_true, Except.check_eq_ok, checkTypeDescriptor_eq_ok]
    by_cases letter : shortyChar old = shortyChar new
    · simp [letter, names]
    · simp [letter, bind, Except.bind, fail, throw, throwThe, MonadExceptOf.throw]
  · simp [role, names]

theorem Sound.roles (sound : file.Sound) {id : Id StringItem} {old new : String}
    (run : file.checkRole id old new = .ok ()) :
    (file.outline.IsDescriptor id → isTypeDescriptor new ∧ shortyChar old = shortyChar new) ∧
      (file.outline.IsMemberName id → Dex.isMemberName new) := by
  rw [← sound.isDescriptor, ← sound.isMemberName]
  exact checkRole_eq_ok.1 run

/-- The file with another text for a string. The keys of all other pools are out of date. -/
def withText (file : DexFile) (strings : Pool StringData StringItem) (id : Id StringItem)
    (text : String) : DexFile :=
  { file with
    strings := { strings with
      items := strings.items.modify id fun item => { item with value := .decoded text } }
    types := file.types.invalidate }.invalidateMembers

/-- A string that receives another text. -/
theorem Sound.withText (sound : file.Sound) (fresh : file.Fresh) {id : Id StringItem}
    {old text : String} (found : file.outline.string id = some old) (different : old ≠ text)
    (roles : file.checkRole id old text = .ok ()) {strings : Pool StringData StringItem}
    (run : file.strings.rekey id (.decoded old) (.decoded text) = .ok strings) :
    (file.withText strings id text).Sound ∧ file.Keeps (file.withText strings id text) ∧
      file.outline.Renames id text (file.withText strings id text).outline := by
  obtain ⟨descriptor, name⟩ := sound.roles roles
  obtain ⟨items, _, free, reflects⟩ := sound.stringKeys.rekey fresh.strings
    (Outline.value?_eq_some.2 found) (by simpa using different) run
  have outline : (file.withText strings id text).outline = { file.outline with
      string := Function.update file.outline.string id (some text) } := by
    have string : (file.withText strings id text).outline.string =
        Function.update file.outline.string id (some text) := by
      refine (Section.keyOf?_modify ..).trans ?_
      rw [items]
      congr 1
      obtain ⟨item, here, _⟩ := Section.keyOf?_eq_some.1 found
      exact Section.keyOf?_of_item? here _
    rw [← string]
    rfl
  have renames : file.outline.Renames id text (file.withText strings id text).outline := {
    found := ⟨old, found, different, fun role => (descriptor role).2⟩
    free := fun other here => free other (Outline.value?_eq_some.2 here)
    descriptor := fun role => (descriptor role).1
    name
    final_eq := outline }
  have value : (file.withText strings id text).outline.value? =
      Function.update file.outline.value? id (some (.decoded text)) := by
    funext other
    simp only [outline, Outline.value?, Function.update_apply]
    split <;> rfl
  have valid : file.strings.items.Valid := sound.strings
  have stays (other : Id StringItem) : ((file.withText strings id text).strings.items.item? other).isSome =
      (file.strings.items.item? other).isSome := by
    change ((strings.items.modify id _).item? other).isSome = _
    rw [Section.isSome_item?_modify, items]
  refine ⟨{
    valid := fun part => by
      have valid := sound.valid part
      cases part <;> exact valid
    strings := by
      change (strings.items.modify id _).Valid
      rw [items]
      exact valid.modify ..
    complete := { sound.complete with
      strings := by
        change (strings.items.modify id _).All _
        rw [items]
        exact sound.complete.strings.modify fun _ _ => rfl }
    outline := renames.sound sound.outline
    parameters := sound.parameters
    stringKeys := value ▸ reflects
    typeKeys := fun stale => by cases stale
    protoKeys := fun stale => by cases stale
    fieldKeys := fun stale => by cases stale
    methodKeys := fun stale => by cases stale }, {
    strings := fun other live => (stays other).trans live
    types := fun _ live => live
    protos := fun _ live => live
    fields := fun _ live => live
    methods := fun _ live => live
    typeLists := fun _ live => live
    others := rfl }, renames⟩

/-- Where renaming a string ends: the string has its new text, or every text is as it was. -/
theorem Sound.renameString (sound : file.Sound) (id : Id StringItem) (text : String) :
    (renameString id text).Ensures file
      (fun _ final => final.Sound ∧ file.Keeps final ∧
        (final.outline = file.outline ∨ file.outline.Renames id text final.outline))
      fun final => final.Sound ∧ file.Keeps final ∧ final.outline = file.outline := by
  obtain ⟨between, run, same, fresh, sound⟩ := sound.rebuildKeys
  have stays : file.Keeps between := (Grows.of_sameItems same).keeps
  rw [← same.outline]
  have failed : between.Sound ∧ file.Keeps between ∧ between.outline = between.outline :=
    ⟨sound, stays, rfl⟩
  unfold DexFile.renameString Step.Ensures
  rw [Step.bind_ok run, Step.bind_ok (Step.get_apply between)]
  cases found : between.strings.items.item? id with
  | none => exact failed
  | some item =>
      obtain ⟨old, value⟩ := sound.complete.decoded found
      have named : between.outline.string id = some old := by
        rw [show between.outline.string id = item.value.text? from Section.keyOf?_of_item? found _,
          value]
        rfl
      simp only [value]
      by_cases different : StringData.decoded old ≠ .decoded text
      · rw [if_pos different]
        refine Step.Ensures.check failed fun _ roles => ?_
        refine Step.Ensures.check failed fun strings rekeyed => ?_
        obtain ⟨sound', keeps, renames⟩ :=
          sound.withText fresh named (by simpa using different) roles rekeyed
        exact ⟨sound', stays.trans keeps, .inr renames⟩
      · rw [if_neg different]
        exact ⟨sound, stays, .inl rfl⟩

/-- The file with another string for a type. The keys of the members are out of date. -/
def withDescriptor (file : DexFile) (types : Pool String TypeItem) (id : Id TypeItem)
    (name : Id StringItem) : DexFile :=
  { file with
    types := { types with
      items := types.items.modify id fun item =>
        { descriptor := item.descriptor.setItem (some name) } } }.invalidateMembers

/-- A type that receives another string. -/
theorem Sound.withDescriptor (sound : file.Sound) (fresh : file.Fresh) {id : Id TypeItem}
    {old new : String} {name : Id StringItem} (found : file.outline.descriptor? id = some old)
    (different : old ≠ new) (letter : shortyChar old = shortyChar new)
    (grammar : isTypeDescriptor new) (named : file.outline.string name = some new)
    {types : Pool String TypeItem} (run : file.types.rekey id old new = .ok types) :
    (file.withDescriptor types id name).Sound ∧ file.Keeps (file.withDescriptor types id name) ∧
      file.outline.Retypes id new (file.withDescriptor types id name).outline := by
  obtain ⟨items, _, free, reflects⟩ := sound.typeKeys.rekey fresh.types found different run
  have outline : (file.withDescriptor types id name).outline = { file.outline with
      type := Function.update file.outline.type id (some name) } := by
    have type : (file.withDescriptor types id name).outline.type =
        Function.update file.outline.type id (some name) := by
      refine (Section.keyOf?_modify ..).trans ?_
      rw [items]
      congr 1
      obtain ⟨other, here, _⟩ := Option.bind_eq_some_iff.1 found
      obtain ⟨item, here, _⟩ := Section.keyOf?_eq_some.1 here
      exact Section.keyOf?_of_item? here _
    rw [← type]
    rfl
  have retypes : file.outline.Retypes id new (file.withDescriptor types id name).outline := {
    name := by
      refine ⟨old, name, found, named, letter, grammar, fun other here => free other ?_, outline⟩
      rw [Outline.descriptor?, here]
      exact named }
  have keys : (file.withDescriptor types id name).outline.descriptor? =
      Function.update file.outline.descriptor? id (some new) := by
    funext other
    simp only [outline, Outline.descriptor?, Function.update_apply]
    split
    · exact named
    · rfl
  have stays (other : Id TypeItem) :
      ((file.withDescriptor types id name).types.items.item? other).isSome =
        (file.types.items.item? other).isSome := by
    change ((types.items.modify id _).item? other).isSome = _
    rw [Section.isSome_item?_modify, items]
  refine ⟨{
    valid := fun part => by
      have valid := sound.valid part
      cases part with
      | typeId =>
          change (types.items.modify id _).Valid
          rw [items]
          exact valid.modify ..
      | _ => exact valid
    strings := sound.strings
    complete := { sound.complete with
      types := by
        change (types.items.modify id _).All _
        rw [items]
        exact sound.complete.types.modify fun _ _ => rfl }
    outline := retypes.sound sound.outline
    parameters := sound.parameters
    stringKeys := sound.stringKeys
    typeKeys := keys ▸ reflects
    protoKeys := fun stale => by cases stale
    fieldKeys := fun stale => by cases stale
    methodKeys := fun stale => by cases stale }, {
    strings := fun _ live => live
    types := fun other live => (stays other).trans live
    protos := fun _ live => live
    fields := fun _ live => live
    methods := fun _ live => live
    typeLists := fun _ live => live
    others := rfl }, retypes⟩

/-- A sound file that has grown has wrong shorties exactly when it had them before. -/
theorem Interned.shorties_iff (sound : file.Sound) (interned : file.Interned final) :
    final.outline.Shorties ↔ file.outline.Shorties := by
  refine ⟨fun shorties id proto key found keyed => ?_, interned.shorties⟩
  obtain ⟨text, live⟩ := Option.isSome_iff_exists.1 (sound.outline.protos id proto found).shorty
  have after := shorties id proto key (interned.grows.outline.proto _ _ found)
    (interned.grows.outline.protoKey? _ _ keyed)
  rw [interned.grows.outline.string _ _ live] at after
  rw [live, after]

/-- A sound file that has grown has the same classes, and they have the same names. -/
theorem Interned.className?_eq (sound : file.Sound) (interned : file.Interned final) :
    final.outline.className? = file.outline.className? := by
  have defined : final.outline.defined = file.outline.defined := by
    unfold outline
    rw [interned.grows.classDefs]
  funext id
  rw [Outline.className?, Outline.className?, defined]
  cases found : file.outline.defined id with
  | none => rfl
  | some type =>
      obtain ⟨text, here⟩ := Option.isSome_iff_exists.1 (sound.outline.classes id type found)
      exact (interned.grows.outline.descriptor? _ _ here).trans here.symm

/-- What the rename of a type leaves: a sound file without lost ids, in which shorties are as right as before and
no class definition has another name than it had, but for the new one. -/
structure Renamed (new : String) (file final : DexFile) : Prop where
  sound : final.Sound
  keeps : file.Keeps final
  shorties : final.outline.Shorties ↔ file.outline.Shorties
  titles : file.outline.Retitles new final.outline

theorem Interned.renamed (sound : file.Sound) (interned : file.Interned final) (new : String) :
    Renamed new file final where
  sound := interned.sound
  keeps := interned.grows.keeps
  shorties := interned.shorties_iff sound
  titles _ _ found := .inl (interned.className?_eq sound ▸ found)

theorem Renamed.trans {new : String} (before : Renamed new file final) (behind : Renamed new final third) :
    Renamed new file third :=
  ⟨behind.sound, before.keeps.trans behind.keeps, behind.shorties.trans before.shorties,
    before.titles.trans behind.titles⟩

/-- Where renaming a type ends, the type has its new descriptor or its old one. -/
theorem Sound.renameType (sound : file.Sound) (id : Id TypeItem) (new : String) :
    (renameType id new).Ensures file (fun _ final => Renamed new file final) (Renamed new file) := by
  unfold DexFile.renameType
  refine Step.Ensures.check ((Interned.refl sound).renamed sound new) fun _ passed => ?_
  have grammar := checkTypeDescriptor_eq_ok.1 passed
  obtain ⟨between, run, same, fresh, keeps⟩ := sound.rebuildKeys
  have interned : file.Interned between :=
    ⟨keeps, .of_sameItems same, fun shorties => same.outline ▸ shorties, fun _ => fresh⟩
  have unchanged := interned.renamed sound new
  unfold Step.Ensures
  rw [Step.bind_ok run, Step.bind_ok (Step.get_apply between)]
  have key : (between.types.items.item? id).bind between.typeKey? = between.outline.descriptor? id :=
    congrFun keeps.complete.keyOf?_types id
  rw [key]
  cases found : between.outline.descriptor? id with
  | none => exact unchanged
  | some old =>
      simp only
      change Step.Ensures _ between _ _
      have refused {next : Unit → Step DexFile Unit} (cause : Cause) :
          (fail cause >>= next).Ensures between (fun _ final => Renamed new file final) (Renamed new file) :=
        .of_error rfl unchanged
      by_cases different : old = new
      · simp only [different, ne_eq, not_true_eq_false, if_false]
        exact .of_ok rfl unchanged
      by_cases letter : shortyChar old = shortyChar new
      · by_cases taken : (between.types.find? new).isSome
        · simp only [different, letter, taken, ne_eq, not_false_eq_true, not_true_eq_false, if_true,
            if_false]
          exact refused _
        · simp only [different, letter, taken, ne_eq, not_false_eq_true, not_true_eq_false, if_true,
            if_false, Bool.false_eq_true]
          have named : (DexFile.internString new).Ensures between (fun name final => file.Interned final ∧
              final.Fresh ∧ final.outline.string name = some new ∧
                final.outline.descriptor? id = some old) (Renamed new file) :=
            Step.Ensures.imp (keeps.internString new) (fun name final ⟨grown, named⟩ =>
              ⟨interned.trans grown, grown.fresh fresh, named,
                grown.grows.outline.descriptor? _ _ found⟩)
              fun final grown => (interned.trans grown).renamed sound new
          refine named.bind fun name final ⟨grown, fresh, named, found⟩ => ?_
          refine Step.Ensures.check (grown.renamed sound new) fun types rekeyed => ?_
          obtain ⟨keptSound, keeps, retypes⟩ :=
            grown.sound.withDescriptor fresh found different letter grammar named rekeyed
          exact (grown.renamed sound new).trans ⟨keptSound, keeps, retypes.shorties_iff grown.sound.outline,
            retypes.retitles grown.sound.outline⟩
      · simp only [different, letter, ne_eq, not_false_eq_true, if_true]
        exact refused _

end DexFile
end DexArsc.Dex
