/-
Edits that fail. A class or a member that is refused leaves all items as they are, since every check stands
before the first new item. Only code whose instructions cannot be linked fails behind it.
-/

import DexArsc.Proofs.Dex.Edit.Coherent

namespace DexArsc.Dex

/-- A member of class data is live. -/
theorem ClassData.Refs.live_of_hasField {data : ClassData} {file : DexFile} (refs : data.Refs (.members file))
    {id : Id FieldItem} (has : data.hasField id) : (file.fields.items.item? id).isSome := by
  obtain ⟨member, inside, named⟩ := List.any_eq_true.1 has
  exact refs.1 member inside id (beq_iff_eq.1 named)

theorem ClassData.Refs.live_of_hasMethod {data : ClassData} {file : DexFile} (refs : data.Refs (.members file))
    {id : Id MethodItem} (has : data.hasMethod id) : (file.methods.items.item? id).isSome := by
  obtain ⟨member, inside, named⟩ := List.any_eq_true.1 has
  exact (refs.2 member inside).1 id (beq_iff_eq.1 named)

namespace DexFile

variable {file between final : DexFile}

/-- An id that was live before its key was interned has been found. -/
theorem Coherent.sameItems_of_live (coherent : file.Coherent) {kind : Pooled} {key : kind.Key} {id : Id kind.Item}
    (run : kind.intern key file = .ok id final) (live : ((kind.items file).item? id).isSome) :
    file.SameItems final := by
  obtain ⟨old, named, _⟩ := coherent.keyOf?_of_live live
  obtain ⟨retains, _, here⟩ := coherent.interned run
  cases (retains.keys coherent kind id old named).symm.trans here
  obtain ⟨last, again, same⟩ := coherent.known named
  cases run.symm.trans again
  exact same

/-- A class that is defined has class data, or it receives new one without members. -/
theorem memberData_of_defined {id : Id ClassDef} (defined : file.classDefs.contains id) :
    ∃ data final, memberData id file = .ok data final ∧
      (final = file ∨ final.classData.item? data = some {}) := by
  rw [Section.contains_eq] at defined
  obtain ⟨item, found⟩ := Option.isSome_iff_exists.1 defined
  obtain ⟨type, flags, superclass, interfaces, sourceFile, annotations, ⟨raw, data⟩, staticValues⟩ := item
  unfold memberData
  rw [Step.bind_ok (Step.get_apply file), found]
  cases data with
  | some data => exact ⟨data, file, rfl, .inl rfl⟩
  | none =>
      refine ⟨_, _, rfl, .inr ?_⟩
      exact (Section.item?_push ..).trans (if_pos rfl)

theorem checkClass_eq_ok {id : Id ClassDef} : file.checkClass id = .ok () ↔ file.classDefs.contains id := by
  unfold checkClass
  cases file.classDefs.contains id <;> simp [pure, Except.pure, fail, throw, throwThe, MonadExceptOf.throw]

/-- Code that cannot be linked is refused before anything is done, and code has nothing to do with classes. -/
theorem addCode_ensures (item : CodeItem) (file : DexFile) :
    (addCode item).Ensures file (fun _ final => final.classDefs = file.classDefs)
      fun final => final = file ∧ ∃ cause, item.link file.ids = .error cause := by
  unfold addCode
  refine .get ?_
  cases linked : item.link file.ids with
  | ok code => exact rfl
  | error cause => exact ⟨rfl, cause, rfl⟩

/-- A class that is refused leaves the file as it is. -/
theorem Coherent.defineClass_error (coherent : file.Coherent) {descriptor : String} {flags : UInt32}
    {superclass : Option String} {fault : Fault}
    (run : defineClass descriptor flags superclass file = .error fault final) : final = file := by
  have ensures : (defineClass descriptor flags superclass).Ensures file (fun _ _ => True)
      fun final => final = file := by
    unfold defineClass
    refine .check rfl fun _ grammar => ?_
    simp only
    split
    case isFalse => exact rfl
    have checked : (superclass.forM fun descriptor =>
        (liftM (checkTypeDescriptor descriptor) : Step DexFile Unit)).Ensures file
          (fun _ between => between = file ∧ ∀ descriptor ∈ superclass, checkTypeDescriptor descriptor = .ok ())
          fun final => final = file := by
      cases superclass with
      | none => exact .of_ok rfl ⟨rfl, fun _ none => by cases none⟩
      | some descriptor =>
          refine .monadLift (fun _ passed => ⟨rfl, ?_⟩) rfl
          rintro _ ⟨⟩
          exact passed
    refine .bind checked fun _ between ⟨same, grammars⟩ => .get ?_
    subst same
    split
    · exact rfl
    obtain ⟨type, first, typed⟩ := coherent.intern_ok (show Pooled.type.check descriptor = .ok () from grammar)
    have above : ∃ ids last, superclass.mapM internType first = .ok ids last := by
      cases superclass with
      | none => exact ⟨_, _, rfl⟩
      | some descriptor =>
          have coherent := (coherent.interned typed).1.coherent coherent
          obtain ⟨id, last, run⟩ := coherent.intern_ok
            (show Pooled.type.check descriptor = .ok () from grammars descriptor rfl)
          exact ⟨some id, last, Step.map_eq_ok.2 ⟨id, run, rfl⟩⟩
    obtain ⟨ids, last, above⟩ := above
    exact .behind typed (.behind above trivial)
  exact ensures.error run

/-- A field that is refused leaves all items as they are. -/
theorem Coherent.addField_error (coherent : file.Coherent) {id : Id ClassDef} {key : FieldKey} {flags : UInt32}
    {fault : Fault} (run : addField id key flags file = .error fault final) : file.SameItems final := by
  have ensures : (addField id key flags).Ensures file (fun _ _ => True) file.SameItems := by
    unfold addField
    refine .get (.check (.refl file) fun _ defined => ?_)
    cases interned : Pooled.field.intern key file with
    | error fault between => exact .stop interned (coherent.refused interned ▸ .refl file)
    | ok field between =>
        have others := (coherent.interned interned).2.1.others
        have classDefs : between.classDefs = file.classDefs := by rw [others]
        have classData : between.classData = file.classData := by rw [others]
        obtain ⟨data, last, housed, outcome⟩ := memberData_of_defined (classDefs ▸ checkClass_eq_ok.1 defined)
        refine .behind interned (.behind housed (.get ?_))
        simp only
        split
        case isFalse => trivial
        rename_i has
        obtain ⟨members, found, has⟩ := (Option.any_eq_true _ _).1 has
        rcases outcome with rfl | new
        · exact coherent.sameItems_of_live interned
            ((coherent.members data members (classData ▸ found)).live_of_hasField has)
        · cases found.symm.trans new
          cases has
  exact ensures.error run

/-- A method that is refused leaves all items as they are, unless it comes with code that cannot be linked. Then
the ids for its key are new. -/
theorem Coherent.addMethod_error (coherent : file.Coherent) {id : Id ClassDef} {key : MethodKey} {flags : UInt32}
    {code : Option CodeItem} {fault : Fault} (run : addMethod id key flags code file = .error fault final) :
    file.SameItems final ∨ ∃ item method cause, code = some item ∧ internMethod key file = .ok method final ∧
      item.link final.ids = .error cause := by
  have ensures : (addMethod id key flags code).Ensures file (fun _ _ => True) fun final =>
      file.SameItems final ∨ ∃ item method cause, code = some item ∧ internMethod key file = .ok method final ∧
        item.link final.ids = .error cause := by
    unfold addMethod
    refine .get (.check (.inl (.refl file)) fun _ defined => ?_)
    cases interned : Pooled.method.intern key file with
    | error fault between => exact .stop interned (.inl (coherent.refused interned ▸ .refl file))
    | ok method between =>
        have others := (coherent.interned interned).2.1.others
        have classDefs : between.classDefs = file.classDefs := by rw [others]
        have classData : between.classData = file.classData := by rw [others]
        refine .behind interned (.get ?_)
        simp only
        split
        · rename_i has
          obtain ⟨members, found, has⟩ := (Option.any_eq_true _ _).1 has
          obtain ⟨_, _, found⟩ := Option.bind_eq_some_iff.1 found
          obtain ⟨data, _, found⟩ := Option.bind_eq_some_iff.1 found
          exact .inl (coherent.sameItems_of_live interned
            ((coherent.members data members (classData ▸ found)).live_of_hasMethod has))
        have coded : (code.mapM addCode).Ensures between (fun _ first => first.classDefs = file.classDefs)
            fun final => file.SameItems final ∨ ∃ item method cause, code = some item ∧
              internMethod key file = .ok method final ∧ item.link final.ids = .error cause := by
          cases code with
          | none => exact classDefs
          | some item =>
              refine .map ((addCode_ensures item between).imp (fun _ _ same => same.trans classDefs) ?_)
              rintro _ ⟨rfl, cause, failed⟩
              exact .inr ⟨item, method, cause, rfl, interned, failed⟩
        refine .bind coded fun ids first classDefs => ?_
        obtain ⟨data, last, housed, _⟩ := memberData_of_defined (classDefs ▸ checkClass_eq_ok.1 defined)
        exact .behind housed trivial
  exact ensures.error run

end DexFile
end DexArsc.Dex

namespace DexArsc.Dex

/-- The edit that interns a key. -/
def Pooled.edit : (kind : Pooled) → kind.Key → Edit
  | string => Edit.internString
  | type => Edit.internType
  | typeList => Edit.internTypeList
  | proto => Edit.internProto
  | field => Edit.internField
  | method => Edit.internMethod

theorem Pooled.step_edit (kind : Pooled) (key : kind.Key) :
    (kind.edit key).step = Functor.discard (kind.intern key) := by
  cases kind <;> rfl

namespace DexFile

variable {first file final : DexFile}

/-- What renaming leaves of a coherent file is coherent. -/
theorem Coherent.of_recasts {names types : String → String} (coherent : file.Coherent)
    (sound : final.unclassed.Sound) (recasts : file.Recasts names types final) : final.Coherent := by
  have lists : final.outline.list = file.outline.list := by
    unfold outline
    rw [recasts.others]
  refine ⟨sound, lists ▸ coherent.lists, ?_⟩
  rw [recasts.others]
  exact coherent.members.imp fun _ refs => refs.imp (RefTest.members_implies (fun _ live => live) fun _ live => live)

/-- Key maps do not count, as long as they are sound. -/
theorem Coherent.of_sameItems (coherent : file.Coherent) (sound : final.unclassed.Sound)
    (same : file.SameItems final) : final.Coherent := by
  refine ⟨sound, same.outline ▸ coherent.lists, ?_⟩
  rw [show final.classData = file.classData from same.items .classData]
  refine coherent.members.imp fun _ refs => refs.imp (RefTest.members_implies ?_ ?_)
  · exact fun _ live => same.fields ▸ live
  · exact fun _ live => same.methods ▸ live

theorem Coherent.of_turns {names types : String → String} {old new : String} (coherent : file.Coherent)
    (sound : final.unclassed.Sound) (turns : file.Turns names types old new final) : final.Coherent := by
  by_cases equal : old = new
  · exact coherent.of_sameItems sound (turns.same equal)
  · exact coherent.of_recasts sound (turns.recasts equal)

/-- Renaming a string of a coherent file: the new text stands for the old one in all keys, or nothing changes. -/
theorem Coherent.renameString (coherent : file.Coherent) (id : Id StringItem) (text : String) :
    (DexFile.renameString id text).Ensures file
      (fun _ final => final.Coherent ∧ ∃ old, Pooled.string.keyOf? file id = some old ∧
        file.Turns (substitute old text) (substitute old text) old text final ∧
        final.strings.items.indexOf? = file.strings.items.indexOf?)
      fun final => final.Coherent ∧ file.SameItems final := by
  refine ((IgnoresClasses.renameString id text).ensures (coherent.sound.recasts_renameString id text)).imp ?_ ?_
  · rintro _ final ⟨⟨sound, old, named, turns, places⟩, classes⟩
    have turns := turns.of_unclassed classes
    exact ⟨coherent.of_turns sound turns, old, named, turns, places⟩
  · rintro final ⟨⟨sound, same⟩, classes⟩
    have same := same.of_unclassed classes
    exact ⟨coherent.of_sameItems sound same, same⟩

/-- Renaming a type of a coherent file: the new descriptor stands for the old one in all keys, or nothing changes. -/
theorem Coherent.renameType (coherent : file.Coherent) (id : Id TypeItem) (new : String) :
    (DexFile.renameType id new).Ensures file
      (fun _ final => final.Coherent ∧ ∃ old, Pooled.type.keyOf? file id = some old ∧
        file.Turns (fun text => text) (substitute old new) old new final)
      fun final => final.Coherent ∧ file.SameItems final := by
  refine ((IgnoresClasses.renameType id new).ensures (coherent.sound.recasts_renameType id new)).imp ?_ ?_
  · rintro _ final ⟨⟨sound, old, named, turns⟩, classes⟩
    have turns := turns.of_unclassed classes
    exact ⟨coherent.of_turns sound turns, old, (congrFun (coherent.keyOf?_eq .type) id).trans named, turns⟩
  · rintro final ⟨⟨sound, same⟩, classes⟩
    have same := same.of_unclassed classes
    exact ⟨coherent.of_sameItems sound same, same⟩

theorem coherent_empty : ({} : DexFile).Coherent :=
  ⟨sound_empty, fun _ _ _ found => (by cases found), fun _ _ found => (by cases found)⟩

theorem Later.built (later : Later first file) (built : first.Built) : file.Built := by
  induction later with
  | here => exact built
  | edit _ edit ih => exact ih.edit edit
  | changeClass _ id change ih => exact ih.changeClass id change
  | changeCode _ id change ih => exact ih.changeCode id change
  | changeDebugInfo _ id change ih => exact ih.changeDebugInfo id change

/-- A coherent file is coherent behind every edit. -/
theorem Coherent.after (coherent : file.Coherent) (built : file.Built) (edit : Edit) :
    (edit.after file).Coherent := by
  have ends := edit.ends_after file
  cases renames : edit.newText? with
  | none => exact (retains_after built renames).coherent coherent
  | some text =>
      cases edit with
      | renameString id text =>
          rcases ends with ⟨_, run⟩ | ⟨_, run⟩
          · exact ((coherent.renameString id text).ok run).1
          · exact ((coherent.renameString id text).error run).1
      | renameType id text =>
          rcases ends with ⟨_, run⟩ | ⟨_, run⟩
          · exact ((coherent.renameType id text).ok run).1
          · exact ((coherent.renameType id text).error run).1
      | _ => cases renames

/-- A file that is built from nothing is coherent. -/
theorem Later.coherent (later : Later {} file) : file.Coherent := by
  induction later with
  | here => exact coherent_empty
  | edit later edit ih => exact ih.after (later.built .new) edit
  | changeClass _ id change ih => exact (Retains.classDefs _).coherent ih
  | changeCode _ id change ih => exact (Retains.codes fun valid => valid.modify id change).coherent ih
  | changeDebugInfo _ id change ih => exact (Retains.debugInfos fun valid => valid.modify id change).coherent ih

/-- Files that are reached from a first one without a rename that succeeds. -/
inductive Unrenamed (first : DexFile) : DexFile → Prop
  | here : Unrenamed first first
  | edit {file : DexFile} (later : Unrenamed first file) {edit : Edit} (other : edit.newText? = none) :
      Unrenamed first (edit.after file)
  | refused {file final : DexFile} (later : Unrenamed first file) {edit : Edit} {fault : Fault}
      (run : edit.step file = .error fault final) : Unrenamed first final
  | changeClass {file : DexFile} (later : Unrenamed first file) (id : Id ClassDef) (change : ClassDef → ClassDef) :
      Unrenamed first { file with classDefs := file.classDefs.modify id change }
  | changeCode {file : DexFile} (later : Unrenamed first file) (id : Id CodeItem) (change : CodeItem → CodeItem) :
      Unrenamed first { file with codes := file.codes.modify id change }
  | changeDebugInfo {file : DexFile} (later : Unrenamed first file) (id : Id DebugInfo)
      (change : DebugInfo → DebugInfo) :
      Unrenamed first { file with debugInfos := file.debugInfos.modify id change }

/-- As long as nothing is renamed, every item has its key. -/
theorem Unrenamed.retains (unrenamed : first.Unrenamed file) (built : first.Built) :
    file.Built ∧ first.Retains file := by
  induction unrenamed with
  | here => exact ⟨built, .refl first⟩
  | @edit file _ edit other ih =>
      exact ⟨ih.1.edit edit, ih.2.trans (retains_after ih.1 other)⟩
  | @refused file final _ edit fault run ih =>
      have ends : edit.after file = final := by rw [Edit.after, run]
      refine ⟨ends ▸ ih.1.edit edit, ih.2.trans ?_⟩
      cases renames : edit.newText? with
      | none => exact ends ▸ retains_after ih.1 renames
      | some text =>
          refine .of_coherent fun coherent => ?_
          obtain ⟨kept, same⟩ : final.Coherent ∧ file.SameItems final := by
            cases edit with
            | renameString id text => exact (coherent.renameString id text).error run
            | renameType id text => exact (coherent.renameType id text).error run
            | _ => cases renames
          exact .of_outline kept same.outline
  | changeClass _ id change ih => exact ⟨ih.1.changeClass id change, ih.2.trans (.classDefs _)⟩
  | changeCode _ id change ih =>
      exact ⟨ih.1.changeCode id change, ih.2.trans (.codes fun valid => valid.modify id change)⟩
  | changeDebugInfo _ id change ih =>
      exact ⟨ih.1.changeDebugInfo id change, ih.2.trans (.debugInfos fun valid => valid.modify id change)⟩

/-- In a file that is built from nothing, a key that follows the grammar is interned. This yields an item with the
key behind items that all stay as they are, and it finds this item again until something is renamed. A key, a
class or a field that is refused leaves all items as they are. -/
theorem interned_of_later (later : Later {} file) :
    (∀ (kind : Pooled) (key : kind.Key), kind.check key = .ok () → ∃ id final, kind.intern key file = .ok id final) ∧
    (∀ (kind : Pooled) (key : kind.Key) (id : Id kind.Item) (final : DexFile), kind.intern key file = .ok id final →
      kind.keyOf? final id = some key ∧ file.Appends final ∧
      (∀ other : Pooled, Within (other.keyOf? file) (other.keyOf? final)) ∧
      ∀ after, final.Unrenamed after → ∃ last, kind.intern key after = .ok id last ∧ after.SameItems last) ∧
    (∀ (kind : Pooled) (key : kind.Key) (fault : Fault) (final : DexFile),
      kind.intern key file = .error fault final → final = file) ∧
    (∀ descriptor flags superclass fault final,
      defineClass descriptor flags superclass file = .error fault final → final = file) ∧
    ∀ id key flags fault final, addField id key flags file = .error fault final → file.SameItems final := by
  have coherent := later.coherent
  have built := later.built .new
  refine ⟨fun kind key => coherent.intern_ok, fun kind key id final run => ?_,
    fun kind key fault final => coherent.refused, fun _ _ _ _ _ => coherent.defineClass_error,
    fun _ _ _ _ _ => coherent.addField_error⟩
  obtain ⟨retains, appends, named⟩ := coherent.interned run
  refine ⟨named, appends, retains.keys coherent, fun after unrenamed => ?_⟩
  have grown : final.Built := Edit.after_of_ok (kind.step_edit key) run ▸ built.edit (kind.edit key)
  obtain ⟨_, keeps⟩ := unrenamed.retains grown
  have kept := retains.coherent coherent
  exact (keeps.coherent kept).known (keeps.keys kept kind id key named)

/-- A field that is interned in the empty file is found again behind the definition of its class. -/
theorem interned_of_later_field :
    let key : FieldKey := { owner := "LA;", name := "a", type := "I" }
    ∃ id final last, internField key {} = .ok id final ∧ Pooled.field.keyOf? final id = some key ∧
      internField key ((Edit.defineClass "LA;" 1 none).after final) = .ok id last := by
  intro key
  have grammar : Pooled.field.check key = .ok () := by decide +kernel
  obtain ⟨interns, yields, _⟩ := interned_of_later .here
  obtain ⟨id, final, run⟩ := interns .field key grammar
  obtain ⟨named, _, _, again⟩ := yields .field key id final run
  have unrenamed : final.Unrenamed ((Edit.defineClass "LA;" 1 none).after final) := .edit .here rfl
  obtain ⟨last, rerun, _⟩ := again _ unrenamed
  exact ⟨id, final, last, run, named, rerun⟩

/-- In a file that is built from nothing, a method that is refused leaves all items as they are, unless it comes
with code that cannot be linked behind the ids for its key. -/
theorem addMethod_error_of_later (later : Later {} file) {id : Id ClassDef} {key : MethodKey} {flags : UInt32}
    {code : Option CodeItem} {fault : Fault} (run : addMethod id key flags code file = .error fault final) :
    file.SameItems final ∨ ∃ item method cause, code = some item ∧ internMethod key file = .ok method final ∧
      file.Appends final ∧ item.link final.ids = .error cause := by
  have coherent := later.coherent
  rcases coherent.addMethod_error run with same | ⟨item, method, cause, here, interned, failed⟩
  · exact .inl same
  · obtain ⟨_, appends, _⟩ := coherent.interned (show Pooled.method.intern key file = .ok method final from interned)
    exact .inr ⟨item, method, cause, here, interned, appends, failed⟩

/-- Code that ends within an instruction is refused behind the new id of its method. -/
theorem addMethod_error_of_later_truncated :
    let file := (Edit.defineClass "LA;" 1 none).after {}
    let key : MethodKey := { owner := "LA;", name := "m", prototype := { returnType := "V", parameters := [] } }
    let code : CodeItem := { units := #[0x001a] }
    ∃ fault final method, addMethod ⟨0⟩ key 1 (some code) file = .error fault final ∧
      internMethod key file = .ok method final ∧ ¬file.SameItems final := by
  intro file key code
  have later : Later {} file := .edit .here (.defineClass "LA;" 1 none)
  have run : defineClass "LA;" 1 none {} = _ := defineClass_of_new ⟨rfl, rfl, rfl, rfl, rfl⟩ 1 (by decide)
    (by decide +kernel) rfl Std.HashMap.getElem?_empty Std.HashMap.getElem?_empty
  have file_eq : file = _ := Edit.after_of_ok rfl run
  have grammar : Pooled.method.check key = .ok () := by decide +kernel
  obtain ⟨method, between, interned⟩ := later.coherent.intern_ok grammar
  obtain ⟨_, appends, named⟩ := later.coherent.interned interned
  have classDefs : between.classDefs = file.classDefs := by rw [appends.others]
  have defined : file.classDefs.item? ⟨0⟩ = some { type := .ofId ⟨0⟩, flags := 1 } := by
    rw [file_eq]
    rfl
  have fails : ∃ fault, addMethod ⟨0⟩ key 1 (some code) file = .error fault between := by
    have checked : file.checkClass ⟨0⟩ = .ok () := checkClass_eq_ok.2 (by rw [Section.contains_eq, defined]; rfl)
    have absent : between.classDataOf? ⟨0⟩ = none := by
      rw [classDataOf?, classDefs, defined]
      rfl
    unfold addMethod
    rw [Step.bind_ok (Step.get_apply file), checked]
    change ∃ fault, (internMethod key >>= _) file = _
    rw [Step.bind_ok (show internMethod key file = .ok method between from interned),
      Step.bind_ok (Step.get_apply between), absent]
    exact ⟨_, rfl⟩
  obtain ⟨fault, fails⟩ := fails
  have new : ¬file.SameItems between := fun same => by
    have live := Section.isSome_of_keyOf? (Option.isSome_iff_exists.2 ⟨key, named⟩)
    rw [Pooled.items_of_sameItems same, file_eq] at live
    cases live
  rcases addMethod_error_of_later later fails with same | ⟨_, method, _, _, interned, _⟩
  · exact absurd same new
  · exact ⟨fault, between, method, fails, interned, new⟩

end DexFile
end DexArsc.Dex

namespace DexArsc.Dex.DexFile

variable {file final : DexFile} {names types : String → String}

/-- Interning behind a rename: a recast key yields the item that had the key before, and a key that has been
recast into another one yields a new item. -/
structure Refinds (file : DexFile) (names types : String → String) (final : DexFile) : Prop where
  found : ∀ (kind : Pooled) (id : Id kind.Item) (key : kind.Key), kind.keyOf? file id = some key →
    ∃ last, kind.intern (kind.recast names types key) final = .ok id last ∧ final.SameItems last
  new : ∀ (kind : Pooled) (id : Id kind.Item) (key : kind.Key), kind.keyOf? file id = some key →
    kind.recast names types key ≠ key → ∃ other last, kind.intern key final = .ok other last ∧
      (kind.items final).item? other = none ∧ kind.keyOf? last other = some key ∧ final.Appends last

/-- No item has a key that has been recast into another one. -/
theorem Recasts.free (recasts : file.Recasts names types final) (coherent : file.Coherent)
    (sameNames : ∀ text, names (names text) = names text) (sameTypes : ∀ text, types (types text) = types text)
    (strings : final.strings.items.indexOf? = file.strings.items.indexOf? ∨ ∀ text, names text = text)
    {kind : Pooled} {key : kind.Key} (other : kind.recast names types key ≠ key) (id : Id kind.Item) :
    kind.keyOf? final id ≠ some key := by
  intro named
  have places : (kind.items final).indexOf? id = (kind.items file).indexOf? id := by
    by_cases plain : kind = .string
    · subst plain
      rcases strings with same | same
      · exact congrFun same id
      · exact absurd (same key) other
    · exact congrFun (recasts.index kind plain) id
  have live := Section.isSome_of_keyOf? (Option.isSome_iff_exists.2 ⟨key, named⟩)
  rw [← Section.isSome_indexOf?, places, Section.isSome_indexOf?] at live
  obtain ⟨old, before, _⟩ := coherent.keyOf?_of_live live
  have image := (recasts.keys kind id old before).symm.trans named
  rw [← Option.some.inj image, kind.recast_recast sameNames sameTypes] at other
  exact other rfl

theorem Recasts.refinds (recasts : file.Recasts names types final) (coherent : file.Coherent)
    (kept : final.Coherent) (sameNames : ∀ text, names (names text) = names text)
    (sameTypes : ∀ text, types (types text) = types text)
    (strings : final.strings.items.indexOf? = file.strings.items.indexOf? ∨ ∀ text, names text = text) :
    file.Refinds names types final where
  found kind id key named := kept.known (recasts.keys kind id key named)
  new kind id key named other := by
    obtain ⟨same, here, grammar⟩ := coherent.keyOf?_of_live
      (Section.isSome_of_keyOf? (Option.isSome_iff_exists.2 ⟨key, named⟩))
    cases named.symm.trans here
    obtain ⟨fresh, last, run⟩ := kept.intern_ok grammar
    obtain ⟨retains, appends, found⟩ := kept.interned run
    refine ⟨fresh, last, run, ?_, found, appends⟩
    by_contra live
    obtain ⟨before, there, _⟩ := kept.keyOf?_of_live (Option.isSome_iff_ne_none.2 live)
    cases (retains.keys kept kind fresh before there).symm.trans found
    exact recasts.free coherent sameNames sameTypes strings other fresh there

/-- In a file that is built from nothing, renaming a string or a type recasts exactly the keys that are built on it,
all ids and indexes stay, and interning follows. A rename that fails leaves all items as they are. -/
theorem renamed_of_later (later : Later {} file) :
    (∀ id text final, renameString id text file = .ok () final →
      ∃ old, Pooled.string.keyOf? file id = some old ∧
        file.Turns (substitute old text) (substitute old text) old text final ∧
        final.strings.items.indexOf? = file.strings.items.indexOf? ∧
        (old ≠ text → file.Refinds (substitute old text) (substitute old text) final)) ∧
    (∀ id new final, renameType id new file = .ok () final →
      ∃ old, Pooled.type.keyOf? file id = some old ∧
        file.Turns (fun text => text) (substitute old new) old new final ∧
        (old ≠ new → file.Refinds (fun text => text) (substitute old new) final)) ∧
    (∀ id text fault final, renameString id text file = .error fault final → file.SameItems final) ∧
    ∀ id new fault final, renameType id new file = .error fault final → file.SameItems final := by
  have coherent := later.coherent
  refine ⟨fun id text final run => ?_, fun id new final run => ?_,
    fun id text fault final run => ((coherent.renameString id text).error run).2,
    fun id new fault final run => ((coherent.renameType id new).error run).2⟩
  · obtain ⟨kept, old, named, turns, places⟩ := (coherent.renameString id text).ok run
    exact ⟨old, named, turns, places, fun other => (turns.recasts other).refinds coherent kept
      substitute_substitute substitute_substitute (.inl places)⟩
  · obtain ⟨kept, old, named, turns⟩ := (coherent.renameType id new).ok run
    exact ⟨old, named, turns, fun other => (turns.recasts other).refinds coherent kept
      (fun _ => rfl) substitute_substitute (.inr fun _ => rfl)⟩

/-- Behind the rename of the string of a type, the new descriptor yields the type, and the old one a new type. -/
theorem renamed_of_later_type :
    let file := (Edit.internType "LA;").after {}
    ∃ final last, renameString ⟨0⟩ "LB;" file = .ok () final ∧ internType "LB;" final = .ok ⟨0⟩ last ∧
      ∃ other last, internType "LA;" final = .ok other last ∧ final.types.items.item? other = none := by
  intro file
  have later : Later {} file := .edit .here (.internType "LA;")
  have fresh : ({} : DexFile).Fresh := ⟨rfl, rfl, rfl, rfl, rfl⟩
  have run := internType_of_new fresh (show checkTypeDescriptor "LA;" = .ok () by decide +kernel)
    Std.HashMap.getElem?_empty Std.HashMap.getElem?_empty
  have file_eq : file = withNewType {} "LA;" := Edit.after_of_ok rfl run
  have renames : ∃ final, renameString ⟨0⟩ "LB;" file = .ok () final := by
    rw [file_eq]
    have free : (withNewType {} "LA;").strings.keys[StringData.decoded "LB;"]? = none := by
      change ((∅ : Std.HashMap StringData (Id StringItem)).insert _ _)[_]? = none
      simp
    have roles : (withNewType {} "LA;").checkRole ⟨0⟩ (StringData.decoded "LA;").lossyText "LB;" = .ok () := by
      decide +kernel
    unfold renameString
    rw [Step.bind_ok (rebuildKeys_of_fresh (fresh.withNewType "LA;")), Step.bind_ok (Step.get_apply _)]
    change ∃ final, (liftM ((withNewType {} "LA;").checkRole ⟨0⟩ (StringData.decoded "LA;").lossyText "LB;") >>= _ :
      Step DexFile Unit) _ = _
    rw [roles]
    change ∃ final, (liftM ((withNewType {} "LA;").strings.rekey ⟨0⟩ (.decoded "LA;") (.decoded "LB;")) >>= _ :
      Step DexFile Unit) _ = _
    rw [Pool.rekey, free]
    exact ⟨_, rfl⟩
  obtain ⟨final, renames⟩ := renames
  obtain ⟨old, named, _, _, refinds⟩ := (renamed_of_later later).1 _ _ _ renames
  have here : Pooled.string.keyOf? file ⟨0⟩ = some "LA;" := by
    rw [file_eq]
    rfl
  cases here.symm.trans named
  have typed : Pooled.type.keyOf? file ⟨0⟩ = some "LA;" := by
    rw [file_eq]
    rfl
  have different : ("LA;" : String) ≠ "LB;" := by decide
  obtain ⟨found, new⟩ := refinds different
  obtain ⟨last, again, _⟩ := found .type ⟨0⟩ "LA;" typed
  obtain ⟨other, more, run, absent, _⟩ := new .type ⟨0⟩ "LA;" typed different.symm
  exact ⟨final, last, renames, again, other, more, run, absent⟩

end DexArsc.Dex.DexFile
