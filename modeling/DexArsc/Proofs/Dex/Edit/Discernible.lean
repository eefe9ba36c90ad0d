/-
Files whose strings may hold raw data. Strings are told apart by their values, but all other keys are built on
lossy texts. As long as the lossy texts differ, different items have different keys, whatever is renamed to a
text that no raw data has as its lossy text.
-/

import DexArsc.Proofs.Dex.Edit.Pooled
import DexArsc.Proofs.Dex.File.Read

namespace DexArsc.Dex.DexFile

variable {file final : DexFile} {id : Id StringItem} {text : String}

/-- The ids of a file with lossy texts in the place of raw data. -/
def transcript (file : DexFile) : DexFile :=
  { file.unclassed with
    strings.items := file.strings.items.map fun item => { item with value := .decoded item.value.lossyText } }

theorem string_transcript (file : DexFile) :
    file.transcript.outline.string = file.strings.items.keyOf? fun item => some item.value.lossyText := by
  funext id
  change ((file.strings.items.map _).item? id).bind _ = _
  rw [Section.item?_map, Option.bind_map]
  rfl

theorem all_transcript (file : DexFile) : file.transcript.strings.items.All fun item => item.value.text?.isSome := by
  intro id image found
  obtain ⟨_, _, rfl⟩ := Option.map_eq_some_iff.1 ((Section.item?_map ..).symm.trans found)
  rfl

theorem stringOf?_transcript (file : DexFile) : file.transcript.stringOf? = file.stringOf? := by
  funext ref
  rw [stringOf?_eq, stringOf?_eq]
  cases ref.item with
  | none => rfl
  | some id =>
      change ((file.strings.items.map _).item? id).map _ = _
      rw [Section.item?_map, Option.map_map]
      rfl

theorem typeKey?_transcript (file : DexFile) : file.transcript.typeKey? = file.typeKey? := by
  funext item
  exact congrFun file.stringOf?_transcript item.descriptor

theorem descriptorOf?_transcript (file : DexFile) : file.transcript.descriptorOf? = file.descriptorOf? := by
  funext ref
  rw [descriptorOf?_eq, descriptorOf?_eq, stringOf?_transcript]
  rfl

theorem protoKey?_transcript (file : DexFile) : file.transcript.protoKey? = file.protoKey? := by
  funext item
  rw [protoKey?_eq, protoKey?_eq]
  unfold parametersOf?
  rw [descriptorOf?_transcript]
  rfl

theorem fieldKey?_transcript (file : DexFile) : file.transcript.fieldKey? = file.fieldKey? := by
  funext item
  unfold fieldKey?
  rw [descriptorOf?_transcript, stringOf?_transcript]

theorem methodKey?_transcript (file : DexFile) : file.transcript.methodKey? = file.methodKey? := by
  funext item
  unfold methodKey?
  rw [descriptorOf?_transcript, stringOf?_transcript, protoKey?_transcript]
  rfl

/-- Every reference of the ids is linked, those of types to live strings. Different strings have different lossy
texts, and the other ids are built on different parts. -/
structure Discernible (file : DexFile) : Prop where
  valid : ∀ part : Part, (part.items file).Valid
  strings : file.strings.items.Valid
  complete : file.transcript.Complete
  live : ∀ id name, file.transcript.outline.type id = some name → (file.transcript.outline.string name).isSome
  distinct : file.transcript.outline.Distinct

/-- No raw data has a text as its lossy text. -/
def Plain (file : DexFile) (text : String) : Prop :=
  file.strings.items.All fun item => item.value.lossyText = text → item.value = .decoded text

namespace Discernible

theorem values (discernible : file.Discernible) :
    Separates (file.strings.items.keyOf? fun item => some item.value) := by
  intro first second value atFirst atSecond
  have texts := discernible.distinct.strings first second value.lossyText
  rw [string_transcript] at texts
  obtain ⟨item, found, same⟩ := Section.keyOf?_eq_some.1 atFirst
  obtain ⟨other, there, equal⟩ := Section.keyOf?_eq_some.1 atSecond
  cases same
  refine texts (Section.keyOf?_eq_some.2 ⟨item, found, rfl⟩) (Section.keyOf?_eq_some.2 ⟨other, there, ?_⟩)
  rw [Option.some.inj equal]

theorem typeKeys (discernible : file.Discernible) :
    file.types.items.keyOf? file.typeKey? = file.transcript.outline.descriptor? := by
  rw [← typeKey?_transcript]
  exact discernible.complete.keyOf?_types

/-- Different items of a discernible file have different keys. -/
theorem keysDistinct (discernible : file.Discernible) : file.KeysDistinct where
  strings := discernible.strings.nodup_keyed discernible.values
  types := (discernible.valid .typeId).nodup_keyed (by
    exact discernible.typeKeys ▸ discernible.distinct.separates_descriptor?)
  protos := (discernible.valid .protoId).nodup_keyed (by
    rw [← protoKey?_transcript]
    exact discernible.complete.keyOf?_protos ▸ discernible.distinct.separates_protoKey?)
  fields := (discernible.valid .fieldId).nodup_keyed (by
    rw [← fieldKey?_transcript]
    exact discernible.complete.keyOf?_fields ▸ discernible.distinct.separates_fieldKey?)
  methods := (discernible.valid .methodId).nodup_keyed (by
    rw [← methodKey?_transcript]
    exact discernible.complete.keyOf?_methods ▸ discernible.distinct.separates_methodKey?)

end Discernible

theorem SameItems.transcript (same : file.SameItems final) : file.transcript.SameItems final.transcript where
  strings := congrArg (fun items => Section.map items _) same.strings
  types := same.types
  protos := same.protos
  fields := same.fields
  methods := same.methods
  others := congrArg DexFile.transcript same.others

theorem SameItems.discernible (same : file.SameItems final) (discernible : file.Discernible) :
    final.Discernible where
  valid part := by
    rw [same.items]
    exact discernible.valid part
  strings := by
    rw [same.strings]
    exact discernible.strings
  complete := same.transcript.complete discernible.complete
  live := by
    rw [same.transcript.outline]
    exact discernible.live
  distinct := by
    rw [same.transcript.outline]
    exact discernible.distinct

theorem KeysKnown.trusted (known : file.KeysKnown) : file.KeysTrusted :=
  ⟨fun _ => known.strings, fun _ => known.types, fun _ => known.protos, fun _ => known.fields, fun _ => known.methods⟩

namespace Discernible

/-- A rebuild of the keys succeeds. -/
theorem rebuildKeys (discernible : file.Discernible) (trusted : file.KeysTrusted) : ∃ final,
    rebuildKeys file = .ok () final ∧ file.SameItems final ∧ final.Discernible ∧ final.KeysKnown := by
  obtain ⟨final, run, same, known⟩ := rebuildKeys_of_distinct discernible.valid discernible.strings
    discernible.keysDistinct trusted
  exact ⟨final, run, same, same.discernible discernible, known⟩

/-- Another pool of strings, in which a string has a text that tells it apart. -/
theorem putString (discernible : file.Discernible) {strings : Pool StringData StringItem}
    (valid : strings.items.Valid)
    (string : (transcript { file with strings }).outline.string =
      Function.update file.transcript.outline.string id (some text))
    (texts : Separates (Function.update file.transcript.outline.string id (some text))) :
    Discernible { file with strings } := by
  have outline : (transcript { file with strings }).outline = { file.transcript.outline with
      string := Function.update file.transcript.outline.string id (some text) } := by
    rw [← string]
    rfl
  exact {
    valid := fun part => by
      have valid := discernible.valid part
      cases part <;> exact valid
    strings := valid
    complete := { discernible.complete with strings := all_transcript _ }
    live := fun type name typed => by
      rw [outline] at typed ⊢
      have live := discernible.live type name typed
      simp only [Function.update_apply]
      split
      · rfl
      · exact live
    distinct := by
      rw [outline]
      exact { discernible.distinct with strings := texts } }

/-- A text that no string has as its value and no raw data as its lossy text. -/
theorem string_ne_of_plain (plain : file.Plain text)
    (free : ∀ id, file.strings.items.keyOf? (fun item => some item.value) id ≠ some (.decoded text))
    (id : Id StringItem) : file.transcript.outline.string id ≠ some text := by
  rw [string_transcript]
  intro taken
  obtain ⟨item, found, same⟩ := Section.keyOf?_eq_some.1 taken
  refine free id (Section.keyOf?_eq_some.2 ⟨item, found, ?_⟩)
  rw [plain id item found (Option.some.inj same)]

/-- A string receives a text that no raw data has as its lossy text, or its own lossy text. -/
theorem withText (discernible : file.Discernible) (known : file.KeysKnown) {item : StringItem}
    (found : file.strings.items.item? id = some item) (different : item.value ≠ .decoded text)
    (plain : file.Plain text ∨ file.transcript.outline.string id = some text)
    {strings : Pool StringData StringItem}
    (run : file.strings.rekey id item.value (.decoded text) = .ok strings) :
    (file.withText strings id text).Discernible ∧ (file.withText strings id text).KeysTrusted := by
  have valued := Section.keyOf?_of_item? found fun item => some item.value
  obtain ⟨items, _, free, reflects⟩ := (Pool.reflects_keyOf?.2 fun _ => known.strings).rekey known.strings.fresh
    valued different run
  have modified : (file.withText strings id text).strings.items =
      file.strings.items.modify id fun item => { item with value := .decoded text } :=
    congrArg (fun items => Section.modify items id _) items
  have string : (transcript { file with strings := (file.withText strings id text).strings }).outline.string =
      Function.update file.transcript.outline.string id (some text) := by
    rw [string_transcript, string_transcript]
    simp only [modified]
    rw [Section.keyOf?_modify, Section.keyOf?_of_item? found]
    rfl
  have texts : Separates (Function.update file.transcript.outline.string id (some text)) := by
    rcases plain with plain | own
    · exact discernible.distinct.strings.update id (string_ne_of_plain plain free)
    · rw [← own, Function.update_eq_self]
      exact discernible.distinct.strings
  have put := discernible.putString (modified ▸ discernible.strings.modify ..) string texts
  have same : SameItems { file with strings := (file.withText strings id text).strings }
      (file.withText strings id text) := ⟨rfl, rfl, rfl, rfl, rfl, rfl⟩
  refine ⟨same.discernible put, {
    strings := Pool.reflects_keyOf?.1 (by
      rw [modified, Section.keyOf?_modify, Section.keyOf?_of_item? found]
      exact reflects)
    types := fun stale => by cases stale
    protos := fun stale => by cases stale
    fields := fun stale => by cases stale
    methods := fun stale => by cases stale }⟩

theorem renameString (discernible : file.Discernible) (trusted : file.KeysTrusted)
    (plain : file.Plain text ∨ file.transcript.outline.string id = some text)
    (run : DexFile.renameString id text file = .ok () final) : final.Discernible ∧ final.KeysTrusted := by
  obtain ⟨between, rebuilt, same, discernible, known⟩ := discernible.rebuildKeys trusted
  have plain : between.Plain text ∨ between.transcript.outline.string id = some text := by
    rw [Plain, same.strings, same.transcript.outline]
    exact plain
  unfold DexFile.renameString at run
  rw [Step.bind_ok rebuilt, Step.bind_ok (Step.get_apply between)] at run
  cases found : between.strings.items.item? id with
  | none =>
      rw [found] at run
      cases run
  | some item =>
      simp only [found] at run
      split at run
      · rename_i different
        obtain ⟨_, _, run⟩ := Step.check_eq_ok.1 run
        obtain ⟨strings, rekeyed, run⟩ := Step.check_eq_ok.1 run
        cases run
        exact discernible.withText known found different plain rekeyed
      · cases run
        exact ⟨discernible, known.trusted⟩

/-- More strings, while types name the old ones. -/
theorem descriptor?_withStrings (discernible : file.Discernible) {strings : Pool StringData StringItem}
    (within : Within file.strings.items.item? strings.items.item?) :
    (transcript { file with strings }).outline.descriptor? = file.transcript.outline.descriptor? := by
  funext type
  change (file.transcript.outline.type type).bind (transcript { file with strings }).outline.string = _
  rw [Outline.descriptor?]
  cases typed : file.transcript.outline.type type with
  | none => rfl
  | some name =>
      obtain ⟨text, here⟩ := Option.isSome_iff_exists.1 (discernible.live type name typed)
      rw [Option.bind_some, Option.bind_some, here]
      rw [string_transcript] at here ⊢
      obtain ⟨item, found, same⟩ := Section.keyOf?_eq_some.1 here
      exact Section.keyOf?_eq_some.2 ⟨item, within name item found, same⟩

/-- A text that no raw data has as its lossy text is there, or it is one new string. -/
theorem internString (discernible : file.Discernible) (known : file.KeysKnown) (plain : file.Plain text) :
    ∃ name strings, DexFile.internString text file = .ok name { file with strings } ∧
      Discernible { file with strings } ∧ (strings.Trusted fun item => some item.value) ∧
      Within file.strings.items.item? strings.items.item? ∧
      (transcript { file with strings }).outline.string name = some text := by
  have reflects := Pool.reflects_keyOf?.2 fun _ => known.strings
  have run := internItem_apply DexFile.strings (fun strings file => { file with strings }) (StringData.decoded text)
    { value := .decoded text } (fun _ _ => rfl) rfl known.strings.fresh
  unfold DexFile.internString
  rw [Step.bind_ok (rebuildKeys_of_fresh known.fresh)]
  cases taken : file.strings.keys[StringData.decoded text]? with
  | some name =>
      rw [taken] at run
      obtain ⟨item, found, value⟩ := (known.strings.keys _ name).1 taken
      refine ⟨name, file.strings, run, discernible, fun _ => known.strings, .refl _, ?_⟩
      rw [string_transcript]
      exact Section.keyOf?_eq_some.2 ⟨item, found, by rw [Option.some.inj value]; rfl⟩
  | none =>
      rw [taken] at run
      have free (id : Id StringItem) :
          file.strings.items.keyOf? (fun item => some item.value) id ≠ some (.decoded text) := fun found => by
        rw [(reflects known.strings.fresh _ id).2 found] at taken
        cases taken
      have string : (file.withString text).transcript.outline.string =
          Function.update file.transcript.outline.string (file.strings.items.push { value := .decoded text }).1
            (some text) := by
        rw [string_transcript, string_transcript]
        exact Section.keyOf?_push ..
      refine ⟨_, _, run, ?_, ?_, Section.within_push _ _, ?_⟩
      · exact discernible.putString (discernible.strings.push _) string
          (discernible.distinct.strings.update _ (string_ne_of_plain plain free))
      · have pushed := reflects.pushKeyed taken { value := .decoded text } (Section.keyOf?_id_push ..)
        exact Pool.reflects_keyOf?.1 ((Section.keyOf?_push ..).symm ▸ pushed)
      · exact (congrFun string _).trans (Function.update_self ..)

/-- Another pool of types, in which a type is named by a live string that names no type. -/
theorem putType (discernible : file.Discernible) {types : Pool String TypeItem} {type : Id TypeItem}
    {name : Id StringItem} (valid : types.items.Valid)
    (linked : types.items.All fun item => item.descriptor.item.isSome)
    (label : (transcript { file with types }).outline.type =
      Function.update file.transcript.outline.type type (some name))
    (live : (file.transcript.outline.string name).isSome)
    (unnamed : ∀ other, file.transcript.outline.type other ≠ some name) : Discernible { file with types } := by
  have outline : (transcript { file with types }).outline = { file.transcript.outline with
      type := Function.update file.transcript.outline.type type (some name) } := by
    rw [← label]
    rfl
  exact {
    valid := fun part => by
      have old := discernible.valid part
      cases part with
      | typeId => exact valid
      | _ => exact old
    strings := discernible.strings
    complete := { discernible.complete with types := linked }
    live := fun other label typed => by
      rw [outline] at typed ⊢
      rcases update_eq_some typed with ⟨_, rfl⟩ | typed
      · exact live
      · exact discernible.live other label typed
    distinct := by
      rw [outline]
      exact { discernible.distinct with types := discernible.distinct.types.update type unnamed } }

/-- A type receives a string with a descriptor that no type has. -/
theorem withDescriptor (discernible : file.Discernible) (strings : file.strings.Trusted fun item => some item.value)
    (fresh : file.types.stale = false) (reflects : file.types.Reflects file.transcript.outline.descriptor?)
    {type : Id TypeItem} {old new : String} {name : Id StringItem}
    (found : file.transcript.outline.descriptor? type = some old) (different : old ≠ new)
    (named : file.transcript.outline.string name = some new) {types : Pool String TypeItem}
    (run : file.types.rekey type old new = .ok types) :
    (file.withDescriptor types type name).Discernible ∧ (file.withDescriptor types type name).KeysTrusted := by
  obtain ⟨items, _, free, reflects⟩ := reflects.rekey fresh found different run
  have modified : (file.withDescriptor types type name).types.items =
      file.types.items.modify type fun item => { descriptor := item.descriptor.setItem (some name) } :=
    congrArg (fun items => Section.modify items type _) items
  have label : (file.withDescriptor types type name).transcript.outline.type =
      Function.update file.transcript.outline.type type (some name) := by
    obtain ⟨former, typed, _⟩ := Option.bind_eq_some_iff.1 found
    obtain ⟨item, here, _⟩ := Section.keyOf?_eq_some.1 typed
    have here : file.types.items.item? type = some item := here
    change (file.withDescriptor types type name).types.items.keyOf? _ =
      Function.update (file.types.items.keyOf? _) _ _
    rw [modified, Section.keyOf?_modify, Section.keyOf?_of_item? here]
    rfl
  have valid : file.types.items.Valid := discernible.valid .typeId
  have put := discernible.putType (modified ▸ valid.modify ..)
    (modified ▸ discernible.complete.types.modify fun _ _ => rfl) label (by rw [named]; rfl)
    fun other typed => free other (Option.bind_eq_some_iff.2 ⟨name, typed, named⟩)
  have same : SameItems { file with types := (file.withDescriptor types type name).types }
      (file.withDescriptor types type name) := ⟨rfl, rfl, rfl, rfl, rfl, rfl⟩
  have discernible := same.discernible put
  have keys : (file.withDescriptor types type name).transcript.outline.descriptor? =
      Function.update file.transcript.outline.descriptor? type (some new) := by
    funext other
    change ((file.withDescriptor types type name).transcript.outline.type other).bind
      file.transcript.outline.string = _
    rw [label, Function.update_apply, Function.update_apply]
    split
    · exact named
    · rfl
  refine ⟨discernible, {
    strings
    types := Pool.reflects_keyOf?.1 (by
      rw [discernible.typeKeys, keys]
      exact reflects)
    protos := fun stale => by cases stale
    fields := fun stale => by cases stale
    methods := fun stale => by cases stale }⟩

theorem renameType (discernible : file.Discernible) (trusted : file.KeysTrusted) {type : Id TypeItem} {new : String}
    (plain : file.Plain new) (run : DexFile.renameType type new file = .ok () final) :
    final.Discernible ∧ final.KeysTrusted := by
  obtain ⟨between, rebuilt, same, discernible, known⟩ := discernible.rebuildKeys trusted
  have plain : between.Plain new := by
    rw [Plain, same.strings]
    exact plain
  unfold DexFile.renameType at run
  obtain ⟨_, _, run⟩ := Step.check_eq_ok.1 run
  rw [Step.bind_ok rebuilt, Step.bind_ok (Step.get_apply between)] at run
  cases told : (between.types.items.item? type).bind between.typeKey? with
  | none =>
      rw [told] at run
      cases run
  | some old =>
      have reflects : between.types.Reflects between.transcript.outline.descriptor? :=
        discernible.typeKeys ▸ Pool.reflects_keyOf?.2 fun _ => known.types
      have found : between.transcript.outline.descriptor? type = some old :=
        (congrFun discernible.typeKeys type).symm.trans told
      simp only [told] at run
      split at run
      · rename_i different
        obtain ⟨_, run⟩ := Step.guard_eq_ok.1 run
        obtain ⟨_, run⟩ := Step.guard_eq_ok.1 run
        obtain ⟨name, strings, interned, grown, trusted, within, named⟩ := discernible.internString known plain
        rw [Step.bind_ok interned, Step.bind_ok (Step.get_apply _)] at run
        obtain ⟨types, rekeyed, run⟩ := Step.check_eq_ok.1 run
        cases run
        have kept := discernible.descriptor?_withStrings within
        exact grown.withDescriptor trusted known.types.fresh (kept ▸ reflects) (kept ▸ found) different named rekeyed
      · cases run
        exact ⟨discernible, known.trusted⟩

/-- A string is renamed to a text that no string has and that follows the grammar of its roles. -/
theorem renameString_ok (discernible : file.Discernible) (trusted : file.KeysTrusted) {item : StringItem}
    (found : file.strings.items.item? id = some item) (roles : file.checkRole id item.value.lossyText text = .ok ())
    (new : file.strings.items.All fun item => item.value ≠ .decoded text) :
    ∃ final, DexFile.renameString id text file = .ok () final := by
  obtain ⟨between, rebuilt, same, _, known⟩ := discernible.rebuildKeys trusted
  have roles : between.checkRole id item.value.lossyText text = .ok () := by
    unfold checkRole isDescriptor isMemberName at roles ⊢
    rw [same.types, same.fields, same.methods]
    exact roles
  have absent : between.strings.keys[StringData.decoded text]? = none := by
    rw [Option.eq_none_iff_forall_ne_some]
    intro other taken
    obtain ⟨image, there, value⟩ := (known.strings.keys _ other).1 taken
    rw [same.strings] at there
    exact new other image there (Option.some.inj value)
  obtain ⟨strings, rekeyed⟩ : ∃ strings, between.strings.rekey id item.value (.decoded text) = .ok strings := by
    rw [Pool.rekey, absent]
    exact ⟨_, rfl⟩
  refine ⟨between.withText strings id text, ?_⟩
  unfold DexFile.renameString
  rw [Step.bind_ok rebuilt, Step.bind_ok (Step.get_apply between), same.strings, found]
  simp only [if_pos (new id item found)]
  exact Step.check_eq_ok.2 ⟨_, roles, Step.check_eq_ok.2 ⟨strings, rekeyed, rfl⟩⟩

end Discernible

/-- What reading comes to before it builds the keys: a file whose references are linked. -/
def Links (data : Bytes) (options : ReadOptions) (linked : DexFile) : Prop :=
  ∃ header map start loaded, (readHead options).run data = .ok (header, map) ∧
    loadLayout data options { header, layout := [] } map.byOffset = .ok start ∧
    ((map.items.filter (·.kind.isModelled)).mergeSort fun a b => a.kind.readRank ≤ b.kind.readRank).foldlM
      (fun file entry => Except.within s!"{entry.kind.title} at 0x{Text.hex entry.offset.toNat}"
        (loadSection data file entry)) start.completeLayout = .ok loaded ∧
    link { loaded with map, readClasses := loaded.classDefs.size } = .ok () linked

variable {data : Bytes} {options : ReadOptions} {linked : DexFile}

theorem Links.read (links : Links data options linked) (run : rebuildKeys linked = .ok () final) :
    DexFile.read data options = .ok final := by
  obtain ⟨header, map, start, loaded, head, layout, sections, links⟩ := links
  unfold DexFile.read
  refine Except.bind_eq_ok.2 ⟨_, head, Except.bind_eq_ok.2 ⟨_, layout, Except.bind_eq_ok.2 ⟨loaded, sections, ?_⟩⟩⟩
  dsimp only
  rw [Step.bind_ok links, run]

/-- The keys of a file that is read wait for the rebuild. -/
theorem Links.unread (links : Links data options linked) : linked.Unread := by
  obtain ⟨header, map, start, loaded, _, layout, sections, links⟩ := links
  obtain ⟨entries, raws, rfl⟩ := loadLayout_keeps layout
  obtain ⟨complete, completes, _⟩ := completeLayout_eq { header, raws, layout := entries }
  rw [completes] at sections
  have empty : Unread { header, raws, layout := complete } :=
    ⟨⟨rfl, .inr rfl⟩, ⟨rfl, .inr rfl⟩, ⟨rfl, .inr rfl⟩, ⟨rfl, .inr rfl⟩, ⟨rfl, .inr rfl⟩⟩
  obtain ⟨strings, types, protos, fields, methods⟩ := empty.loadSections sections
  rw [(link_eq_ok.1 links).1]
  apply Unread.linked
  exact ⟨strings, types, protos, fields, methods⟩

/-- Files that are reached by renaming strings and types to texts that no raw data has as its lossy text, where
a string may receive its own lossy text. -/
inductive Relabels (file : DexFile) : DexFile → Prop
  | refl : Relabels file file
  | string {between final : DexFile} {id : Id StringItem} {text : String} (relabels : Relabels file between)
      (plain : between.Plain text ∨ between.transcript.outline.string id = some text)
      (run : renameString id text between = .ok () final) : Relabels file final
  | type {between final : DexFile} {id : Id TypeItem} {text : String} (relabels : Relabels file between)
      (plain : between.Plain text) (run : renameType id text between = .ok () final) : Relabels file final

theorem Relabels.discernible (relabels : file.Relabels final) (discernible : file.Discernible)
    (trusted : file.KeysTrusted) : final.Discernible ∧ final.KeysTrusted := by
  induction relabels with
  | refl => exact ⟨discernible, trusted⟩
  | string _ plain run ih => exact ih.1.renameString ih.2 plain run
  | type _ plain run ih => exact ih.1.renameType ih.2 plain run

/-- Different strings with different lossy texts suffice for different keys: reading builds the keys of a file, and
after each renaming to a text that no raw data has as its lossy text the next search builds them anew. -/
theorem keysDistinct_of_discernible (discernible : file.Discernible) :
    (∀ data options, Links data options file →
      ∃ image, read data options = .ok image ∧ image.Discernible ∧ image.KeysKnown) ∧
    (file.KeysTrusted → ∀ final, file.Relabels final →
      final.KeysDistinct ∧ ∃ rebuilt, rebuildKeys final = .ok () rebuilt ∧ rebuilt.KeysKnown) := by
  refine ⟨fun data options links => ?_, fun trusted final relabels => ?_⟩
  · obtain ⟨image, run, _, after, known⟩ :=
      discernible.rebuildKeys (links.unread.keysTrusted discernible.strings discernible.valid)
    exact ⟨image, links.read run, after, known⟩
  · obtain ⟨after, trusted⟩ := relabels.discernible discernible trusted
    obtain ⟨rebuilt, run, _, _, known⟩ := after.rebuildKeys trusted
    exact ⟨after.keysDistinct, rebuilt, run, known⟩

/-- A descriptor with a lone surrogate. -/
def loneDescriptor : StringData :=
  .raw 3 [0x4C, 0xED, 0xA0, 0x80, 0x3B]

/-- A descriptor with a stray byte. -/
def strayDescriptor : StringData :=
  .raw 3 [0x4C, 0xFF, 0x3B]

/-- Two types whose descriptors are raw data with different lossy texts. -/
def undecodable : DexFile :=
  invalidateMembers {
    strings := {
      items := ((({ kind := .stringId } : Section StringItem).push { value := loneDescriptor }).2.push
        { value := strayDescriptor }).2
      stale := true }
    types := {
      items := ((({ kind := .typeId } : Section TypeItem).push { descriptor := .ofId ⟨0⟩ }).2.push
        { descriptor := .ofId ⟨1⟩ }).2
      stale := true } }

theorem discernible_undecodable : undecodable.Discernible := by
  have all {α : Type} (kind : SectionKind) (property : α → Prop) : ({ kind } : Section α).All property :=
    Section.all_empty kind
  have empty {α β : Type} : Separates fun _ : α => (none : Option β) := fun _ _ _ found => by cases found
  have two {α β : Type} [DecidableEq α] (a b : α) (x y : β) (differ : y ≠ x) :
      Separates (Function.update (Function.update (fun _ => none) a (some x)) b (some y)) := by
    refine (empty.update a fun _ taken => by cases taken).update b fun other taken => ?_
    rcases update_eq_some taken with ⟨_, same⟩ | taken
    · exact differ same
    · cases taken
  have strings : undecodable.transcript.outline.string = Function.update (Function.update (fun _ => none) ⟨0⟩
      (some loneDescriptor.lossyText)) ⟨1⟩ (some strayDescriptor.lossyText) := by
    rw [string_transcript]
    refine (Section.keyOf?_push ..).trans ?_
    rw [Section.keyOf?_push]
    rfl
  have types : undecodable.transcript.outline.type =
      Function.update (Function.update (fun _ => none) ⟨0⟩ (some ⟨0⟩)) ⟨1⟩ (some ⟨1⟩) := by
    change undecodable.types.items.keyOf? _ = _
    refine (Section.keyOf?_push ..).trans ?_
    rw [Section.keyOf?_push]
    rfl
  exact {
    valid := fun part => by
      cases part with
      | typeId => exact ((Section.valid_empty _).push _).push _
      | _ => exact Section.valid_empty _
    strings := ((Section.valid_empty _).push _).push _
    complete := {
      strings := all_transcript _
      types := by refine Section.All.push (Section.All.push (all _ _) ?_) ?_ <;> rfl
      lists := all _ _
      protos := all _ _
      fields := all _ _
      methods := all _ _
      classes := all _ _ }
    live := fun type name typed => by
      rw [types] at typed
      rw [strings]
      rcases update_eq_some typed with ⟨_, rfl⟩ | typed
      · rfl
      · rcases update_eq_some typed with ⟨_, rfl⟩ | typed
        · rfl
        · cases typed
    distinct := {
      strings := strings ▸ two _ _ _ _ (by decide +kernel)
      types := types ▸ two _ _ _ _ (by decide)
      protos := empty
      fields := empty
      methods := empty
      classes := empty } }

/-- The first type receives a decodable descriptor. -/
theorem keysDistinct_of_discernible_undecodable : ∃ final, renameString ⟨0⟩ "LC;" undecodable = .ok () final ∧
    final.KeysDistinct ∧ ∃ rebuilt, rebuildKeys final = .ok () rebuilt ∧ rebuilt.KeysKnown := by
  have all {property : StringItem → Prop} : ({ kind := .stringId } : Section StringItem).All property :=
    Section.all_empty _
  have trusted : undecodable.KeysTrusted := {
    strings := fun stale => by cases stale
    types := fun stale => by cases stale
    protos := fun stale => by cases stale
    fields := fun stale => by cases stale
    methods := fun stale => by cases stale }
  obtain ⟨final, run⟩ : ∃ final, renameString ⟨0⟩ "LC;" undecodable = .ok () final :=
    discernible_undecodable.renameString_ok trusted rfl (by decide +kernel)
      ((all.push (by decide)).push (by decide))
  have plain : undecodable.Plain "LC;" := (all.push (by decide +kernel)).push (by decide +kernel)
  exact ⟨final, run,
    (keysDistinct_of_discernible discernible_undecodable).2 trusted final (.string .refl (.inl plain) run)⟩

end DexArsc.Dex.DexFile
