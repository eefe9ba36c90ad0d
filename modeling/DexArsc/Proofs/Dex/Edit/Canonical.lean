/-
Sorting brings the ids of a file that edits have built into the canonical order, which depends on the
keys alone and not on the history of the file.
-/

import DexArsc.Proofs.Dex.Edit.Run
import DexArsc.Proofs.Dex.Edit.Sorted
import DexArsc.Proofs.Text.Utf16

namespace DexArsc.Dex

/-- Different texts have different code units. -/
theorem units_inj {first second : String} (same : Text.units first = Text.units second) :
    first = second := by
  rw [← Text.ofUtf16Lossy_units first, same, Text.ofUtf16Lossy_units]

namespace DexFile

variable {file final other : DexFile}

theorem strings_sortIds (file : DexFile) : file.sortIds.strings.items =
    file.strings.items.sortBy fun first second => first.value.compareUnits second.value := rfl

theorem types_sortIds (file : DexFile) : file.sortIds.types.items =
    file.types.items.sortBy fun first second => compareIndexes
      (first.rank file.sortIds.strings.items) (second.rank file.sortIds.strings.items) := rfl

theorem protos_sortIds (file : DexFile) : file.sortIds.protos.items =
    file.protos.items.sortBy fun first second => compareIndexes
      (first.rank file.sortIds.types.items file.typeLists)
      (second.rank file.sortIds.types.items file.typeLists) := rfl

theorem fields_sortIds (file : DexFile) : file.sortIds.fields.items =
    file.fields.items.sortBy fun first second => compareIndexes
      (first.rank file.sortIds.strings.items file.sortIds.types.items)
      (second.rank file.sortIds.strings.items file.sortIds.types.items) := rfl

theorem methods_sortIds (file : DexFile) : file.sortIds.methods.items =
    file.methods.items.sortBy fun first second => compareIndexes
      (first.rank file.sortIds.strings.items file.sortIds.types.items file.sortIds.protos.items)
      (second.rank file.sortIds.strings.items file.sortIds.types.items file.sortIds.protos.items) := rfl

/-- Every id has the key that it had before. -/
structure KeepsKeys (file final : DexFile) : Prop where
  strings : final.strings.items.keyOf? (fun item => item.value.text?) =
    file.strings.items.keyOf? fun item => item.value.text?
  types : final.types.items.keyOf? final.typeKey? = file.types.items.keyOf? file.typeKey?
  protos : final.protos.items.keyOf? final.protoKey? = file.protos.items.keyOf? file.protoKey?
  fields : final.fields.items.keyOf? final.fieldKey? = file.fields.items.keyOf? file.fieldKey?
  methods : final.methods.items.keyOf? final.methodKey? = file.methods.items.keyOf? file.methodKey?

section Sound

variable (sound : file.Sound)
include sound

theorem Sound.keepsKeys (follows : file.Follows final) : file.KeepsKeys final := by
  have outline := sound.outline_follow follows
  have complete := (sound.follow follows).complete
  exact {
    strings := congrArg Outline.string outline
    types := by rw [complete.keyOf?_types, sound.complete.keyOf?_types, outline]
    protos := by rw [complete.keyOf?_protos, sound.complete.keyOf?_protos, outline]
    fields := by rw [complete.keyOf?_fields, sound.complete.keyOf?_fields, outline]
    methods := by rw [complete.keyOf?_methods, sound.complete.keyOf?_methods, outline] }

theorem Sound.follows_sortIds : file.Follows file.sortIds :=
  DexFile.follows_sortIds sound.valid sound.strings

omit sound in
theorem rankedBy_strings : file.strings.items.RankedBy (fun item => item.value.text?)
    StringItem.rank Text.units := by
  intro id item text found named
  change item.value.text? = some text at named
  unfold StringItem.rank
  cases value : item.value with
  | decoded other =>
      rw [value] at named
      cases named
      rfl
  | raw size bytes =>
      rw [value] at named
      cases named

theorem Sound.ranksApart_strings : file.strings.items.RanksApart StringItem.rank := by
  apply sound.wellKeyed.strings.ranksApart rankedBy_strings
  exact fun _ _ _ _ _ _ same => units_inj same

/-- All strings hold texts, which compare by their code units. -/
theorem Sound.comparesBy_strings : file.strings.items.ComparesBy
    (fun first second => first.value.compareUnits second.value) StringItem.rank := by
  intro first second item other here there
  obtain ⟨text, value⟩ := sound.complete.decoded here
  obtain ⟨text', value'⟩ := sound.complete.decoded there
  change item.value.compareUnits other.value = _
  unfold StringItem.rank
  rw [value, value']
  rfl

/-- A sorted file is in ascending order. -/
theorem Sound.ascending_sortIds (fits : file.Addressable) : file.sortIds.Ascending := by
  have sound' := sound.follow sound.follows_sortIds
  have fits' : file.sortIds.Addressable := {
    strings := by rw [strings_sortIds, Section.size_sortBy]; exact fits.strings
    types := by rw [types_sortIds, Section.size_sortBy]; exact fits.types
    protos := by rw [protos_sortIds, Section.size_sortBy]; exact fits.protos }
  exact {
    strings := sound.strings.ascends_sortBy sound.comparesBy_strings sound'.ranksApart_strings
    types := (sound.valid .typeId).ascends_sortBy (fun _ _ _ _ _ _ => rfl)
      (sound'.ranksApart_types fits')
    protos := (sound.valid .protoId).ascends_sortBy (fun _ _ _ _ _ _ => rfl)
      (sound'.ranksApart_protos fits')
    fields := (sound.valid .fieldId).ascends_sortBy (fun _ _ _ _ _ _ => rfl)
      (sound'.ranksApart_fields fits')
    methods := (sound.valid .methodId).ascends_sortBy (fun _ _ _ _ _ _ => rfl)
      (sound'.ranksApart_methods fits') }

/-- A file in ascending order stays as it is. -/
theorem Sound.sortIds_of_ascending (ascending : file.Ascending) : file.sortIds = file := by
  have strings : file.sortIds.strings.items = file.strings.items :=
    sound.strings.sortBy_of_ascends sound.comparesBy_strings ascending.strings
  have types : file.sortIds.types.items = file.types.items := by
    rw [types_sortIds, strings]
    exact (sound.valid .typeId).sortBy_of_ascends (fun _ _ _ _ _ _ => rfl) ascending.types
  have protos : file.sortIds.protos.items = file.protos.items := by
    rw [protos_sortIds, types]
    exact (sound.valid .protoId).sortBy_of_ascends (fun _ _ _ _ _ _ => rfl) ascending.protos
  have fields : file.sortIds.fields.items = file.fields.items := by
    rw [fields_sortIds, strings, types]
    exact (sound.valid .fieldId).sortBy_of_ascends (fun _ _ _ _ _ _ => rfl) ascending.fields
  have methods : file.sortIds.methods.items = file.methods.items := by
    rw [methods_sortIds, strings, types, protos]
    exact (sound.valid .methodId).sortBy_of_ascends (fun _ _ _ _ _ _ => rfl) ascending.methods
  calc file.sortIds
      = { file with
          strings := { file.strings with items := file.sortIds.strings.items }
          types := { file.types with items := file.sortIds.types.items }
          protos := { file.protos with items := file.sortIds.protos.items }
          fields := { file.fields with items := file.sortIds.fields.items }
          methods := { file.methods with items := file.sortIds.methods.items } } := rfl
    _ = file := by rw [strings, types, protos, fields, methods]

/-- Files in ascending order with the same sets of keys have the same rows of keys. -/
theorem Sound.keyRows_eq (ascending : file.Ascending) (sound' : other.Sound)
    (ascending' : other.Ascending) (same : file.keyRows.SameSets other.keyRows) :
    file.keyRows = other.keyRows := by
  have strings : file.keyRows.strings = other.keyRows.strings :=
    eq_of_ascending (ascending.strings.pairwise_keyRow sound.strings rankedBy_strings)
      (ascending'.strings.pairwise_keyRow sound'.strings rankedBy_strings) same.strings
  have types : file.keyRows.types = other.keyRows.types := by
    have row := ascending.types.pairwise_keyRow (sound.valid .typeId) sound.rankedBy_types
    have row' := ascending'.types.pairwise_keyRow (sound'.valid .typeId) sound'.rankedBy_types
    unfold KeyRows.typeRank at row row'
    rw [strings] at row
    exact eq_of_ascending row row' same.types
  have protos : file.keyRows.protos = other.keyRows.protos := by
    have row := ascending.protos.pairwise_keyRow (sound.valid .protoId) sound.rankedBy_protos
    have row' := ascending'.protos.pairwise_keyRow (sound'.valid .protoId) sound'.rankedBy_protos
    unfold KeyRows.protoRank at row row'
    rw [types] at row
    exact eq_of_ascending row row' same.protos
  have fields : file.keyRows.fields = other.keyRows.fields := by
    have row := ascending.fields.pairwise_keyRow (sound.valid .fieldId) sound.rankedBy_fields
    have row' := ascending'.fields.pairwise_keyRow (sound'.valid .fieldId) sound'.rankedBy_fields
    unfold KeyRows.fieldRank at row row'
    rw [strings, types] at row
    exact eq_of_ascending row row' same.fields
  have methods : file.keyRows.methods = other.keyRows.methods := by
    have row := ascending.methods.pairwise_keyRow (sound.valid .methodId) sound.rankedBy_methods
    have row' := ascending'.methods.pairwise_keyRow (sound'.valid .methodId) sound'.rankedBy_methods
    unfold KeyRows.methodRank at row row'
    rw [strings, types, protos] at row
    exact eq_of_ascending row row' same.methods
  exact KeyRows.ext strings types protos fields methods

end Sound

/-- The same keys in any two orders are the same sets after sorting. -/
theorem KeepsKeys.sameSets (sound : file.Sound) (sound' : final.Sound) (keeps : file.KeepsKeys final) :
    final.keyRows.SameSets file.keyRows where
  strings := sound.strings.mem_keyRow_congr sound'.strings keeps.strings
  types := (sound.valid .typeId).mem_keyRow_congr (sound'.valid .typeId) keeps.types
  protos := (sound.valid .protoId).mem_keyRow_congr (sound'.valid .protoId) keeps.protos
  fields := (sound.valid .fieldId).mem_keyRow_congr (sound'.valid .fieldId) keeps.fields
  methods := (sound.valid .methodId).mem_keyRow_congr (sound'.valid .methodId) keeps.methods

theorem KeyRows.SameSets.trans {rows others thirds : KeyRows} (first : rows.SameSets others)
    (second : others.SameSets thirds) : rows.SameSets thirds where
  strings text := (first.strings text).trans (second.strings text)
  types descriptor := (first.types descriptor).trans (second.types descriptor)
  protos key := (first.protos key).trans (second.protos key)
  fields key := (first.fields key).trans (second.fields key)
  methods key := (first.methods key).trans (second.methods key)

theorem KeyRows.SameSets.symm {rows others : KeyRows} (same : rows.SameSets others) :
    others.SameSets rows where
  strings text := (same.strings text).symm
  types descriptor := (same.types descriptor).symm
  protos key := (same.protos key).symm
  fields key := (same.fields key).symm
  methods key := (same.methods key).symm

/-- A file with its ids in canonical order: the order ascends, every id has the key that it had, and
sorting once more changes nothing. -/
structure SortedTo (file final : DexFile) : Prop where
  ascending : final.Ascending
  keys : file.KeepsKeys final
  again : final.sortIds = final

end DexFile

/-- Behind every run of edits, failing ones included, sorting brings the ids into canonical order, and
two runs with the same sets of keys end with the same rows of keys. Indexes are 32 bits wide. -/
theorem Edit.sortIds_run (edits others : List Edit) (fits : (Edit.run edits).Addressable)
    (fits' : (Edit.run others).Addressable) :
    (Edit.run edits).SortedTo (Edit.run edits).sortIds ∧
      ((Edit.run edits).keyRows.SameSets (Edit.run others).keyRows →
        (Edit.run edits).sortIds.keyRows = (Edit.run others).sortIds.keyRows) := by
  have sound := DexFile.sound_run edits
  have sound' := DexFile.sound_run others
  have sorted := sound.follow sound.follows_sortIds
  have sorted' := sound'.follow sound'.follows_sortIds
  have keeps := sound.keepsKeys sound.follows_sortIds
  have keeps' := sound'.keepsKeys sound'.follows_sortIds
  have ascending := sound.ascending_sortIds fits
  refine ⟨⟨ascending, keeps, sorted.sortIds_of_ascending ascending⟩, fun same => ?_⟩
  exact sorted.keyRows_eq ascending sorted' (sound'.ascending_sortIds fits')
    (((keeps.sameSets sound sorted).trans same).trans (keeps'.sameSets sound' sorted').symm)

/-- Two types, interned in either order, end up in the same order. -/
theorem Edit.sortIds_run_types :
    let file := Edit.run [.internType "LB;", .internType "LA;"]
    let other := Edit.run [.internType "LA;", .internType "LB;"]
    file.Addressable ∧ other.Addressable ∧ file.keyRows.SameSets other.keyRows ∧
      file.keyRows ≠ other.keyRows ∧ file.SortedTo file.sortIds ∧
      file.sortIds.keyRows = other.sortIds.keyRows := by
  have run := DexFile.run_internType (show "LB;" ≠ "LA;" by decide) (by decide) (by decide)
  have run' := DexFile.run_internType (show "LA;" ≠ "LB;" by decide) (by decide) (by decide)
  have fits : (Edit.run [.internType "LB;", .internType "LA;"]).Addressable := by
    rw [run]
    exact ⟨by decide, by decide, by decide⟩
  have fits' : (Edit.run [.internType "LA;", .internType "LB;"]).Addressable := by
    rw [run']
    exact ⟨by decide, by decide, by decide⟩
  have rows : (Edit.run [.internType "LB;", .internType "LA;"]).keyRows =
      ⟨["LB;", "LA;"], ["LB;", "LA;"], [], [], []⟩ := by
    rw [run]
    rfl
  have rows' : (Edit.run [.internType "LA;", .internType "LB;"]).keyRows =
      ⟨["LA;", "LB;"], ["LA;", "LB;"], [], [], []⟩ := by
    rw [run']
    rfl
  have same : (Edit.run [.internType "LB;", .internType "LA;"]).keyRows.SameSets
      (Edit.run [.internType "LA;", .internType "LB;"]).keyRows := by
    rw [rows, rows']
    exact ⟨by simp [or_comm], by simp [or_comm], by simp, by simp, by simp⟩
  obtain ⟨sorted, equal⟩ := Edit.sortIds_run _ _ fits fits'
  exact ⟨fits, fits', same, by simp [rows, rows'], sorted, equal same⟩

end DexArsc.Dex
