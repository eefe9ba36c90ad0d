/-
The keys of a whole file: a rebuild succeeds when different items have different keys.
-/

import DexArsc.Proofs.Dex.File.Part
import DexArsc.Proofs.Dex.Key

namespace DexArsc.Dex.DexFile

/-- Different items of a pool have different keys. -/
structure KeysDistinct (file : DexFile) : Prop where
  strings : ((file.strings.items.keyed fun item => some item.value).map Prod.fst).Nodup
  types : ((file.types.items.keyed file.typeKey?).map Prod.fst).Nodup
  protos : ((file.protos.items.keyed file.protoKey?).map Prod.fst).Nodup
  fields : ((file.fields.items.keyed file.fieldKey?).map Prod.fst).Nodup
  methods : ((file.methods.items.keyed file.methodKey?).map Prod.fst).Nodup

/-- Every pool that is not stale knows its keys. -/
structure KeysTrusted (file : DexFile) : Prop where
  strings : file.strings.Trusted fun item => some item.value
  types : file.types.Trusted file.typeKey?
  protos : file.protos.Trusted file.protoKey?
  fields : file.fields.Trusted file.fieldKey?
  methods : file.methods.Trusted file.methodKey?

/-- Every pool knows its keys. -/
structure KeysKnown (file : DexFile) : Prop where
  strings : file.strings.Knows fun item => some item.value
  types : file.types.Knows file.typeKey?
  protos : file.protos.Knows file.protoKey?
  fields : file.fields.Knows file.fieldKey?
  methods : file.methods.Knows file.methodKey?

section Congr

variable {file other : DexFile} (strings : other.strings.items = file.strings.items)
include strings

theorem stringOf?_congr : other.stringOf? = file.stringOf? := by
  funext ref
  simp only [stringOf?, strings]

theorem typeKey?_congr : other.typeKey? = file.typeKey? := by
  funext item
  simp only [typeKey?, stringOf?_congr strings]

variable (types : other.types.items = file.types.items)
include types

theorem descriptorOf?_congr : other.descriptorOf? = file.descriptorOf? := by
  funext ref
  simp only [descriptorOf?, stringOf?_congr strings, types]

theorem fieldKey?_congr : other.fieldKey? = file.fieldKey? := by
  funext item
  simp only [fieldKey?, descriptorOf?_congr strings types, stringOf?_congr strings]

variable (typeLists : other.typeLists = file.typeLists)
include typeLists

theorem protoKey?_congr : other.protoKey? = file.protoKey? := by
  funext item
  simp only [protoKey?, descriptorOf?_congr strings types, typeLists]

theorem methodKey?_congr (protos : other.protos.items = file.protos.items) :
    other.methodKey? = file.methodKey? := by
  funext item
  simp only [methodKey?, descriptorOf?_congr strings types, stringOf?_congr strings,
    protoKey?_congr strings types typeLists, protos]

end Congr

/-- Two files that differ in their key maps alone. -/
structure SameItems (file final : DexFile) : Prop where
  strings : final.strings.items = file.strings.items
  types : final.types.items = file.types.items
  protos : final.protos.items = file.protos.items
  fields : final.fields.items = file.fields.items
  methods : final.methods.items = file.methods.items
  others : final = { file with
    strings := final.strings
    types := final.types
    protos := final.protos
    fields := final.fields
    methods := final.methods }

variable {file final : DexFile}

theorem SameItems.items (same : file.SameItems final) (part : Part) :
    part.items final = part.items file := by
  have others := same.others
  cases part with
  | typeId => exact same.types
  | protoId => exact same.protos
  | fieldId => exact same.fields
  | methodId => exact same.methods
  | _ => rw [others]; rfl

/-- A rebuild of the keys changes no items. -/
theorem sameItems_of_rebuildKeys (run : rebuildKeys file = .ok () final) :
    file.SameItems final := by
  have stage {α : Type} {fresh : DexFile → Except Fault α} {put : DexFile → α → DexFile}
      {next : Step DexFile Unit} {file : DexFile}
      (run : (get >>= fun file => monadLift (fresh file) >>= fun pool =>
        set (put file pool) >>= fun _ : PUnit => next : Step DexFile Unit) file = .ok () final) :
      ∃ pool, fresh file = .ok pool ∧ next (put file pool) = .ok () final := by
    obtain ⟨_, _, here, run⟩ := Step.bind_eq_ok.1 run
    cases here
    obtain ⟨pool, _, lifted, yields⟩ := Step.bind_eq_ok.1 run
    obtain ⟨result, rfl⟩ := Step.monadLift_eq_ok.1 lifted
    exact ⟨pool, result, yields⟩
  obtain ⟨strings, freshStrings, run⟩ := stage run
  obtain ⟨types, freshTypes, run⟩ := stage run
  obtain ⟨protos, freshProtos, run⟩ := stage run
  obtain ⟨fields, freshFields, run⟩ := stage run
  obtain ⟨_, _, here, run⟩ := Step.bind_eq_ok.1 run
  cases here
  obtain ⟨methods, _, lifted, yields⟩ := Step.bind_eq_ok.1 run
  obtain ⟨freshMethods, rfl⟩ := Step.monadLift_eq_ok.1 lifted
  cases yields
  exact ⟨Pool.items_freshen freshStrings, Pool.items_freshen freshTypes,
    Pool.items_freshen freshProtos, Pool.items_freshen freshFields,
    Pool.items_freshen freshMethods, rfl⟩

/-- Every stale pool receives a fresh key map, and the items stay. -/
theorem rebuildKeys_of_distinct (valid : ∀ part : Part, (part.items file).Valid)
    (strings : file.strings.items.Valid) (distinct : file.KeysDistinct)
    (trusted : file.KeysTrusted) :
    ∃ final, rebuildKeys file = .ok () final ∧ file.SameItems final ∧ final.KeysKnown := by
  obtain ⟨strings, freshStrings, sameStrings, knowsStrings⟩ :=
    Pool.freshen_of_nodup strings distinct.strings trusted.strings
  obtain ⟨types, freshTypes, sameTypes, knowsTypes⟩ :=
    Pool.freshen_of_nodup (valid .typeId) distinct.types trusted.types
  obtain ⟨protos, freshProtos, sameProtos, knowsProtos⟩ :=
    Pool.freshen_of_nodup (valid .protoId) distinct.protos trusted.protos
  obtain ⟨fields, freshFields, sameFields, knowsFields⟩ :=
    Pool.freshen_of_nodup (valid .fieldId) distinct.fields trusted.fields
  obtain ⟨methods, freshMethods, sameMethods, knowsMethods⟩ :=
    Pool.freshen_of_nodup (valid .methodId) distinct.methods trusted.methods
  have typeKey : typeKey? { file with strings } = file.typeKey? := typeKey?_congr sameStrings
  have protoKey : protoKey? { file with strings, types } = file.protoKey? :=
    protoKey?_congr sameStrings sameTypes rfl
  have fieldKey : fieldKey? { file with strings, types, protos } = file.fieldKey? :=
    fieldKey?_congr sameStrings sameTypes
  have methodKey : methodKey? { file with strings, types, protos, fields } = file.methodKey? :=
    methodKey?_congr sameStrings sameTypes rfl sameProtos
  have lifted {α : Type} {pool : Except Fault α} {value : α} (fresh : pool = .ok value)
      (state : DexFile) : (monadLift pool : Step DexFile α) state = .ok value state := by
    rw [fresh]
    rfl
  refine ⟨{ file with strings, types, protos, fields, methods }, ?_,
    ⟨sameStrings, sameTypes, sameProtos, sameFields, sameMethods, rfl⟩,
    knowsStrings, knowsTypes.congr ?_, knowsProtos.congr ?_, knowsFields.congr ?_,
    knowsMethods.congr ?_⟩
  · rw [← typeKey] at freshTypes
    rw [← protoKey] at freshProtos
    rw [← fieldKey] at freshFields
    rw [← methodKey] at freshMethods
    refine Step.bind_eq_ok.2 ⟨_, _, rfl, Step.bind_eq_ok.2 ⟨_, _, lifted freshStrings _, ?_⟩⟩
    refine Step.bind_eq_ok.2 ⟨_, _, rfl, Step.bind_eq_ok.2 ⟨_, _, rfl, ?_⟩⟩
    refine Step.bind_eq_ok.2 ⟨_, _, lifted freshTypes _, Step.bind_eq_ok.2 ⟨_, _, rfl, ?_⟩⟩
    refine Step.bind_eq_ok.2 ⟨_, _, rfl, Step.bind_eq_ok.2 ⟨_, _, lifted freshProtos _, ?_⟩⟩
    refine Step.bind_eq_ok.2 ⟨_, _, rfl, Step.bind_eq_ok.2 ⟨_, _, rfl, ?_⟩⟩
    refine Step.bind_eq_ok.2 ⟨_, _, lifted freshFields _, Step.bind_eq_ok.2 ⟨_, _, rfl, ?_⟩⟩
    exact Step.bind_eq_ok.2 ⟨_, _, rfl, Step.bind_eq_ok.2 ⟨_, _, lifted freshMethods _, rfl⟩⟩
  · exact fun _ item _ => congrFun (typeKey?_congr sameStrings) item
  · exact fun _ item _ => congrFun (by exact protoKey?_congr sameStrings sameTypes rfl) item
  · exact fun _ item _ => congrFun (fieldKey?_congr sameStrings sameTypes) item
  · exact fun _ item _ =>
      congrFun (by exact methodKey?_congr sameStrings sameTypes rfl sameProtos) item

end DexArsc.Dex.DexFile
