/-
Items of the id sections, type lists, class definitions and class data are read back from their bytes,
without the items that their references name.
-/

import DexArsc.Dex.File.Layout
import DexArsc.Proofs.Bytes.Leb
import DexArsc.Proofs.Bytes.Word

namespace DexArsc.Dex

open Reader

variable {α : Type}

/-- A reference as it is read: only its slot. -/
def IndexRef.bare (ref : IndexRef α) : IndexRef α := .ofRaw ref.raw

/-- A reference as it is read: only its slot. -/
def OffsetRef.bare (ref : OffsetRef α) : OffsetRef α := .ofRaw ref.raw

/-- The index fits into 16 bits. -/
def IndexRef.IsShort (ref : IndexRef α) : Prop := ref.raw.toNat ≤ 0xFFFF

theorem checkShortIndex_eq_ok {what : String} {ref : IndexRef α} {nothing : Unit} :
    checkShortIndex what ref = .ok nothing ↔ ref.IsShort := by
  unfold checkShortIndex IndexRef.IsShort
  constructor
  · intro checks
    cases narrowed : narrow16 what ref.raw.toNat with
    | ok word =>
        have bound := word.toNat_lt
        rw [narrow16_eq_ok] at narrowed
        omega
    | error fault =>
        rw [narrowed] at checks
        cases checks
  · intro short
    rw [narrow16_of_lt what (by omega)]
    rfl

theorem reads_readIndex (ref : IndexRef α) : Reads readIndex ref.bytes ref.bare :=
  (reads_word32 ref.raw).bind_pure IndexRef.ofRaw

theorem reads_readShortIndex (ref : IndexRef α) (short : ref.IsShort) :
    Reads readShortIndex ref.shortBytes ref.bare := by
  have reads := (reads_word16 ref.raw.toUInt16).bind_pure
    (fun word => (IndexRef.ofRaw word.toUInt32 : IndexRef α))
  have same : ref.raw.toUInt16.toUInt32 = ref.raw := by
    apply UInt32.toNat_inj.1
    have bound : ref.raw.toNat ≤ 0xFFFF := short
    simp
    omega
  rwa [same] at reads

theorem reads_readOffset (ref : OffsetRef α) : Reads readOffset ref.bytes ref.bare :=
  (reads_word32 ref.raw).bind_pure OffsetRef.ofRaw

namespace TypeItem

/-- The type as it is read. -/
def bare (item : TypeItem) : TypeItem := { descriptor := item.descriptor.bare }

theorem reads (item : TypeItem) : Reads Codec.read (encode item) item.bare :=
  (reads_readIndex item.descriptor).bind_pure TypeItem.mk

end TypeItem

namespace TypeList

/-- The list as it is read. -/
def bare (list : TypeList) : TypeList := { types := list.types.map IndexRef.bare }

theorem reads (list : TypeList) (short : ∀ ref ∈ list.types, ref.IsShort)
    (fits : (encode list).length < UInt32.size) : Reads Codec.read (encode list) list.bare := by
  have length : (encode list).length = 4 + 2 * list.types.length := by
    change (Bytes.ofWord32 _ ++ List.flatMap _ _).length = _
    rw [List.length_append, Bytes.length_ofWord32, List.length_flatMap]
    congr 1
    induction list.types with
    | nil => rfl
    | cons ref rest ih => simp [IndexRef.shortBytes] at ih ⊢; omega
  have count : (UInt32.ofNat list.types.length).toNat = list.types.length := by
    rw [UInt32.toNat_ofNat', Nat.mod_eq_of_lt]
    change _ < UInt32.size
    omega
  refine Reads.bind (reads_word32 _) ?_
  rw [count]
  exact (Reads.replicate fun ref inside => reads_readShortIndex ref (short ref inside)).bind_pure
    TypeList.mk

end TypeList

namespace ProtoItem

/-- The prototype as it is read. -/
def bare (item : ProtoItem) : ProtoItem where
  shorty := item.shorty.bare
  returnType := item.returnType.bare
  parameters := item.parameters.bare

theorem reads (item : ProtoItem) : Reads Codec.read (encode item) item.bare := by
  change Reads _ (item.shorty.bytes ++ item.returnType.bytes ++ item.parameters.bytes) _
  rw [List.append_assoc]
  refine Reads.bind (reads_readIndex item.shorty) ?_
  refine Reads.bind (reads_readIndex item.returnType) ?_
  exact (reads_readOffset item.parameters).bind_pure (ProtoItem.mk _ _)

end ProtoItem

namespace FieldItem

/-- The field as it is read. -/
def bare (item : FieldItem) : FieldItem where
  owner := item.owner.bare
  type := item.type.bare
  name := item.name.bare

theorem reads (item : FieldItem) (owner : item.owner.IsShort) (type : item.type.IsShort) :
    Reads Codec.read (encode item) item.bare := by
  change Reads _ (item.owner.shortBytes ++ item.type.shortBytes ++ item.name.bytes) _
  rw [List.append_assoc]
  refine Reads.bind (reads_readShortIndex item.owner owner) ?_
  refine Reads.bind (reads_readShortIndex item.type type) ?_
  exact (reads_readIndex item.name).bind_pure (FieldItem.mk _ _)

end FieldItem

namespace MethodItem

/-- The method as it is read. -/
def bare (item : MethodItem) : MethodItem where
  owner := item.owner.bare
  proto := item.proto.bare
  name := item.name.bare

theorem reads (item : MethodItem) (owner : item.owner.IsShort) (proto : item.proto.IsShort) :
    Reads Codec.read (encode item) item.bare := by
  change Reads _ (item.owner.shortBytes ++ item.proto.shortBytes ++ item.name.bytes) _
  rw [List.append_assoc]
  refine Reads.bind (reads_readShortIndex item.owner owner) ?_
  refine Reads.bind (reads_readShortIndex item.proto proto) ?_
  exact (reads_readIndex item.name).bind_pure (MethodItem.mk _ _)

end MethodItem

namespace ClassDef

/-- The class as it is read. -/
def bare (item : ClassDef) : ClassDef where
  type := item.type.bare
  flags := item.flags
  superclass := item.superclass.bare
  interfaces := item.interfaces.bare
  sourceFile := item.sourceFile.bare
  annotations := .ofOrigin item.annotations.current
  classData := item.classData.bare
  staticValues := .ofOrigin item.staticValues.current

theorem reads (item : ClassDef) : Reads Codec.read (encode item) item.bare := by
  change Reads _ (item.type.bytes ++ Bytes.ofWord32 item.flags ++ item.superclass.bytes ++
    item.interfaces.bytes ++ item.sourceFile.bytes ++ Bytes.ofWord32 item.annotations.current ++
    item.classData.bytes ++ Bytes.ofWord32 item.staticValues.current) _
  simp only [List.append_assoc]
  refine Reads.bind (reads_readIndex item.type) ?_
  refine Reads.bind (reads_word32 item.flags) ?_
  refine Reads.bind (reads_readIndex item.superclass) ?_
  refine Reads.bind (reads_readOffset item.interfaces) ?_
  refine Reads.bind (reads_readIndex item.sourceFile) ?_
  refine Reads.bind (reads_word32 item.annotations.current) ?_
  refine Reads.bind (reads_readOffset item.classData) ?_
  exact (reads_word32 item.staticValues.current).bind_pure fun word =>
    { item.bare with staticValues := .ofOrigin word }

end ClassDef

/-- The field as it is read. -/
def EncodedField.bare (member : EncodedField) : EncodedField :=
  { member with field := member.field.bare }

/-- The method as it is read. -/
def EncodedMethod.bare (member : EncodedMethod) : EncodedMethod where
  method := member.method.bare
  flags := member.flags
  code := member.code.bare

/-- A distance added to the number that it is taken from. -/
theorem add_distance (before index : UInt32) : before + (index - before) = index := by
  rw [UInt32.add_comm, UInt32.sub_add_cancel]

theorem reads_readFields (fields : List EncodedField) (before : UInt32) :
    Reads (readFields fields.length before) (fieldBytes before fields)
      (fields.map EncodedField.bare) := by
  induction fields generalizing before with
  | nil => exact Reads.pure []
  | cons member rest ih =>
      simp only [fieldBytes, List.append_assoc]
      refine Reads.bind (reads_leb (member.field.raw - before)) ?_
      refine Reads.bind (reads_leb member.flags) ?_
      rw [add_distance]
      exact (ih member.field.raw).bind_pure (member.bare :: ·)

theorem reads_readMethods (methods : List EncodedMethod) (before : UInt32) :
    Reads (readMethods methods.length before) (methodBytes before methods)
      (methods.map EncodedMethod.bare) := by
  induction methods generalizing before with
  | nil => exact Reads.pure []
  | cons member rest ih =>
      simp only [methodBytes, List.append_assoc]
      refine Reads.bind (reads_leb (member.method.raw - before)) ?_
      refine Reads.bind (reads_leb member.flags) ?_
      refine Reads.bind (reads_leb member.code.raw) ?_
      rw [add_distance]
      exact (ih member.method.raw).bind_pure (member.bare :: ·)

theorem length_le_fieldBytes (fields : List EncodedField) (before : UInt32) :
    fields.length ≤ (fieldBytes before fields).length := by
  induction fields generalizing before with
  | nil => exact Nat.le_refl 0
  | cons member rest ih =>
      have tail := ih member.field.raw
      have some := Leb.length_encode_pos member.flags
      simp only [fieldBytes, List.length_append, List.length_cons]
      omega

theorem length_le_methodBytes (methods : List EncodedMethod) (before : UInt32) :
    methods.length ≤ (methodBytes before methods).length := by
  induction methods generalizing before with
  | nil => exact Nat.le_refl 0
  | cons member rest ih =>
      have tail := ih member.method.raw
      have some := Leb.length_encode_pos member.flags
      simp only [methodBytes, List.length_append, List.length_cons]
      omega

/-- A count below the word size is stored as it is. -/
theorem toNat_ofNat_of_lt {count : Nat} (fits : count < UInt32.size) :
    (UInt32.ofNat count).toNat = count := by
  rw [UInt32.toNat_ofNat']
  exact Nat.mod_eq_of_lt fits

namespace ClassData

/-- The data as it is read. -/
def bare : ClassData → ClassData :=
  mapMembers EncodedField.bare EncodedMethod.bare

/-- The counts of the members fit into the words that they are written in. -/
structure Counted (data : ClassData) : Prop where
  staticFields : data.staticFields.length < UInt32.size
  instanceFields : data.instanceFields.length < UInt32.size
  directMethods : data.directMethods.length < UInt32.size
  virtualMethods : data.virtualMethods.length < UInt32.size

/-- Every member takes a byte, so data that is short enough has few enough of them. -/
theorem counted_of_length_lt {data : ClassData} (fits : (encode data).length < UInt32.size) : data.Counted := by
  have length : (encode data).length = ((((((((Leb.encode (UInt32.ofNat data.staticFields.length) ++
      Leb.encode (UInt32.ofNat data.instanceFields.length)) ++
      Leb.encode (UInt32.ofNat data.directMethods.length)) ++
      Leb.encode (UInt32.ofNat data.virtualMethods.length)) ++
      fieldBytes 0 data.staticFields) ++ fieldBytes 0 data.instanceFields) ++
      methodBytes 0 data.directMethods) ++ methodBytes 0 data.virtualMethods)).length := rfl
  have statics := length_le_fieldBytes data.staticFields 0
  have instances := length_le_fieldBytes data.instanceFields 0
  have directs := length_le_methodBytes data.directMethods 0
  have virtuals := length_le_methodBytes data.virtualMethods 0
  simp only [List.length_append] at length
  constructor <;> omega

theorem reads_of_counted {data : ClassData} (counted : data.Counted) :
    Reads Codec.read (encode data) data.bare := by
  change Reads _ (Leb.encode (UInt32.ofNat data.staticFields.length) ++
      Leb.encode (UInt32.ofNat data.instanceFields.length) ++
      Leb.encode (UInt32.ofNat data.directMethods.length) ++
      Leb.encode (UInt32.ofNat data.virtualMethods.length) ++
      fieldBytes 0 data.staticFields ++ fieldBytes 0 data.instanceFields ++
      methodBytes 0 data.directMethods ++ methodBytes 0 data.virtualMethods) _
  simp only [List.append_assoc]
  refine Reads.bind (reads_leb _) ?_
  refine Reads.bind (reads_leb _) ?_
  refine Reads.bind (reads_leb _) ?_
  refine Reads.bind (reads_leb _) ?_
  rw [toNat_ofNat_of_lt counted.staticFields, toNat_ofNat_of_lt counted.instanceFields,
    toNat_ofNat_of_lt counted.directMethods, toNat_ofNat_of_lt counted.virtualMethods]
  refine Reads.bind (reads_readFields data.staticFields 0) ?_
  refine Reads.bind (reads_readFields data.instanceFields 0) ?_
  refine Reads.bind (reads_readMethods data.directMethods 0) ?_
  exact (reads_readMethods data.virtualMethods 0).bind_pure (ClassData.mk _ _ _)

theorem reads (data : ClassData) (fits : (encode data).length < UInt32.size) :
    Reads Codec.read (encode data) data.bare :=
  reads_of_counted (counted_of_length_lt fits)

end ClassData
end DexArsc.Dex
