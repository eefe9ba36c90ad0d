/-
The header of a package in its bytes. A refresh writes the name of a package back in the form that it reads: code
units without a zero that are valid UTF-16, and zeros behind them. Everything else of the header stays then.
-/

import DexArsc.Proofs.Bytes.Word
import DexArsc.Proofs.Resource.Row
import DexArsc.Proofs.Text.Utf16
import DexArsc.Resource.Package
import Mathlib.Data.List.TakeWhile

namespace DexArsc.Resource

@[simp] theorem unitsOfBytes_flatMap (units : List UInt16) :
    unitsOfBytes (units.flatMap Bytes.ofWord16) = units := by
  induction units with
  | nil => rfl
  | cons unit rest ih =>
      have word := Bytes.littleEndian_ofWord16 unit
      rw [List.flatMap_cons, Bytes.ofWord16, List.cons_append, List.cons_append, List.nil_append, unitsOfBytes, ih]
      congr 1
      rw [Bytes.ofWord16] at word
      rw [word, UInt16.ofNat_toNat]

/-- Bytes in pairs are those of their code units. -/
theorem flatMap_unitsOfBytes {bytes : List UInt8} (even : bytes.length % 2 = 0) :
    (unitsOfBytes bytes).flatMap Bytes.ofWord16 = bytes := by
  induction bytes using unitsOfBytes.induct with
  | case1 low high rest ih =>
      simp only [List.length_cons] at even
      rw [unitsOfBytes, List.flatMap_cons, Bytes.ofWord16_littleEndian, ih (by omega)]
      rfl
  | case2 bytes short =>
      match bytes with
      | [] => rfl
      | [_] => simp at even
      | low :: high :: rest => exact absurd rfl (short low high rest)

theorem length_unitsOfBytes (bytes : List UInt8) : (unitsOfBytes bytes).length = bytes.length / 2 := by
  induction bytes using unitsOfBytes.induct with
  | case1 low high rest ih =>
      rw [unitsOfBytes, List.length_cons, ih, List.length_cons, List.length_cons]
      omega
  | case2 bytes short =>
      match bytes with
      | [] => rfl
      | [_] => simp [unitsOfBytes]
      | low :: high :: rest => exact absurd rfl (short low high rest)

theorem length_flatMap_word16 (units : List UInt16) : (units.flatMap Bytes.ofWord16).length = 2 * units.length := by
  induction units with
  | nil => rfl
  | cons unit rest ih =>
      rw [List.flatMap_cons, List.length_append, ih, Bytes.length_ofWord16, List.length_cons]
      omega

namespace Package

/-- The code units of the name field in a header. -/
def nameField (header : Bytes) : List UInt16 :=
  unitsOfBytes (header.extract namePosition (namePosition + 2 * nameUnits)).toList

/-- The name field of a header is valid UTF-16 up to the first zero, and all zero from there on. -/
structure CleanName (header : Bytes) : Prop where
  valid : (Text.ofUtf16? ((nameField header).takeWhile (· ≠ 0))).isSome = true
  filled : ∀ unit ∈ (nameField header).dropWhile (· ≠ 0), unit = 0

/-- A header with its name in the form that a refresh writes. -/
def rewriteName (header : Bytes) : Bytes :=
  header.overwrite namePosition (encodeName (decodeName header))

/-- The position behind the name. -/
def nameStop : Nat := namePosition + 2 * nameUnits

theorem takeWhile_append_of_all {α : Type} {test : α → Bool} {first second : List α}
    (all : ∀ value ∈ first, test value = true) (ends : ∀ value, second.head? = some value → test value = false) :
    (first ++ second).takeWhile test = first := by
  rw [List.takeWhile_append_of_pos all]
  cases second with
  | nil => simp
  | cons value rest => rw [List.takeWhile_cons_of_neg (by simp [ends value rfl]), List.append_nil]

variable {header : Bytes}

theorem decodeName_eq (header : Bytes) :
    decodeName header = Text.ofUtf16Lossy ((nameField header).takeWhile (· ≠ 0)) := rfl

theorem length_nameField (long : nameStop ≤ header.size) : (nameField header).length = nameUnits := by
  unfold nameStop at long
  rw [nameField, length_unitsOfBytes, Array.length_toList, Array.size_extract]
  omega

/-- The code units that stand in the field. -/
theorem nameField_of_stands {units : List UInt16} (stands : header.Stands namePosition (units.flatMap Bytes.ofWord16))
    (full : units.length = nameUnits) : nameField header = units := by
  have field := stands.extract_eq
  rw [length_flatMap_word16, full] at field
  rw [nameField, field, unitsOfBytes_flatMap]

theorem units_decodeName_le (long : nameStop ≤ header.size) :
    (Text.units (decodeName header)).length ≤ nameUnits := by
  rw [decodeName_eq, Text.length_units_ofUtf16Lossy, ← length_nameField long]
  exact (List.takeWhile_sublist _).length_le

theorem units_decodeName_ne_zero (header : Bytes) : ∀ unit ∈ Text.units (decodeName header), unit ≠ 0 := by
  rw [decodeName_eq]
  refine Text.units_ofUtf16Lossy_ne_zero fun unit inside => ?_
  simpa using List.mem_takeWhile_imp inside

/-- A name that is read takes the whole field. -/
theorem length_encodeName (long : nameStop ≤ header.size) :
    (encodeName (decodeName header)).length = 2 * nameUnits := by
  have fits := units_decodeName_le long
  rw [encodeName, length_flatMap_word16, List.length_append, List.length_replicate]
  omega

/-- A name that fits takes the whole field. -/
theorem length_encodeName_of_check {name : String} (fits : checkName name = .ok ()) :
    (encodeName name).length = 2 * nameUnits := by
  unfold checkName at fits
  dsimp only at fits
  split at fits
  · cases fits
  · rename_i short
    rw [Text.unitCount_eq] at short
    rw [encodeName, length_flatMap_word16, List.length_append, List.length_replicate]
    omega

/-- The name that is written stands in its field. -/
theorem stands_rewriteName (long : nameStop ≤ header.size) :
    (rewriteName header).Stands namePosition (encodeName (decodeName header)) :=
  Bytes.stands_overwrite (by rw [length_encodeName long]; exact long)

/-- The name that is written is read back. -/
theorem decodeName_rewriteName (long : nameStop ≤ header.size) :
    decodeName (rewriteName header) = decodeName header := by
  have nonzero := units_decodeName_ne_zero header
  have full := length_encodeName long
  rw [encodeName, length_flatMap_word16] at full
  rw [decodeName_eq (rewriteName header), nameField_of_stands (stands_rewriteName long) (by omega),
    takeWhile_append_of_all, Text.ofUtf16Lossy_units]
  · intro unit inside
    simpa using nonzero unit inside
  · intro unit first
    have zero := List.eq_of_mem_replicate (List.mem_of_mem_head? first)
    simp [zero]

/-- A name up to its first zero character, which looks like the end of its field. -/
def shownName (name : String) : String :=
  String.ofList (name.toList.takeWhile (· ≠ '\u0000'))

/-- Exactly the names without a zero character are shown as they are. -/
theorem shownName_eq_iff {name : String} : shownName name = name ↔ '\u0000' ∉ name.toList := by
  rw [shownName, ← String.toList_inj, String.toList_ofList, List.takeWhile_eq_self_iff]
  constructor
  · exact fun all inside => by simpa using all _ inside
  · intro clean c inside
    have other : c ≠ '\u0000' := by
      rintro rfl
      exact clean inside
    simpa using other

/-- The code units in front of the first zero are those of the characters in front of the first zero character. -/
theorem takeWhile_units (name : String) (filling : Nat) :
    (Text.units name ++ List.replicate filling 0).takeWhile (· ≠ 0) = Text.units (shownName name) := by
  have whole := List.takeWhile_append_dropWhile (p := (· ≠ '\u0000')) (l := name.toList)
  rw [Text.units, Text.units, shownName, String.toList_ofList, ← whole, List.flatMap_append, List.append_assoc,
    List.takeWhile_append_dropWhile, takeWhile_append_of_all]
  · intro unit inside
    obtain ⟨c, listed, here⟩ := List.mem_flatMap.1 inside
    have nonzero : c.toNat ≠ 0 := fun zero => by
      have null : c = '\u0000' := Char.toNat_inj.1 zero
      simpa [null] using List.mem_takeWhile_imp listed
    simpa using Text.charUnits_ne_zero nonzero unit here
  · intro unit first
    cases rest : name.toList.dropWhile (· ≠ '\u0000') with
    | nil =>
        rw [rest] at first
        have zero := List.eq_of_mem_replicate (List.mem_of_mem_head? first)
        simp [zero]
    | cons c behind =>
        have null : c = '\u0000' := by
          have stops := List.head_dropWhile_not (· ≠ '\u0000') (l := name.toList) (by rw [rest]; simp)
          simp only [rest, List.head_cons] at stops
          simpa using stops
        rw [rest, List.flatMap_cons, null] at first
        cases first
        rfl

/-- A name is read from its field up to its first zero character. -/
theorem decodeName_of_stands {front : Bytes} {name : String} (stands : front.Stands namePosition (encodeName name))
    (full : (encodeName name).length = 2 * nameUnits) : decodeName front = shownName name := by
  rw [encodeName, length_flatMap_word16] at full
  rw [decodeName_eq, nameField_of_stands stands (by omega), takeWhile_units, Text.ofUtf16Lossy_units]

/-- A clean name is written as it was read. -/
theorem encodeName_of_clean (long : nameStop ≤ header.size) (clean : CleanName header) :
    header.Stands namePosition (encodeName (decodeName header)) := by
  obtain ⟨name, valid⟩ := Option.isSome_iff_exists.1 clean.valid
  obtain ⟨units, same⟩ := Text.units_of_ofUtf16? valid
  have length := length_nameField long
  have whole := List.takeWhile_append_dropWhile (p := (· ≠ 0)) (l := nameField header)
  have zeros : (nameField header).dropWhile (· ≠ 0) =
      List.replicate (nameUnits - (Text.units name).length) 0 := by
    refine List.eq_replicate_iff.2 ⟨?_, clean.filled⟩
    rw [← length, ← whole, List.length_append, units]
    simp
  have field : encodeName (decodeName header) =
      (header.extract namePosition (namePosition + 2 * nameUnits)).toList := by
    have even : (header.extract namePosition (namePosition + 2 * nameUnits)).toList.length % 2 = 0 := by
      unfold nameStop at long
      rw [Array.length_toList, Array.size_extract]
      omega
    rw [decodeName_eq, same, encodeName, ← zeros, units, whole, nameField, flatMap_unitsOfBytes even]
  rw [field]
  exact Bytes.stands_extract ..

theorem rewriteName_of_clean (long : nameStop ≤ header.size) (clean : CleanName header) :
    rewriteName header = header :=
  Bytes.overwrite_of_stands (encodeName_of_clean long clean)

/-- A name that was written once stays. -/
theorem rewriteName_rewriteName (long : nameStop ≤ header.size) :
    rewriteName (rewriteName header) = rewriteName header := by
  refine Bytes.overwrite_of_stands ?_
  rw [decodeName_rewriteName long]
  exact stands_rewriteName long

end Package
end DexArsc.Resource

namespace DexArsc

namespace Resource.Package

/-- The header that the bytes of a package chunk begin with. -/
def Head.ofBytes (bytes : List UInt8) : Head :=
  let front := bytes.take (Bytes.half bytes 2).toNat
  { chunk := .ofBytes 0 bytes
    bytes := front.toArray
    id := Bytes.word bytes 8
    name := decodeName front.toArray
    types := Bytes.word bytes (PackagePool.position .types)
    keys := Bytes.word bytes (PackagePool.position .keys) }

/-- The header of a package is read from the bytes of its chunk. -/
theorem readHead_eq_ok {bytes : List UInt8} (isChunk : IsChunk bytes) {head : Head} {cursor : Cursor} :
    readHead { data := bytes.toArray } = .ok head cursor ↔ minHeaderSize ≤ (Bytes.half bytes 2).toNat ∧
      head = .ofBytes bytes ∧ cursor = { data := bytes.toArray, position := (Bytes.half bytes 2).toNat } := by
  have long := isChunk.length_le
  have within := isChunk.within
  unfold Resource.minHeaderSize at long
  have whole : Bytes.Stands bytes.toArray 0 bytes := List.prefix_rfl
  have chunk : ChunkHeader.read { data := bytes.toArray } =
      .ok (.ofBytes 0 bytes) { data := bytes.toArray, position := 8 } := by
    refine ChunkHeader.read_eq_ok.2 ⟨by simpa [Resource.minHeaderSize] using long, rfl, isChunk.least, ?_, ?_, rfl⟩
    · exact isChunk.size.symm ▸ isChunk.within
    · rw [ChunkHeader.stop, ChunkHeader.start_ofBytes, Nat.zero_add]
      exact Nat.le_of_eq isChunk.size
  have seeks (position target : Nat) (inside : target ≤ bytes.length) :
      Reader.seek target { data := bytes.toArray, position } =
        .ok () { data := bytes.toArray, position := target } := Reader.seek_eq_ok.2 ⟨by simpa using inside, rfl⟩
  have word (position : Nat) (inside : position + 4 ≤ bytes.length) :
      Reader.word32 { data := bytes.toArray, position } =
        .ok (Bytes.word bytes position) { data := bytes.toArray, position := position + 4 } := by
    have reads := Reader.word32_ok whole position inside
    rwa [Nat.zero_add] at reads
  have size : (ChunkHeader.ofBytes 0 bytes).headerSize = Bytes.half bytes 2 := rfl
  unfold readHead
  rw [Step.bind_ok (Step.get_apply _), Step.bind_ok chunk]
  dsimp only
  rw [Step.guard_eq_ok, size, Nat.not_lt]
  refine and_congr_right fun enough => ?_
  unfold minHeaderSize at enough
  rw [Step.bind_ok (word 8 (by omega)), Step.bind_ok (seeks _ (PackagePool.position .types) (by
      change 268 ≤ _
      omega)), Step.bind_ok (word _ (by
      change 268 + 4 ≤ _
      omega)), Step.bind_ok (seeks _ (PackagePool.position .keys) (by
      change 276 ≤ _
      omega)), Step.bind_ok (word _ (by
      change 276 + 4 ≤ _
      omega)), Step.bind_ok (seeks _ _ within), Step.pure_apply, EStateM.Result.ok.injEq]
  have front : bytes.toArray.extract 0 (Bytes.half bytes 2).toNat = (bytes.take (Bytes.half bytes 2).toNat).toArray := by
    rw [List.extract_toArray, List.extract_eq_take_drop]
    simp
  rw [front]
  exact and_congr eq_comm eq_comm

/-- Bytes that are a package: a header and a row of pieces. -/
structure Framed (front : List UInt8) (rows : List (List UInt8)) : Prop where
  isChunk : IsChunk (front ++ rows.flatten)
  head : (Bytes.half front 2).toNat = front.length
  long : minHeaderSize ≤ front.length
  isRow : IsRow rows

/-- The pool whose place the header of a package names. -/
def placeIn (front : List UInt8) (header : ChunkHeader) : Option PackagePool :=
  poolAt? (Bytes.word front (PackagePool.position .types)) (Bytes.word front (PackagePool.position .keys)) header

/-- The header names the place of a pool. -/
theorem start_of_placeIn {front : List UInt8} {header : ChunkHeader} {which : PackagePool}
    (place : placeIn front header = some which) :
    header.type = .stringPool ∧ (Bytes.word front (PackagePool.position which)).toNat = header.start := by
  unfold placeIn poolAt? at place
  split at place
  · cases place
  · rename_i pool
    split at place
    · rename_i same
      cases place
      exact ⟨not_not.1 pool, same.symm⟩
    · split at place
      · rename_i same
        cases place
        exact ⟨not_not.1 pool, same.symm⟩
      · cases place

/-- Only pools have places. -/
theorem placeIn_other {front : List UInt8} {header : ChunkHeader} (other : header.type ≠ .stringPool) :
    placeIn front header = none := by
  rw [placeIn, poolAt?, if_pos other]

/-- The header of a package with another name, in the form that a refresh writes. -/
def renameFront (front : List UInt8) (name : String) : List UInt8 :=
  (Bytes.overwrite front.toArray namePosition (encodeName name)).toList

/-- The header of a package with its name in the form that a refresh writes. -/
def rewriteFront (front : List UInt8) : List UInt8 :=
  (rewriteName front.toArray).toList

theorem rewriteFront_eq (front : List UInt8) : rewriteFront front = renameFront front (decodeName front.toArray) :=
  rfl

section

variable {front : List UInt8}

@[simp] theorem length_renameFront (front : List UInt8) (name : String) :
    (renameFront front name).length = front.length := by
  rw [renameFront, Array.length_toList, Bytes.size_overwrite, List.size_toArray]

@[simp] theorem length_rewriteFront (front : List UInt8) : (rewriteFront front).length = front.length :=
  length_renameFront ..

theorem nameStop_le (long : minHeaderSize ≤ front.length) : nameStop ≤ front.toArray.size := by
  rw [List.size_toArray]
  unfold minHeaderSize at long
  change 268 ≤ _
  omega

/-- A name that is read takes the whole field when it is written. -/
theorem full_decodeName (long : minHeaderSize ≤ front.length) :
    (encodeName (decodeName front.toArray)).length = 2 * nameUnits :=
  length_encodeName (nameStop_le long)

section

variable {name : String} (full : (encodeName name).length = 2 * nameUnits)
include full

theorem drop_take_renameFront {start count : Nat} (apart : start + count ≤ namePosition ∨ nameStop ≤ start) :
    ((renameFront front name).drop start).take count = (front.drop start).take count := by
  refine Bytes.drop_take_overwrite ?_
  rw [full]
  exact apart

theorem word_renameFront {position : Nat} (apart : position + 4 ≤ namePosition ∨ nameStop ≤ position) :
    Bytes.word (renameFront front name) position = Bytes.word front position := by
  rw [Bytes.word, Bytes.word, drop_take_renameFront full apart]

theorem half_renameFront {position : Nat} (apart : position + 2 ≤ namePosition ∨ nameStop ≤ position) :
    Bytes.half (renameFront front name) position = Bytes.half front position := by
  rw [Bytes.half, Bytes.half, drop_take_renameFront full apart]

theorem placeIn_renameFront : placeIn (renameFront front name) = placeIn front := by
  funext header
  rw [placeIn, placeIn, word_renameFront full (.inr (by decide)), word_renameFront full (.inr (by decide))]

theorem decodeName_renameFront (long : minHeaderSize ≤ front.length) :
    decodeName (renameFront front name).toArray = shownName name := by
  refine decodeName_of_stands ?_ full
  rw [renameFront, Array.toArray_toList]
  exact Bytes.stands_overwrite (by rw [full]; exact nameStop_le long)

end

theorem decodeName_rewriteFront (long : minHeaderSize ≤ front.length) :
    decodeName (rewriteFront front).toArray = decodeName front.toArray := by
  rw [rewriteFront, Array.toArray_toList, decodeName_rewriteName (nameStop_le long)]

/-- A name that was read shows all of itself. -/
theorem shownName_decodeName (long : minHeaderSize ≤ front.length) :
    shownName (decodeName front.toArray) = decodeName front.toArray := by
  rw [← decodeName_renameFront (full_decodeName long) long, ← rewriteFront_eq, decodeName_rewriteFront long]

theorem rewriteFront_rewriteFront (long : minHeaderSize ≤ front.length) :
    rewriteFront (rewriteFront front) = rewriteFront front := by
  rw [rewriteFront, rewriteFront, Array.toArray_toList, rewriteName_rewriteName (nameStop_le long)]

end

/-- A package with another name is a package. -/
theorem Framed.rename {front : List UInt8} {rows : List (List UInt8)} (framed : Framed front rows) {name : String}
    (full : (encodeName name).length = 2 * nameUnits) : Framed (renameFront front name) rows := by
  have enough : 284 ≤ front.length := by
    have long := framed.long
    unfold minHeaderSize at long
    exact long
  have half : Bytes.half (renameFront front name ++ rows.flatten) 2 = Bytes.half (front ++ rows.flatten) 2 := by
    rw [Bytes.half_append (by simp; omega), Bytes.half_append (by omega), half_renameFront full (.inl (by decide))]
  have word : Bytes.word (renameFront front name ++ rows.flatten) 4 = Bytes.word (front ++ rows.flatten) 4 := by
    rw [Bytes.word_append (by simp; omega), Bytes.word_append (by omega), word_renameFront full (.inl (by decide))]
  have length : (renameFront front name ++ rows.flatten).length = (front ++ rows.flatten).length := by simp
  exact {
    isChunk := {
      least := by
        rw [half]
        exact framed.isChunk.least
      within := by
        rw [half, length]
        exact framed.isChunk.within
      size := by
        rw [word, length]
        exact framed.isChunk.size }
    head := by
      rw [half_renameFront full (.inl (by decide)), length_renameFront]
      exact framed.head
    long := by
      rw [length_renameFront]
      exact framed.long
    isRow := framed.isRow }

/-- A package with its name written anew is a package. -/
theorem Framed.rewrite {front : List UInt8} {rows : List (List UInt8)} (framed : Framed front rows) :
    Framed (rewriteFront front) rows :=
  framed.rename (full_decodeName framed.long)

end Resource.Package
end DexArsc
