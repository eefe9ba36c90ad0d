/-
The rows of pieces that are read as tables, and the rows that the tables are written as: the packages stand
together, with their names in the form that a refresh writes.
-/

import DexArsc.Proofs.Resource.PackageStored
import DexArsc.Proofs.Resource.Table
import Mathlib.Data.List.Basic
import Mathlib.Data.List.TakeWhile

namespace DexArsc

variable {α : Type} {test : α → Bool} {values first second : List α}

/-- The elements before the first one that passes a test. -/
def leading (test : α → Bool) (values : List α) : List α :=
  values.takeWhile (!test ·)

/-- The elements that fail a test behind the first one that passes it. -/
def trailing (test : α → Bool) (values : List α) : List α :=
  (values.dropWhile (!test ·)).filter (!test ·)

/-- The elements that pass a test, brought together at the place of the first one. The others keep their order. -/
def regroup (test : α → Bool) (values : List α) : List α :=
  leading test values ++ values.filter test ++ trailing test values

theorem takeWhile_append_of_mem (found : ∃ value ∈ first, test value = true) (second : List α) :
    (first ++ second).takeWhile (!test ·) = first.takeWhile (!test ·) ∧
      (first ++ second).dropWhile (!test ·) = first.dropWhile (!test ·) ++ second := by
  induction first with
  | nil => simp at found
  | cons value rest ih =>
      by_cases here : test value = true
      · simp [here]
      · obtain ⟨other, inside, passes⟩ := found
        have later := ih ⟨other, by
          rcases List.mem_cons.1 inside with rfl | inside
          · exact absurd passes here
          · exact inside, passes⟩
        simp [here, later]

theorem takeWhile_of_none (none : ∀ value ∈ values, test value = false) :
    values.takeWhile (!test ·) = values ∧ values.dropWhile (!test ·) = [] := by
  have all : ∀ value ∈ values, (!test value) = true := fun value inside => by simp [none value inside]
  exact ⟨List.takeWhile_eq_self_iff.2 all, List.dropWhile_eq_nil_iff.2 all⟩

theorem filter_eq_nil_of_none (none : ∀ value ∈ values, test value = false) : values.filter test = [] :=
  List.filter_eq_nil_iff.2 fun value inside => by simp [none value inside]

theorem filter_eq_self_of_none (none : ∀ value ∈ values, test value = false) :
    values.filter (!test ·) = values :=
  List.filter_eq_self.2 fun value inside => by simp [none value inside]

theorem none_or_mem (test : α → Bool) (values : List α) :
    (∀ value ∈ values, test value = false) ∨ ∃ value ∈ values, test value = true := by
  by_cases found : ∃ value ∈ values, test value = true
  · exact .inr found
  · refine .inl fun value inside => ?_
    by_contra passes
    exact found ⟨value, inside, by simpa using passes⟩

/-- Without an element that passes the test, all elements are leading. -/
theorem leading_of_none (none : ∀ value ∈ values, test value = false) :
    leading test values = values ∧ trailing test values = [] := by
  obtain ⟨front, back⟩ := takeWhile_of_none none
  rw [leading, trailing, front, back]
  exact ⟨rfl, rfl⟩

/-- Behind an element that passes the test, those that fail it are trailing. -/
theorem leading_append_of_mem (found : ∃ value ∈ first, test value = true)
    (none : ∀ value ∈ second, test value = false) : leading test (first ++ second) = leading test first ∧
      trailing test (first ++ second) = trailing test first ++ second := by
  obtain ⟨front, back⟩ := takeWhile_append_of_mem found second
  rw [leading, trailing, front, back, List.filter_append, filter_eq_self_of_none none]
  exact ⟨rfl, rfl⟩

/-- An element that passes the test is neither leading nor trailing. -/
theorem leading_append_of_pass (values : List α) {value : α} (passes : test value = true) :
    leading test (values ++ [value]) = leading test values ∧
      trailing test (values ++ [value]) = trailing test values := by
  unfold leading trailing
  rcases none_or_mem test values with none | found
  · have all : ∀ value ∈ values, (!test value) = true := fun value inside => by simp [none value inside]
    rw [List.takeWhile_append_of_pos all, List.dropWhile_append_of_pos all, (takeWhile_of_none none).1,
      (takeWhile_of_none none).2]
    simp [passes]
  · obtain ⟨front, back⟩ := takeWhile_append_of_mem found [value]
    rw [front, back, List.filter_append]
    simp [passes]

/-- An element that fails the test stays behind the others. -/
theorem regroup_append_of_none (none : ∀ value ∈ second, test value = false) :
    regroup test (first ++ second) = regroup test first ++ second := by
  unfold regroup
  rw [List.filter_append, filter_eq_nil_of_none none, List.append_nil]
  rcases none_or_mem test first with absent | found
  · obtain ⟨front, back⟩ := leading_of_none absent
    have absent' : ∀ value ∈ first ++ second, test value = false := fun value inside =>
      (List.mem_append.1 inside).elim (absent value) (none value)
    obtain ⟨front', back'⟩ := leading_of_none absent'
    rw [front, back, front', back', filter_eq_nil_of_none absent]
    simp
  · obtain ⟨front, back⟩ := leading_append_of_mem found none
    rw [front, back, List.append_assoc, List.append_assoc, List.append_assoc]

/-- A list in which the elements that pass the test already stand together. -/
structure Grouped (test : α → Bool) (values : List α) (before group behind : List α) : Prop where
  whole : values = before ++ group ++ behind
  before : ∀ value ∈ before, test value = false
  group : ∀ value ∈ group, test value = true
  behind : ∀ value ∈ behind, test value = false

/-- Elements that already stand together stay in their places. -/
theorem Grouped.regroup_eq {before group behind : List α} (grouped : Grouped test values before group behind) :
    regroup test values = values := by
  obtain ⟨rfl, none, all, none'⟩ := grouped
  rw [regroup_append_of_none none', List.append_cancel_right_eq]
  have filtered : (before ++ group).filter test = group := by
    rw [List.filter_append, filter_eq_nil_of_none none, List.nil_append]
    exact List.filter_eq_self.2 all
  have front : (before ++ group).takeWhile (!test ·) = before ∧
      (before ++ group).dropWhile (!test ·) = group := by
    rw [List.takeWhile_append_of_pos fun value inside => by simp [none value inside],
      List.dropWhile_append_of_pos fun value inside => by simp [none value inside]]
    cases group with
    | nil => simp
    | cons value rest => simp [all value List.mem_cons_self]
  have rest : group.filter (!test ·) = [] :=
    List.filter_eq_nil_iff.2 fun value inside => by simp [all value inside]
  rw [regroup, leading, trailing, filtered, front.1, front.2, rest, List.append_nil]

theorem grouped_regroup (test : α → Bool) (values : List α) : Grouped test (regroup test values)
    (leading test values) (values.filter test) (trailing test values) where
  whole := rfl
  before value inside := by simpa using List.mem_takeWhile_imp inside
  group value inside := (List.mem_filter.1 inside).2
  behind value inside := by simpa using (List.mem_filter.1 inside).2

/-- Regrouping a second time changes nothing. -/
theorem regroup_regroup (test : α → Bool) (values : List α) :
    regroup test (regroup test values) = regroup test values :=
  (grouped_regroup test values).regroup_eq

/-- The elements that pass the test keep their order. -/
theorem filter_regroup (test : α → Bool) (values : List α) :
    (regroup test values).filter test = values.filter test := by
  obtain ⟨_, none, all, none'⟩ := grouped_regroup test values
  rw [regroup, List.filter_append, List.filter_append, filter_eq_nil_of_none none, filter_eq_nil_of_none none',
    List.filter_filter, List.nil_append, List.append_nil]
  simp

/-- The elements that fail the test are the leading and the trailing ones. -/
theorem filter_not_eq (test : α → Bool) (values : List α) :
    values.filter (!test ·) = leading test values ++ trailing test values := by
  have none := (grouped_regroup test values).before
  conv_lhs => rw [← List.takeWhile_append_dropWhile (p := (!test ·)) (l := values), List.filter_append]
  rw [← leading, filter_eq_self_of_none none, trailing]

/-- The elements that fail the test keep their order. -/
theorem filter_not_regroup (test : α → Bool) (values : List α) :
    (regroup test values).filter (!test ·) = values.filter (!test ·) := by
  obtain ⟨_, none, all, none'⟩ := grouped_regroup test values
  have gone : (values.filter test).filter (!test ·) = [] :=
    List.filter_eq_nil_iff.2 fun value inside => by simp [all value inside]
  rw [regroup, List.filter_append, List.filter_append, filter_eq_self_of_none none, filter_eq_self_of_none none',
    gone, List.append_nil, filter_not_eq]

theorem regroup_perm (test : α → Bool) (values : List α) : (regroup test values).Perm values := by
  have parts (row : List α) : (row.filter test ++ row.filter (!test ·)).Perm row := List.filter_append_perm test row
  have front := parts (regroup test values)
  rw [filter_regroup, filter_not_regroup] at front
  exact front.symm.trans (parts values)

/-- Elements are regrouped before or after they are changed, when the test does not notice. -/
theorem regroup_map {change : α → α} (same : ∀ value, test (change value) = test value) (values : List α) :
    regroup test (values.map change) = (regroup test values).map change := by
  have through : test ∘ change = test := funext same
  have through' : (!test ·) ∘ change = (!test ·) := funext fun value => congrArg (!·) (same value)
  unfold regroup leading trailing
  rw [List.map_append, List.map_append, List.takeWhile_map, List.dropWhile_map, List.filter_map, List.filter_map,
    through, through']

end DexArsc

namespace DexArsc.Resource

/-- The types of chunk that pieces are of. A gap is of none. -/
def Piece.hasType (type : ChunkType) : Piece → Bool
  | .chunk found => found.header.type == type
  | .gap _ => false

/-- Bytes that are read as a chunk of a type. -/
def isOf (type : ChunkType) (bytes : List UInt8) : Bool :=
  decide (minHeaderSize ≤ bytes.length) && ChunkType.ofCode (Bytes.half bytes 0) == type

/-- The type of a piece does not depend on its place. -/
theorem hasType_ofBytes (type : ChunkType) (start : Nat) (bytes : List UInt8) :
    (Piece.ofBytes start bytes).hasType type = isOf type bytes := by
  unfold Piece.ofBytes isOf
  split
  · rename_i short
    rw [decide_eq_false (Nat.not_le.2 short), Bool.false_and]
    rfl
  · rename_i long
    rw [decide_eq_true (Nat.not_lt.1 long), Bool.true_and]
    rfl

theorem hasType_of_mem_row {type : ChunkType} {start : Nat} {rows : List (List UInt8)} {piece : Piece}
    (inside : piece ∈ Piece.row start rows) : piece.hasType type = isOf type piece.bytes := by
  induction rows generalizing start with
  | nil => cases inside
  | cons bytes rest ih =>
      rcases List.mem_cons.1 inside with rfl | inside
      · rw [hasType_ofBytes, Piece.bytes_ofBytes]
      · exact ih inside

theorem isOf_iff {type : ChunkType} {bytes : List UInt8} (isPiece : IsPiece bytes) :
    isOf type bytes = true ↔ IsChunk bytes ∧ ChunkType.ofCode (Bytes.half bytes 0) = type := by
  unfold isOf
  rw [Bool.and_eq_true, decide_eq_true_iff, beq_iff_eq]
  refine and_congr_left fun _ => ⟨fun long => ?_, IsChunk.length_le⟩
  exact isPiece.resolve_right (Nat.not_lt.2 long)

/-- Bytes are at most one row. -/
theorem IsRow.ext {first second : List (List UInt8)} (isRow : IsRow first) (isRow' : IsRow second)
    (same : first.flatten = second.flatten) : first = second := by
  have length {bytes : List UInt8} {rest : List (List UInt8)} (isChunk : IsChunk bytes) :
      (Bytes.word (bytes ++ rest.flatten) 4).toNat = bytes.length ∧ 8 ≤ (bytes ++ rest.flatten).length := by
    have long := isChunk.length_le
    unfold minHeaderSize at long
    rw [Bytes.word_append (by omega), isChunk.size, List.length_append]
    exact ⟨rfl, by omega⟩
  induction isRow generalizing second with
  | nil =>
      have empty := isRow'.length_le
      rw [← same] at empty
      exact (List.eq_nil_of_length_eq_zero (Nat.le_zero.1 empty)).symm
  | @gap bytes some short =>
      unfold minHeaderSize at short
      rw [List.flatten_singleton] at same
      cases isRow' with
      | nil => exact absurd same some
      | gap some' short' =>
          rw [List.flatten_singleton] at same
          rw [same]
      | @chunk bytes' rest' isChunk' behind' =>
          rw [List.flatten_cons] at same
          have long := (@length bytes' rest' isChunk').2
          rw [← same] at long
          omega
  | @chunk bytes rest isChunk behind ih =>
      rw [List.flatten_cons] at same
      obtain ⟨size, long⟩ := @length bytes rest isChunk
      cases isRow' with
      | nil =>
          rw [same] at long
          simp at long
      | gap some' short' =>
          unfold minHeaderSize at short'
          rw [same, List.flatten_singleton] at long
          omega
      | @chunk bytes' rest' isChunk' behind' =>
          rw [List.flatten_cons] at same
          obtain ⟨size', _⟩ := @length bytes' rest' isChunk'
          rw [← same, size] at size'
          obtain ⟨rfl, rest_eq⟩ := List.append_inj same size'
          rw [ih behind' rest_eq]

namespace Package

variable {front : List UInt8} {rows : List (List UInt8)}

/-- The name of a package is in its header, whatever stands behind the header. -/
theorem rewriteFront_append (long : minHeaderSize ≤ front.length) (rest : List UInt8) :
    rewriteFront (front ++ rest) = rewriteFront front ++ rest := by
  have enough := nameStop_le long
  have stop : nameStop = namePosition + 2 * nameUnits := rfl
  rw [List.size_toArray] at enough
  have field : decodeName (front ++ rest).toArray = decodeName front.toArray := by
    have cut : (front ++ rest).toArray.extract namePosition (namePosition + 2 * nameUnits) =
        front.toArray.extract namePosition (namePosition + 2 * nameUnits) := by
      rw [List.extract_toArray, List.extract_toArray, List.extract_eq_take_drop, List.extract_eq_take_drop,
        List.drop_append_of_le_length (by omega), List.take_append_of_le_length (by rw [List.length_drop]; omega)]
    rw [decodeName, decodeName, cut]
  have length := @length_encodeName front.toArray (by simpa using enough)
  rw [rewriteFront, rewriteName, field, Bytes.overwrite_append (by rw [length]; omega)]
  rfl

/-- Bytes that can be read as a package. -/
def IsPackage (options : ReadOptions) (bytes : List UInt8) : Prop :=
  ∃ front rows, bytes = front ++ rows.flatten ∧ Framed front rows ∧ Readable options front rows

/-- The bytes of a package tell its contents. -/
def BytesTell (bytes : List UInt8) (content : Content) : Prop :=
  ∃ front rows, bytes = front ++ rows.flatten ∧ Framed front rows ∧ content = .ofBytes front rows

theorem Framed.front_eq {bytes : List UInt8} (framed : Framed front rows) (same : bytes = front ++ rows.flatten) :
    front = bytes.take (Bytes.half bytes 2).toNat := by
  have long := framed.long
  unfold minHeaderSize at long
  rw [same, Bytes.half_append (by omega), framed.head, List.take_left]

/-- The bytes of a package tell one content only. -/
theorem BytesTell.unique {bytes : List UInt8} {first second : Content} (tell : BytesTell bytes first)
    (tell' : BytesTell bytes second) : first = second := by
  obtain ⟨front, rows, same, framed, rfl⟩ := tell
  obtain ⟨front', rows', same', framed', rfl⟩ := tell'
  have equal : front = front' := (framed.front_eq same).trans (framed'.front_eq same').symm
  subst equal
  have rest := List.append_cancel_left (same.symm.trans same')
  rw [framed.isRow.ext framed'.isRow rest]

/-- A package with its name written anew tells the same. -/
theorem BytesTell.rewrite {bytes : List UInt8} {content : Content} (tell : BytesTell bytes content) :
    BytesTell (rewriteFront bytes) content := by
  obtain ⟨front, rows, rfl, framed, rfl⟩ := tell
  exact ⟨rewriteFront front, rows, rewriteFront_append framed.long _, framed.rewrite,
    (Content.ofBytes_rewriteFront framed.long rows).symm⟩

theorem IsPackage.rewrite {options : ReadOptions} {bytes : List UInt8} (isPackage : IsPackage options bytes) :
    IsPackage options (rewriteFront bytes) := by
  obtain ⟨front, rows, rfl, framed, readable⟩ := isPackage
  exact ⟨rewriteFront front, rows, rewriteFront_append framed.long _, framed.rewrite, readable.rewrite framed.long⟩

theorem IsPackage.long {options : ReadOptions} {bytes : List UInt8} (isPackage : IsPackage options bytes) :
    minHeaderSize ≤ bytes.length := by
  obtain ⟨front, rows, rfl, framed, _⟩ := isPackage
  rw [List.length_append]
  exact Nat.le_trans framed.long (Nat.le_add_right ..)

theorem IsPackage.isChunk {options : ReadOptions} {bytes : List UInt8} (isPackage : IsPackage options bytes) :
    IsChunk bytes := by
  obtain ⟨front, rows, rfl, framed, _⟩ := isPackage
  exact framed.isChunk

end Package

/-- The type of a chunk does not change with the name. -/
theorem isOf_rewriteFront (type : ChunkType) (bytes : List UInt8) :
    isOf type (Package.rewriteFront bytes) = isOf type bytes := by
  have half : Bytes.half (Package.rewriteFront bytes) 0 = Bytes.half bytes 0 := by
    rw [Bytes.half, Bytes.half, Package.rewriteFront, Package.rewriteName,
      Bytes.drop_take_overwrite (.inl (by decide))]
  rw [isOf, isOf, half, Package.length_rewriteFront]

/-- A piece of a table in the form that a refresh writes. -/
def rewritePiece (bytes : List UInt8) : List UInt8 :=
  if isOf .package bytes then Package.rewriteFront bytes else bytes

theorem rewritePiece_of_package {bytes : List UInt8} (package : isOf .package bytes = true) :
    rewritePiece bytes = Package.rewriteFront bytes := if_pos package

theorem rewritePiece_of_other {bytes : List UInt8} (other : isOf .package bytes = false) :
    rewritePiece bytes = bytes := if_neg (by simp [other])

@[simp] theorem length_rewritePiece (bytes : List UInt8) : (rewritePiece bytes).length = bytes.length := by
  unfold rewritePiece
  split
  · exact Package.length_rewriteFront bytes
  · rfl

theorem isOf_rewritePiece (type : ChunkType) (bytes : List UInt8) :
    isOf type (rewritePiece bytes) = isOf type bytes := by
  unfold rewritePiece
  split
  · exact isOf_rewriteFront type bytes
  · rfl

/-- The pieces of a table as they are written: the packages stand together, with their names written anew. -/
def rewriteRows (rows : List (List UInt8)) : List (List UInt8) :=
  (regroup (isOf .package) rows).map rewritePiece

namespace Table

/-- Bytes that are a table's header and a row of pieces. -/
structure Framed (head : List UInt8) (rows : List (List UInt8)) : Prop where
  isChunk : IsChunk (head ++ rows.flatten)
  type : ChunkType.ofCode (Bytes.half head 0) = .table
  size : (Bytes.half head 2).toNat = head.length
  long : headerSize ≤ head.length
  isRow : IsRow rows

/-- A header and a row of pieces that are read as a table: the number of packages is declared, all of them can be
read, and there are strings. -/
structure Fits (head : List UInt8) (rows : List (List UInt8)) : Prop extends Framed head rows where
  count : (Bytes.word head countPosition).toNat = (rows.filter (isOf .package)).length
  packages : ∀ bytes ∈ rows, isOf .package bytes = true → Package.IsPackage {} bytes
  strings : ∃ bytes pool, rows.find? (isOf .stringPool) = some bytes ∧
    StringPool.read bytes.toArray = .ok pool

end Table

section

variable {head : List UInt8} {rows : List (List UInt8)}

theorem filter_rewriteRows (rows : List (List UInt8)) :
    (rewriteRows rows).filter (isOf .package) = (rows.filter (isOf .package)).map Package.rewriteFront := by
  have through : isOf .package ∘ rewritePiece = isOf .package := funext (isOf_rewritePiece .package)
  rw [rewriteRows, List.filter_map, through, filter_regroup]
  exact List.map_congr_left fun bytes inside => rewritePiece_of_package (List.mem_filter.1 inside).2

theorem filter_not_rewriteRows (rows : List (List UInt8)) :
    (rewriteRows rows).filter (!isOf .package ·) = rows.filter (!isOf .package ·) := by
  have through : (!isOf .package ·) ∘ rewritePiece = (!isOf .package ·) :=
    funext fun bytes => congrArg (!·) (isOf_rewritePiece .package bytes)
  rw [rewriteRows, List.filter_map, through, filter_not_regroup]
  refine (List.map_congr_left fun bytes inside => ?_).trans (List.map_id _)
  exact rewritePiece_of_other (by simpa using (List.mem_filter.1 inside).2)

/-- A table that is written anew has its first pool where it was among the chunks that are no packages. -/
theorem find?_rewriteRows (rows : List (List UInt8)) :
    (rewriteRows rows).find? (isOf .stringPool) = rows.find? (isOf .stringPool) := by
  have other (bytes : List UInt8) (pool : isOf .stringPool bytes = true) : (!isOf .package bytes) = true := by
    unfold isOf at pool ⊢
    simp only [Bool.and_eq_true, beq_iff_eq] at pool
    simp [pool.2]
  have within (row : List (List UInt8)) : row.find? (isOf .stringPool) =
      (row.filter (!isOf .package ·)).find? (isOf .stringPool) := by
    rw [List.find?_filter]
    refine congrArg (List.find? · row) (funext fun bytes => ?_)
    cases pool : isOf .stringPool bytes with
    | false => simp
    | true => simpa using other bytes pool
  rw [within (rewriteRows rows), filter_not_rewriteRows, ← within]

theorem length_flatten_rewriteRows (rows : List (List UInt8)) :
    (rewriteRows rows).flatten.length = rows.flatten.length := by
  have perm := regroup_perm (isOf .package) rows
  have lengths : (List.length ∘ rewritePiece : List UInt8 → Nat) = List.length := funext length_rewritePiece
  rw [rewriteRows, List.length_flatten, List.length_flatten, List.map_map, lengths]
  exact (perm.map _).sum_nat

theorem isRow_rewriteRows (isRow : IsRow rows)
    (packages : ∀ bytes ∈ rows, isOf .package bytes = true → Package.IsPackage {} bytes) :
    IsRow (rewriteRows rows) := by
  obtain ⟨chunks, gap, rfl, all, single, short⟩ := isRow_iff.1 isRow
  have other (bytes : List UInt8) (inside : bytes ∈ gap) : isOf .package bytes = false := by
    unfold isOf
    rw [decide_eq_false (Nat.not_le.2 (short bytes inside).2), Bool.false_and]
  have kept : gap.map rewritePiece = gap :=
    (List.map_congr_left fun bytes inside => rewritePiece_of_other (other bytes inside)).trans (List.map_id _)
  refine isRow_iff.2 ⟨(regroup (isOf .package) chunks).map rewritePiece, gap, ?_, fun bytes inside => ?_, single,
    short⟩
  · rw [rewriteRows, regroup_append_of_none other, List.map_append, kept]
  · obtain ⟨old, listed, rfl⟩ := List.mem_map.1 inside
    have member := (regroup_perm (isOf .package) chunks).mem_iff.1 listed
    cases package : isOf .package old with
    | false =>
        rw [rewritePiece_of_other package]
        exact all old member
    | true =>
        rw [rewritePiece_of_package package]
        exact (packages old (List.mem_append_left _ member) package).rewrite.isChunk

/-- What a table is written as is read as a table. -/
theorem Table.Fits.rewrite (fits : Table.Fits head rows) : Table.Fits head (rewriteRows rows) := by
  have long := fits.long
  unfold Table.headerSize at long
  have length : (head ++ (rewriteRows rows).flatten).length = (head ++ rows.flatten).length := by
    rw [List.length_append, List.length_append, length_flatten_rewriteRows]
  have half : Bytes.half (head ++ (rewriteRows rows).flatten) 2 = Bytes.half (head ++ rows.flatten) 2 := by
    rw [Bytes.half_append (by omega), Bytes.half_append (by omega)]
  have word : Bytes.word (head ++ (rewriteRows rows).flatten) 4 = Bytes.word (head ++ rows.flatten) 4 := by
    rw [Bytes.word_append (by omega), Bytes.word_append (by omega)]
  exact {
    isChunk := {
      least := by
        rw [half]
        exact fits.isChunk.least
      within := by
        rw [half, length]
        exact fits.isChunk.within
      size := by
        rw [word, length]
        exact fits.isChunk.size }
    type := fits.type
    size := fits.size
    long := fits.long
    isRow := isRow_rewriteRows fits.isRow fits.packages
    count := by
      rw [filter_rewriteRows, List.length_map]
      exact fits.count
    packages := fun bytes inside package => by
      have listed := List.mem_filter.2 ⟨inside, package⟩
      rw [filter_rewriteRows] at listed
      obtain ⟨old, member, rfl⟩ := List.mem_map.1 listed
      obtain ⟨member, package⟩ := List.mem_filter.1 member
      exact (fits.packages old member package).rewrite
    strings := by
      rw [find?_rewriteRows]
      exact fits.strings }

/-- A table that is written a second time is written as before. -/
theorem rewriteRows_rewriteRows (packages : ∀ bytes ∈ rows, isOf .package bytes = true → Package.IsPackage {} bytes) :
    rewriteRows (rewriteRows rows) = rewriteRows rows := by
  rw [rewriteRows, rewriteRows, regroup_map (isOf_rewritePiece .package), regroup_regroup, List.map_map]
  refine List.map_congr_left fun bytes inside => ?_
  have member := (regroup_perm (isOf .package) rows).mem_iff.1 inside
  rw [Function.comp_apply]
  cases package : isOf .package bytes with
  | false => rw [rewritePiece_of_other package, rewritePiece_of_other package]
  | true =>
      have again : isOf .package (rewritePiece bytes) = true := (isOf_rewritePiece .package bytes).trans package
      rw [rewritePiece_of_package again, rewritePiece_of_package package,
        Package.rewriteFront_rewriteFront (packages bytes member package).long]

end

end DexArsc.Resource
