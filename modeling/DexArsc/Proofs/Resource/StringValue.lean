/-
String values of type chunks. When no string index overlaps a field from which the values are found,
or another string index, a remap replaces each string index by its image and nothing else.
-/

import DexArsc.Proofs.Bytes.Word
import DexArsc.Proofs.Leads
import DexArsc.Resource.StringValue
import Mathlib.Data.List.Basic

namespace DexArsc.Resource

namespace TypeChunk

variable {chunk other : Bytes}

theorem half_congr {position : Nat} (size : other.size = chunk.size)
    (same : ∀ place, position ≤ place → place < position + 2 → other[place]? = chunk[place]?) :
    half other position = half chunk position := by
  unfold half
  rw [Bytes.getWord16?_congr size same, size]

theorem word_congr {position : Nat} (size : other.size = chunk.size)
    (same : ∀ place, position ≤ place → place < position + 4 → other[place]? = chunk[place]?) :
    word other position = word chunk position := by
  unfold word
  rw [Bytes.getWord32?_congr size same, size]

theorem word_eq_ok {position value : Nat} :
    word chunk position = .ok value ↔ ∃ found, chunk.getWord32? position = some found ∧
      found.toNat = value := by
  unfold word
  cases chunk.getWord32? position <;> simp

/-- The runs of bytes, with position and length, in which an entry tells where its values are: its
size and flags, the number of its values, and the data type of each value. -/
def entryFields (chunk : Bytes) (entry : Nat) : List (Nat × Nat) :=
  (entry, 4) :: match half chunk entry, half chunk (entry + 2) with
    | .ok size, .ok flags =>
      if flags / 8 % 2 = 1 then []
      else if flags % 2 = 1 then
        (entry + 12, 4) :: match word chunk (entry + 12) with
          | .ok count => (List.range (min count chunk.size)).map fun index =>
            (entry + size + index * 12 + 4 + 3, 1)
          | .error _ => []
      else [(entry + size + 3, 1)]
    | _, _ => []

/-- The number of bytes in which a form lists one entry. -/
def OffsetForm.width : OffsetForm → Nat
  | sparse => 4
  | half => 2
  | word => 4

/-- The entries that a chunk lists. -/
def entries (chunk : Bytes) : List Nat :=
  match word chunk 16, entryOffsets chunk with
  | .ok start, .ok offsets => distinct (offsets.map (start + ·))
  | _, _ => []

theorem entries_eq {chunk : Bytes} {start : Nat} {offsets : List Nat} (first : word chunk 16 = .ok start)
    (listed : entryOffsets chunk = .ok offsets) : entries chunk = distinct (offsets.map (start + ·)) := by
  unfold entries
  rw [first, listed]

/-- The positions of the string indexes of an entry, or none for an entry that passes the end. -/
def entrySlots (chunk : Bytes) (entry : Nat) : List Nat :=
  match stringIndexes chunk entry with
  | .ok slots => slots
  | .error _ => []

/-- The positions of all string indexes. -/
def slots (chunk : Bytes) : List Nat :=
  (entries chunk).flatMap (entrySlots chunk)

/-- The runs of bytes, with position and length, in which a chunk tells where its values are: its
header, the offset table and the fields of the entries. -/
def fields (chunk : Bytes) : List (Nat × Nat) :=
  (0, 20) :: (match half chunk 2, word chunk 12 with
    | .ok header, .ok count => [(0, header), (header, count * (offsetForm chunk).width)]
    | _, _ => []) ++ (entries chunk).flatMap (entryFields chunk)

/-- No string index overlaps the chunk header, the offset table, a field of an entry or another
string index. -/
structure Apart (chunk : Bytes) : Prop where
  fields : ∀ slot ∈ slots chunk, ∀ field ∈ fields chunk, slot + 4 ≤ field.1 ∨ field.1 + field.2 ≤ slot
  slots : (slots chunk).Pairwise fun first second => first + 4 ≤ second ∨ second + 4 ≤ first

instance (chunk : Bytes) : Decidable (Apart chunk) :=
  decidable_of_iff ((∀ slot ∈ slots chunk, ∀ field ∈ fields chunk,
      slot + 4 ≤ field.1 ∨ field.1 + field.2 ≤ slot) ∧
      (slots chunk).Pairwise fun first second => first + 4 ≤ second ∨ second + 4 ≤ first)
    ⟨fun ⟨fields, slots⟩ => ⟨fields, slots⟩, fun apart => ⟨apart.fields, apart.slots⟩⟩

/-- All entries that a chunk lists and all their string indexes lie inside of it. -/
structure Complete (chunk : Bytes) : Prop where
  listed : ∃ start offsets, word chunk 16 = .ok start ∧ entryOffsets chunk = .ok offsets
  entries : ∀ entry ∈ entries chunk, ∃ positions, stringIndexes chunk entry = .ok positions ∧
    ∀ position ∈ positions, position + 4 ≤ chunk.size

/-- A chunk has the same size as another one and the same bytes in runs. -/
structure Agrees (runs : List (Nat × Nat)) (chunk other : Bytes) : Prop where
  size : other.size = chunk.size
  same : ∀ run ∈ runs, ∀ place, run.1 ≤ place → place < run.1 + run.2 → other[place]? = chunk[place]?

theorem Agrees.part {runs some : List (Nat × Nat)} (agrees : Agrees runs chunk other)
    (part : ∀ run ∈ some, run ∈ runs) : Agrees some chunk other :=
  ⟨agrees.size, fun run inside => agrees.same run (part run inside)⟩

theorem stringAt?_congr {value : Nat} (same : other[value + 3]? = chunk[value + 3]?) :
    stringAt? other value = stringAt? chunk value := by
  unfold stringAt?
  rw [same]

/-- The size and the flags of an entry are fields of it. -/
theorem Agrees.entryHead {entry : Nat} (agrees : Agrees (entryFields chunk entry) chunk other) :
    half other entry = half chunk entry ∧ half other (entry + 2) = half chunk (entry + 2) := by
  have same := agrees.same (entry, 4) (by simp [entryFields])
  exact ⟨half_congr agrees.size fun place first last => same place first (by simp; omega),
    half_congr agrees.size fun place first last => same place (by simp; omega) (by simp; omega)⟩

/-- The positions of an entry's string indexes depend on its fields. -/
theorem stringIndexes_congr {entry : Nat} (agrees : Agrees (entryFields chunk entry) chunk other) :
    stringIndexes other entry = stringIndexes chunk entry := by
  obtain ⟨front, back⟩ := agrees.entryHead
  have more := agrees.same
  unfold entryFields at more
  unfold stringIndexes
  rw [front, back]
  cases sized : half chunk entry with
  | error fault => rfl
  | ok size =>
      cases flagged : half chunk (entry + 2) with
      | error fault => rfl
      | ok flags =>
          rw [sized, flagged] at more
          simp only [bind, Except.bind]
          by_cases compact : flags / 8 % 2 = 1
          · rw [if_pos compact, if_pos compact]
          · rw [if_neg compact, if_neg compact]
            simp only [if_neg compact] at more
            by_cases complex : flags % 2 = 1
            · rw [if_pos complex, if_pos complex]
              simp only [if_pos complex] at more
              have counts : word other (entry + 12) = word chunk (entry + 12) :=
                word_congr agrees.size fun place first last =>
                  more (entry + 12, 4) (by simp) place first last
              rw [counts]
              cases counted : word chunk (entry + 12) with
              | error fault => rfl
              | ok count =>
                  rw [counted] at more
                  rw [agrees.size]
                  simp only
                  congr 1
                  refine List.filterMap_congr fun index inside => stringAt?_congr ?_
                  refine more (_, 1) ?_ _ (Nat.le_refl _) (Nat.lt_succ_self _)
                  exact List.mem_cons_of_mem _ (List.mem_cons_of_mem _
                    (List.mem_map.2 ⟨index, inside, rfl⟩))
            · rw [if_neg complex, if_neg complex]
              simp only [if_neg complex] at more
              rw [stringAt?_congr (more (entry + size + 3, 1) (by simp) _ (Nat.le_refl _)
                (Nat.lt_succ_self _))]

/-- A value that passes the end of the chunk is no string. -/
theorem stringAt?_beyond {value : Nat} (beyond : chunk.size ≤ value + 3) : stringAt? chunk value = none := by
  unfold stringAt?
  rw [Array.getElem?_eq_none beyond]
  rfl

/-- However many values a list declares, only those within the chunk are strings. -/
theorem filterMap_stringAt? (chunk : Bytes) (start count : Nat) :
    ((List.range (min count chunk.size)).filterMap fun index => stringAt? chunk (start + index * 12 + 4)) =
      (List.range count).filterMap fun index => stringAt? chunk (start + index * 12 + 4) := by
  obtain ⟨more, total⟩ := Nat.exists_eq_add_of_le (Nat.min_le_left count chunk.size)
  conv => rhs; rw [total, List.range_add, List.filterMap_append]
  refine (List.append_right_eq_self.2 (List.filterMap_eq_nil_iff.2 fun index inside => ?_)).symm
  obtain ⟨behind, within, rfl⟩ := List.mem_map.1 inside
  have some := List.mem_range.1 within
  exact stringAt?_beyond (by omega)

/-- All values that an entry's list declares are searched for strings. -/
theorem stringIndexes_eq (chunk : Bytes) (entry : Nat) : stringIndexes chunk entry = (do
    let size ← half chunk entry
    let flags ← half chunk (entry + 2)
    if flags / 8 % 2 = 1 then
      return if UInt8.ofNat (flags / 256) = stringType then [entry + 4] else []
    else if flags % 2 = 1 then
      let count ← word chunk (entry + 12)
      return (List.range count).filterMap fun index => stringAt? chunk (entry + size + index * 12 + 4)
    else
      return (stringAt? chunk (entry + size)).toList) := by
  unfold stringIndexes
  simp only [filterMap_stringAt?]

theorem four_le_of_stringAt? {value slot : Nat} (found : stringAt? chunk value = some slot) :
    4 ≤ slot := by
  unfold stringAt? at found
  split at found
  · cases found
    exact Nat.le_add_left ..
  · cases found

/-- No string index stands in the first four bytes. -/
theorem four_le_of_stringIndexes {entry slot : Nat} {positions : List Nat}
    (found : stringIndexes chunk entry = .ok positions) (inside : slot ∈ positions) : 4 ≤ slot := by
  rw [stringIndexes_eq] at found
  obtain ⟨size, _, found⟩ := Except.bind_eq_ok.1 found
  obtain ⟨flags, _, found⟩ := Except.bind_eq_ok.1 found
  split at found
  · cases found
    split at inside
    · rw [List.mem_singleton.1 inside]
      exact Nat.le_add_left ..
    · cases inside
  · split at found
    · obtain ⟨count, _, found⟩ := Except.bind_eq_ok.1 found
      cases found
      obtain ⟨index, _, here⟩ := List.mem_filterMap.1 inside
      exact four_le_of_stringAt? here
    · cases found
      exact four_le_of_stringAt? (Option.mem_toList.1 inside)

theorem entryOffset?_congr {header index count : Nat} {form : OffsetForm} (size : other.size = chunk.size)
    (inside : index < count) (same : ∀ place, header ≤ place → place < header + count * form.width →
      other[place]? = chunk[place]?) :
    entryOffset? other header index form = entryOffset? chunk header index form := by
  have bound : (index + 1) * form.width ≤ count * form.width := Nat.mul_le_mul_right _ inside
  cases form with
  | sparse =>
      simp only [OffsetForm.width] at bound same
      simp only [entryOffset?]
      rw [half_congr size fun place first last => same place (by omega) (by omega)]
  | half =>
      simp only [OffsetForm.width] at bound same
      simp only [entryOffset?]
      rw [half_congr size fun place first last => same place (by omega) (by omega)]
  | word =>
      simp only [OffsetForm.width] at bound same
      simp only [entryOffset?]
      rw [word_congr size fun place first last => same place (by omega) (by omega)]

theorem entryOffsetsFrom_congr {header total : Nat} {form : OffsetForm} (size : other.size = chunk.size)
    (same : ∀ place, header ≤ place → place < header + total * form.width →
      other[place]? = chunk[place]?) {count index : Nat} (inside : index + count ≤ total)
    (found : List Nat) : entryOffsetsFrom other header form count index found =
      entryOffsetsFrom chunk header form count index found := by
  induction count generalizing index found with
  | zero => rfl
  | succ count ih =>
      have next (found : List Nat) := @ih (index + 1) (by omega) found
      unfold entryOffsetsFrom
      rw [entryOffset?_congr size (by omega) same]
      simp only [next]

/-- The front of a chunk holds the fields of its header that a remap reads. -/
theorem Agrees.front (agrees : Agrees (fields chunk) chunk other) {place : Nat} (inside : place < 20) :
    other[place]? = chunk[place]? :=
  agrees.same (0, 20) (by simp [fields]) place (Nat.zero_le _) (by simp; omega)

theorem half_congr_front {position : Nat} (agrees : Agrees (fields chunk) chunk other)
    (inside : position + 2 ≤ 20) : half other position = half chunk position :=
  half_congr agrees.size fun _ _ last => agrees.front (by omega)

theorem word_congr_front {position : Nat} (agrees : Agrees (fields chunk) chunk other)
    (inside : position + 4 ≤ 20) : word other position = word chunk position :=
  word_congr agrees.size fun _ _ last => agrees.front (by omega)

theorem offsetForm_congr (agrees : Agrees (fields chunk) chunk other) :
    offsetForm other = offsetForm chunk := by
  unfold offsetForm
  rw [agrees.front (by decide)]

/-- The offsets of the entries depend on the header and the offset table. -/
theorem entryOffsets_congr (agrees : Agrees (fields chunk) chunk other) :
    entryOffsets other = entryOffsets chunk := by
  have more := agrees.same
  unfold fields at more
  unfold entryOffsets
  rw [half_congr_front agrees (by decide), word_congr_front agrees (by decide), offsetForm_congr agrees]
  cases sized : half chunk 2 with
  | error fault => rfl
  | ok header =>
      cases counted : word chunk 12 with
      | error fault => rfl
      | ok count =>
          rw [sized, counted] at more
          refine entryOffsetsFrom_congr agrees.size (fun place first last => ?_)
            (Nat.le_of_eq (Nat.zero_add count)) []
          exact more (header, count * (offsetForm chunk).width) (by simp) place first last

theorem entries_congr (agrees : Agrees (fields chunk) chunk other) : entries other = entries chunk := by
  unfold entries
  rw [word_congr_front agrees (by decide), entryOffsets_congr agrees]

theorem entrySlots_congr {entry : Nat} (agrees : Agrees (fields chunk) chunk other)
    (inside : entry ∈ entries chunk) : stringIndexes other entry = stringIndexes chunk entry := by
  refine stringIndexes_congr (agrees.part fun run within => ?_)
  exact List.mem_append_right _ (List.mem_flatMap.2 ⟨entry, inside, within⟩)

/-- The positions of the string indexes depend on the fields of a chunk. -/
theorem slots_congr (agrees : Agrees (fields chunk) chunk other) : slots other = slots chunk := by
  unfold slots
  rw [entries_congr agrees]
  refine List.flatMap_congr fun entry inside => ?_
  unfold entrySlots
  rw [entrySlots_congr agrees inside]

end TypeChunk

variable {state : Type} {map : StringMap state}

/-- The steps of a map lead along a relation between its states. -/
structure StringMap.Along (related : state → state → Prop) (map : StringMap state) : Prop where
  refl : ∀ inner, related inner inner
  trans : ∀ {first second third}, related first second → related second third → related first third
  leads : ∀ old inner, (map old).Leads related inner

/-- Without a demand on the states every map goes along. -/
theorem StringMap.along_true (map : StringMap state) : map.Along fun _ _ => True where
  refl _ := trivial
  trans _ _ := trivial
  leads _ _ := .of_ends fun _ _ => trivial

/-- The words at positions are replaced by their images, one after another. -/
inductive Rewrites (map : StringMap state) : List Nat → Bytes × state → Bytes × state → Prop
  | nil (initial : Bytes × state) : Rewrites map [] initial initial
  | cons {position : Nat} {positions : List Nat} {chunk : Bytes} {inner next : state}
    {old new : UInt32} {final : Bytes × state} (found : chunk.getWord32? position = some old)
    (image : map old inner = .ok new next)
    (rest : Rewrites map positions (chunk.putWord32 position new, next) final) :
    Rewrites map (position :: positions) (chunk, inner) final

namespace Rewrites

variable {positions more : List Nat} {initial between final : Bytes × state}

theorem append (before : Rewrites map positions initial between)
    (behind : Rewrites map more between final) : Rewrites map (positions ++ more) initial final := by
  induction before with
  | nil => exact behind
  | cons found image _ ih => exact .cons found image (ih behind)

theorem size (rewrites : Rewrites map positions initial final) : final.1.size = initial.1.size := by
  induction rewrites with
  | nil => rfl
  | cons _ _ _ ih => rw [ih, Bytes.size_putWord32]

/-- The words that are rewritten lie inside of the chunk. -/
theorem within (rewrites : Rewrites map positions initial final) {position : Nat}
    (inside : position ∈ positions) : position + 4 ≤ initial.1.size := by
  induction rewrites with
  | nil => cases inside
  | cons found _ _ ih =>
      rcases List.mem_cons.1 inside with rfl | later
      · exact Bytes.le_size_of_getWord32? found
      · exact Bytes.size_putWord32 .. ▸ ih later

/-- A byte outside of all rewritten words stays. -/
theorem getElem? (rewrites : Rewrites map positions initial final) {place : Nat}
    (apart : ∀ position ∈ positions, place < position ∨ position + 4 ≤ place) :
    final.1[place]? = initial.1[place]? := by
  induction rewrites with
  | nil => rfl
  | cons _ _ _ ih =>
      rw [ih fun position inside => apart position (List.mem_cons_of_mem _ inside),
        Bytes.getElem?_putWord32_of_apart _ (apart _ List.mem_cons_self)]

theorem related {related : state → state → Prop} (along : map.Along related)
    (rewrites : Rewrites map positions initial final) : related initial.2 final.2 := by
  induction rewrites with
  | nil => exact along.refl _
  | cons _ image _ ih => exact along.trans ((along.leads _ _).ensures.ok image) ih

/-- Each rewritten word is the image of the word before, as found on the way. -/
theorem image {related : state → state → Prop} (along : map.Along related)
    (rewrites : Rewrites map positions initial final)
    (apart : positions.Pairwise fun first second => first + 4 ≤ second ∨ second + 4 ≤ first)
    {position : Nat} (inside : position ∈ positions) :
    ∃ old new inner next, initial.1.getWord32? position = some old ∧
      map old inner = .ok new next ∧ final.1.getWord32? position = some new ∧ related next final.2 := by
  induction rewrites with
  | nil => cases inside
  | @cons first rest chunk inner next old new final found image behind ih =>
      obtain ⟨here, apart⟩ := List.pairwise_cons.1 apart
      rcases List.mem_cons.1 inside with rfl | later
      · have put := Bytes.getWord32?_putWord32 new (Bytes.le_size_of_getWord32? found)
        generalize chunk.putWord32 position new = written at behind put
        have same (place : Nat) (low : position ≤ place) (high : place < position + 4) :
            final.1[place]? = written[place]? := by
          refine behind.getElem? fun other later => ?_
          rcases here other later with before | after
          · exact .inl (by omega)
          · exact .inr (by omega)
        exact ⟨old, new, inner, next, found, image, (Bytes.getWord32?_congr behind.size same).trans put,
          behind.related along⟩
      · obtain ⟨old', new', inner', next', found', rest⟩ := ih apart later
        have unchanged := @Bytes.getWord32?_putWord32_of_apart chunk position first new
          (here position later).symm
        generalize chunk.putWord32 first new = written at found' unchanged
        exact ⟨old', new', inner', next', unchanged.symm.trans found', rest⟩

/-- The runs of bytes that all rewritten words leave alone. -/
theorem agrees {runs : List (Nat × Nat)} (rewrites : Rewrites map positions initial final)
    (apart : ∀ position ∈ positions, ∀ run ∈ runs, position + 4 ≤ run.1 ∨ run.1 + run.2 ≤ position) :
    TypeChunk.Agrees runs initial.1 final.1 where
  size := rewrites.size
  same run inside place first last := rewrites.getElem? fun position listed => by
    rcases apart position listed run inside with before | after
    · exact .inr (by omega)
    · exact .inl (by omega)

end Rewrites

theorem TypeChunk.Agrees.trans {runs : List (Nat × Nat)} {first second third : Bytes}
    (before : Agrees runs first second) (behind : Agrees runs second third) :
    Agrees runs first third where
  size := behind.size.trans before.size
  same run inside place low high :=
    (behind.same run inside place low high).trans (before.same run inside place low high)

theorem TypeChunk.Agrees.refl (runs : List (Nat × Nat)) (chunk : Bytes) : Agrees runs chunk chunk :=
  ⟨rfl, fun _ _ _ _ _ => rfl⟩

/-- The step on one string index puts its image in its place. -/
theorem remapIndex_eq_ok {position : Nat} {initial final : Bytes × state}
    (run : remapIndex map position initial = .ok () final) : Rewrites map [position] initial final := by
  obtain ⟨chunk, inner⟩ := initial
  unfold remapIndex at run
  rw [Step.bind_ok (Step.get_apply _)] at run
  obtain ⟨value, found, run⟩ := Step.check_eq_ok.1 run
  obtain ⟨old, here, rfl⟩ := TypeChunk.word_eq_ok.1 found
  obtain ⟨new, _, part, run⟩ := Step.bind_eq_ok.1 run
  obtain ⟨next, image, rfl⟩ := Step.onPart_eq_ok.1 part
  rw [UInt32.ofNat_toNat] at image run
  have put : final = (chunk.putWord32 position new, next) := by
    split at run
    · cases run
      rfl
    · rename_i same
      cases run
      rw [Decidable.not_not.1 same, Bytes.putWord32_getWord32? here]
  rw [put]
  exact .cons here image (.nil _)

theorem remapIndexes_eq_ok {positions : List Nat} {initial final : Bytes × state}
    (run : positions.forM (remapIndex map) initial = .ok () final) :
    Rewrites map positions initial final := by
  induction positions generalizing initial with
  | nil =>
      cases run
      exact .nil _
  | cons position rest ih =>
      rw [Step.forM_cons] at run
      obtain ⟨_, between, first, run⟩ := Step.bind_eq_ok.1 run
      exact (remapIndex_eq_ok first).append (ih run)

theorem remapEntry_eq_ok {entry count : Nat} {initial final : Bytes × state}
    (run : remapEntry map entry initial = .ok count final) : ∃ positions,
      TypeChunk.stringIndexes initial.1 entry = .ok positions ∧ positions.length = count ∧
        Rewrites map positions initial final := by
  unfold remapEntry at run
  rw [Step.bind_ok (Step.get_apply _)] at run
  obtain ⟨positions, found, run⟩ := Step.check_eq_ok.1 run
  obtain ⟨_, between, each, result⟩ := Step.bind_eq_ok.1 run
  cases result
  exact ⟨positions, found, rfl, remapIndexes_eq_ok each⟩

/-- The positions at which a row of entries is rewritten are those of the chunk as it was, as long as no
rewritten word is a field of an entry. -/
theorem remapEntries_eq_ok {chunk : Bytes} {runs : List (Nat × Nat)} {entries : List Nat} {count total : Nat}
    {initial final : Bytes × state}
    (run : entries.foldlM (fun count entry => do
      return count + (← remapEntry map entry) : Nat → Nat → Step (Bytes × state) Nat) count initial =
        .ok total final) :
    ∃ positions, Rewrites map positions initial final ∧ (∀ position ∈ positions, 4 ≤ position) ∧
      total = count + positions.length ∧
      ((∀ entry ∈ entries, ∀ run ∈ TypeChunk.entryFields chunk entry, run ∈ runs) →
        (∀ entry ∈ entries, ∀ position ∈ TypeChunk.entrySlots chunk entry, ∀ run ∈ runs,
          position + 4 ≤ run.1 ∨ run.1 + run.2 ≤ position) →
        TypeChunk.Agrees runs chunk initial.1 →
          positions = entries.flatMap (TypeChunk.entrySlots chunk) ∧
          ∀ entry ∈ entries, ∃ positions, TypeChunk.stringIndexes chunk entry = .ok positions ∧
            ∀ position ∈ positions, position + 4 ≤ chunk.size) := by
  induction entries generalizing count initial with
  | nil =>
      cases run
      exact ⟨[], .nil _, by simp, rfl, fun _ _ _ => ⟨rfl, by simp⟩⟩
  | cons entry rest ih =>
      rw [List.foldlM_cons] at run
      obtain ⟨next, between, first, run⟩ := Step.bind_eq_ok.1 run
      obtain ⟨length, _, first, same⟩ := Step.bind_eq_ok.1 first
      cases same
      obtain ⟨positions, found, rfl, here⟩ := remapEntry_eq_ok first
      obtain ⟨more, there, low, rfl, behind⟩ := ih run
      refine ⟨positions ++ more, here.append there, fun position inside => ?_,
        by rw [List.length_append, Nat.add_assoc], fun fields apart agrees => ?_⟩
      · rcases List.mem_append.1 inside with inside | inside
        · exact TypeChunk.four_le_of_stringIndexes found inside
        · exact low position inside
      · have same := TypeChunk.stringIndexes_congr (agrees.part (fields entry List.mem_cons_self))
        have slots : TypeChunk.entrySlots chunk entry = positions := by
          unfold TypeChunk.entrySlots
          rw [← same, found]
        have kept := here.agrees fun position inside =>
          apart entry List.mem_cons_self position (slots ▸ inside)
        obtain ⟨rows, complete⟩ := behind
          (fun entry inside => fields entry (List.mem_cons_of_mem _ inside))
          (fun entry inside => apart entry (List.mem_cons_of_mem _ inside)) (agrees.trans kept)
        refine ⟨by rw [List.flatMap_cons, slots, rows], List.forall_mem_cons.2 ⟨?_, complete⟩⟩
        exact ⟨positions, same ▸ found, fun position inside => agrees.size ▸ here.within inside⟩

/-- A remap rewrites the string indexes of the chunk as it was. Without string indexes that overlap,
these are all that it rewrites. -/
theorem remapStrings_eq_ok {count : Nat} {initial final : Bytes × state}
    (run : remapStrings map initial = .ok count final) :
    ∃ positions, Rewrites map positions initial final ∧ (∀ position ∈ positions, 4 ≤ position) ∧
      count = positions.length ∧ (TypeChunk.Apart initial.1 →
        positions = TypeChunk.slots initial.1 ∧ TypeChunk.Complete initial.1) := by
  unfold remapStrings at run
  rw [Step.bind_ok (Step.get_apply _)] at run
  obtain ⟨start, found, run⟩ := Step.check_eq_ok.1 run
  obtain ⟨offsets, listed, run⟩ := Step.check_eq_ok.1 run
  have entries := TypeChunk.entries_eq found listed
  obtain ⟨positions, rewrites, low, total, slots⟩ :=
    @remapEntries_eq_ok _ map initial.1 (TypeChunk.fields initial.1) _ _ _ _ _ run
  rw [← entries] at slots
  refine ⟨positions, rewrites, low, total.trans (Nat.zero_add _), fun apart => ?_⟩
  obtain ⟨rows, complete⟩ := slots
    (fun entry inside run within => List.mem_append_right _ (List.mem_flatMap.2 ⟨entry, inside, within⟩))
    (fun entry inside position within => apart.fields position (List.mem_flatMap.2 ⟨entry, inside, within⟩))
    (.refl _ _)
  exact ⟨rows, ⟨start, offsets, found, listed⟩, complete⟩

/-- The state of a map behind a remap is related to the one before. -/
def OnState (related : state → state → Prop) (initial final : Bytes × state) : Prop :=
  related initial.2 final.2

/-- Wherever a remap ends, the state of the map is where the steps of the map lead. -/
theorem remapStrings_leads {related : state → state → Prop} (along : map.Along related)
    (initial : Bytes × state) : (remapStrings map).Leads (OnState related) initial := by
  have self (pair : Bytes × state) : OnState related pair pair := along.refl _
  have chain {first second third : Bytes × state} (before : OnState related first second)
      (behind : OnState related second third) : OnState related first third := along.trans before behind
  have index (position : Nat) (initial : Bytes × state) :
      (remapIndex map position).Leads (OnState related) initial := by
    unfold remapIndex
    refine .get (.check (self _) fun value _ => .bind chain (.onPart (along.leads _ _) fun _ here => here)
      fun new between _ => ?_)
    split
    · exact .modify (self between)
    · exact .pure (self between) _
  have entry (entry : Nat) (initial : Bytes × state) :
      (remapEntry map entry).Leads (OnState related) initial := by
    unfold remapEntry
    exact .get (.check (self _) fun positions _ => .bind chain
      (.forM self chain (fun position _ => index position) _) fun _ between _ => .pure (self between) _)
  unfold remapStrings
  exact .get (.check (self _) fun start _ => .check (self _) fun offsets _ =>
    .foldlM self chain (fun count place _ initial => .bind chain (entry place initial)
      fun _ between _ => .pure (self between) _) _ _)

end DexArsc.Resource
