/-
Words and their places in byte data: narrowing succeeds on the numbers that fit, bytes that are overwritten
leave the others, a number depends on its own bytes only, and a word that was put somewhere is read there.
-/

import DexArsc.Bytes.Word
import DexArsc.Proofs.Bytes.Reads
import DexArsc.Proofs.Step
import Mathlib.Algebra.Ring.Nat

namespace DexArsc

theorem narrow16_eq_ok {what : String} {value : Nat} {word : UInt16} :
    narrow16 what value = .ok word ↔ word.toNat = value := by
  have bound := word.toNat_lt
  have range : (Slot.half.least ≤ (value : Int) ∧ (value : Int) ≤ Slot.half.greatest) ↔ value ≤ 0xFFFF := by
    simp only [Slot.least, Slot.greatest]
    omega
  unfold narrow16 Slot.narrow
  by_cases fits : value ≤ 0xFFFF
  · rw [if_pos (range.2 fits)]
    simp only [Except.map, Except.ok.injEq, Int.toNat_natCast, ← UInt16.toNat_inj,
      UInt16.toNat_ofNat']
    omega
  · rw [if_neg fun inside => fits (range.1 inside)]
    simp only [Except.map, fail, throw, throwThe, MonadExceptOf.throw, reduceCtorEq, false_iff]
    omega

theorem narrow32_eq_ok {what : String} {value : Nat} {word : UInt32} :
    narrow32 what value = .ok word ↔ word.toNat = value := by
  have bound := word.toNat_lt
  have range : (Slot.word.least ≤ (value : Int) ∧ (value : Int) ≤ Slot.word.greatest) ↔ value ≤ 0xFFFFFFFF := by
    simp only [Slot.least, Slot.greatest]
    omega
  unfold narrow32 Slot.narrow
  by_cases fits : value ≤ 0xFFFFFFFF
  · rw [if_pos (range.2 fits)]
    simp only [Except.map, Except.ok.injEq, Int.toNat_natCast, ← UInt32.toNat_inj,
      UInt32.toNat_ofNat']
    omega
  · rw [if_neg fun inside => fits (range.1 inside)]
    simp only [Except.map, fail, throw, throwThe, MonadExceptOf.throw, reduceCtorEq, false_iff]
    omega

/-- A number that fits is narrowed. -/
theorem narrow16_of_lt (what : String) {value : Nat} (fits : value < 0x10000) :
    narrow16 what value = .ok (UInt16.ofNat value) := by
  rw [narrow16_eq_ok, UInt16.toNat_ofNat']
  exact Nat.mod_eq_of_lt fits

/-- A number that fits is narrowed. -/
theorem narrow32_of_lt (what : String) {value : Nat} (fits : value < UInt32.size) :
    narrow32 what value = .ok (UInt32.ofNat value) := by
  rw [narrow32_eq_ok, UInt32.toNat_ofNat']
  exact Nat.mod_eq_of_lt fits

namespace Bytes

@[simp] theorem size_overwrite (data : Bytes) (position : Nat) (bytes : List UInt8) :
    (data.overwrite position bytes).size = data.size := by
  induction bytes generalizing data position with
  | nil => rfl
  | cons byte rest ih => rw [overwrite, ih, Array.size_setIfInBounds]

/-- The byte at a place is that of the list where the list covers the place. -/
theorem getElem?_overwrite (data : Bytes) (position : Nat) (bytes : List UInt8) (place : Nat) :
    (data.overwrite position bytes)[place]? =
      if position ≤ place ∧ place < position + bytes.length ∧ place < data.size then
        bytes[place - position]?
      else data[place]? := by
  induction bytes generalizing data position with
  | nil =>
      rw [overwrite, if_neg]
      simp only [List.length_nil]
      omega
  | cons byte rest ih =>
      rw [overwrite, ih, Array.getElem?_setIfInBounds, Array.size_setIfInBounds]
      simp only [List.length_cons]
      by_cases here : position = place
      · subst here
        rw [if_neg (by omega), if_pos rfl]
        by_cases inside : position < data.size
        · simp [inside]
        · simp [inside]
      · rw [if_neg here]
        by_cases covered : position ≤ place ∧ place < position + (rest.length + 1) ∧ place < data.size
        · have next : place - position = place - (position + 1) + 1 := by omega
          rw [if_pos (by omega), if_pos covered, next, List.getElem?_cons_succ]
        · rw [if_neg (by omega), if_neg covered]

@[simp] theorem size_putWord32 (data : Bytes) (position : Nat) (word : UInt32) :
    (data.putWord32 position word).size = data.size := size_overwrite ..

/-- Words put at places one after another. -/
def putWords (words : List (Nat × UInt32)) (data : Bytes) : Bytes :=
  words.foldl (fun data (position, word) => data.putWord32 position word) data

@[simp] theorem size_putWords (words : List (Nat × UInt32)) (data : Bytes) :
    (putWords words data).size = data.size := by
  unfold putWords
  induction words generalizing data with
  | nil => rfl
  | cons first rest ih => rw [List.foldl_cons, ih, size_putWord32]

/-- The places that words at positions cover. -/
def Covered (positions : List Nat) (place : Nat) : Prop :=
  ∃ position ∈ positions, position ≤ place ∧ place < position + 4

/-- A byte that no word covers stays. -/
theorem getElem?_putWords {words : List (Nat × UInt32)} {place : Nat}
    (outside : ¬Covered (words.map Prod.fst) place) (data : Bytes) :
    (putWords words data)[place]? = data[place]? := by
  induction words generalizing data with
  | nil => rfl
  | cons first rest ih =>
      have here : ¬(first.1 ≤ place ∧ place < first.1 + (ofWord32 first.2).length ∧ place < data.size) :=
        fun covers => outside ⟨first.1, List.mem_cons_self, covers.1, covers.2.1⟩
      have later : ¬Covered (rest.map Prod.fst) place := fun ⟨position, inside, covers⟩ =>
        outside ⟨position, List.mem_cons_of_mem _ inside, covers⟩
      change (putWords rest (data.putWord32 first.1 first.2))[place]? = _
      rw [ih later, putWord32, getElem?_overwrite, if_neg here]

/-- Only the bytes that the words do not cover count. -/
theorem putWords_congr {words : List (Nat × UInt32)} {data other : Bytes} (size : other.size = data.size)
    (same : ∀ place, Covered (words.map Prod.fst) place ∨ other[place]? = data[place]?) :
    putWords words other = putWords words data := by
  induction words generalizing data other with
  | nil =>
      refine Array.ext_getElem? fun place => (same place).resolve_left ?_
      rintro ⟨_, inside, _⟩
      cases inside
  | cons first rest ih =>
      refine @ih (data.putWord32 first.1 first.2) (other.putWord32 first.1 first.2) (by simp [size])
        fun place => ?_
      rw [putWord32, putWord32, getElem?_overwrite, getElem?_overwrite, size]
      rcases same place with ⟨position, inside, covers⟩ | same
      · rcases List.mem_cons.1 inside with rfl | later
        · by_cases within : place < data.size
          · exact .inr (by rw [if_pos ⟨covers.1, covers.2, within⟩, if_pos ⟨covers.1, covers.2, within⟩])
          · refine .inr ?_
            rw [if_neg fun covered => within covered.2.2, if_neg fun covered => within covered.2.2,
              Array.getElem?_eq_none (by omega), Array.getElem?_eq_none (by omega)]
        · exact .inl ⟨position, later, covers⟩
      · exact .inr (by rw [same])

/-- Words replace others that were put at the same places. -/
theorem putWords_putWords {first second : List (Nat × UInt32)}
    (places : second.map Prod.fst = first.map Prod.fst) (data : Bytes) :
    putWords second (putWords first data) = putWords second data := by
  refine putWords_congr (size_putWords first data) fun place => ?_
  by_cases covered : Covered (second.map Prod.fst) place
  · exact .inl covered
  · exact .inr (getElem?_putWords (by rwa [← places]) data)

/-- A number depends on its own bytes. -/
theorem getNumber?_congr {data other : Bytes} {position count : Nat} (size : other.size = data.size)
    (same : ∀ place, position ≤ place → place < position + count → other[place]? = data[place]?) :
    other.getNumber? position count = data.getNumber? position count := by
  unfold getNumber?
  rw [size]
  split
  · congr 3
    apply Array.ext_getElem?
    intro place
    rw [Array.getElem?_extract, Array.getElem?_extract, size]
    split
    · exact same _ (by omega) (by omega)
    · rfl
  · rfl

theorem getWord16?_congr {data other : Bytes} {position : Nat} (size : other.size = data.size)
    (same : ∀ place, position ≤ place → place < position + 2 → other[place]? = data[place]?) :
    other.getWord16? position = data.getWord16? position :=
  congrArg (Option.map UInt16.ofNat) (getNumber?_congr size same)

theorem getWord32?_congr {data other : Bytes} {position : Nat} (size : other.size = data.size)
    (same : ∀ place, position ≤ place → place < position + 4 → other[place]? = data[place]?) :
    other.getWord32? position = data.getWord32? position :=
  congrArg (Option.map UInt32.ofNat) (getNumber?_congr size same)

theorem le_size_of_getWord32? {data : Bytes} {position : Nat} {word : UInt32}
    (found : data.getWord32? position = some word) : position + 4 ≤ data.size := by
  unfold getWord32? getNumber? at found
  split at found
  · assumption
  · cases found

/-- The number whose bytes stand at a position. -/
theorem getNumber?_of_stands {data : Bytes} {position : Nat} {bytes : List UInt8}
    (fits : position + bytes.length ≤ data.size) (stands : data.Stands position bytes) :
    data.getNumber? position bytes.length = some (littleEndian bytes) := by
  rw [getNumber?, if_pos fits, stands.extract_eq]

theorem getWord32?_of_stands {data : Bytes} {position : Nat} {word : UInt32}
    (stands : data.Stands position (ofWord32 word)) : data.getWord32? position = some word := by
  have fits := stands.length_le (by simp [ofWord32])
  have number := getNumber?_of_stands fits stands
  rw [length_ofWord32] at number
  rw [getWord32?, number, Option.map_some, littleEndian_ofWord32, UInt32.ofNat_toNat]

/-- Bytes stand where they were written. -/
theorem stands_overwrite {data : Bytes} {position : Nat} {bytes : List UInt8}
    (fits : position + bytes.length ≤ data.size) :
    (data.overwrite position bytes).Stands position bytes := by
  unfold Stands
  rw [List.prefix_iff_eq_take]
  apply List.ext_getElem?
  intro place
  have written : (data.overwrite position bytes).toList[position + place]? =
      (data.overwrite position bytes)[position + place]? := Array.getElem?_toList
  rw [List.getElem?_take, List.getElem?_drop, written, getElem?_overwrite]
  split
  · rw [if_pos (by omega)]
    congr 1
    omega
  · exact List.getElem?_eq_none (by omega)

theorem getWord32?_putWord32 {data : Bytes} {position : Nat} (word : UInt32)
    (fits : position + 4 ≤ data.size) : (data.putWord32 position word).getWord32? position = some word :=
  getWord32?_of_stands (stands_overwrite fits)

/-- A word elsewhere stays. -/
theorem getWord32?_putWord32_of_apart {data : Bytes} {position other : Nat} (word : UInt32)
    (apart : position + 4 ≤ other ∨ other + 4 ≤ position) :
    (data.putWord32 other word).getWord32? position = data.getWord32? position := by
  refine getWord32?_congr (size_putWord32 ..) fun place first last => ?_
  rw [putWord32, getElem?_overwrite, if_neg]
  rw [length_ofWord32]
  omega

theorem getElem?_putWord32_of_apart {data : Bytes} {position place : Nat} (word : UInt32)
    (apart : place < position ∨ position + 4 ≤ place) :
    (data.putWord32 position word)[place]? = data[place]? := by
  rw [putWord32, getElem?_overwrite, if_neg]
  rw [length_ofWord32]
  omega

/-- Four bytes are those of their number. -/
theorem ofWord32_littleEndian (first second third fourth : UInt8) :
    ofWord32 (UInt32.ofNat (littleEndian [first, second, third, fourth])) =
      [first, second, third, fourth] := by
  have b1 := first.toNat_lt
  have b2 := second.toNat_lt
  have b3 := third.toNat_lt
  have b4 := fourth.toNat_lt
  simp only [ofWord32, littleEndian, List.cons.injEq, and_true, ← UInt8.toNat_inj,
    UInt32.toNat_toUInt8, UInt32.toNat_shiftRight, UInt32.toNat_ofNat', Nat.shiftRight_eq_div_pow]
  refine ⟨?_, ?_, ?_, ?_⟩
  · omega
  · simp
    omega
  · simp
    omega
  · simp
    omega

/-- The bytes of the word at a position. -/
theorem ofWord32_of_getWord32? {data : Bytes} {position : Nat} {word : UInt32}
    (found : data.getWord32? position = some word) :
    ofWord32 word = (data.extract position (position + 4)).toList := by
  have fits := le_size_of_getWord32? found
  rw [getWord32?, getNumber?, if_pos fits, Option.map_some, Option.some.injEq] at found
  have length : (data.extract position (position + 4)).toList.length = 4 := by
    rw [Array.length_toList, Array.size_extract]
    omega
  obtain ⟨first, second, third, fourth, bytes⟩ : ∃ first second third fourth,
      (data.extract position (position + 4)).toList = [first, second, third, fourth] := by
    match (data.extract position (position + 4)).toList, length with
    | [first, second, third, fourth], _ => exact ⟨first, second, third, fourth, rfl⟩
  rw [← found, bytes, ofWord32_littleEndian]

/-- A word that is put where it stands. -/
theorem putWord32_getWord32? {data : Bytes} {position : Nat} {word : UInt32}
    (found : data.getWord32? position = some word) : data.putWord32 position word = data := by
  apply Array.ext_getElem?
  intro place
  rw [putWord32, getElem?_overwrite, length_ofWord32]
  split
  · rw [ofWord32_of_getWord32? found, Array.getElem?_toList, Array.getElem?_extract, if_pos (by omega)]
    congr 1
    omega
  · rfl

/-- The 16-bit word at a position of bytes. -/
def half (bytes : List UInt8) (position : Nat) : UInt16 :=
  UInt16.ofNat (littleEndian ((bytes.drop position).take 2))

/-- The 32-bit word at a position of bytes. -/
def word (bytes : List UInt8) (position : Nat) : UInt32 :=
  UInt32.ofNat (littleEndian ((bytes.drop position).take 4))

/-- Two bytes are those of their number. -/
theorem ofWord16_littleEndian (first second : UInt8) :
    ofWord16 (UInt16.ofNat (littleEndian [first, second])) = [first, second] := by
  have b1 := first.toNat_lt
  have b2 := second.toNat_lt
  simp only [ofWord16, littleEndian, List.cons.injEq, and_true, ← UInt8.toNat_inj, UInt16.toNat_toUInt8,
    UInt16.toNat_shiftRight, UInt16.toNat_ofNat', Nat.shiftRight_eq_div_pow]
  refine ⟨?_, ?_⟩
  · omega
  · simp
    omega

/-- The bytes of a 16-bit word. -/
theorem ofWord16_half {bytes : List UInt8} {position : Nat} (within : position + 2 ≤ bytes.length) :
    ofWord16 (half bytes position) = (bytes.drop position).take 2 := by
  unfold half
  match row : (bytes.drop position).take 2, (by simp; omega : ((bytes.drop position).take 2).length = 2) with
  | [first, second], _ => exact ofWord16_littleEndian first second

/-- The bytes of a 32-bit word. -/
theorem ofWord32_word {bytes : List UInt8} {position : Nat} (within : position + 4 ≤ bytes.length) :
    ofWord32 (word bytes position) = (bytes.drop position).take 4 := by
  unfold word
  match row : (bytes.drop position).take 4, (by simp; omega : ((bytes.drop position).take 4).length = 4) with
  | [first, second, third, fourth], _ => exact ofWord32_littleEndian first second third fourth

/-- Words of bytes that continue. -/
theorem half_append {bytes : List UInt8} {position : Nat} (within : position + 2 ≤ bytes.length)
    (rest : List UInt8) : half (bytes ++ rest) position = half bytes position := by
  unfold half
  rw [List.drop_append_of_le_length (by omega), List.take_append_of_le_length (by simp; omega)]

theorem word_append {bytes : List UInt8} {position : Nat} (within : position + 4 ≤ bytes.length)
    (rest : List UInt8) : word (bytes ++ rest) position = word bytes position := by
  unfold word
  rw [List.drop_append_of_le_length (by omega), List.take_append_of_le_length (by simp; omega)]

/-- The words that bytes consist of. -/
theorem half_middle (front : List UInt8) (value : UInt16) (rest : List UInt8) :
    half (front ++ (ofWord16 value ++ rest)) front.length = value := by
  rw [half, List.drop_left, List.take_left' (length_ofWord16 value), littleEndian_ofWord16, UInt16.ofNat_toNat]

theorem word_middle (front : List UInt8) (value : UInt32) (rest : List UInt8) :
    word (front ++ (ofWord32 value ++ rest)) front.length = value := by
  rw [word, List.drop_left, List.take_left' (length_ofWord32 value), littleEndian_ofWord32, UInt32.ofNat_toNat]

/-- Bytes in front of others have the same 16-bit words. -/
theorem half_take (bytes : List UInt8) {position count : Nat} (inside : position + 2 ≤ count) :
    half (bytes.take count) position = half bytes position := by
  rw [half, half, List.drop_take, List.take_take, Nat.min_eq_left (by omega)]

/-- A part of bytes that stand stands as well. -/
theorem Stands.part {data : Bytes} {position : Nat} {bytes : List UInt8} (stands : data.Stands position bytes)
    (start count : Nat) : data.Stands (position + start) ((bytes.drop start).take count) := by
  rw [stands_iff] at stands ⊢
  intro place inside
  simp only [List.length_take, List.length_drop] at inside
  rw [Nat.add_assoc, stands _ (by omega), List.getElem?_take_of_lt (by omega), List.getElem?_drop]

/-- The bytes between a position and the end stand there. -/
theorem stands_drop (data : Bytes) (position : Nat) : data.Stands position (data.toList.drop position) :=
  List.prefix_rfl

/-- A cut of data stands where it was cut. -/
theorem stands_extract (data : Bytes) (position stop : Nat) :
    data.Stands position (data.extract position stop).toList := by
  rw [Array.toList_extract, List.extract]
  exact List.take_prefix ..

/-- Bytes that already stand in their place are written without a change. -/
theorem overwrite_of_stands {data : Bytes} {position : Nat} {bytes : List UInt8}
    (stands : data.Stands position bytes) : data.overwrite position bytes = data := by
  rw [stands_iff] at stands
  refine Array.ext_getElem? fun place => ?_
  rw [getElem?_overwrite]
  split
  · rename_i inside
    rw [← stands (place - position) (by omega), Nat.add_sub_cancel' inside.1]
  · rfl

/-- Bytes stand where other bytes are written beside them. -/
theorem stands_overwrite_of_apart {data : Bytes} {position place : Nat} {bytes more : List UInt8}
    (stands : data.Stands position bytes)
    (apart : position + bytes.length ≤ place ∨ place + more.length ≤ position) :
    (data.overwrite place more).Stands position bytes := by
  rw [stands_iff] at stands ⊢
  intro index inside
  rw [getElem?_overwrite, if_neg (by omega)]
  exact stands index inside

/-- Bytes stand where the data is the same. -/
theorem Stands.congr {data other : Bytes} {position : Nat} {bytes : List UInt8} (stands : data.Stands position bytes)
    (same : ∀ place, position ≤ place → place < position + bytes.length → other[place]? = data[place]?) :
    other.Stands position bytes := by
  rw [stands_iff] at stands ⊢
  exact fun index inside => (same _ (Nat.le_add_right ..) (Nat.add_lt_add_left inside _)).trans (stands index inside)

theorem word_of_stands {data : Bytes} {position : Nat} {value : UInt32} (stands : data.Stands position (ofWord32 value)) :
    word data.toList position = value := by
  have cut := List.prefix_iff_eq_take.1 stands
  rw [length_ofWord32] at cut
  rw [word, ← cut, littleEndian_ofWord32, UInt32.ofNat_toNat]

/-- Words in front of overwritten bytes and behind them stay. -/
theorem drop_take_overwrite {bytes : List UInt8} {position start count : Nat} {more : List UInt8}
    (apart : start + count ≤ position ∨ position + more.length ≤ start) :
    ((overwrite bytes.toArray position more).toList.drop start).take count = (bytes.drop start).take count := by
  refine List.ext_getElem? fun place => ?_
  rw [List.getElem?_take, List.getElem?_take, List.getElem?_drop, List.getElem?_drop, Array.getElem?_toList,
    getElem?_overwrite]
  split
  · rw [if_neg (by omega), List.getElem?_toArray]
  · rfl

/-- Bytes in front of others are overwritten as they would be by themselves. -/
theorem overwrite_append {front more : List UInt8} {position : Nat} (within : position + more.length ≤ front.length)
    (rest : List UInt8) : (overwrite (front ++ rest).toArray position more).toList =
      (overwrite front.toArray position more).toList ++ rest := by
  have size (bytes : List UInt8) : (overwrite bytes.toArray position more).toList.length = bytes.length := by
    rw [Array.length_toList, size_overwrite, List.size_toArray]
  refine List.ext_getElem? fun place => ?_
  rw [Array.getElem?_toList, getElem?_overwrite, List.size_toArray, List.getElem?_toArray, List.length_append]
  by_cases inside : place < front.length
  · have inside' : place < (overwrite front.toArray position more).toList.length := by rwa [size]
    have front_eq : (overwrite front.toArray position more).toList[place]? =
        (overwrite front.toArray position more)[place]? := Array.getElem?_toList
    rw [List.getElem?_append_left inside', List.getElem?_append_left inside, front_eq, getElem?_overwrite,
      List.size_toArray, List.getElem?_toArray]
    by_cases covered : position ≤ place ∧ place < position + more.length
    · rw [if_pos ⟨covered.1, covered.2, by omega⟩, if_pos ⟨covered.1, covered.2, inside⟩]
    · rw [if_neg fun ⟨low, high, _⟩ => covered ⟨low, high⟩, if_neg fun ⟨low, high, _⟩ => covered ⟨low, high⟩]
  · rw [if_neg (by omega), List.getElem?_append_right (by omega), List.getElem?_append_right (by
      rw [size]
      omega), size]

/-- A number has no more digits than bytes. -/
theorem littleEndian_lt (bytes : List UInt8) : littleEndian bytes < 256 ^ bytes.length := by
  induction bytes with
  | nil => exact Nat.one_pos
  | cons byte rest ih =>
      have bound := byte.toNat_lt
      rw [littleEndian, List.length_cons, Nat.pow_succ']
      omega

theorem getNumber?_getD_lt (data : Bytes) (position count : Nat) :
    (data.getNumber? position count).getD 0 < 256 ^ count := by
  unfold getNumber?
  split
  · have number := littleEndian_lt (data.extract position (position + count)).toList
    rwa [Array.length_toList, Array.size_extract, Nat.min_eq_left ‹_›, Nat.add_sub_cancel_left] at number
  · exact Nat.pow_pos (by decide)

variable {data : Bytes} {position count limit : Nat} {bytes : List UInt8}

/-- A part of data is cut out of the front that it lies in. -/
theorem extract_cut {stop : Nat} (within : stop ≤ limit) :
    (data.extract 0 limit).extract position stop = data.extract position stop := by
  rw [Array.extract_extract, Nat.zero_add, Nat.zero_add, Nat.min_eq_left within]

/-- A number in the front of data is that of the data. -/
theorem getNumber?_cut (within : position + count ≤ limit) (inside : limit ≤ data.size) :
    getNumber? (data.extract 0 limit) position count = data.getNumber? position count := by
  have size : (data.extract 0 limit).size = limit := by
    rw [Array.size_extract, Nat.min_eq_left inside, Nat.sub_zero]
  unfold getNumber?
  rw [size, if_pos within, if_pos (Nat.le_trans within inside), extract_cut within]

/-- A byte in the front of data is that of the data. -/
theorem getElem?_cut (inside : position < limit) : (data.extract 0 limit)[position]? = data[position]? := by
  rw [Array.getElem?_extract, Nat.zero_add, Nat.sub_zero]
  split
  · rfl
  · exact (Array.getElem?_eq_none (by omega)).symm

/-- Bytes stand in the front of data that they lie in. -/
theorem Stands.cut (stands : data.Stands position bytes) (within : position + bytes.length ≤ limit) :
    Stands (data.extract 0 limit) position bytes :=
  stands.congr fun _ _ inside => getElem?_cut (Nat.lt_of_lt_of_le inside within)

theorem length_flatMap_ofWord32 (words : List UInt32) : (words.flatMap ofWord32).length = 4 * words.length := by
  rw [List.length_flatMap, List.map_congr_left fun word _ => length_ofWord32 word, List.map_const',
    List.sum_replicate_nat, Nat.mul_comm]

end Bytes

namespace Reader

/-- Reading the word at the position yields it. -/
theorem word16_ok {data : Bytes} {position : Nat} {bytes : List UInt8} (stands : data.Stands position bytes)
    (start : Nat) (within : start + 2 ≤ bytes.length) : word16 { data, position := position + start } =
      .ok (Bytes.half bytes start) { data, position := position + start + 2 } :=
  reads_word16 _ data _ (by rw [Bytes.ofWord16_half within]; exact stands.part start 2)

theorem word32_ok {data : Bytes} {position : Nat} {bytes : List UInt8} (stands : data.Stands position bytes)
    (start : Nat) (within : start + 4 ≤ bytes.length) : word32 { data, position := position + start } =
      .ok (Bytes.word bytes start) { data, position := position + start + 4 } :=
  reads_word32 _ data _ (by rw [Bytes.ofWord32_word within]; exact stands.part start 4)

theorem seek_eq_ok {data : Bytes} {position target : Nat} {cursor : Cursor} :
    seek target { data, position } = .ok () cursor ↔ target ≤ data.size ∧ cursor = { data, position := target } := by
  unfold seek
  rw [Step.bind_ok (Step.get_apply _), Step.guard_eq_ok]
  change ¬data.size < target ∧ EStateM.Result.ok () _ = _ ↔ _
  simp [eq_comm]

theorem peekAs_eq_ok {what : String} {data : Bytes} {position count : Nat} {bytes : List UInt8}
    {cursor : Cursor} : peekAs what count { data, position } = .ok bytes cursor ↔ count ≤ data.size - position ∧
      bytes = (data.toList.drop position).take count ∧ cursor = { data, position } := by
  unfold peekAs
  rw [Step.bind_ok (Step.get_apply _), Step.guard_eq_ok]
  change ¬data.size - position < count ∧ EStateM.Result.ok (Cursor.window _ _) _ = _ ↔ _
  rw [EStateM.Result.ok.injEq]
  have window : count ≤ data.size - position →
      Cursor.window { data, position } count = (data.toList.drop position).take count := fun enough => by
    unfold Cursor.window Cursor.limit
    rw [Array.toList_extract, List.extract]
    simp only [List.head?_nil, Option.getD_none]
    by_cases none : count = 0
    · subst none
      simp only [Nat.add_zero, List.take_zero, List.take_eq_nil_iff]
      omega
    · congr 1
      omega
  constructor
  · rintro ⟨enough, rfl, rfl⟩
    exact ⟨by omega, window (by omega), rfl⟩
  · rintro ⟨enough, rfl, rfl⟩
    exact ⟨by omega, window enough, rfl⟩

theorem peek_eq_ok {data : Bytes} {position count : Nat} {bytes : List UInt8} {cursor : Cursor} :
    peek count { data, position } = .ok bytes cursor ↔ count ≤ data.size - position ∧
      bytes = (data.toList.drop position).take count ∧ cursor = { data, position } :=
  peekAs_eq_ok

theorem bytesAs_eq_ok {what : String} {data : Bytes} {position count : Nat} {bytes : List UInt8}
    {cursor : Cursor} : bytesAs what count { data, position } = .ok bytes cursor ↔
      count ≤ data.size - position ∧ bytes = (data.toList.drop position).take count ∧
        cursor = { data, position := position + count } := by
  unfold bytesAs
  rw [Step.bind_eq_ok]
  constructor
  · rintro ⟨_, _, peeks, run⟩
    obtain ⟨enough, rfl, rfl⟩ := peekAs_eq_ok.1 peeks
    cases run
    exact ⟨enough, rfl, rfl⟩
  · rintro ⟨enough, rfl, rfl⟩
    exact ⟨_, _, peekAs_eq_ok.2 ⟨enough, rfl, rfl⟩, rfl⟩

/-- As many bytes are read as are asked for. -/
theorem length_of_bytesAs {what : String} {data : Bytes} {position count : Nat} {bytes : List UInt8}
    {cursor : Cursor} (run : bytesAs what count { data, position } = .ok bytes cursor) :
    bytes.length = count := by
  obtain ⟨enough, rfl, _⟩ := bytesAs_eq_ok.1 run
  rw [List.length_take, List.length_drop, Array.length_toList]
  omega

/-- A byte that is read stands in the data. -/
theorem byte_eq_ok {data : Bytes} {position : Nat} {value : UInt8} {cursor : Cursor} :
    byte { data, position } = .ok value cursor ↔
      data.Stands position [value] ∧ cursor = { data, position := position + 1 } := by
  constructor
  · intro run
    obtain ⟨bytes, between, read, run⟩ := Step.bind_eq_ok.1 run
    have length := length_of_bytesAs read
    obtain ⟨enough, whole, rfl⟩ := bytesAs_eq_ok.1 read
    cases run
    match bytes, length with
    | [first], _ =>
        refine ⟨?_, rfl⟩
        have same : UInt8.ofNat (Bytes.littleEndian [first]) = first := by simp [Bytes.littleEndian]
        rw [same, whole]
        exact List.take_prefix _ _
  · rintro ⟨stands, rfl⟩
    exact reads_byte value data position stands

/-- A word that is read stands in the data. -/
theorem word16_eq_ok {data : Bytes} {position : Nat} {word : UInt16} {cursor : Cursor} :
    word16 { data, position } = .ok word cursor ↔
      data.Stands position (Bytes.ofWord16 word) ∧ cursor = { data, position := position + 2 } := by
  constructor
  · intro run
    obtain ⟨bytes, between, read, run⟩ := Step.bind_eq_ok.1 run
    obtain ⟨enough, rfl, rfl⟩ := bytesAs_eq_ok.1 read
    cases run
    refine ⟨?_, rfl⟩
    have row : Bytes.ofWord16 (Bytes.half data.toList position) = (data.toList.drop position).take 2 :=
      Bytes.ofWord16_half (by rw [Array.length_toList]; omega)
    rw [Bytes.half] at row
    rw [row]
    exact List.take_prefix _ _
  · rintro ⟨stands, rfl⟩
    exact reads_word16 word data position stands

theorem word32_eq_ok {data : Bytes} {position : Nat} {word : UInt32} {cursor : Cursor} :
    word32 { data, position } = .ok word cursor ↔
      data.Stands position (Bytes.ofWord32 word) ∧ cursor = { data, position := position + 4 } := by
  constructor
  · intro run
    obtain ⟨bytes, between, read, run⟩ := Step.bind_eq_ok.1 run
    obtain ⟨enough, rfl, rfl⟩ := bytesAs_eq_ok.1 read
    cases run
    refine ⟨?_, rfl⟩
    have row : Bytes.ofWord32 (Bytes.word data.toList position) = (data.toList.drop position).take 4 :=
      Bytes.ofWord32_word (by rw [Array.length_toList]; omega)
    rw [Bytes.word] at row
    rw [row]
    exact List.take_prefix _ _
  · rintro ⟨stands, rfl⟩
    exact reads_word32 word data position stands

/-- Words that are read one after another stand in the data. -/
theorem words_eq_ok {data : Bytes} {count position : Nat} {words : List UInt32} {cursor : Cursor} :
    word32.replicate count { data, position } = .ok words cursor ↔ words.length = count ∧
      data.Stands position (words.flatMap Bytes.ofWord32) ∧ cursor = { data, position := position + 4 * count } := by
  have onto (done : List UInt32) (run : word32.replicateOnto count done { data, position } = .ok words cursor) :
      ∃ read, words = done.reverse ++ read ∧ read.length = count ∧
        data.Stands position (read.flatMap Bytes.ofWord32) ∧ cursor = { data, position := position + 4 * count } := by
    induction count generalizing position done with
    | zero =>
        cases run
        exact ⟨[], by simp, rfl, .nil, rfl⟩
    | succ count ih =>
        obtain ⟨word, between, first, rest⟩ := Step.bind_eq_ok.1 run
        obtain ⟨stands, rfl⟩ := word32_eq_ok.1 first
        obtain ⟨read, rfl, rfl, behind, rfl⟩ := ih (word :: done) rest
        refine ⟨word :: read, by simp, rfl, ?_, ?_⟩
        · rw [List.flatMap_cons]
          exact Bytes.Stands.append_iff.2 ⟨stands, by rwa [Bytes.length_ofWord32]⟩
        · congr 1
          omega
  constructor
  · intro run
    obtain ⟨read, rfl, length, stands, stop⟩ := onto [] run
    exact ⟨length, stands, stop⟩
  · rintro ⟨rfl, stands, rfl⟩
    have reads := @Reads.replicate _ _ word32 words Bytes.ofWord32 id (fun word _ => reads_word32 word) _ _ stands
    rwa [List.map_id, Bytes.length_flatMap_ofWord32] at reads

end Reader

end DexArsc
