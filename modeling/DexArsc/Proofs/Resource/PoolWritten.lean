/-
String pools that are written from scratch. Their chunks are read back with the same strings, the same flags and
the same styles.
-/

import DexArsc.Proofs.Resource.PoolRead
import DexArsc.Proofs.Resource.StringPool
import Mathlib.Algebra.Ring.Nat

namespace DexArsc.Resource

namespace StringForm

variable {form : StringForm} {data : Bytes} {position limit : Nat}

@[simp] theorem length_encodeSlot (form : StringForm) (value : Nat) :
    (form.encodeSlot value).length = form.slotBytes := by
  cases form with
  | utf8 => rfl
  | utf16 => exact Bytes.length_ofWord16 _

theorem littleEndian_encodeSlot (form : StringForm) (value : Nat) :
    Bytes.littleEndian (form.encodeSlot value) = value % 2 ^ form.slotBits := by
  cases form with
  | utf8 =>
      rw [encodeSlot, Bytes.littleEndian, Bytes.littleEndian, UInt8.toNat_ofNat']
      rfl
  | utf16 =>
      rw [encodeSlot, Bytes.littleEndian_ofWord16, UInt16.toNat_ofNat']
      rfl

/-- The number in a slot is read from its bytes. -/
theorem getNumber?_slot {value : Nat} (stands : data.Stands position (form.encodeSlot value)) :
    data.getNumber? position form.slotBytes = some (value % 2 ^ form.slotBits) := by
  have bound := stands.length_le (by cases form <;> simp [encodeSlot, Bytes.ofWord16])
  have number := Bytes.getNumber?_of_stands bound stands
  rwa [length_encodeSlot, littleEndian_encodeSlot] at number

/-- A length that a form can hold is read back. -/
theorem readLength_encodeLength {length : Nat} (fits : length ≤ form.maxLength)
    (stands : data.Stands position (form.encodeLength length))
    (within : position + (form.encodeLength length).length ≤ limit) :
    form.readLength data position limit = .ok (length, position + (form.encodeLength length).length) := by
  unfold encodeLength at stands within ⊢
  by_cases short : length < 1 <<< (form.slotBits - 1)
  · simp only [if_pos short, length_encodeSlot] at stands within ⊢
    have whole : length % 2 ^ form.slotBits = length := by
      cases form <;> simp [slotBits] at short ⊢ <;> omega
    unfold readLength
    simp only [getNumber?_slot stands, Option.getD_some, whole, if_pos short,
      if_neg (Nat.not_lt.2 within)]
  · simp only [if_neg short, List.length_append, length_encodeSlot] at stands within ⊢
    obtain ⟨front, back⟩ := Bytes.Stands.append_iff.1 stands
    rw [length_encodeSlot] at back
    have first := getNumber?_slot front
    have second := getNumber?_slot back
    unfold readLength
    simp only [first, second, Option.getD_some]
    rw [if_neg (by omega)]
    cases form with
    | utf8 =>
        simp only [maxLength, slotBits, slotBytes, Nat.shiftLeft_eq, Nat.shiftRight_eq_div_pow] at *
        rw [if_neg (by omega), if_neg (by omega)]
        congr 2
        omega
    | utf16 =>
        simp only [maxLength, slotBits, slotBytes, Nat.shiftLeft_eq, Nat.shiftRight_eq_div_pow] at *
        rw [if_neg (by omega), if_neg (by omega)]
        congr 2
        omega

/-- A text that a form can hold is read back. -/
theorem read_encode {text : String} (fits : form.check text = .ok ())
    (stands : data.Stands position (form.encode text))
    (within : position + (form.encode text).length ≤ limit) : form.read data position limit = .ok text := by
  cases form with
  | utf8 =>
      have lengths : max (Text.unitCount text) text.utf8ByteSize ≤ utf8.maxLength := by
        by_contra long
        simp only [check, if_pos (Nat.lt_of_not_le long), Except.fail_ne_ok] at fits
      obtain ⟨units, bytes⟩ := Nat.max_le.1 lengths
      simp only [encode, List.length_append, List.length_singleton, Text.length_toUtf8] at stands within
      obtain ⟨stands, last⟩ := Bytes.Stands.append_iff.1 stands
      obtain ⟨stands, body⟩ := Bytes.Stands.append_iff.1 stands
      obtain ⟨first, second⟩ := Bytes.Stands.append_iff.1 stands
      simp only [List.length_append, Text.length_toUtf8, ← Nat.add_assoc] at last body
      have zero := last.getElem?_eq
      have cut := body.extract_eq
      rw [Text.length_toUtf8] at cut
      change readUtf8String data position limit = _
      unfold readUtf8String
      rw [readLength_encodeLength units first (by omega)]
      dsimp only [bind, Except.bind]
      rw [readLength_encodeLength bytes second (by omega)]
      simp only [zero, cut, Text.ofModifiedUtf8?_toUtf8]
      rw [if_neg (by omega)]
      simp
      rfl
  | utf16 =>
      have units : Text.unitCount text ≤ utf16.maxLength := by
        by_contra long
        simp only [check, if_pos (Nat.lt_of_not_le long), Except.fail_ne_ok] at fits
      have size : ((Text.units text).flatMap Bytes.ofWord16).length = 2 * Text.unitCount text := by
        rw [length_flatMap_word16, Text.unitCount_eq]
      simp only [encode, List.length_append, List.length_cons, List.length_nil, size] at stands within
      obtain ⟨stands, last⟩ := Bytes.Stands.append_iff.1 stands
      obtain ⟨first, body⟩ := Bytes.Stands.append_iff.1 stands
      simp only [List.length_append, ← Nat.add_assoc, size] at last
      have bound := last.length_le (List.cons_ne_nil _ _)
      have zero : data.getWord16? (position + (utf16.encodeLength (Text.unitCount text)).length +
          2 * Text.unitCount text) = some 0 :=
        congrArg (Option.map UInt16.ofNat) (Bytes.getNumber?_of_stands bound last)
      have cut := body.extract_eq
      rw [size] at cut
      change readUtf16String data position limit = _
      unfold readUtf16String
      rw [readLength_encodeLength units first (by omega)]
      dsimp only [bind, Except.bind]
      simp only [zero, cut, unitsOfBytes_flatMap, Text.ofUtf16?_units]
      rw [if_neg (by omega)]
      simp
      rfl

end StringForm

namespace StringPool

variable {pool image : StringPool} {text : String} {index : UInt32}

/-- The offsets of texts that stand one behind the other. -/
def offsetsFrom (form : StringForm) (start : Nat) : List String → List UInt32
  | [] => []
  | text :: rest => UInt32.ofNat start :: offsetsFrom form (start + (form.encode text).length) rest

@[simp] theorem length_offsetsFrom (form : StringForm) (start : Nat) (texts : List String) :
    (offsetsFrom form start texts).length = texts.length := by
  induction texts generalizing start with
  | nil => rfl
  | cons text rest ih => rw [offsetsFrom, List.length_cons, List.length_cons, ih]

theorem foldl_push (bytes : List UInt8) (area : Bytes) : (bytes.foldl Array.push area).toList = area.toList ++ bytes := by
  induction bytes generalizing area with
  | nil => rw [List.foldl_nil, List.append_nil]
  | cons byte rest ih => rw [List.foldl_cons, ih, Array.toList_push, List.append_assoc, List.singleton_append]

/-- A string is written behind a string area and the offsets of its strings. -/
def pushString (form : StringForm) (whole : Bytes × Array UInt32) (text : String) : Bytes × Array UInt32 :=
  ((form.encode text).foldl Array.push whole.1, whole.2.push (UInt32.ofNat whole.1.size))

theorem foldl_pushString (form : StringForm) (texts : List String) (whole : Bytes × Array UInt32) :
    (texts.foldl (pushString form) whole).1.toList = whole.1.toList ++ texts.flatMap form.encode ∧
      (texts.foldl (pushString form) whole).2.toList = whole.2.toList ++ offsetsFrom form whole.1.size texts := by
  induction texts generalizing whole with
  | nil => simp [offsetsFrom]
  | cons text rest ih =>
      have size : (pushString form whole text).1.size = whole.1.size + (form.encode text).length := by
        rw [pushString, ← Array.length_toList, foldl_push, List.length_append, Array.length_toList]
      obtain ⟨area, offsets⟩ := ih (pushString form whole text)
      rw [size] at offsets
      refine ⟨area.trans ?_, offsets.trans ?_⟩
      · rw [pushString, foldl_push, List.append_assoc, List.flatMap_cons]
      · rw [pushString, Array.toList_push, List.append_assoc, List.singleton_append, offsetsFrom]

/-- The strings of a chunk stand one behind the other. -/
theorem stringArea_eq (form : StringForm) (strings : Array String) :
    (stringArea form strings).1.toList = strings.toList.flatMap form.encode ∧
      (stringArea form strings).2.toList = offsetsFrom form 0 strings.toList := by
  have whole := foldl_pushString form strings.toList (#[], #[])
  rw [Array.foldl_toList] at whole
  exact whole

/-- Texts that stand one behind the other are read from their offsets. -/
theorem readStrings_ok {form : StringForm} {data : Bytes} {start base limit : Nat} {texts : List String}
    (fits : ∀ text ∈ texts, form.check text = .ok ())
    (stands : data.Stands (start + base) (texts.flatMap form.encode))
    (within : start + base + (texts.flatMap form.encode).length ≤ limit) (small : limit < UInt32.size)
    (done : Array String) :
    readStrings form data start limit (offsetsFrom form base texts) done = .ok (done ++ texts.toArray) := by
  induction texts generalizing base done with
  | nil =>
      rw [offsetsFrom, readStrings]
      simp
  | cons text rest ih =>
      rw [List.flatMap_cons] at stands
      rw [List.flatMap_cons, List.length_append] at within
      obtain ⟨first, second⟩ := Bytes.Stands.append_iff.1 stands
      have offset : (UInt32.ofNat base).toNat = base := UInt32.toNat_ofNat_of_lt' (by omega)
      have here : form.read data (start + base) limit = .ok text :=
        StringForm.read_encode (fits text List.mem_cons_self) first (by omega)
      have behind : readStrings form data start limit (offsetsFrom form (base + (form.encode text).length) rest)
          (done.push text) = .ok (done.push text ++ rest.toArray) :=
        ih (fun text inside => fits text (List.mem_cons_of_mem _ inside)) (by rwa [← Nat.add_assoc])
          (by omega) (done.push text)
      rw [offsetsFrom, readStrings, offset, here]
      refine behind.trans ?_
      simp

theorem length_padToWord (bytes : List UInt8) :
    bytes.length ≤ (padToWord bytes).length ∧ 4 ∣ (padToWord bytes).length := by
  have length : (padToWord bytes).length = bytes.length + padding 4 bytes.length := by
    rw [padToWord, List.length_append, Padding.bytesAt, List.length_replicate]
    rfl
  rw [length, padding, if_neg (by decide)]
  omega

theorem padToWord_of_dvd {bytes : List UInt8} (whole : 4 ∣ bytes.length) : padToWord bytes = bytes := by
  have none : padding 4 bytes.length = 0 := by
    rw [padding, if_neg (by decide), Nat.mod_eq_zero_of_dvd whole]
  rw [padToWord, Padding.bytesAt]
  exact (congrArg (bytes ++ List.replicate · 0) none).trans (List.append_nil bytes)

/-- A pool that is written from scratch. Its strings fit its form, and its style area has whole words. -/
structure Encodable (pool : StringPool) : Prop where
  modified : pool.modified = true
  styles : pool.styleOffsets = [] → pool.styleData = []
  aligned : 4 ∣ pool.styleData.length
  checked : ∀ text ∈ pool.strings, pool.form.check text = .ok ()

/-- The position behind the tables of offsets. -/
def tablesStop (pool : StringPool) : Nat :=
  headerSize + 4 * (pool.size + pool.styleOffsets.length)

/-- The strings one behind the other, up to a whole word. -/
def area (pool : StringPool) : List UInt8 :=
  padToWord (pool.strings.toList.flatMap pool.form.encode)

/-- The bytes behind the header in the chunk of a pool. -/
def body (pool : StringPool) : List UInt8 :=
  (offsetsFrom pool.form 0 pool.strings.toList).flatMap Bytes.ofWord32 ++
    (pool.styleOffsets.flatMap Bytes.ofWord32 ++ (pool.area ++ pool.styleData))

/-- The header fields of a pool. -/
def fields (pool : StringPool) : Fields where
  strings := UInt32.ofNat pool.size
  styles := UInt32.ofNat pool.styleOffsets.length
  flags := pool.flags
  stringsStart := UInt32.ofNat (if pool.size = 0 then 0 else pool.tablesStop)
  stylesStart := UInt32.ofNat (if pool.styleOffsets.isEmpty then 0 else pool.tablesStop + pool.area.length)

/-- The words that the chunk of a pool begins with. -/
structure Begins (bytes : List UInt8) : Prop where
  type : Bytes.half bytes 0 = ChunkType.stringPool.code
  headerSize : (Bytes.half bytes 2).toNat = StringPool.headerSize

/-- The pool that is read from a chunk that was written from scratch. -/
def stored (pool : StringPool) : StringPool :=
  { pool with source := pool.toChunk, modified := false }

/-- The header fields, the tables, the strings and the styles stand one behind the other. -/
structure Laid (pool : StringPool) (data : Bytes) : Prop where
  fields : data.Stands minHeaderSize pool.fields.bytes
  offsets : data.Stands headerSize ((offsetsFrom pool.form 0 pool.strings.toList).flatMap Bytes.ofWord32)
  styleOffsets : data.Stands (headerSize + 4 * pool.size) (pool.styleOffsets.flatMap Bytes.ofWord32)
  strings : data.Stands pool.tablesStop (pool.strings.toList.flatMap pool.form.encode)
  styleData : data.Stands (pool.tablesStop + pool.area.length) pool.styleData

namespace Encodable

theorem length_body (encodable : pool.Encodable) :
    headerSize + pool.body.length = pool.tablesStop + pool.area.length + pool.styleData.length ∧
      4 ∣ pool.body.length := by
  have area := (length_padToWord (pool.strings.toList.flatMap pool.form.encode)).2
  have aligned := encodable.aligned
  have size : pool.strings.toList.length = pool.size := rfl
  rw [body, List.length_append, List.length_append, List.length_append, Bytes.length_flatMap_ofWord32,
    Bytes.length_flatMap_ofWord32, length_offsetsFrom, size]
  change 4 ∣ pool.area.length at area
  unfold tablesStop
  omega

theorem toChunk_eq (encodable : pool.Encodable) : pool.toChunk = Bytes.ofWord16 ChunkType.stringPool.code ++
    (Bytes.ofWord16 (UInt16.ofNat headerSize) ++ (Bytes.ofWord32 (UInt32.ofNat (headerSize + pool.body.length)) ++
      (pool.fields.bytes ++ pool.body))) := by
  obtain ⟨area, offsets⟩ := stringArea_eq pool.form pool.strings
  have whole : padToWord pool.body = pool.body := padToWord_of_dvd encodable.length_body.2
  unfold toChunk encodeNew
  rw [if_pos encodable.modified]
  simp only [area, offsets, List.append_assoc]
  change Bytes.ofWord16 _ ++ (Bytes.ofWord16 _ ++ (Bytes.ofWord32 (UInt32.ofNat (_ + (padToWord pool.body).length)) ++
    (Bytes.ofWord32 _ ++ (Bytes.ofWord32 _ ++ (Bytes.ofWord32 _ ++ (Bytes.ofWord32 _ ++ (Bytes.ofWord32 _ ++
      padToWord pool.body))))))) = _
  rw [whole]
  rfl

theorem length_toChunk (encodable : pool.Encodable) : pool.toChunk.length = headerSize + pool.body.length := by
  rw [encodable.toChunk_eq, ← List.append_assoc, ← List.append_assoc, ← List.append_assoc, List.length_append]
  rfl

theorem begins (encodable : pool.Encodable) : Begins pool.toChunk := by
  rw [encodable.toChunk_eq]
  exact ⟨Bytes.half_middle [] _ _, congrArg UInt16.toNat (Bytes.half_middle (Bytes.ofWord16 _) _ _)⟩

/-- The chunk of a pool is a chunk, unless it is too large for its size. -/
theorem isChunk (encodable : pool.Encodable) (small : pool.toChunk.length < UInt32.size) : IsChunk pool.toChunk := by
  have length := encodable.length_toChunk
  have begins := encodable.begins
  have size : Bytes.word pool.toChunk 4 = UInt32.ofNat pool.toChunk.length := by
    rw [length, encodable.toChunk_eq]
    exact Bytes.word_middle (Bytes.ofWord16 _ ++ Bytes.ofWord16 _) _ _
  refine ⟨?_, ?_, ?_⟩
  · rw [begins.headerSize]
    decide
  · rw [begins.headerSize, length]
    exact Nat.le_add_right ..
  · rw [size, UInt32.toNat_ofNat_of_lt' small]

theorem laid (encodable : pool.Encodable) : pool.Laid pool.toChunk.toArray := by
  have stands {bytes : List UInt8} (same : pool.toChunk = bytes) : Bytes.Stands pool.toChunk.toArray 0 bytes :=
    same ▸ List.prefix_refl pool.toChunk
  have whole := stands encodable.toChunk_eq
  have tables : ((offsetsFrom pool.form 0 pool.strings.toList).flatMap Bytes.ofWord32).length = 4 * pool.size := by
    rw [Bytes.length_flatMap_ofWord32, length_offsetsFrom]
    rfl
  obtain ⟨_, whole⟩ := Bytes.Stands.append_iff.1 whole
  obtain ⟨_, whole⟩ := Bytes.Stands.append_iff.1 whole
  obtain ⟨_, whole⟩ := Bytes.Stands.append_iff.1 whole
  obtain ⟨fields, whole⟩ := Bytes.Stands.append_iff.1 whole
  rw [body] at whole
  obtain ⟨offsets, whole⟩ := Bytes.Stands.append_iff.1 whole
  rw [tables] at whole
  obtain ⟨styleOffsets, whole⟩ := Bytes.Stands.append_iff.1 whole
  rw [Bytes.length_flatMap_ofWord32] at whole
  have start : headerSize + 4 * pool.size + 4 * pool.styleOffsets.length = pool.tablesStop := by
    unfold tablesStop
    omega
  obtain ⟨area, styleData⟩ := Bytes.Stands.append_iff.1 (start ▸ whole)
  exact {
    fields, offsets, styleOffsets, styleData
    strings := (Bytes.Stands.append_iff.1 area).1 }

theorem length_toChunk_eq (encodable : pool.Encodable) :
    pool.toChunk.length = pool.tablesStop + pool.area.length + pool.styleData.length :=
  encodable.length_toChunk.trans encodable.length_body.1

theorem stop_toChunk (encodable : pool.Encodable) (small : pool.toChunk.length < UInt32.size) :
    (ChunkHeader.ofBytes 0 pool.toChunk).stop = pool.toChunk.length := by
  rw [ChunkHeader.stop, ChunkHeader.start_ofBytes, Nat.zero_add]
  exact (encodable.isChunk small).size

/-- The strings are read at the place that the header gives them. -/
theorem readStrings_toChunk (encodable : pool.Encodable) (small : pool.toChunk.length < UInt32.size) :
    readStrings pool.form pool.toChunk.toArray pool.fields.stringsStart.toNat pool.toChunk.length
      (offsetsFrom pool.form 0 pool.strings.toList) #[] = .ok pool.strings := by
  have length := encodable.length_toChunk_eq
  by_cases none : pool.size = 0
  · have empty : pool.strings = #[] := Array.eq_empty_of_size_eq_zero none
    rw [empty]
    rfl
  · have start : pool.fields.stringsStart.toNat = pool.tablesStop := by
      rw [StringPool.fields, if_neg none]
      exact UInt32.toNat_ofNat_of_lt' (by omega)
    have area := (length_padToWord (pool.strings.toList.flatMap pool.form.encode)).1
    change _ ≤ pool.area.length at area
    rw [start]
    simpa using @readStrings_ok pool.form pool.toChunk.toArray pool.tablesStop 0 _ _
      (fun text inside => encodable.checked text (Array.mem_toList_iff.1 inside)) (encodable.laid).strings
      (by omega) small #[]

theorem stylesStart_toNat (encodable : pool.Encodable) (small : pool.toChunk.length < UInt32.size)
    (some : pool.styleOffsets ≠ []) : pool.fields.stylesStart.toNat = pool.tablesStop + pool.area.length := by
  have length := encodable.length_toChunk_eq
  have place : (if pool.styleOffsets.isEmpty then 0 else pool.tablesStop + pool.area.length) =
      pool.tablesStop + pool.area.length := if_neg (by simpa using some)
  rw [StringPool.fields, place]
  exact UInt32.toNat_ofNat_of_lt' (by omega)

/-- A pool that is written from scratch is read with the same strings, flags and styles. -/
theorem read (encodable : pool.Encodable) (small : pool.toChunk.length < UInt32.size) :
    StringPool.read pool.toChunk.toArray = .ok pool.stored := by
  have isChunk := encodable.isChunk small
  have begins := encodable.begins
  obtain ⟨fields, offsets, styleOffsets, strings, styleData⟩ := encodable.laid
  have length := encodable.length_toChunk_eq
  have tables : pool.tablesStop = headerSize + 4 * (pool.size + pool.styleOffsets.length) := rfl
  have stop := encodable.stop_toChunk small
  have count : pool.size = pool.fields.strings.toNat := (UInt32.toNat_ofNat_of_lt' (by omega)).symm
  have styleCount : pool.styleOffsets.length = pool.fields.styles.toNat :=
    (UInt32.toNat_ofNat_of_lt' (by omega)).symm
  have noStyles : pool.fields.styles = 0 ↔ pool.styleOffsets = [] := by
    rw [← List.length_eq_zero_iff, styleCount, ← UInt32.toNat_inj]
    rfl
  refine read_eq_ok.2 ⟨.ofBytes 0 pool.toChunk, pool.fields, offsetsFrom pool.form 0 pool.strings.toList, {
    head := ?_
    type := congrArg ChunkType.ofCode begins.type
    front := Nat.le_of_eq begins.headerSize.symm
    fieldsAt := fields
    offsetsAt := begins.headerSize.symm ▸ offsets
    stylesAt := ?_
    counts := ⟨(length_offsetsFrom ..).trans count, styleCount⟩
    strings := stop.symm ▸ encodable.readStrings_toChunk small
    within := ?_
    flags := rfl
    styleData := ?_
    source := by simp [stop, stored]
    modified := rfl }⟩
  · refine ChunkHeader.read_eq_ok.2 ⟨?_, rfl, isChunk.least, ?_, ?_, rfl⟩
    · rw [List.size_toArray, Nat.zero_add]
      exact isChunk.length_le
    · exact isChunk.size.symm ▸ isChunk.within
    · rw [stop, List.size_toArray]
  · rw [length_offsetsFrom]
    exact begins.headerSize.symm ▸ styleOffsets
  · rintro ⟨some, outside⟩
    have start := encodable.stylesStart_toNat small (noStyles.not.1 some)
    rw [stop, start, UInt32.lt_iff_toNat_lt, start] at outside
    have stringsStart : pool.fields.stringsStart.toNat ≤ pool.tablesStop := by
      rw [StringPool.fields, UInt32.toNat_ofNat']
      refine Nat.le_trans (Nat.mod_le ..) ?_
      split
      · exact Nat.zero_le _
      · exact Nat.le_refl _
    omega
  · split
    · rename_i none
      exact encodable.styles (noStyles.1 none)
    · rename_i some
      rw [stop, encodable.stylesStart_toNat small (noStyles.not.1 some), length]
      exact styleData.extract_eq.symm

end Encodable

/-- A pool that is written from scratch. It has no styles, and its strings fit its form. -/
structure Plain (pool : StringPool) : Prop where
  modified : pool.modified = true
  styles : pool.styleOffsets = [] ∧ pool.styleData = []
  checked : ∀ text ∈ pool.strings, pool.form.check text = .ok ()

theorem plain_empty (form : StringForm) : (empty form).Plain :=
  ⟨rfl, ⟨rfl, rfl⟩, by simp [empty]⟩

theorem Plain.extends (plain : pool.Plain) (grows : pool.Extends image) : image.Plain where
  modified := by
    rcases grows.written with rfl | modified
    · exact plain.modified
    · exact modified
  styles := ⟨grows.styles.1.trans plain.styles.1, grows.styles.2.trans plain.styles.2⟩
  checked text inside := by
    rw [grows.form]
    rcases grows.checked text inside with old | fits
    · exact plain.checked text old
    · exact fits

/-- A string is replaced by one that fits. -/
theorem Plain.set (plain : pool.Plain) (run : pool.set index text = .ok image) : image.Plain := by
  unfold StringPool.set at run
  obtain ⟨_, run⟩ := Except.guard_eq_ok.1 run
  obtain ⟨_, fits, run⟩ := Except.bind_eq_ok.1 run
  split at run
  · cases run
    exact plain
  · cases run
    exact {
      modified := rfl
      styles := plain.styles
      checked := fun other inside => by
        rw [utf8Flag_withStrings]
        rcases Array.mem_or_eq_of_mem_setIfInBounds inside with old | rfl
        · exact plain.checked other old
        · exact fits }

theorem Plain.encodable (plain : pool.Plain) : pool.Encodable where
  modified := plain.modified
  styles _ := plain.styles.2
  aligned := by
    rw [plain.styles.2]
    exact Nat.dvd_zero _
  checked := plain.checked

theorem Plain.begins (plain : pool.Plain) : Begins pool.toChunk :=
  plain.encodable.begins

/-- The chunk of a pool without styles is a chunk, unless it is too large for its size. -/
theorem Plain.isChunk (plain : pool.Plain) (small : pool.toChunk.length < UInt32.size) : IsChunk pool.toChunk :=
  plain.encodable.isChunk small

/-- The pool without styles that is read from a chunk that was written from scratch. -/
def reread (pool : StringPool) : StringPool where
  flags := pool.flags
  strings := pool.strings
  source := pool.toChunk
  modified := false

/-- A pool without styles is read with the same strings and flags. -/
theorem Plain.read (plain : pool.Plain) (small : pool.toChunk.length < UInt32.size) :
    StringPool.read pool.toChunk.toArray = .ok pool.reread := by
  obtain ⟨noOffsets, noData⟩ := plain.styles
  rw [plain.encodable.read small, stored, reread, noOffsets, noData]

end StringPool
end DexArsc.Resource

namespace DexArsc.Resource.StringPool

variable {pool image : StringPool} {text : String} {index : UInt32}

/-- Pools that are reached from a new pool, or from one that was read of a chunk with its tables within it and
a style area of whole words, by interning and replacing strings. -/
inductive Reached : StringPool → Prop
  | new (form : StringForm) : Reached (.empty form)
  | read {data : Bytes} {pool : StringPool} (run : StringPool.read data = .ok pool) (whole : pool.Whole)
      (aligned : 4 ∣ pool.styleData.length) : Reached pool
  | intern {pool image : StringPool} {text : String} {index : UInt32} (reached : Reached pool)
      (run : pool.intern text = .ok (index, image)) : Reached image
  | set {pool image : StringPool} {text : String} {index : UInt32} (reached : Reached pool)
      (run : pool.set index text = .ok image) : Reached image

/-- Pools that are read of complete chunks are reached. -/
theorem Reached.of_isChunk {data : Bytes} (isChunk : IsChunk data.toList) (run : StringPool.read data = .ok pool)
    (aligned : 4 ∣ pool.styleData.length) : pool.Reached :=
  .read run (whole_of_isChunk isChunk run) aligned

/-- A pool whose chunk is read back: its strings fit its form, its style area has whole words, and unless it
was modified, its source is a chunk that is read as the pool itself. -/
structure Sound (pool : StringPool) : Prop where
  styles : pool.styleOffsets = [] → pool.styleData = []
  aligned : 4 ∣ pool.styleData.length
  checked : ∀ text ∈ pool.strings, pool.form.check text = .ok ()
  stored : pool.modified = false → IsChunk pool.source ∧ StringPool.read pool.source.toArray = .ok pool

theorem Sound.empty (form : StringForm) : (empty form).Sound where
  styles _ := rfl
  aligned := Nat.dvd_zero _
  checked := by simp [StringPool.empty]
  stored unmodified := nomatch unmodified

theorem Sound.read {data : Bytes} (run : StringPool.read data = .ok pool) (whole : pool.Whole)
    (aligned : 4 ∣ pool.styleData.length) : pool.Sound := by
  obtain ⟨header, fields, offsets, spelled⟩ := read_eq_ok.1 run
  exact {
    aligned
    styles := fun none => by
      have count := spelled.counts.2
      rw [none, List.length_nil] at count
      rw [spelled.styleData, if_pos (UInt32.toNat_inj.1 count.symm)]
    checked := (readStrings_eq_ok spelled.strings (by simp)).2
    stored := fun _ => ⟨spelled.isChunk, read_eq_ok.2 ⟨header, fields, offsets, spelled.cut whole⟩⟩ }

theorem Sound.extends (sound : pool.Sound) (grows : pool.Extends image) : image.Sound := by
  rcases grows.written with rfl | modified
  · exact sound
  · obtain ⟨styleOffsets, styleData⟩ := grows.styles
    exact {
      styles := by
        rw [styleOffsets, styleData]
        exact sound.styles
      aligned := by
        rw [styleData]
        exact sound.aligned
      checked := fun text inside => by
        rw [grows.form]
        exact (grows.checked text inside).elim (sound.checked text) id
      stored := fun unmodified => absurd modified (by simp [unmodified]) }

theorem Sound.set (sound : pool.Sound) (run : pool.set index text = .ok image) : image.Sound := by
  unfold StringPool.set at run
  obtain ⟨_, run⟩ := Except.guard_eq_ok.1 run
  obtain ⟨_, fits, run⟩ := Except.bind_eq_ok.1 run
  split at run
  · cases run
    exact sound
  · cases run
    exact {
      styles := sound.styles
      aligned := sound.aligned
      checked := fun other inside => by
        rw [utf8Flag_withStrings]
        rcases Array.mem_or_eq_of_mem_setIfInBounds inside with old | rfl
        · exact sound.checked other old
        · exact fits
      stored := fun unmodified => nomatch unmodified }

theorem Reached.sound (reached : pool.Reached) : pool.Sound := by
  induction reached with
  | new form => exact .empty form
  | read run whole aligned => exact .read run whole aligned
  | intern _ run ih => exact ih.extends (intern_eq_ok run).1
  | set _ run ih => exact ih.set run

/-- The chunk of a pool that is reached is read back with the same strings in the same order, the same flags and
the same styles. Its size is the one that it declares, and a chunk that is written anew has whole words. -/
theorem read_toChunk_of_reached (reached : pool.Reached) (small : pool.toChunk.length < UInt32.size) :
    StringPool.read pool.toChunk.toArray = .ok { pool with source := pool.toChunk, modified := false } ∧
      (Bytes.word pool.toChunk 4).toNat = pool.toChunk.length ∧
        (pool.modified = true → 4 ∣ pool.toChunk.length) := by
  have sound := reached.sound
  by_cases modified : pool.modified = true
  · have encodable : pool.Encodable := ⟨modified, sound.styles, sound.aligned, sound.checked⟩
    refine ⟨encodable.read small, (encodable.isChunk small).size, fun _ => ?_⟩
    have body := encodable.length_body.2
    rw [encodable.length_toChunk, headerSize]
    omega
  · have unmodified := Bool.eq_false_iff.2 modified
    have chunk : pool.toChunk = pool.source := if_neg modified
    have same : { pool with source := pool.toChunk, modified := false } = pool := by
      rw [chunk, ← unmodified]
    rw [same, chunk]
    obtain ⟨isChunk, read⟩ := sound.stored unmodified
    exact ⟨read, isChunk.size, fun written => absurd written modified⟩

/-- A sorted pool of one string with a style. -/
def styled : StringPool where
  flags := sortedFlag
  strings := #["a\u0000b"]
  styleOffsets := [0]
  styleData := [0, 0, 0, 0, 0, 0, 0, 0, 2, 0, 0, 0, 255, 255, 255, 255]
  modified := true

/-- A string that is interned in a pool that was read leaves the style where it is read back. -/
theorem read_toChunk_of_reached_styled : ∃ first image, StringPool.read styled.toChunk.toArray = .ok first ∧
    first.intern "é" = .ok (1, image) ∧ image.Reached ∧ image.toChunk.length < UInt32.size ∧
      StringPool.read image.toChunk.toArray = .ok { image with source := image.toChunk, modified := false } ∧
        (Bytes.word image.toChunk 4).toNat = image.toChunk.length ∧
          (image.modified = true → 4 ∣ image.toChunk.length) := by
  have encodable : styled.Encodable := ⟨rfl, by decide, by decide, by
    simp only [StringForm.check, Text.unitCount_eq]
    decide +kernel⟩
  have small : styled.toChunk.length < UInt32.size := by
    simp only [toChunk, encodeNew, stringArea, StringForm.encode, Text.unitCount_eq]
    decide +kernel
  have first := encodable.read small
  have absent : styled.stored.indexOf? "é" = none := by decide +kernel
  have fits : styled.stored.form.check "é" = .ok () := by
    simp only [StringForm.check, Text.unitCount_eq]
    decide +kernel
  have interned : styled.stored.intern "é" = .ok (1, styled.stored.withStrings #["a\u0000b", "é"]) := by
    unfold intern
    simp only [absent, fits]
    rfl
  have reached : (styled.stored.withStrings #["a\u0000b", "é"]).Reached :=
    .intern (.of_isChunk (encodable.isChunk small) first (by decide)) interned
  have less : (styled.stored.withStrings #["a\u0000b", "é"]).toChunk.length < UInt32.size := by
    simp only [toChunk, encodeNew, stringArea, StringForm.encode, Text.unitCount_eq]
    decide +kernel
  exact ⟨_, _, first, interned, reached, less, read_toChunk_of_reached reached less⟩

end DexArsc.Resource.StringPool
