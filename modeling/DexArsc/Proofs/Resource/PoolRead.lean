/-
String pools that are read. Every string that is read fits the form of its pool, and what is read of a chunk
whose tables end within it depends on no bytes behind the chunk.
-/

import DexArsc.Proofs.Resource.PackageHead
import DexArsc.Proofs.Text.ModifiedUtf8
import DexArsc.Resource.StringPool

namespace DexArsc

namespace Resource

namespace StringForm

variable {form : StringForm} {data : Bytes} {position limit : Nat} {text : String}

/-- A length that is read is one that the form can hold. -/
theorem le_maxLength_of_readLength {length start : Nat}
    (read : form.readLength data position limit = .ok (length, start)) : length ≤ form.maxLength := by
  have first := data.getNumber?_getD_lt position form.slotBytes
  have second := data.getNumber?_getD_lt (position + form.slotBytes) form.slotBytes
  unfold readLength at read
  simp only at read
  split at read
  · cases read
  split at read
  · rename_i short
    obtain ⟨rfl, -⟩ := Prod.mk.inj (Except.ok.inj read)
    refine Nat.le_trans (Nat.le_of_lt short) ?_
    cases form <;> decide
  split at read
  · cases read
  · obtain ⟨rfl, -⟩ := Prod.mk.inj (Except.ok.inj read)
    cases form <;>
      simp only [maxLength, slotBits, slotBytes, Nat.shiftLeft_eq] at first second ⊢ <;> omega

/-- A text that is read fits the form. -/
theorem check_of_read (read : form.read data position limit = .ok text) : form.check text = .ok () := by
  cases form with
  | utf8 =>
      change readUtf8String data position limit = _ at read
      unfold readUtf8String at read
      obtain ⟨⟨units, start⟩, -, read⟩ := Except.bind_eq_ok.1 read
      obtain ⟨⟨length, start⟩, lengthRead, read⟩ := Except.bind_eq_ok.1 read
      obtain ⟨-, read⟩ := Except.guard_eq_ok.1 read
      obtain ⟨-, read⟩ := Except.guard_eq_ok.1 read
      split at read
      · rename_i found decoded
        cases read
        have bytes := Text.utf8ByteSize_ofModifiedUtf8? decoded
        have fits := le_maxLength_of_readLength lengthRead
        have units := Text.unitCount_le text
        simp only [Array.length_toList, Array.size_extract] at bytes
        unfold check
        exact if_neg (by omega)
      · cases read
  | utf16 =>
      change readUtf16String data position limit = _ at read
      unfold readUtf16String at read
      obtain ⟨⟨length, start⟩, lengthRead, read⟩ := Except.bind_eq_ok.1 read
      obtain ⟨-, read⟩ := Except.guard_eq_ok.1 read
      obtain ⟨-, read⟩ := Except.guard_eq_ok.1 read
      split at read
      · rename_i found decoded
        cases read
        have units := congrArg List.length (Text.units_of_ofUtf16? decoded).1
        have fits := le_maxLength_of_readLength lengthRead
        rw [← Text.unitCount_eq, length_unitsOfBytes, Array.length_toList, Array.size_extract] at units
        unfold check
        exact if_neg (by omega)
      · cases read

theorem readLength_cut (inside : limit ≤ data.size) :
    form.readLength (data.extract 0 limit) position limit = form.readLength data position limit := by
  unfold readLength
  simp only
  split
  · rfl
  rename_i first
  rw [Bytes.getNumber?_cut (by omega) inside]
  split
  · rfl
  split
  · rfl
  rename_i second
  rw [Bytes.getNumber?_cut (by omega) inside]

theorem read_cut (inside : limit ≤ data.size) :
    form.read (data.extract 0 limit) position limit = form.read data position limit := by
  cases form with
  | utf8 =>
      change readUtf8String _ _ _ = readUtf8String _ _ _
      unfold readUtf8String
      rw [readLength_cut inside]
      refine bind_congr fun ⟨_, start⟩ => ?_
      dsimp only
      rw [readLength_cut inside]
      refine bind_congr fun ⟨length, start⟩ => ?_
      dsimp only
      split
      · rfl
      rename_i within
      rw [Bytes.getElem?_cut (by omega), Bytes.extract_cut (by omega)]
  | utf16 =>
      change readUtf16String _ _ _ = readUtf16String _ _ _
      unfold readUtf16String
      rw [readLength_cut inside]
      refine bind_congr fun ⟨length, start⟩ => ?_
      dsimp only
      split
      · rfl
      rename_i within
      unfold Bytes.getWord16?
      rw [Bytes.getNumber?_cut (by omega) inside, Bytes.extract_cut (by omega)]

end StringForm

namespace StringPool

variable {data : Bytes} {pool : StringPool}

/-- The bytes of header fields. -/
def Fields.bytes (fields : Fields) : List UInt8 :=
  Bytes.ofWord32 fields.strings ++ (Bytes.ofWord32 fields.styles ++ (Bytes.ofWord32 fields.flags ++
    (Bytes.ofWord32 fields.stringsStart ++ Bytes.ofWord32 fields.stylesStart)))

/-- Header fields that are read stand in the data. -/
theorem readFields_eq_ok {position : Nat} {fields : Fields} {cursor : Cursor} :
    readFields { data, position } = .ok fields cursor ↔
      data.Stands position fields.bytes ∧ cursor = { data, position := position + 20 } := by
  constructor
  · intro run
    obtain ⟨strings, _, first, run⟩ := Step.bind_eq_ok.1 run
    obtain ⟨here, rfl⟩ := Reader.word32_eq_ok.1 first
    obtain ⟨styles, _, second, run⟩ := Step.bind_eq_ok.1 run
    obtain ⟨there, rfl⟩ := Reader.word32_eq_ok.1 second
    obtain ⟨flags, _, third, run⟩ := Step.bind_eq_ok.1 run
    obtain ⟨flagsAt, rfl⟩ := Reader.word32_eq_ok.1 third
    obtain ⟨stringsStart, _, fourth, run⟩ := Step.bind_eq_ok.1 run
    obtain ⟨stringsAt, rfl⟩ := Reader.word32_eq_ok.1 fourth
    obtain ⟨stylesStart, _, fifth, run⟩ := Step.bind_eq_ok.1 run
    obtain ⟨stylesAt, rfl⟩ := Reader.word32_eq_ok.1 fifth
    cases run
    exact ⟨Bytes.Stands.append_iff.2 ⟨here, Bytes.Stands.append_iff.2 ⟨there, Bytes.Stands.append_iff.2
      ⟨flagsAt, Bytes.Stands.append_iff.2 ⟨stringsAt, stylesAt⟩⟩⟩⟩, rfl⟩
  · rintro ⟨stands, rfl⟩
    exact Reader.Reads.bind (Reader.reads_word32 _) (.bind (Reader.reads_word32 _) (.bind (Reader.reads_word32 _)
      (.bind (Reader.reads_word32 _) (.bind_pure _ (Reader.reads_word32 _))))) _ _ stands

/-- What data spells of a pool: a header, its fields, the offsets of the strings, and the pool itself. -/
structure Spelled (data : Bytes) (header : ChunkHeader) (fields : Fields) (offsets : List UInt32)
    (pool : StringPool) : Prop where
  head : ChunkHeader.read { data } = .ok header { data, position := minHeaderSize }
  type : header.type = .stringPool
  front : headerSize ≤ header.headerSize.toNat
  fieldsAt : data.Stands minHeaderSize fields.bytes
  offsetsAt : data.Stands header.headerSize.toNat (offsets.flatMap Bytes.ofWord32)
  stylesAt : data.Stands (header.headerSize.toNat + 4 * offsets.length) (pool.styleOffsets.flatMap Bytes.ofWord32)
  counts : offsets.length = fields.strings.toNat ∧ pool.styleOffsets.length = fields.styles.toNat
  strings : readStrings pool.form data fields.stringsStart.toNat header.stop offsets #[] = .ok pool.strings
  within : ¬(fields.styles ≠ 0 ∧
    (fields.stylesStart < fields.stringsStart ∨ header.stop < fields.stylesStart.toNat))
  flags : pool.flags = fields.flags
  styleData : pool.styleData =
    if fields.styles = 0 then [] else (data.extract fields.stylesStart.toNat header.stop).toList
  source : pool.source = (data.extract 0 header.stop).toList
  modified : pool.modified = false

/-- A pool is read from data that spells it. -/
theorem read_eq_ok : StringPool.read data = .ok pool ↔
    ∃ header fields offsets, Spelled data header fields offsets pool := by
  constructor
  · intro run
    obtain ⟨_, run⟩ := Reader.run_ok run
    unfold reader at run
    rw [Step.bind_ok (Step.get_apply _)] at run
    obtain ⟨header, _, head, run⟩ := Step.bind_eq_ok.1 run
    obtain ⟨_, _, _, _, _, rfl⟩ := ChunkHeader.read_eq_ok.1 head
    dsimp only at run
    obtain ⟨type, run⟩ := Step.guard_eq_ok.1 run
    obtain ⟨front, run⟩ := Step.guard_eq_ok.1 run
    obtain ⟨fields, _, fieldsRead, run⟩ := Step.bind_eq_ok.1 run
    obtain ⟨fieldsAt, rfl⟩ := readFields_eq_ok.1 fieldsRead
    obtain ⟨_, _, sought, run⟩ := Step.bind_eq_ok.1 run
    obtain ⟨_, rfl⟩ := Reader.seek_eq_ok.1 sought
    obtain ⟨offsets, _, offsetsRead, run⟩ := Step.bind_eq_ok.1 run
    obtain ⟨count, offsetsAt, rfl⟩ := Reader.words_eq_ok.1 offsetsRead
    obtain ⟨styleOffsets, _, stylesRead, run⟩ := Step.bind_eq_ok.1 run
    obtain ⟨styleCount, stylesAt, rfl⟩ := Reader.words_eq_ok.1 stylesRead
    obtain ⟨strings, _, stringsRead, run⟩ := Step.bind_eq_ok.1 run
    obtain ⟨strings, rfl⟩ := Step.monadLift_eq_ok.1 stringsRead
    obtain ⟨within, run⟩ := Step.guard_eq_ok.1 run
    cases run
    exact ⟨header, fields, offsets, {
      head, fieldsAt, offsetsAt, strings, within
      type := not_not.1 type
      front := Nat.le_of_not_lt front
      stylesAt := by rwa [count]
      counts := ⟨count, styleCount⟩
      flags := rfl
      styleData := rfl
      source := rfl
      modified := rfl }⟩
  · rintro ⟨header, fields, offsets, spelled⟩
    suffices run : reader { data } = .ok pool { data, position :=
        header.headerSize.toNat + 4 * fields.strings.toNat + 4 * fields.styles.toNat } by
      rw [StringPool.read, Reader.run, EStateM.run, run]
    obtain ⟨_, _, _, inside, stop, _⟩ := ChunkHeader.read_eq_ok.1 spelled.head
    obtain ⟨head, type, front, fieldsAt, offsetsAt, stylesAt, ⟨count, styleCount⟩, strings, within, flags, styleData,
      source, modified⟩ := spelled
    obtain ⟨_, texts, styleOffsets, _, _, _⟩ := pool
    dsimp only at *
    subst flags styleData source modified
    have start : header.headerSize.toNat ≤ data.size := by
      unfold ChunkHeader.stop at stop
      omega
    unfold reader
    rw [Step.bind_ok (Step.get_apply _), Step.bind_ok head]
    dsimp only
    rw [Step.guard_eq_ok]
    refine ⟨not_not.2 type, ?_⟩
    rw [Step.guard_eq_ok]
    refine ⟨Nat.not_lt.2 front, ?_⟩
    rw [Step.bind_ok (readFields_eq_ok.2 ⟨fieldsAt, rfl⟩), Step.bind_ok (Reader.seek_eq_ok.2 ⟨start, rfl⟩),
      Step.bind_ok (Reader.words_eq_ok.2 ⟨count, offsetsAt, rfl⟩),
      Step.bind_ok (Reader.words_eq_ok.2 ⟨styleCount, count ▸ stylesAt, rfl⟩)]
    exact Step.check_eq_ok.2 ⟨texts, strings, Step.guard_eq_ok.2 ⟨within, rfl⟩⟩

/-- As many strings are read as there are offsets, and all of them fit the form. -/
theorem readStrings_eq_ok {form : StringForm} {start limit : Nat} {offsets : List UInt32} {done strings : Array String}
    (run : readStrings form data start limit offsets done = .ok strings)
    (fits : ∀ text ∈ done, form.check text = .ok ()) :
    strings.size = done.size + offsets.length ∧ ∀ text ∈ strings, form.check text = .ok () := by
  induction offsets generalizing done with
  | nil =>
      cases run
      exact ⟨rfl, fits⟩
  | cons offset rest ih =>
      obtain ⟨text, read, run⟩ := Except.bind_eq_ok.1 run
      have here := StringForm.check_of_read (Except.within_eq_ok.1 read)
      obtain ⟨size, checked⟩ := ih run fun other inside => by
        rcases Array.mem_push.1 inside with old | rfl
        · exact fits other old
        · exact here
      refine ⟨?_, checked⟩
      rw [size, Array.size_push, List.length_cons]
      omega

theorem readStrings_cut {form : StringForm} {start limit : Nat} (inside : limit ≤ data.size) (offsets : List UInt32)
    (done : Array String) : readStrings form (data.extract 0 limit) start limit offsets done =
      readStrings form data start limit offsets done := by
  induction offsets generalizing done with
  | nil => rfl
  | cons offset rest ih =>
      unfold readStrings
      rw [StringForm.read_cut inside]
      exact bind_congr fun text => ih (done.push text)

/-- The tables of a pool that was read end within its chunk, as those of every complete chunk do. -/
def Whole (pool : StringPool) : Prop :=
  (Bytes.half pool.source 2).toNat + 4 * (pool.size + pool.styleOffsets.length) ≤ pool.source.length

namespace Spelled

variable {header : ChunkHeader} {fields : Fields} {offsets : List UInt32}

theorem stop_le (spelled : Spelled data header fields offsets pool) :
    header.headerSize.toNat ≤ header.stop ∧ header.stop ≤ data.size := by
  obtain ⟨_, _, _, inside, stop, _⟩ := ChunkHeader.read_eq_ok.1 spelled.head
  unfold ChunkHeader.stop at *
  omega

theorem size (spelled : Spelled data header fields offsets pool) : pool.size = offsets.length := by
  have count := (readStrings_eq_ok spelled.strings (by simp)).1
  rwa [Array.size_empty, Nat.zero_add] at count

theorem length_source (spelled : Spelled data header fields offsets pool) : pool.source.length = header.stop := by
  rw [spelled.source, Array.length_toList, Array.size_extract, Nat.min_eq_left spelled.stop_le.2, Nat.sub_zero]

/-- The source begins with the header. -/
theorem header_eq (spelled : Spelled data header fields offsets pool) : header = .ofBytes 0 pool.source := by
  obtain ⟨_, whole, _⟩ := ChunkHeader.read_eq_ok.1 spelled.head
  have length := spelled.length_source
  have front := spelled.front
  have stop := spelled.stop_le.1
  have row : data.toList = pool.source ++ data.toList.drop header.stop := by
    rw [spelled.source, Array.toList_extract, List.extract_eq_take_drop, List.drop_zero, Nat.sub_zero,
      List.take_append_drop]
  unfold headerSize at front
  rw [List.drop_zero, row] at whole
  rw [whole]
  unfold ChunkHeader.ofBytes
  rw [Bytes.half_append (by omega), Bytes.half_append (by omega), Bytes.word_append (by omega)]

theorem isChunk (spelled : Spelled data header fields offsets pool) : IsChunk pool.source := by
  have length := spelled.length_source
  have stop := spelled.stop_le.1
  have front := spelled.front
  have same := spelled.header_eq
  have first : header.headerSize = Bytes.half pool.source 2 := congrArg ChunkHeader.headerSize same
  have size : header.stop = (Bytes.word pool.source 4).toNat := by
    rw [same, ChunkHeader.stop, ChunkHeader.start_ofBytes, Nat.zero_add]
    rfl
  rw [first] at front stop
  exact ⟨Nat.le_trans (by decide) front, length ▸ stop, by rw [length, size]⟩

end Spelled

/-- What a chunk spells is spelled by the chunk alone. -/
theorem Spelled.cut {header : ChunkHeader} {fields : Fields} {offsets : List UInt32}
    (spelled : Spelled data header fields offsets pool) (whole : pool.Whole) :
    Spelled pool.source.toArray header fields offsets pool := by
  have same : pool.source.toArray = data.extract 0 header.stop := by rw [spelled.source, Array.toArray_toList]
  have length := spelled.length_source
  have header_eq := spelled.header_eq
  have first : header.headerSize = Bytes.half pool.source 2 := congrArg ChunkHeader.headerSize header_eq
  obtain ⟨inside, stop⟩ := spelled.stop_le
  have front := spelled.front
  obtain ⟨_, _, least, within, _, _⟩ := ChunkHeader.read_eq_ok.1 spelled.head
  unfold Whole at whole
  rw [← first, spelled.size, length] at whole
  exact {
    head := by
      refine ChunkHeader.read_eq_ok.2 ⟨?_, ?_, least, within, ?_, rfl⟩
      · rw [List.size_toArray, length]
        omega
      · rw [List.drop_zero]
        exact header_eq
      · rw [List.size_toArray, length]
    type := spelled.type
    front
    fieldsAt := same ▸ spelled.fieldsAt.cut (by
      have : fields.bytes.length = 20 := rfl
      unfold headerSize at front
      unfold minHeaderSize
      omega)
    offsetsAt := same ▸ spelled.offsetsAt.cut (by
      rw [Bytes.length_flatMap_ofWord32]
      omega)
    stylesAt := same ▸ spelled.stylesAt.cut (by
      rw [Bytes.length_flatMap_ofWord32]
      omega)
    counts := spelled.counts
    strings := by
      rw [same, readStrings_cut stop]
      exact spelled.strings
    within := spelled.within
    flags := spelled.flags
    styleData := by
      rw [same, Bytes.extract_cut (Nat.le_refl _)]
      exact spelled.styleData
    source := by
      rw [same, Bytes.extract_cut (Nat.le_refl _)]
      exact spelled.source
    modified := spelled.modified }

/-- The tables of a complete chunk end within it. -/
theorem whole_of_isChunk (isChunk : IsChunk data.toList) (run : StringPool.read data = .ok pool) : pool.Whole := by
  obtain ⟨header, fields, offsets, spelled⟩ := read_eq_ok.1 run
  have first : header.headerSize = Bytes.half pool.source 2 := congrArg ChunkHeader.headerSize spelled.header_eq
  have all : header.stop = data.size := by
    obtain ⟨_, same, _⟩ := ChunkHeader.read_eq_ok.1 spelled.head
    rw [same, ChunkHeader.stop, ChunkHeader.start_ofBytes, Nat.zero_add, List.drop_zero, ← Array.length_toList]
    exact isChunk.size
  have inside := spelled.stop_le.1
  unfold Whole
  rw [← first, spelled.size, spelled.length_source]
  by_cases none : pool.styleOffsets = []
  · by_cases empty : offsets = []
    · rw [none, empty]
      exact inside
    · have tables := spelled.offsetsAt.length_le (by
        cases offsets with
        | nil => exact absurd rfl empty
        | cons word rest => simp [Bytes.ofWord32])
      rw [Bytes.length_flatMap_ofWord32] at tables
      rw [none, List.length_nil]
      omega
  · have tables := spelled.stylesAt.length_le (by
      cases here : pool.styleOffsets with
      | nil => exact absurd here none
      | cons word rest => simp [Bytes.ofWord32])
    rw [Bytes.length_flatMap_ofWord32] at tables
    omega

end StringPool
end Resource
end DexArsc
