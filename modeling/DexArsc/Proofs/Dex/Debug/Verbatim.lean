/-
Debug information that is written as it was read. The opcodes are those that were read, and every number has its
shortest form. So the bytes that are written are those that were read exactly when all numbers had this form.
-/

import DexArsc.Proofs.Dex.Debug.Reencoded
import DexArsc.Proofs.Dex.Raw.Scan
import DexArsc.Proofs.Paired

namespace DexArsc

namespace Reader

variable {α β : Type}

/-- Whatever a reader yields comes from bytes at its position, which it passes. -/
def Finds (reader : Reader α) (spelled : α → List UInt8 → Prop) : Prop :=
  ∀ (data : Bytes) (position : Nat) (value : α) (stop : Cursor), reader { data, position } = .ok value stop →
    ∃ bytes, data.Stands position bytes ∧ stop = { data, position := position + bytes.length } ∧ spelled value bytes

namespace Finds

variable {reader first : Reader α} {next : α → Reader β} {spelled more : α → List UInt8 → Prop}
  {rest : α → β → List UInt8 → Prop}

theorem imp (finds : Finds reader spelled) (implies : ∀ value bytes, spelled value bytes → more value bytes) :
    Finds reader more := by
  intro data position value stop run
  obtain ⟨bytes, stands, stop, here⟩ := finds data position value stop run
  exact ⟨bytes, stands, stop, implies _ _ here⟩

theorem pure (value : α) : Finds (Pure.pure value) fun found bytes => found = value ∧ bytes = [] := by
  rintro data position _ _ ⟨⟩
  exact ⟨[], .nil, rfl, rfl, rfl⟩

/-- Two readers in a row find two runs of bytes. -/
theorem bind (finds : Finds first spelled) (continues : ∀ value, Finds (next value) (rest value)) :
    Finds (first >>= next) fun result bytes =>
      ∃ value front back, bytes = front ++ back ∧ spelled value front ∧ rest value result back := by
  intro data position result stop run
  obtain ⟨value, between, run, run'⟩ := Step.bind_eq_ok.1 run
  obtain ⟨front, stands, rfl, here⟩ := finds data position value between run
  obtain ⟨back, stands', rfl, there⟩ := continues value data _ result stop run'
  refine ⟨front ++ back, Bytes.Stands.append_iff.2 ⟨stands, stands'⟩, ?_, value, front, back, rfl, here, there⟩
  rw [List.length_append, Nat.add_assoc]

/-- Repeated readers find runs of bytes in a row. -/
theorem replicateOnto (finds : Finds reader spelled) (count : Nat) (done : List α) :
    Finds (reader.replicateOnto count done) fun values bytes => ∃ read pieces, values = done.reverse ++ read ∧
      read.length = count ∧ List.Forall₂ spelled read pieces ∧ bytes = pieces.flatten := by
  induction count generalizing done with
  | zero =>
      refine (pure done.reverse).imp ?_
      rintro _ _ ⟨rfl, rfl⟩
      exact ⟨[], [], by simp, rfl, .nil, rfl⟩
  | succ count ih =>
      refine (finds.bind fun value => ih (value :: done)).imp ?_
      rintro _ _ ⟨value, front, _, rfl, here, read, pieces, rfl, length, each, rfl⟩
      exact ⟨value :: read, front :: pieces, by simp, by simp [length], .cons here each, rfl⟩

theorem replicate (finds : Finds reader spelled) (count : Nat) :
    Finds (reader.replicate count) fun values bytes => ∃ pieces, values.length = count ∧
      List.Forall₂ spelled values pieces ∧ bytes = pieces.flatten := by
  refine (finds.replicateOnto count []).imp ?_
  rintro _ _ ⟨values, pieces, rfl, length, each, rfl⟩
  exact ⟨pieces, length, each, rfl⟩

end Finds

theorem finds_byte : Finds byte fun value bytes => bytes = [value] := by
  intro data position value stop run
  obtain ⟨stands, rfl⟩ := byte_eq_ok.1 run
  exact ⟨[value], stands, rfl, rfl⟩

theorem finds_leb : Finds leb fun value bytes => Reads leb bytes value :=
  local_leb

theorem finds_signedLeb : Finds signedLeb fun value bytes => Reads signedLeb bytes value := by
  intro data position value stop run
  rw [signedLeb, decoded, Step.bind_ok (Step.get_apply _)] at run
  obtain ⟨⟨number, count⟩, between, lift, rest⟩ := Step.bind_eq_ok.1 run
  obtain ⟨decodes, rfl⟩ := Step.monadLift_eq_ok.1 lift
  cases rest
  obtain ⟨bytes, first, rfl, some, few, again⟩ := Leb.decodeSignedGroups_eq_ok decodes
  refine ⟨bytes, first.trans ?_, by rw [Nat.zero_add], reads_decoded some few fun rest => ?_⟩
  · rw [Cursor.window, Array.toList_extract]
    exact List.take_prefix _ _
  · rw [Nat.zero_add] at again
    exact again rest

/-- Of two runs of bytes from which a value is read, none goes on behind the other one. -/
theorem Reads.eq_of_append_eq {reader : Reader α} {value : α} {first second more rest : List UInt8}
    (reads : Reads reader first value) (reads' : Reads reader second value) (same : first ++ more = second ++ rest) :
    first = second ∧ more = rest := by
  have run := reads (first ++ more).toArray 0 (List.prefix_append _ _)
  have run' := reads' (second ++ rest).toArray 0 (List.prefix_append _ _)
  rw [← same, run] at run'
  have length : first.length = second.length := by simpa using run'
  exact List.append_inj same length

/-- Bytes from which a value is read are at least as many as the value is worth. -/
theorem Passes.le_of_reads {reader : Reader α} {worth : α → Nat} (passes : Passes reader worth) {bytes : List UInt8}
    {value : α} (reads : Reads reader bytes value) : worth value ≤ bytes.length := by
  have run := reads bytes.toArray 0 (List.prefix_refl _)
  have bound := passes run
  simpa using bound

end Reader

namespace Dex

open Reader

/-- An opcode or a number in debug information. -/
inductive DebugSlot
  | opcode (byte : UInt8)
  | unsigned (value : UInt32)
  | signed (value : Int32)

namespace DebugSlot

/-- The bytes of a slot as they are written. -/
def bytes : DebugSlot → List UInt8
  | opcode byte => [byte]
  | unsigned value => Leb.encode value
  | signed value => Leb.encodeSigned value

/-- Bytes from which the content of a slot is read. -/
def Spells : DebugSlot → List UInt8 → Prop
  | opcode byte, bytes => bytes = [byte]
  | unsigned value, bytes => Reads Reader.leb bytes value
  | signed value, bytes => Reads Reader.signedLeb bytes value

theorem spells_bytes (slot : DebugSlot) : slot.Spells slot.bytes := by
  cases slot with
  | opcode byte => rfl
  | unsigned value => exact reads_leb value
  | signed value => exact reads_signedLeb value

theorem Spells.eq_of_append_eq {slot : DebugSlot} {first second more rest : List UInt8} (spells : slot.Spells first)
    (spells' : slot.Spells second) (same : first ++ more = second ++ rest) : first = second ∧ more = rest := by
  cases slot with
  | opcode byte =>
      cases spells
      cases spells'
      exact ⟨rfl, List.append_cancel_left same⟩
  | unsigned value => exact Reads.eq_of_append_eq spells spells' same
  | signed value => exact Reads.eq_of_append_eq spells spells' same

theorem Spells.length_le {slot : DebugSlot} {bytes : List UInt8} (spells : slot.Spells bytes) :
    slot.bytes.length ≤ bytes.length := by
  cases slot with
  | opcode byte => exact Nat.le_of_eq (congrArg List.length spells).symm
  | unsigned value => exact passes_leb.le_of_reads spells
  | signed value => exact passes_signedLeb.le_of_reads spells

/-- Slots that are read from bytes one behind the other. -/
def Spelling (slots : List DebugSlot) (bytes : List UInt8) : Prop :=
  ∃ pieces, List.Forall₂ Spells slots pieces ∧ bytes = pieces.flatten

theorem Spelling.append {first second : List DebugSlot} {front back : List UInt8} (spelling : Spelling first front)
    (spelling' : Spelling second back) : Spelling (first ++ second) (front ++ back) := by
  obtain ⟨pieces, each, rfl⟩ := spelling
  obtain ⟨pieces', each', rfl⟩ := spelling'
  exact ⟨pieces ++ pieces', List.rel_append each each', List.flatten_append.symm⟩

theorem Spelling.cons {slot : DebugSlot} {slots : List DebugSlot} {front back : List UInt8}
    (spells : slot.Spells front) (spelling : Spelling slots back) : Spelling (slot :: slots) (front ++ back) := by
  obtain ⟨pieces, each, rfl⟩ := spelling
  exact ⟨front :: pieces, .cons spells each, rfl⟩

theorem Spelling.nil : Spelling [] [] :=
  ⟨[], .nil, rfl⟩

variable {slots : List DebugSlot} {pieces : List (List UInt8)}

/-- Slots that are written are written as they were read exactly when each of them is. -/
theorem flatMap_bytes_eq_iff (each : List.Forall₂ Spells slots pieces) :
    slots.flatMap bytes = pieces.flatten ↔ List.Forall₂ (fun slot piece => slot.bytes = piece) slots pieces := by
  induction each with
  | nil => simp
  | @cons slot piece slots pieces here _ ih =>
      rw [List.flatMap_cons, List.flatten_cons, List.forall₂_cons, ← ih]
      constructor
      · exact (spells_bytes slot).eq_of_append_eq here
      · rintro ⟨first, rest⟩
        rw [first, rest]

theorem length_flatMap_bytes_le (each : List.Forall₂ Spells slots pieces) :
    (slots.flatMap bytes).length ≤ pieces.flatten.length := by
  induction each with
  | nil => exact Nat.le_refl 0
  | cons here _ ih =>
      rw [List.flatMap_cons, List.flatten_cons, List.length_append, List.length_append]
      exact Nat.add_le_add here.length_le ih

end DebugSlot

open DebugSlot (Spelling)

/-- The slot of an index that is stored plus one. -/
def IndexRef.optionalSlot {α : Type} (ref : IndexRef α) : DebugSlot :=
  .unsigned (ref.raw + 1)

/-- The slots of an element. -/
def ElementData.slots : ElementData → List DebugSlot
  | advanceAddress step => [.opcode 0x01, .unsigned step]
  | advanceLine step => [.opcode 0x02, .signed step]
  | startLocal register name type none =>
    [.opcode 0x03, .unsigned register, name.optionalSlot, type.optionalSlot]
  | startLocal register name type (some signature) =>
    [.opcode 0x04, .unsigned register, name.optionalSlot, type.optionalSlot, signature.optionalSlot]
  | endLocal register => [.opcode 0x05, .unsigned register]
  | restartLocal register => [.opcode 0x06, .unsigned register]
  | prologueEnd => [.opcode 0x07]
  | epilogueBegin => [.opcode 0x08]
  | setFile name => [.opcode 0x09, name.optionalSlot]
  | lineEntry special => [.opcode (Special.firstOpcode + special)]

theorem ElementData.bytes_eq (data : ElementData) : data.bytes = data.slots.flatMap DebugSlot.bytes := by
  cases data with
  | startLocal register name type signature =>
      cases signature <;> simp [bytes, slots, DebugSlot.bytes, IndexRef.optionalSlot, IndexRef.optionalBytes]
  | _ => simp [bytes, slots, DebugSlot.bytes, IndexRef.optionalSlot, IndexRef.optionalBytes]

/-- The slots of debug information: the starting line, the number of parameters, their names, and the elements up to
the end opcode. -/
def DebugInfo.slots (info : DebugInfo) : List DebugSlot :=
  .unsigned info.sequence.start :: .unsigned (UInt32.ofNat info.parameterNames.length) ::
    info.parameterNames.map IndexRef.optionalSlot ++
      (info.sequence.elements.flatMap (·.data.slots) ++ [.opcode 0x00])

/-- Untouched debug information is written slot by slot. -/
theorem DebugInfo.encode_eq {info : DebugInfo} (clean : info.sequence.dirty = false) :
    encode info = info.slots.flatMap DebugSlot.bytes := by
  have start : info.sequence.lineStart = info.sequence.start := by simp [DebugSequence.lineStart, clean]
  have elements : info.sequence.bytes =
      (info.sequence.elements.flatMap fun element => element.data.slots).flatMap DebugSlot.bytes ++ [0x00] := by
    simp [DebugSequence.bytes, clean, ElementData.bytes_eq, List.flatMap_assoc]
  change Leb.encode info.sequence.lineStart ++ Leb.encode (UInt32.ofNat info.parameterNames.length) ++
    info.parameterNames.flatMap IndexRef.optionalBytes ++ info.sequence.bytes = _
  rw [start, elements, slots]
  simp [DebugSlot.bytes, List.flatMap_map, IndexRef.optionalSlot, funext fun ref => @IndexRef.optionalBytes.eq_1 _ ref]

theorem finds_readOptionalIndex {α : Type} : Finds (readOptionalIndex : Reader (IndexRef α)) fun ref bytes =>
    ref.bare = ref ∧ ref.optionalSlot.Spells bytes := by
  refine (finds_leb.bind fun word => .pure _).imp ?_
  rintro _ _ ⟨word, bytes, _, rfl, reads, rfl, rfl⟩
  refine ⟨rfl, ?_⟩
  rw [List.append_nil]
  change Reads Reader.leb bytes (word - 1 + 1)
  rwa [UInt32.sub_add_cancel]

/-- A row of slots behind an opcode. -/
theorem spelling_opcode (opcode : UInt8) {slots : List DebugSlot} {bytes : List UInt8}
    (spelling : Spelling slots bytes) : Spelling (.opcode opcode :: slots) (opcode :: bytes) :=
  Spelling.cons (show DebugSlot.Spells (.opcode opcode) [opcode] from rfl) spelling

/-- An element is read from its slots. -/
theorem finds_readElement (address line : UInt32) {opcode : UInt8} (some : opcode ≠ 0) :
    Finds (readElement address line opcode) fun element bytes => element.data.bare = element.data ∧
      element.data.HasOpcode ∧ Spelling element.data.slots (opcode :: bytes) := by
  have number (place : UInt8) (same : opcode.toNat = place.toNat) : opcode = place := UInt8.toNat_inj.1 same
  unfold readElement
  split
  case h_1 code =>
    cases number 0x01 code
    refine (finds_leb.bind fun step => .pure _).imp ?_
    rintro _ _ ⟨step, front, _, rfl, reads, rfl, rfl⟩
    exact ⟨rfl, trivial, spelling_opcode _ (.cons reads .nil)⟩
  case h_2 code =>
    cases number 0x02 code
    refine (finds_signedLeb.bind fun step => .pure _).imp ?_
    rintro _ _ ⟨step, front, _, rfl, reads, rfl, rfl⟩
    exact ⟨rfl, trivial, spelling_opcode _ (.cons reads .nil)⟩
  case h_3 code =>
    cases number 0x03 code
    refine (finds_leb.bind fun register => finds_readOptionalIndex.bind fun name =>
      finds_readOptionalIndex.bind fun type => .pure _).imp ?_
    rintro _ _ ⟨register, front, _, rfl, reads, name, _, _, rfl, ⟨bare, named⟩, type, _, _, rfl, ⟨bare', typed⟩,
      rfl, rfl⟩
    exact ⟨by simp [ElementData.bare, ElementData.mapRefs, bare, bare'], trivial,
      spelling_opcode _ (.cons reads (.cons named (.cons typed .nil)))⟩
  case h_4 code =>
    cases number 0x04 code
    refine (finds_leb.bind fun register => finds_readOptionalIndex.bind fun name =>
      finds_readOptionalIndex.bind fun type => finds_readOptionalIndex.bind fun signature => .pure _).imp ?_
    rintro _ _ ⟨register, front, _, rfl, reads, name, _, _, rfl, ⟨bare, named⟩, type, _, _, rfl, ⟨bare', typed⟩,
      signature, _, _, rfl, ⟨bare'', signed⟩, rfl, rfl⟩
    exact ⟨by simp [ElementData.bare, ElementData.mapRefs, bare, bare', bare''], trivial,
      spelling_opcode _ (.cons reads (.cons named (.cons typed (.cons signed .nil))))⟩
  case h_5 code =>
    cases number 0x05 code
    refine (finds_leb.bind fun register => .pure _).imp ?_
    rintro _ _ ⟨register, front, _, rfl, reads, rfl, rfl⟩
    exact ⟨rfl, trivial, spelling_opcode _ (.cons reads .nil)⟩
  case h_6 code =>
    cases number 0x06 code
    refine (finds_leb.bind fun register => .pure _).imp ?_
    rintro _ _ ⟨register, front, _, rfl, reads, rfl, rfl⟩
    exact ⟨rfl, trivial, spelling_opcode _ (.cons reads .nil)⟩
  case h_7 code =>
    cases number 0x07 code
    refine (Finds.pure _).imp ?_
    rintro _ _ ⟨rfl, rfl⟩
    exact ⟨rfl, trivial, spelling_opcode _ .nil⟩
  case h_8 code =>
    cases number 0x08 code
    refine (Finds.pure _).imp ?_
    rintro _ _ ⟨rfl, rfl⟩
    exact ⟨rfl, trivial, spelling_opcode _ .nil⟩
  case h_9 code =>
    cases number 0x09 code
    refine (finds_readOptionalIndex.bind fun name => .pure _).imp ?_
    rintro _ _ ⟨name, front, _, rfl, ⟨bare, named⟩, rfl, rfl⟩
    exact ⟨by simp [ElementData.bare, ElementData.mapRefs, bare], trivial, spelling_opcode _ (.cons named .nil)⟩
  case h_10 one two three four five six seven eight nine =>
    refine (Finds.pure _).imp ?_
    rintro _ _ ⟨rfl, rfl⟩
    have back : Special.firstOpcode + (opcode - Special.firstOpcode) = opcode := by
      rw [UInt8.add_comm, UInt8.sub_add_cancel]
    refine ⟨rfl, ?_, ?_⟩
    · change (opcode - Special.firstOpcode).toNat ≤ 245
      have zero : opcode.toNat ≠ 0 := fun zero => some (number 0 zero)
      have others : opcode.toNat ≠ 1 ∧ opcode.toNat ≠ 2 ∧ opcode.toNat ≠ 3 ∧ opcode.toNat ≠ 4 ∧ opcode.toNat ≠ 5 ∧
          opcode.toNat ≠ 6 ∧ opcode.toNat ≠ 7 ∧ opcode.toNat ≠ 8 ∧ opcode.toNat ≠ 9 :=
        ⟨one, two, three, four, five, six, seven, eight, nine⟩
      have high := opcode.toNat_lt
      rw [UInt8.toNat_sub]
      change (256 - 10 + opcode.toNat) % 256 ≤ 245
      omega
    · change Spelling [.opcode (Special.firstOpcode + (opcode - Special.firstOpcode))] _
      rw [back]
      exact spelling_opcode _ .nil

/-- Elements are read from their slots up to the end opcode. -/
theorem finds_readElements {fuel : Nat} {address line : UInt32} {data : Bytes} {position : Nat} {stop : Cursor}
    {elements : List DebugElement} (enough : data.size - position < fuel)
    (run : readElements fuel address line { data, position } = .ok elements stop) : ∃ bytes,
      data.Stands position bytes ∧ stop = { data, position := position + bytes.length } ∧
        Spelling (elements.flatMap (·.data.slots) ++ [.opcode 0x00]) bytes ∧
        ∀ element ∈ elements, element.data.bare = element.data ∧ element.data.HasOpcode := by
  induction fuel generalizing address line position elements with
  | zero => omega
  | succ fuel ih =>
      -- Each element takes at least its opcode, so the fuel outlasts the data and only the end opcode stops the run.
      obtain ⟨opcode, between, first, run⟩ := Step.bind_eq_ok.1 run
      obtain ⟨_, stands, rfl, rfl⟩ := finds_byte data position opcode between first
      have within := stands.length_le (by simp)
      split at run
      · rename_i last
        cases run
        exact ⟨[opcode], stands, rfl, last ▸ spelling_opcode _ .nil, by simp⟩
      · rename_i some
        obtain ⟨element, between, first, run⟩ := Step.bind_eq_ok.1 run
        obtain ⟨front, standsFront, rfl, bare, coded, spelling⟩ :=
          finds_readElement address line some data _ element between first
        obtain ⟨rest, between, later, run⟩ := Step.bind_eq_ok.1 run
        cases run
        rw [List.length_singleton] at within later standsFront
        obtain ⟨back, standsBack, rfl, spelling', each⟩ := ih (by omega) later
        refine ⟨(opcode :: front) ++ back, ?_, ?_, ?_, ?_⟩
        · rw [List.cons_append, ← List.singleton_append, Bytes.Stands.append_iff, Bytes.Stands.append_iff]
          exact ⟨stands, standsFront, standsBack⟩
        · simp only [List.cons_append, List.length_cons, List.length_append]
          congr 1
          omega
        · rw [List.flatMap_cons, List.append_assoc]
          exact spelling.append spelling'
        · exact List.forall_mem_cons.2 ⟨⟨bare, coded⟩, each⟩

/-- Debug information is read from its slots, and it can be written. -/
theorem finds_debugInfo : Finds (Codec.read : Reader DebugInfo) fun info bytes => Spelling info.slots bytes ∧
    info.sequence.dirty = false ∧ info.bare = info ∧ info.sequence.Sound ∧
      info.parameterNames.length < UInt32.size := by
  intro data position info stop run
  obtain ⟨start, between, first, run⟩ := Step.bind_eq_ok.1 run
  obtain ⟨front, stands, rfl, reads⟩ := finds_leb data position start between first
  obtain ⟨size, between, first, run⟩ := Step.bind_eq_ok.1 run
  obtain ⟨middle, stands', rfl, reads'⟩ := finds_leb data _ size between first
  obtain ⟨names, between, first, run⟩ := Step.bind_eq_ok.1 run
  obtain ⟨named, stands'', rfl, pieces, length, each, rfl⟩ :=
    finds_readOptionalIndex.replicate size.toNat data _ names between first
  obtain ⟨sequence, between, first, run⟩ := Step.bind_eq_ok.1 run
  cases run
  obtain ⟨_, _, remaining, first⟩ := Step.bind_eq_ok.1 first
  cases remaining
  obtain ⟨elements, between, reads'', first⟩ := Step.bind_eq_ok.1 first
  cases first
  obtain ⟨back, standsBack, rfl, spelling, coded⟩ := finds_readElements (Nat.lt_succ_self _) reads''
  have count : UInt32.ofNat names.length = size := by rw [length, UInt32.ofNat_toNat]
  have replays := replay_of_readElements reads''
  have bareNames : names.map IndexRef.bare = names := by
    refine (List.map_congr_left fun ref inside => ?_).trans (List.map_id names)
    obtain ⟨_, _, bare, _⟩ := forall₂_mem each.flip inside
    exact bare
  have bareElements : (elements.map DebugElement.data).map ElementData.bare = elements.map DebugElement.data := by
    rw [List.map_map]
    exact List.map_congr_left fun element inside => (coded element inside).1
  refine ⟨front ++ (middle ++ (pieces.flatten ++ back)), ?_, ?_, ?_, rfl, ?_,
    ⟨nofun, fun _ => replays.symm, fun _ element inside => (coded element inside).2⟩, length ▸ size.toNat_lt⟩
  · rw [Bytes.Stands.append_iff, Bytes.Stands.append_iff, Bytes.Stands.append_iff]
    exact ⟨stands, stands', stands'', standsBack⟩
  · simp only [List.length_append, Nat.add_assoc]
  · refine .cons reads (.cons ?_ (.append ⟨pieces, ?_, rfl⟩ spelling))
    · change Reads Reader.leb middle (UInt32.ofNat names.length)
      rwa [count]
    · exact List.forall₂_map_left_iff.2 (each.imp fun _ _ => And.right)
  · change DebugInfo.mk (names.map IndexRef.bare) { start := start, elements := replay 0 start ((elements.map
      DebugElement.data).map ElementData.bare) } = _
    rw [bareNames, bareElements, ← replays]

/-- Debug information is decoded from its slots, and written again from them. It is written as it was read exactly
when every number was in its shortest form, and never longer. What is written is decoded to the same information. -/
theorem DebugInfo.encode_of_decode {data : Bytes} {info : DebugInfo} {count : Nat}
    (run : decode data = .ok (info, count)) : ∃ pieces,
      List.Forall₂ DebugSlot.Spells info.slots pieces ∧ data.toList.take count = pieces.flatten ∧
        (encode info = data.toList.take count ↔
          List.Forall₂ (fun slot piece => slot.bytes = piece) info.slots pieces) ∧
        (encode info).length ≤ count ∧
        ∀ suffix, decode (encode info ++ suffix).toArray = .ok (info, (encode info).length) := by
  obtain ⟨stop, read, rfl⟩ := decode_eq_ok run
  obtain ⟨_, stands, rfl, ⟨pieces, each, rfl⟩, clean, bare, sound, few⟩ := finds_debugInfo data 0 info stop read
  have front : data.toList.take (0 + pieces.flatten.length) = pieces.flatten := by
    rw [Nat.zero_add]
    exact (List.prefix_iff_eq_take.1 stands).symm
  have reads := info.reads_of_length sound few
  rw [bare] at reads
  refine ⟨pieces, each, front, ?_, ?_, reads.decode_append⟩
  · rw [front, encode_eq clean]
    exact DebugSlot.flatMap_bytes_eq_iff each
  · rw [encode_eq clean, Nat.zero_add]
    exact DebugSlot.length_flatMap_bytes_le each

/-- A starting line in two groups is read, and written in one. -/
theorem DebugInfo.encode_of_decode_padded : ∃ info : DebugInfo,
    decode #[0x80, 0x00, 0x00, 0x00] = .ok (info, 4) ∧ info.sequence.dirty = false ∧
      encode info = [0x00, 0x00, 0x00] ∧ encode info ≠ [0x80, 0x00, 0x00, 0x00] ∧
      ∀ suffix, decode (encode info ++ suffix).toArray = .ok (info, 3) := by
  have run : decode #[0x80, 0x00, 0x00, 0x00] = .ok (({} : DebugInfo), 4) := by rfl
  have written : encode ({} : DebugInfo) = [0x00, 0x00, 0x00] := by
    rw [DebugInfo.encode_eq rfl]
    simp [DebugInfo.slots, DebugSlot.bytes, Leb.encode, Leb.unsignedGroups]
  obtain ⟨_, _, _, _, _, again⟩ := DebugInfo.encode_of_decode run
  rw [written] at again
  exact ⟨{}, run, rfl, written, by rw [written]; decide, by rwa [written]⟩

end Dex
end DexArsc
