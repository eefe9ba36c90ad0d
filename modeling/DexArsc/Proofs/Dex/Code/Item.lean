/-
Code items are read back from their bytes, without the items that their references name.
-/

import DexArsc.Proofs.Dex.Item

namespace DexArsc.Dex

open Reader

/-- The bytes of one value are no more than those of a list with the value. -/
theorem length_le_flatMap {α : Type} {values : List α} {value : α} (bytes : α → List UInt8)
    (inside : value ∈ values) : (bytes value).length ≤ (values.flatMap bytes).length := by
  obtain ⟨before, behind, rfl⟩ := List.append_of_mem inside
  simp only [List.flatMap_append, List.flatMap_cons, List.length_append]
  omega

namespace CatchHandler

/-- The handler as it is read. -/
def bare : CatchHandler → CatchHandler := mapTypes IndexRef.bare

/-- The bytes of the exception types and their addresses. -/
def catchBytes (catches : List (IndexRef TypeItem × UInt32)) : List UInt8 :=
  catches.flatMap fun (type, address) => Leb.encode type.raw ++ Leb.encode address

theorem length_le_catchBytes (catches : List (IndexRef TypeItem × UInt32)) :
    2 * catches.length ≤ (catchBytes catches).length := by
  induction catches with
  | nil => exact Nat.le_refl 0
  | cons first rest ih =>
      obtain ⟨type, address⟩ := first
      have typeSome := Leb.length_encode_pos type.raw
      have addressSome := Leb.length_encode_pos address
      rw [catchBytes, List.flatMap_cons, List.length_append, List.length_cons]
      change _ ≤ (Leb.encode type.raw ++ Leb.encode address).length + (catchBytes rest).length
      rw [List.length_append]
      omega

theorem length_encode (handler : CatchHandler) :
    (encode handler).length = (Leb.encodeSigned (Int32.ofInt
      (if handler.catchAll.isSome then -handler.catches.length else handler.catches.length))).length +
      (catchBytes handler.catches).length +
      ((handler.catchAll.map Leb.encode).getD []).length := by
  change (_ ++ _ ++ _ : List UInt8).length = _
  rw [List.length_append, List.length_append]
  rfl

/-- A handler that handles something is read from its bytes. -/
theorem reads (handler : CatchHandler) (some : handler.catches ≠ [] ∨ handler.catchAll.isSome)
    (fits : (encode handler).length < UInt32.size) :
    Reads Codec.read (encode handler) handler.bare := by
  have few := length_le_catchBytes handler.catches
  rw [length_encode] at fits
  have small : 2 * handler.catches.length < 4294967296 := by
    change _ < 4294967296 at fits
    omega
  obtain ⟨catches, catchAll⟩ := handler
  simp only at some small
  change Reads _ (Leb.encodeSigned (Int32.ofInt
    (if catchAll.isSome then -catches.length else catches.length)) ++
    catchBytes catches ++ (catchAll.map Leb.encode).getD []) _
  have size (sign : Int) (unit : sign = 1 ∨ sign = -1) :
      (Int32.ofInt (sign * catches.length)).toInt = sign * catches.length := by
    rw [Int32.toInt_ofInt_of_le] <;> rcases unit with rfl | rfl <;> simp <;> omega
  have each : Reads (Reader.replicate (do return (.ofRaw (← Reader.leb), ← Reader.leb))
      catches.length) (catchBytes catches)
      (catches.map fun (type, address) => (type.bare, address)) :=
    Reads.replicate fun entry _ =>
      Reads.bind (reads_leb entry.1.raw) ((reads_leb entry.2).bind_pure (Prod.mk entry.1.bare))
  simp only [List.append_assoc]
  cases catchAll with
  | none =>
      have positive : 0 < catches.length := List.length_pos_iff.2 (by simpa using some)
      refine Reads.bind (reads_signedLeb _) ?_
      have number := size 1 (.inl rfl)
      simp only [Int.one_mul] at number
      simp only [Option.isSome_none, Bool.false_eq_true, if_false, number, Int.natAbs_natCast]
      refine Reads.bind each ?_
      rw [if_neg (by omega)]
      exact (Reads.pure _).bind_pure (CatchHandler.mk _)
  | some address =>
      refine Reads.bind (reads_signedLeb _) ?_
      have number := size (-1) (.inr rfl)
      rw [show (-1 : Int) * catches.length = -catches.length by omega] at number
      simp only [Option.isSome_some, if_true, number, Int.natAbs_neg, Int.natAbs_natCast]
      refine Reads.bind each ?_
      rw [if_pos (by omega)]
      exact ((reads_leb address).map Option.some).bind_pure (CatchHandler.mk _)

end CatchHandler

namespace CodeItem

/-- The offsets of handlers behind the given number of bytes. -/
def handlerPlaces : (offset : Nat) → List CatchHandler → List Nat
  | _, [] => []
  | offset, handler :: rest => offset :: handlerPlaces (offset + (encode handler).length) rest

theorem encodeHandlers_eq (offset : Nat) (handlers : List CatchHandler) :
    encodeHandlers offset handlers =
      (handlers.flatMap encode, (handlerPlaces offset handlers).map UInt16.ofNat) := by
  induction handlers generalizing offset with
  | nil => rfl
  | cons handler rest ih => simp [encodeHandlers, handlerPlaces, ih]

theorem length_handlerPlaces (offset : Nat) (handlers : List CatchHandler) :
    (handlerPlaces offset handlers).length = handlers.length := by
  induction handlers generalizing offset with
  | nil => rfl
  | cons handler rest ih => simp [handlerPlaces, ih]

theorem length_encode_handler_pos (handler : CatchHandler) : 0 < (encode handler).length := by
  have some := List.length_pos_iff.2 (Leb.encodeSigned_ne_nil (Int32.ofInt
    (if handler.catchAll.isSome then -handler.catches.length else handler.catches.length)))
  rw [CatchHandler.length_encode]
  omega

/-- Handlers stand one behind the other. -/
theorem handlerPlaces_ascending (offset : Nat) (handlers : List CatchHandler) :
    (∀ place ∈ handlerPlaces offset handlers, offset ≤ place) ∧
      (handlerPlaces offset handlers).Pairwise (· < ·) := by
  induction handlers generalizing offset with
  | nil => simp [handlerPlaces]
  | cons handler rest ih =>
      have some := length_encode_handler_pos handler
      obtain ⟨behind, ascending⟩ := ih (offset + (encode handler).length)
      refine ⟨fun place inside => ?_, List.pairwise_cons.2 ⟨fun place inside => ?_, ascending⟩⟩
      · rcases List.mem_cons.1 inside with rfl | later
        · exact Nat.le_refl _
        · exact Nat.le_trans (Nat.le_add_right _ _) (behind place later)
      · have := behind place inside
        omega

/-- Handlers are read with their offsets. -/
theorem readHandlers_eq (handlers : List CatchHandler)
    (reads : ∀ handler ∈ handlers, Reads Codec.read (encode handler) handler.bare) (base : Nat)
    (data : Bytes) (position : Nat) (stands : data.Stands position (handlers.flatMap encode))
    (behind : base ≤ position) :
    readHandlers base handlers.length { data, position } =
      .ok ((handlerPlaces (position - base) handlers).zip (handlers.map CatchHandler.bare))
        { data, position := position + (handlers.flatMap encode).length } := by
  induction handlers generalizing position with
  | nil => rfl
  | cons handler rest ih =>
      rw [List.flatMap_cons] at stands ⊢
      obtain ⟨front, back⟩ := Bytes.Stands.append_iff.1 stands
      have first := reads handler List.mem_cons_self data position front
      have tail := ih (fun handler inside => reads handler (List.mem_cons_of_mem _ inside))
        (position + (encode handler).length) back (by omega)
      rw [List.length_cons, readHandlers,
        Step.bind_ok (show Reader.position { data, position } = .ok position { data, position } from rfl),
        Step.bind_ok first, Step.bind_ok tail]
      have place : position + (encode handler).length - base =
          position - base + (encode handler).length := by omega
      simp [handlerPlaces, place, Nat.add_assoc]

/-- A code item that can be written: its try blocks are few, each names a handler whose offset
fits, its handlers handle something, and there are none without a try block. -/
structure Writable (code : CodeItem) : Prop where
  few : code.tries.length ≤ 0xFFFF
  handled : ∀ handler ∈ code.handlers, handler.catches ≠ [] ∨ handler.catchAll.isSome
  used : code.tries = [] → code.handlers = []
  named : ∀ block ∈ code.tries, ∃ place,
    (handlerPlaces (Leb.encode (UInt32.ofNat code.handlers.length)).length
      code.handlers)[block.handler]? = some place ∧ place ≤ 0xFFFF

/-- The code as it is read. -/
def bare (code : CodeItem) : CodeItem :=
  { code with
    debugInfo := code.debugInfo.bare
    references := []
    handlers := code.handlers.map CatchHandler.bare }

/-- A try block finds its handler by the handler's offset. -/
theorem resolveTry_eq {places : List Nat} (ascending : places.Pairwise (· < ·)) {block : TryBlock}
    {place : Nat} (named : places[block.handler]? = some place) (fits : place ≤ 0xFFFF) :
    resolveTry places ⟨block.start, block.count,
      ((places.map UInt16.ofNat)[block.handler]?.getD 0)⟩ = .ok block := by
  have stored : ((places.map UInt16.ofNat)[block.handler]?.getD 0).toNat = place := by
    rw [List.getElem?_map, named]
    simp only [Option.map_some, Option.getD_some, UInt16.toNat_ofNat']
    omega
  obtain ⟨inside, at_place⟩ := List.getElem?_eq_some_iff.1 named
  have found : places.findIdx? (· == place) = some block.handler := by
    rw [List.findIdx?_eq_some_iff_getElem]
    refine ⟨inside, by simpa using at_place, fun earlier before same => ?_⟩
    have less := List.pairwise_iff_getElem.1 ascending earlier block.handler (by omega) inside before
    simp only [beq_iff_eq] at same
    omega
  unfold resolveTry
  rw [stored, found]

/-- Try blocks are read as they are written. -/
theorem reads_readTry (start : UInt32) (count offset : UInt16) :
    Reads readTry (Bytes.ofWord32 start ++ Bytes.ofWord16 count ++ Bytes.ofWord16 offset)
      ⟨start, count, offset⟩ := by
  rw [List.append_assoc]
  refine Reads.bind (reads_word32 start) ?_
  refine Reads.bind (reads_word16 count) ?_
  exact (reads_word16 offset).bind_pure (RawTry.mk start count)

/-- The bytes of handlers behind their count. -/
def handlerBytes (handlers : List CatchHandler) : List UInt8 :=
  Leb.encode (UInt32.ofNat handlers.length) ++ handlers.flatMap encode

/-- The try blocks as they are written. -/
def rawTries (code : CodeItem) : List RawTry :=
  code.tries.map fun block => ⟨block.start, block.count, ((handlerPlaces
    (Leb.encode (UInt32.ofNat code.handlers.length)).length code.handlers).map
      UInt16.ofNat)[block.handler]?.getD 0⟩

/-- The bytes of a try block as it is written. -/
def RawTry.bytes (block : RawTry) : List UInt8 :=
  Bytes.ofWord32 block.start ++ Bytes.ofWord16 block.count ++ Bytes.ofWord16 block.offset

/-- Try blocks find their handlers when they are read. -/
theorem reads_tries (code : CodeItem) (writable : code.Writable)
    (fits : (handlerBytes code.handlers).length < UInt32.size) :
    Reads (do
      let base ← Reader.position
      let handlers ← readHandlers base (← Reader.leb).toNat
      let tries ← resolveTries (handlers.map Prod.fst) code.rawTries
      return (tries, handlers.map Prod.snd))
      (handlerBytes code.handlers) (code.tries, code.handlers.map CatchHandler.bare) := by
  intro data position stands
  obtain ⟨counted, listed⟩ := Bytes.Stands.append_iff.1 stands
  have size : (handlerBytes code.handlers).length =
      (Leb.encode (UInt32.ofNat code.handlers.length)).length +
        (code.handlers.flatMap encode).length := List.length_append
  have bound (handler : CatchHandler) (inside : handler ∈ code.handlers) :
      (encode handler).length ≤ (code.handlers.flatMap encode).length :=
    length_le_flatMap encode inside
  have few : code.handlers.length ≤ (code.handlers.flatMap encode).length := by
    induction code.handlers with
    | nil => exact Nat.le_refl 0
    | cons handler rest ih =>
        have some := length_encode_handler_pos handler
        simp only [List.flatMap_cons, List.length_append, List.length_cons]
        omega
  have count : (UInt32.ofNat code.handlers.length).toNat = code.handlers.length :=
    toNat_ofNat_of_lt (by omega)
  have handlers := readHandlers_eq code.handlers
    (fun handler inside => CatchHandler.reads handler (writable.handled handler inside)
      (by have := bound handler inside; omega))
    position data _ listed (Nat.le_add_right _ _)
  rw [Nat.add_sub_cancel_left] at handlers
  have places := length_handlerPlaces (Leb.encode (UInt32.ofNat code.handlers.length)).length
    code.handlers
  have resolved : resolveTries (handlerPlaces
      (Leb.encode (UInt32.ofNat code.handlers.length)).length code.handlers) code.rawTries =
        .ok code.tries := by
    have named := writable.named
    unfold resolveTries rawTries
    rw [List.mapM_map]
    generalize code.tries = tries at named ⊢
    induction tries with
    | nil => rfl
    | cons block rest ih =>
        obtain ⟨place, found, small⟩ := named block List.mem_cons_self
        rw [List.mapM_cons, ih fun block inside => named block (List.mem_cons_of_mem _ inside)]
        have first := resolveTry_eq (handlerPlaces_ascending _ _).2 found small
        rw [Function.comp_apply, first]
        rfl
  rw [Step.bind_ok (show Reader.position { data, position } = .ok position { data, position } from rfl),
    Step.bind_ok (reads_leb _ data position counted), count, Step.bind_ok handlers,
    List.map_fst_zip (Nat.le_of_eq (by rw [places, List.length_map])), resolved,
    List.map_snd_zip (Nat.le_of_eq (by rw [places, List.length_map])), size,
    ← Nat.add_assoc]
  rfl

/-- Code units are read one behind the other. -/
theorem reads_units (units : List UInt16) :
    Reads (Reader.word16.replicate units.length) (units.flatMap Bytes.ofWord16) units := by
  have reads : Reads (Reader.word16.replicate units.length) (units.flatMap Bytes.ofWord16)
      (units.map id) := Reads.replicate fun word _ => reads_word16 word
  rwa [List.map_id] at reads

theorem tryBytes_eq (code : CodeItem) (some : code.tries ≠ []) :
    code.tryBytes = (if code.units.size % 2 = 1 then Bytes.ofWord16 0 else []) ++
      (code.rawTries.flatMap RawTry.bytes ++ handlerBytes code.handlers) := by
  simp only [tryBytes, List.isEmpty_iff, some, if_false, encodeHandlers_eq, rawTries, handlerBytes,
    List.flatMap_map, List.append_assoc]
  rfl

/-- Reading the try blocks of code yields them and their handlers. -/
theorem reads_readTries (code : CodeItem) (writable : code.Writable)
    (fits : (handlerBytes code.handlers).length < UInt32.size) :
    Reads (readTries code.units.size code.tries.length) code.tryBytes
      (code.tries, code.handlers.map CatchHandler.bare) := by
  by_cases none : code.tries = []
  · rw [none, writable.used none, tryBytes, none]
    exact Reads.pure _
  · have count : code.tries.length ≠ 0 := by simpa using none
    have blocks : Reads (readTry.replicate code.tries.length) (code.rawTries.flatMap RawTry.bytes)
        code.rawTries := by
      have reads : Reads (readTry.replicate code.rawTries.length)
          (code.rawTries.flatMap RawTry.bytes) (code.rawTries.map id) :=
        Reads.replicate fun block _ => reads_readTry block.start block.count block.offset
      rwa [List.map_id, rawTries, List.length_map] at reads
    rw [tryBytes_eq code none]
    unfold readTries
    rw [if_neg count]
    by_cases odd : code.units.size % 2 = 1
    · rw [if_pos odd, if_pos odd]
      refine Reads.bind (reads_word16 0) ?_
      refine Reads.bind blocks ?_
      exact reads_tries code writable fits
    · rw [if_neg odd, if_neg odd, List.nil_append]
      refine Reads.bind blocks ?_
      exact reads_tries code writable fits

theorem encode_eq (code : CodeItem) : encode code =
    Bytes.ofWord16 code.registers ++ (Bytes.ofWord16 code.ins ++ (Bytes.ofWord16 code.outs ++
      (Bytes.ofWord16 (UInt16.ofNat code.tries.length) ++ (code.debugInfo.bytes ++
      (Bytes.ofWord32 (UInt32.ofNat code.units.size) ++
      (code.units.toList.flatMap Bytes.ofWord16 ++ code.tryBytes)))))) := by
  change (((((((_ ++ _) ++ _) ++ _) ++ _) ++ _) ++ _) ++ _) = _
  simp only [List.append_assoc]

theorem length_flatMap_ofWord16 (units : List UInt16) :
    (units.flatMap Bytes.ofWord16).length = units.length * 2 := by
  induction units with
  | nil => rfl
  | cons unit rest ih =>
      simp only [List.flatMap_cons, List.length_append, ih, Bytes.length_ofWord16, List.length_cons]
      omega

/-- Code is read from its bytes when its units can be counted and its handlers are told apart by their
offsets, however many bytes there are in all. -/
theorem reads_of_fits (code : CodeItem) (writable : code.Writable) (count : code.units.size < UInt32.size)
    (list : (handlerBytes code.handlers).length < UInt32.size) : Reads Codec.read (encode code) code.bare := by
  have few := writable.few
  have tryCount : (UInt16.ofNat code.tries.length).toNat = code.tries.length := by
    rw [UInt16.toNat_ofNat']
    omega
  have unitCount : (UInt32.ofNat code.units.size).toNat = code.units.size := toNat_ofNat_of_lt count
  have units := reads_units code.units.toList
  rw [Array.length_toList] at units
  rw [encode_eq]
  refine Reads.bind (reads_word16 _) ?_
  refine Reads.bind (reads_word16 _) ?_
  refine Reads.bind (reads_word16 _) ?_
  refine Reads.bind (reads_word16 _) ?_
  refine Reads.bind (reads_readOffset code.debugInfo) ?_
  refine Reads.bind (reads_word32 _) ?_
  rw [tryCount, unitCount]
  intro data position stands
  have enough : ¬Cursor.remaining { data, position } < code.units.size * 2 := by
    by_cases empty : code.units.toList.flatMap Bytes.ofWord16 = []
    · have none := length_flatMap_ofWord16 code.units.toList
      rw [empty, List.length_nil] at none
      rw [← Array.length_toList]
      omega
    · have inside := (Bytes.Stands.append_iff.1 stands).1.length_le empty
      rw [length_flatMap_ofWord16, Array.length_toList] at inside
      change ¬data.size - position < _
      omega
  rw [Step.bind_ok (show Reader.remaining { data, position } =
    .ok (Cursor.remaining { data, position }) { data, position } from rfl), if_neg enough]
  refine Reads.bind units ?_ data position stands
  exact (reads_readTries code writable list).bind_pure
    fun tries => { code.bare with tries := tries.1, handlers := tries.2 }

/-- Code that takes less than 4 GiB is read from its bytes. -/
theorem reads (code : CodeItem) (writable : code.Writable)
    (fits : (encode code).length < UInt32.size) : Reads Codec.read (encode code) code.bare := by
  have size := congrArg List.length (encode_eq code)
  simp only [List.length_append, length_flatMap_ofWord16, Array.length_toList] at size
  refine reads_of_fits code writable (by omega) ?_
  by_cases none : code.tries = []
  · have bound : (handlerBytes []).length ≤ Leb.maxGroups := by
      rw [handlerBytes, List.flatMap_nil, List.append_nil]
      exact Leb.length_encode_le _
    rw [writable.used none]
    exact Nat.lt_of_le_of_lt bound (by decide)
  · rw [tryBytes_eq code none] at size
    simp only [List.length_append] at size
    omega

/-- The number of bytes in front of the try blocks of code. -/
def tryStart (code : CodeItem) : Nat :=
  16 + code.units.size * 2 + if code.units.size % 2 = 1 then 2 else 0

/-- The offset of a handler in the list of handlers: behind their count and the handlers before it. -/
def handlerOffset (code : CodeItem) (handler : Nat) : Nat :=
  (Leb.encode (UInt32.ofNat code.handlers.length)).length +
    ((code.handlers.take handler).flatMap encode).length

/-- A handler starts behind the bytes of the handlers before it. -/
theorem getElem?_handlerPlaces {offset handler : Nat} {handlers : List CatchHandler}
    (inside : handler < handlers.length) : (handlerPlaces offset handlers)[handler]? =
      some (offset + ((handlers.take handler).flatMap encode).length) := by
  induction handlers generalizing offset handler with
  | nil => cases inside
  | cons first rest ih =>
      cases handler with
      | zero => rfl
      | succ handler =>
          rw [handlerPlaces, List.getElem?_cons_succ, ih (Nat.lt_of_succ_lt_succ inside),
            List.take_succ_cons, List.flatMap_cons, List.length_append, Nat.add_assoc]

theorem length_flatMap_rawTry (blocks : List RawTry) :
    (blocks.flatMap RawTry.bytes).length = 8 * blocks.length := by
  induction blocks with
  | nil => rfl
  | cons block rest ih =>
      rw [List.flatMap_cons, List.length_append, ih, List.length_cons]
      change 8 + 8 * rest.length = _
      omega

variable {data : Bytes} {start : Nat} {code : CodeItem}

/-- The number of try blocks, as far as 16 bits hold it. -/
theorem stands_tryCount (stands : data.Stands start (encode code)) :
    data.Stands (start + 6) (Bytes.ofWord16 (UInt16.ofNat code.tries.length)) := by
  rw [encode_eq] at stands
  simp only [Bytes.Stands.append_iff, Bytes.length_ofWord16] at stands
  exact stands.2.2.2.1

/-- The try blocks stand behind the units, and the handlers behind the try blocks. -/
theorem stands_tryBlocks (stands : data.Stands start (encode code)) (some : code.tries ≠ []) :
    data.Stands (start + code.tryStart) (code.rawTries.flatMap RawTry.bytes ++ handlerBytes code.handlers) := by
  rw [encode_eq, tryBytes_eq code some] at stands
  simp only [Bytes.Stands.append_iff, Bytes.length_ofWord16, length_flatMap_ofWord16, Array.length_toList,
    Bytes.length_ofWord32] at stands
  have behind := stands.2.2.2.2.2.2.2.2
  have debug : code.debugInfo.bytes.length = 4 := rfl
  have padding : (if code.units.size % 2 = 1 then Bytes.ofWord16 0 else []).length =
      if code.units.size % 2 = 1 then 2 else 0 := by
    split <;> rfl
  rw [debug, padding] at behind
  have place : start + code.tryStart = start + 2 + 2 + 2 + 2 + 4 + 4 + code.units.size * 2 +
      if code.units.size % 2 = 1 then 2 else 0 := by
    unfold tryStart
    omega
  rw [place, Bytes.Stands.append_iff]
  exact behind

/-- A try block has the offset of its handler behind its start and its length, as far as 16 bits hold it,
and the handler stands there in the list behind all try blocks. -/
theorem stands_tryBlock (stands : data.Stands start (encode code)) {index : Nat} {block : TryBlock}
    {handler : CatchHandler} (listed : code.tries[index]? = some block)
    (named : code.handlers[block.handler]? = some handler) :
    data.Stands (start + code.tryStart + 8 * index + 6)
      (Bytes.ofWord16 (UInt16.ofNat (code.handlerOffset block.handler))) ∧
    data.Stands (start + code.tryStart + 8 * code.tries.length + code.handlerOffset block.handler)
      (encode handler) := by
  have some : code.tries ≠ [] := by
    rintro none
    simp [none] at listed
  obtain ⟨blocks, list⟩ := Bytes.Stands.append_iff.1 (stands_tryBlocks stands some)
  have count : code.rawTries.length = code.tries.length := List.length_map ..
  constructor
  · obtain ⟨inside, _⟩ := List.getElem?_eq_some_iff.1 named
    have place : (handlerPlaces (Leb.encode (UInt32.ofNat code.handlers.length)).length
        code.handlers)[block.handler]? = Option.some (code.handlerOffset block.handler) :=
      getElem?_handlerPlaces inside
    have raw : code.rawTries[index]? = Option.some ⟨block.start, block.count,
        UInt16.ofNat (code.handlerOffset block.handler)⟩ := by
      rw [rawTries, List.getElem?_map, listed, Option.map_some, List.getElem?_map, place]
      rfl
    obtain ⟨here, equal⟩ := List.getElem?_eq_some_iff.1 raw
    have split := (List.take_append_drop index code.rawTries).symm
    rw [List.drop_eq_getElem_cons here, equal] at split
    rw [split, List.flatMap_append, List.flatMap_cons, Bytes.Stands.append_iff, Bytes.Stands.append_iff,
      length_flatMap_rawTry, List.length_take, Nat.min_eq_left (Nat.le_of_lt here)] at blocks
    have slot := blocks.2.1
    rw [RawTry.bytes, Bytes.Stands.append_iff] at slot
    exact slot.2
  · obtain ⟨inside, equal⟩ := List.getElem?_eq_some_iff.1 named
    have split := (List.take_append_drop block.handler code.handlers).symm
    rw [List.drop_eq_getElem_cons inside, equal] at split
    rw [length_flatMap_rawTry, count, handlerBytes, Bytes.Stands.append_iff] at list
    have rest := list.2
    rw [split, List.flatMap_append, List.flatMap_cons, Bytes.Stands.append_iff, Bytes.Stands.append_iff,
      ← split] at rest
    rw [handlerOffset, ← Nat.add_assoc]
    exact rest.2.1

end CodeItem

section MapTypes

variable {change : IndexRef TypeItem → IndexRef TypeItem}
  (keeps : ∀ ref, (change ref).raw = ref.raw)

include keeps

/-- The bytes of a handler hold the slots of its references. -/
theorem CatchHandler.encode_mapTypes (handler : CatchHandler) :
    encode (handler.mapTypes change) = encode handler := by
  have catches : (handler.catches.map fun entry => (change entry.1, entry.2)).flatMap
      (fun entry => Leb.encode entry.1.raw ++ Leb.encode entry.2) =
      handler.catches.flatMap fun entry => Leb.encode entry.1.raw ++ Leb.encode entry.2 := by
    rw [List.flatMap_map]
    congr 1
    funext entry
    change Leb.encode (change entry.1).raw ++ _ = _
    rw [keeps]
  change Leb.encodeSigned (Int32.ofInt (if handler.catchAll.isSome then
      -((handler.catches.map _).length : Int) else ((handler.catches.map _).length : Int))) ++
    (handler.catches.map fun entry => (change entry.1, entry.2)).flatMap
      (fun entry => Leb.encode entry.1.raw ++ Leb.encode entry.2) ++
    (handler.catchAll.map Leb.encode).getD [] = _
  rw [catches, List.length_map]
  rfl

namespace CodeItem

theorem handlerPlaces_mapTypes (handlers : List CatchHandler) (offset : Nat) :
    handlerPlaces offset (handlers.map (CatchHandler.mapTypes change)) =
      handlerPlaces offset handlers := by
  induction handlers generalizing offset with
  | nil => rfl
  | cons first rest ih =>
      simp only [List.map_cons, handlerPlaces, CatchHandler.encode_mapTypes keeps, ih]

theorem encodeHandlers_mapTypes (handlers : List CatchHandler) (offset : Nat) :
    encodeHandlers offset (handlers.map (CatchHandler.mapTypes change)) =
      encodeHandlers offset handlers := by
  rw [encodeHandlers_eq, encodeHandlers_eq, handlerPlaces_mapTypes keeps, List.flatMap_map]
  congr 2
  funext handler
  exact CatchHandler.encode_mapTypes keeps handler

end CodeItem

end MapTypes
end DexArsc.Dex
