/-
Code that was read can be written: every handler catches something, and every handler that a try
block names starts within 16 bits of the list. Code that is written is read back exactly when its handlers
catch something, since a handler that catches nothing has the form of one that catches all.
-/

import DexArsc.Proofs.Bytes.Leb
import DexArsc.Proofs.Dex.ByteSize
import DexArsc.Proofs.Dex.Code.Item

namespace DexArsc.Dex

open Reader

namespace CatchHandler

/-- A handler that was read catches something, and took at least the bytes of its encoding. -/
theorem read_eq_ok {start stop : Cursor} {handler : CatchHandler}
    (run : (Codec.read : Reader CatchHandler) start = .ok handler stop) :
    (handler.catches ≠ [] ∨ handler.catchAll.isSome) ∧
      start.position + (encode handler).length ≤ stop.position := by
  obtain ⟨size, behindSize, sizeRun, run⟩ := Step.bind_eq_ok.1 run
  obtain ⟨catches, behindCatches, catchesRun, run⟩ := Step.bind_eq_ok.1 run
  have passedSize : start.position + (Leb.encodeSigned size).length ≤ behindSize.position :=
    passes_signedLeb sizeRun
  have one : Passes (do return (IndexRef.ofRaw (← Reader.leb), ← Reader.leb) :
      Reader (IndexRef TypeItem × UInt32))
      fun entry => (Leb.encode entry.1.raw).length + (Leb.encode entry.2).length := by
    intro start stop entry run
    obtain ⟨type, between, first, run⟩ := Step.bind_eq_ok.1 run
    obtain ⟨address, behind, second, run⟩ := Step.bind_eq_ok.1 run
    cases run
    have passedType : start.position + (Leb.encode type).length ≤ between.position :=
      passes_leb first
    have passedAddress : between.position + (Leb.encode address).length ≤ stop.position :=
      passes_leb second
    change _ + ((Leb.encode type).length + (Leb.encode address).length) ≤ _
    omega
  obtain ⟨count, _, passed⟩ := replicate_eq_ok catchesRun
  have passedCatches := passed _ one
  have bytes : (catches.map fun entry =>
      (Leb.encode entry.1.raw).length + (Leb.encode entry.2).length).sum =
      (catchBytes catches).length := by
    unfold catchBytes
    rw [List.length_flatMap]
    congr 1
    exact List.map_congr_left fun entry _ => (List.length_append ..).symm
  rw [bytes] at passedCatches
  by_cases negative : size.toInt ≤ 0
  · rw [if_pos negative] at run
    obtain ⟨all, behindAll, allRun, run⟩ := Step.bind_eq_ok.1 run
    obtain ⟨address, addressRun, rfl⟩ := Step.map_eq_ok.1 allRun
    have passedAddress : behindCatches.position + (Leb.encode address).length ≤ behindAll.position :=
      passes_leb addressRun
    cases run
    refine ⟨.inr rfl, ?_⟩
    rw [length_encode]
    have whole : Int32.ofInt (-(catches.length : Int)) = size := by
      rw [count, show -(size.toInt.natAbs : Int) = size.toInt by omega, Int32.ofInt_toInt]
    simp only [Option.isSome_some, if_true, whole, Option.map_some, Option.getD_some]
    omega
  · rw [if_neg negative] at run
    obtain ⟨all, behindAll, allRun, run⟩ := Step.bind_eq_ok.1 run
    cases allRun
    cases run
    have some : catches ≠ [] := by
      intro none
      rw [none, List.length_nil] at count
      omega
    refine ⟨.inl some, ?_⟩
    rw [length_encode]
    have whole : Int32.ofInt (catches.length : Int) = size := by
      rw [count, show (size.toInt.natAbs : Int) = size.toInt by omega, Int32.ofInt_toInt]
    simp only [Option.isSome_none, Bool.false_eq_true, if_false, whole, Option.map_none,
      Option.getD_none, List.length_nil]
    omega

end CatchHandler

namespace CodeItem

/-- Handlers that were read stand at or behind the places where they would be written. -/
theorem readHandlers_eq_ok {base count offset : Nat} {start stop : Cursor}
    {read : List (Nat × CatchHandler)} (reached : base + offset ≤ start.position)
    (run : readHandlers base count start = .ok read stop) :
    read.length = count ∧ (∀ entry ∈ read, entry.2.catches ≠ [] ∨ entry.2.catchAll.isSome) ∧
      ∀ (index place : Nat) (entry : Nat × CatchHandler), read[index]? = some entry →
        (handlerPlaces offset (read.map Prod.snd))[index]? = some place → place ≤ entry.1 := by
  induction count generalizing start read offset with
  | zero =>
      cases run
      exact ⟨rfl, by simp, by simp⟩
  | succ count ih =>
      obtain ⟨position, here, positionRun, run⟩ := Step.bind_eq_ok.1 run
      cases positionRun
      obtain ⟨handler, between, first, run⟩ := Step.bind_eq_ok.1 run
      obtain ⟨rest, behind, later, run⟩ := Step.bind_eq_ok.1 run
      cases run
      obtain ⟨some, passed⟩ := CatchHandler.read_eq_ok first
      obtain ⟨length, caught, placed⟩ :=
        @ih (offset + (encode handler).length) between rest (by omega) later
      refine ⟨by simp [length], ?_, ?_⟩
      · intro entry inside
        rcases List.mem_cons.1 inside with rfl | inside
        · exact some
        · exact caught entry inside
      · intro index place entry found foundPlace
        cases index with
        | zero =>
            cases found
            cases foundPlace
            change offset ≤ start.position - base
            omega
        | succ index => exact placed index place entry found foundPlace

theorem resolveTry_eq_ok {offsets : List Nat} {raw : RawTry} {block : TryBlock}
    (resolve : resolveTry offsets raw = .ok block) :
    offsets[block.handler]? = some raw.offset.toNat := by
  unfold resolveTry at resolve
  cases found : offsets.findIdx? (· == raw.offset.toNat) with
  | none => simp [found] at resolve
  | some handler =>
      simp only [found, Except.ok.injEq] at resolve
      subst resolve
      obtain ⟨inside, equal, _⟩ := List.findIdx?_eq_some_iff_getElem.1 found
      rw [List.getElem?_eq_getElem inside]
      exact congrArg some (by simpa using equal)

/-- The offsets of the handlers that try blocks name fit into 16 bits. -/
theorem readTries_eq_ok {units count : Nat} (few : count ≤ 0xFFFF) {start stop : Cursor}
    {tries : List TryBlock} {handlers : List CatchHandler}
    (run : readTries units count start = .ok (tries, handlers) stop) :
    Writable { tries, handlers } := by
  have read {start : Cursor} (some : count ≠ 0) (run : (do
      let blocks ← readTry.replicate count
      let base ← Reader.position
      let handlers ← readHandlers base (← Reader.leb).toNat
      let tries ← resolveTries (handlers.map Prod.fst) blocks
      return (tries, handlers.map Prod.snd) : Reader _) start = .ok (tries, handlers) stop) :
      Writable { tries, handlers } := by
    obtain ⟨blocks, here, blocksRun, run⟩ := Step.bind_eq_ok.1 run
    obtain ⟨base, _, baseRun, run⟩ := Step.bind_eq_ok.1 run
    cases baseRun
    obtain ⟨size, between, sizeRun, run⟩ := Step.bind_eq_ok.1 run
    obtain ⟨read, behind, readRun, run⟩ := Step.bind_eq_ok.1 run
    obtain ⟨found, _, resolve, yields⟩ := Step.bind_eq_ok.1 run
    obtain ⟨resolved, rfl⟩ := Step.monadLift_eq_ok.1 resolve
    cases yields
    have passed : here.position + (Leb.encode size).length ≤ between.position := passes_leb sizeRun
    obtain ⟨length, caught, placed⟩ := readHandlers_eq_ok passed readRun
    have blockCount := (replicate_eq_ok blocksRun).1
    obtain ⟨tryCount, each⟩ := Except.mapM_eq_ok resolved
    have whole : tries.length = count := tryCount.trans blockCount
    refine ⟨by rw [whole]; exact few, ?_, ?_, ?_⟩
    · intro handler inside
      obtain ⟨entry, listed, rfl⟩ := List.mem_map.1 inside
      exact caught entry listed
    · intro none
      have empty : tries = [] := none
      rw [empty] at whole
      exact absurd whole.symm some
    · intro block inside
      obtain ⟨raw, _, resolves⟩ := each block inside
      have start := resolveTry_eq_ok resolves
      rw [List.getElem?_map, Option.map_eq_some_iff] at start
      obtain ⟨entry, listed, offset⟩ := start
      have bound : block.handler < (handlerPlaces
          (Leb.encode (UInt32.ofNat (read.map Prod.snd).length)).length
          (read.map Prod.snd)).length := by
        rw [length_handlerPlaces, List.length_map]
        exact (List.getElem?_eq_some_iff.1 listed).1
      refine ⟨_, List.getElem?_eq_getElem bound, ?_⟩
      have size' : UInt32.ofNat (read.map Prod.snd).length = size := by
        rw [List.length_map, length, UInt32.ofNat_toNat]
      have least := placed block.handler _ entry listed (by
        rw [← List.getElem?_eq_getElem bound, size'])
      have narrow := raw.offset.toNat_lt
      omega
  unfold readTries at run
  by_cases none : count = 0
  · rw [if_pos none] at run
    cases run
    exact ⟨Nat.zero_le _, by simp, by simp, by simp⟩
  · rw [if_neg none] at run
    by_cases odd : units % 2 = 1
    · rw [if_pos odd] at run
      obtain ⟨_, _, _, run⟩ := Step.bind_eq_ok.1 run
      exact read none run
    · rw [if_neg odd] at run
      exact read none run

/-- Code that was read can be written. -/
theorem read_eq_ok {start stop : Cursor} {code : CodeItem}
    (run : (Codec.read : Reader CodeItem) start = .ok code stop) : code.Writable := by
  obtain ⟨registers, _, _, run⟩ := Step.bind_eq_ok.1 run
  obtain ⟨ins, _, _, run⟩ := Step.bind_eq_ok.1 run
  obtain ⟨outs, _, _, run⟩ := Step.bind_eq_ok.1 run
  obtain ⟨tryCount, _, _, run⟩ := Step.bind_eq_ok.1 run
  obtain ⟨debugInfo, _, _, run⟩ := Step.bind_eq_ok.1 run
  obtain ⟨unitCount, _, _, run⟩ := Step.bind_eq_ok.1 run
  obtain ⟨remaining, _, _, run⟩ := Step.bind_eq_ok.1 run
  split at run
  · obtain ⟨_, _, failed, _⟩ := Step.bind_eq_ok.1 run
    cases failed
  · obtain ⟨units, _, _, run⟩ := Step.bind_eq_ok.1 run
    obtain ⟨⟨tries, handlers⟩, _, triesRun, run⟩ := Step.bind_eq_ok.1 run
    cases run
    have few := tryCount.toNat_lt
    obtain ⟨few, handled, used, named⟩ := readTries_eq_ok (Nat.le_of_lt_succ few) triesRun
    exact ⟨few, handled, used, named⟩

/-- Handlers end behind the places where they start. -/
theorem lt_of_mem_handlerPlaces {offset place : Nat} {handlers : List CatchHandler}
    (inside : place ∈ handlerPlaces offset handlers) :
    place < offset + (handlers.flatMap encode).length := by
  induction handlers generalizing offset with
  | nil => cases inside
  | cons handler rest ih =>
      have some := length_encode_handler_pos handler
      rw [List.flatMap_cons, List.length_append]
      rcases List.mem_cons.1 inside with rfl | later
      · omega
      · have := ih later
        omega

/-- Try blocks that name handlers of a short list can be written, once every handler catches something. -/
theorem writable_of_short {code : CodeItem} (few : code.tries.length ≤ 0xFFFF)
    (named : ∀ block ∈ code.tries, block.handler < code.handlers.length)
    (used : code.tries = [] → code.handlers = [])
    (short : (handlerBytes code.handlers).length < 0x10000)
    (caught : ∀ handler ∈ code.handlers, handler.catches ≠ [] ∨ handler.catchAll.isSome) :
    code.Writable where
  few := few
  handled := caught
  used := used
  named block inside := by
    have bound : block.handler < (handlerPlaces
        (Leb.encode (UInt32.ofNat code.handlers.length)).length code.handlers).length := by
      rw [length_handlerPlaces]
      exact named block inside
    refine ⟨_, List.getElem?_eq_getElem bound, ?_⟩
    have before := lt_of_mem_handlerPlaces (List.getElem_mem bound)
    rw [handlerBytes, List.length_append] at short
    omega

/-- Code with at most 65535 try blocks, each for a handler of a list below 64 KiB, is read back from its
bytes exactly when every handler catches something. Reading then passes the bytes of the code and no more. -/
theorem decode_encode_iff {code : CodeItem} (few : code.tries.length ≤ 0xFFFF)
    (named : ∀ block ∈ code.tries, block.handler < code.handlers.length)
    (used : code.tries = [] → code.handlers = []) (count : code.units.size < UInt32.size)
    (short : (handlerBytes code.handlers).length < 0x10000) (suffix : List UInt8) :
    byteSize code = (encode code).length ∧
      (decode (encode code ++ suffix).toArray = .ok (code.bare, byteSize code) ↔
        ∀ handler ∈ code.handlers, handler.catches ≠ [] ∨ handler.catchAll.isSome) := by
  rw [← LawfulCodec.length_encode]
  refine ⟨rfl, ?_⟩
  constructor
  · intro decoded handler inside
    obtain ⟨stop, run, _⟩ := decode_eq_ok decoded
    rcases (read_eq_ok run).handled handler.bare (List.mem_map_of_mem inside) with some | some
    · exact .inl fun none => some (by rw [CatchHandler.bare, CatchHandler.mapTypes, none]; rfl)
    · exact .inr some
  · intro caught
    have writable := writable_of_short few named used short caught
    exact (reads_of_fits code writable count (Nat.lt_trans short (by decide))).decode_append suffix

/-- Code with an odd number of units, and with two try blocks that name the second and the first of two
handlers, is read back in front of another byte. -/
theorem decode_encode_iff_twoHandlers :
    let code : CodeItem := {
      registers := 2
      units := #[0x0012, 0x000e, 0x000e]
      tries := [⟨0, 1, 1⟩, ⟨1, 1, 0⟩]
      handlers := [{ catches := [(.ofRaw 3, 1)] }, { catchAll := some 2 }] }
    decode (encode code ++ [0x2a]).toArray = .ok (code.bare, byteSize code) ∧ byteSize code = 46 := by
  intro code
  obtain ⟨-, decodes⟩ := @decode_encode_iff code (by decide) (by decide) (by decide) (by decide) (by decide +kernel)
    [0x2a]
  exact ⟨decodes.2 (by decide), by decide +kernel⟩

end CodeItem
end DexArsc.Dex
