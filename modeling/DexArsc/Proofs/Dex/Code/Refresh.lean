/-
Operands that are refreshed are stored in the units, and reading the units finds them again.
-/

import DexArsc.Proofs.Dex.Code.Operands
import DexArsc.Proofs.Dex.Refs

namespace DexArsc.Dex

/-- The operand that a reference belongs to. -/
def OperandRef.operand (ref : OperandRef) : Operand where
  position := ref.position
  wide := ref.wide
  kind := ref.target.operandKind

/-- Only the units of an operand count for its index. -/
theorem Operand.index?_congr {units other : Array UInt16} {operand : Operand}
    (same : ∀ place, operand.Covers place → other[place]? = units[place]?)
    (few : operand.position + operand.size ≤ units.size) :
    operand.index? other = operand.index? units := by
  have low := same operand.position ⟨Nat.le_refl _, by unfold Operand.size; split <;> omega⟩
  unfold Operand.index?
  rw [low]
  by_cases wide : operand.wide = true
  · rw [same (operand.position + 1) ⟨Nat.le_succ _, by simp [Operand.size, wide]⟩]
  · rw [Operand.size, if_neg wide] at few
    have inside : operand.position < units.size := few
    rw [Array.getElem?_eq_getElem inside]
    simp only [wide, Bool.false_eq_true, if_false]
    cases other[operand.position + 1]? <;> cases units[operand.position + 1]? <;> rfl

/-- The number of a word that is put together from its halves. -/
theorem toNat_joinHalves (low high : UInt16) :
    (low.toUInt32 ||| high.toUInt32 <<< 16).toNat = high.toNat * 65536 + low.toNat := by
  have lowBound := low.toNat_lt
  have highBound := high.toNat_lt
  rw [UInt32.toNat_or, UInt32.toNat_shiftLeft, UInt16.toNat_toUInt32, UInt16.toNat_toUInt32,
    Nat.or_comm]
  simp only [UInt32.reduceToNat, Nat.reduceMod, Nat.reducePow]
  rw [Nat.mod_eq_of_lt (by rw [Nat.shiftLeft_eq]; omega),
    ← Nat.shiftLeft_add_eq_or_of_lt (by omega), Nat.shiftLeft_eq]

namespace OperandRef

variable {ref : OperandRef} {units stored : Array UInt16}

/-- The units with the operand's index in its place. -/
def put (ref : OperandRef) (units : Array UInt16) : Array UInt16 :=
  if ref.wide then
    (units.setIfInBounds ref.position ref.target.raw.toUInt16).setIfInBounds (ref.position + 1)
      (ref.target.raw >>> 16).toUInt16
  else
    units.setIfInBounds ref.position ref.target.raw.toUInt16

/-- An operand is stored when it lies within the units and its index fits. -/
theorem store_eq_ok : ref.store units = .ok stored ↔ ref.position + ref.size ≤ units.size ∧
    (ref.wide = false → ref.target.raw.toNat ≤ 0xFFFF) ∧ stored = ref.put units := by
  unfold store put
  by_cases outside : units.size < ref.position + ref.size
  · rw [if_pos outside]
    constructor
    · intro same
      cases same
    · rintro ⟨inside, _⟩
      omega
  rw [if_neg outside]
  have inside : ref.position + ref.size ≤ units.size := by omega
  by_cases wide : ref.wide = true
  · simp only [wide, if_true, Bool.true_eq_false, false_implies, true_and, inside]
    change (Except.ok _ : Except Fault _) = _ ↔ _
    rw [Except.ok.injEq, eq_comm]
  · have narrow : ref.wide = false := by simpa using wide
    simp only [narrow, Bool.false_eq_true, if_false, true_implies, inside, true_and]
    change (narrow16 _ _ >>= fun word => pure (units.setIfInBounds ref.position word)) = _ ↔ _
    rw [Except.bind_eq_ok]
    constructor
    · rintro ⟨word, fits, same⟩
      have bound := word.toNat_lt
      rw [narrow16_eq_ok] at fits
      cases same
      refine ⟨by omega, ?_⟩
      congr 1
      apply UInt16.toNat_inj.1
      rw [fits, UInt32.toNat_toUInt16]
      omega
    · rintro ⟨fits, rfl⟩
      refine ⟨ref.target.raw.toUInt16, ?_, rfl⟩
      rw [narrow16_eq_ok, UInt32.toNat_toUInt16]
      omega

theorem size_put : (ref.put units).size = units.size := by
  unfold put
  split <;> simp

/-- Units outside the operand stay. -/
theorem getElem?_put {place : Nat} (free : ¬ref.operand.Covers place) :
    (ref.put units)[place]? = units[place]? := by
  have first : ref.position ≠ place := by
    rintro rfl
    apply free
    refine ⟨Nat.le_refl _, ?_⟩
    unfold Operand.size
    split <;> simp [operand]
  unfold put
  by_cases wide : ref.wide = true
  · have second : ref.position + 1 ≠ place := by
      rintro rfl
      exact free ⟨Nat.le_succ _, by simp [Operand.size, operand, wide]⟩
    rw [if_pos wide, Array.getElem?_setIfInBounds_ne second, Array.getElem?_setIfInBounds_ne first]
  · rw [if_neg wide, Array.getElem?_setIfInBounds_ne first]

/-- The index that was stored is found. -/
theorem index?_put (inside : ref.position + ref.size ≤ units.size)
    (fits : ref.wide = false → ref.target.raw.toNat ≤ 0xFFFF) :
    ref.operand.index? (ref.put units) = some ref.target.raw := by
  unfold Operand.index? put
  by_cases wide : ref.wide = true
  · rw [size, if_pos wide] at inside
    simp only [wide, if_true, operand]
    rw [Array.getElem?_setIfInBounds_ne (by omega), Array.getElem?_setIfInBounds_self,
      if_pos (by omega), Array.getElem?_setIfInBounds_self, if_pos (by simp; omega)]
    simp only
    congr 1
    apply UInt32.toNat_inj.1
    have bound := ref.target.raw.toNat_lt
    rw [toNat_joinHalves, UInt32.toNat_toUInt16, UInt32.toNat_toUInt16, UInt32.toNat_shiftRight]
    simp only [UInt32.reduceToNat, Nat.reduceMod]
    rw [Nat.shiftRight_eq_div_pow]
    omega
  · have narrow : ref.wide = false := by simpa using wide
    rw [size, if_neg wide] at inside
    simp only [wide, Bool.false_eq_true, if_false, operand]
    rw [Array.getElem?_setIfInBounds_self, if_pos (by omega)]
    have same : ref.target.raw.toUInt16.toUInt32 = ref.target.raw := by
      apply UInt32.toNat_inj.1
      have bound := fits narrow
      simp
      omega
    cases (units.setIfInBounds ref.position ref.target.raw.toUInt16)[ref.position + 1]? <;>
      simp [same]

/-- An index that is found is the one that a store puts in its place. -/
theorem store_of_index? (found : ref.operand.index? units = some ref.target.raw) :
    ref.store units = .ok units := by
  unfold Operand.index? operand at found
  simp only at found
  cases low : units[ref.position]? with
  | none => simp [low] at found
  | some first =>
      obtain ⟨here, value⟩ := Array.getElem?_eq_some_iff.1 low
      by_cases wide : ref.wide = true
      · cases high : units[ref.position + 1]? with
        | none => simp [low, high, wide] at found
        | some second =>
            obtain ⟨there, next⟩ := Array.getElem?_eq_some_iff.1 high
            simp only [low, high, wide, if_true, Option.some.injEq] at found
            rw [store_eq_ok, size, if_pos wide, put, if_pos wide]
            refine ⟨by omega, fun narrow => by simp [narrow] at wide, ?_⟩
            have lowBound := first.toNat_lt
            have highBound := second.toNat_lt
            have number : ref.target.raw.toNat = second.toNat * 65536 + first.toNat := by
              rw [← found, toNat_joinHalves]
            have lower : ref.target.raw.toUInt16 = first := by
              apply UInt16.toNat_inj.1
              rw [UInt32.toNat_toUInt16, number]
              omega
            have upper : (ref.target.raw >>> 16).toUInt16 = second := by
              apply UInt16.toNat_inj.1
              rw [UInt32.toNat_toUInt16, UInt32.toNat_shiftRight]
              simp only [UInt32.reduceToNat, Nat.reduceMod]
              rw [Nat.shiftRight_eq_div_pow, number]
              omega
            rw [lower, upper, ← value, ← next]
            apply Array.ext_getElem?
            intro place
            rw [Array.getElem?_setIfInBounds, Array.getElem?_setIfInBounds]
            by_cases second : ref.position + 1 = place
            · subst second
              simp [there]
            · by_cases first : ref.position = place
              · subst first
                simp [here]
              · simp [second, first]
      · have narrow : ref.wide = false := by simpa using wide
        have number : first.toUInt32 = ref.target.raw := by
          simp only [low, narrow, Bool.false_eq_true, if_false] at found
          cases high : units[ref.position + 1]? <;> simpa [high] using found
        have bound := first.toNat_lt
        rw [store_eq_ok, size, if_neg wide, put, if_neg wide, ← number]
        refine ⟨by omega, fun _ => by rw [UInt16.toNat_toUInt32]; omega, ?_⟩
        rw [UInt16.toUInt16_toUInt32, ← value]
        apply Array.ext_getElem?
        intro place
        rw [Array.getElem?_setIfInBounds]
        by_cases first : ref.position = place
        · subst first
          simp [here]
        · simp [first]

/-- The reference with its current index. -/
def refreshed (ids : IdSections) (ref : OperandRef) : OperandRef :=
  { ref with target := ref.target.refresh ids }

@[simp] theorem operand_refreshed (ids : IdSections) (ref : OperandRef) :
    (ref.refreshed ids).operand = ref.operand := by
  simp only [refreshed, operand, ItemRef.operandKind_refresh]

theorem refreshAll_cons (ids : IdSections) (ref : OperandRef) (rest : List OperandRef)
    (units : Array UInt16) : refreshAll ids (ref :: rest) units =
      match (ref.refreshed ids).store units with
      | .error fault => (ref.refreshed ids :: rest, units, Except.error fault)
      | .ok units =>
        (ref.refreshed ids :: (refreshAll ids rest units).1, (refreshAll ids rest units).2.1,
          (refreshAll ids rest units).2.2) := rfl

/-- However far a refresh gets, the operands stay where they are and all other units stay. -/
theorem refreshAll_frame (ids : IdSections) (refs : List OperandRef) (units : Array UInt16) :
    (refreshAll ids refs units).1.map operand = refs.map operand ∧
      (refreshAll ids refs units).2.1.size = units.size ∧
      ∀ place, (∀ ref ∈ refs, ¬ref.operand.Covers place) →
        (refreshAll ids refs units).2.1[place]? = units[place]? := by
  induction refs generalizing units with
  | nil => exact ⟨rfl, rfl, fun _ _ => rfl⟩
  | cons ref rest ih =>
      have same := operand_refreshed ids ref
      rw [refreshAll_cons]
      cases stored : (ref.refreshed ids).store units with
      | error fault =>
          refine ⟨?_, rfl, fun _ _ => rfl⟩
          simp [refreshed, ← same]
      | ok units' =>
          obtain ⟨inside, fits, rfl⟩ := store_eq_ok.1 stored
          obtain ⟨operands, size, frame⟩ := ih ((ref.refreshed ids).put units)
          simp only
          refine ⟨?_, ?_, fun place free => ?_⟩
          · rw [List.map_cons, List.map_cons, operands]
            exact congrArg (· :: _) same
          · rw [size, size_put]
          · rw [frame place fun ref inside => free ref (List.mem_cons_of_mem _ inside),
              getElem?_put]
            rw [same]
            exact free ref List.mem_cons_self

/-- A refresh that succeeds refreshes every reference. -/
theorem refreshAll_eq_ok {ids : IdSections} {refs refs' : List OperandRef}
    {units units' : Array UInt16} (refresh : refreshAll ids refs units = (refs', units', .ok ())) :
    refs' = refs.map (refreshed ids) := by
  induction refs generalizing units refs' units' with
  | nil =>
      cases refresh
      rfl
  | cons ref rest ih =>
      rw [refreshAll_cons] at refresh
      cases stored : (ref.refreshed ids).store units with
      | error fault =>
          rw [stored] at refresh
          cases refresh
      | ok between =>
          rw [stored] at refresh
          rcases tail : refreshAll ids rest between with ⟨refs, final, result⟩
          simp only [tail, Prod.mk.injEq] at refresh
          obtain ⟨rfl, rfl, rfl⟩ := refresh
          rw [ih tail]
          rfl

/-- A refresh that succeeds stores every index, as no operand covers another one. -/
theorem stored_of_refreshAll {ids : IdSections} {refs refs' : List OperandRef}
    {units units' : Array UInt16} (refresh : refreshAll ids refs units = (refs', units', .ok ()))
    (apart : refs.Pairwise fun a b => a.position + a.size ≤ b.position) :
    ∀ ref ∈ refs', ref.operand.index? units' = some ref.target.raw := by
  induction refs generalizing units refs' units' with
  | nil =>
      cases refresh
      simp
  | cons ref rest ih =>
      have same := operand_refreshed ids ref
      obtain ⟨behind, apart⟩ := List.pairwise_cons.1 apart
      rw [refreshAll_cons] at refresh
      cases stored : (ref.refreshed ids).store units with
      | error fault =>
          rw [stored] at refresh
          cases refresh
      | ok between =>
          rw [stored] at refresh
          obtain ⟨inside, fits, rfl⟩ := store_eq_ok.1 stored
          obtain ⟨_, size, frame⟩ := refreshAll_frame ids rest ((ref.refreshed ids).put units)
          rcases tail : refreshAll ids rest ((ref.refreshed ids).put units) with ⟨refs, final, result⟩
          simp only [tail, Prod.mk.injEq] at refresh size frame
          obtain ⟨rfl, rfl, rfl⟩ := refresh
          have kept := ih tail apart
          intro other listed
          rcases List.mem_cons.1 listed with rfl | later
          · rw [@Operand.index?_congr ((ref.refreshed ids).put units), index?_put inside fits]
            · intro place covers
              refine frame place fun other listed covered => ?_
              have before := behind other listed
              rw [same] at covers
              have above : place < ref.position + ref.size := covers.2
              have below : other.position ≤ place := covered.1
              omega
            · rw [size_put]
              exact inside
          · exact kept other later

/-- What a store leaves in a unit depends on that unit only where the operand is not. -/
theorem getElem?_put_congr {other : Array UInt16} {place : Nat} (size : other.size = units.size)
    (same : ¬ref.operand.Covers place → other[place]? = units[place]?) :
    (ref.put other)[place]? = (ref.put units)[place]? := by
  by_cases covered : ref.operand.Covers place
  · obtain ⟨below, above⟩ := covered
    change ref.position ≤ place at below
    change place < ref.position + ref.size at above
    unfold put
    by_cases wide : ref.wide = true
    · rw [OperandRef.size, if_pos wide] at above
      simp only [wide, if_true, Array.getElem?_setIfInBounds, Array.size_setIfInBounds, size]
      by_cases later : ref.position + 1 = place
      · rw [if_pos later, if_pos later]
      · have here : ref.position = place := by omega
        rw [if_neg later, if_neg later, if_pos here, if_pos here]
    · rw [OperandRef.size, if_neg wide] at above
      have here : ref.position = place := by omega
      simp only [wide, Bool.false_eq_true, if_false, Array.getElem?_setIfInBounds, size, if_pos here]
  · rw [getElem?_put covered, getElem?_put covered, same covered]

/-- The units under the operands do not count for a refresh. -/
theorem refreshAll_congr_units {ids : IdSections} {refs refs' : List OperandRef}
    {units units' other : Array UInt16} (size : other.size = units.size)
    (same : ∀ place, (∀ ref ∈ refs, ¬ref.operand.Covers place) → other[place]? = units[place]?)
    (refresh : refreshAll ids refs units = (refs', units', .ok ())) :
    refreshAll ids refs other = (refs', units', .ok ()) := by
  induction refs generalizing units other refs' with
  | nil =>
      have equal : other = units := Array.ext_getElem? fun place => same place (by simp)
      rw [equal]
      exact refresh
  | cons ref rest ih =>
      rw [refreshAll_cons] at refresh ⊢
      cases stored : (ref.refreshed ids).store units with
      | error fault =>
          rw [stored] at refresh
          cases refresh
      | ok between =>
          rw [stored] at refresh
          obtain ⟨inside, fits, rfl⟩ := store_eq_ok.1 stored
          have again : (ref.refreshed ids).store other = .ok ((ref.refreshed ids).put other) :=
            store_eq_ok.2 ⟨by omega, fits, rfl⟩
          rcases tail : refreshAll ids rest ((ref.refreshed ids).put units) with ⟨refs, final, result⟩
          simp only [tail, Prod.mk.injEq] at refresh
          obtain ⟨rfl, rfl, rfl⟩ := refresh
          have later := @ih refs ((ref.refreshed ids).put units) ((ref.refreshed ids).put other)
            (by rw [size_put, size_put, size]) (fun place free => getElem?_put_congr size fun outside => by
              refine same place fun other listed => ?_
              rcases List.mem_cons.1 listed with rfl | listed
              · rwa [operand_refreshed] at outside
              · exact free other listed) tail
          simp only [again, later]

/-- Only the references count once they are refreshed. -/
theorem refreshAll_refreshed {ids : IdSections} {refs refs' : List OperandRef}
    {units units' : Array UInt16} (refresh : refreshAll ids refs units = (refs', units', .ok ())) :
    refreshAll ids (refs.map (refreshed ids)) units = (refs', units', .ok ()) := by
  have twice (ref : OperandRef) : (ref.refreshed ids).refreshed ids = ref.refreshed ids := by
    simp only [refreshed, ItemRef.refresh_refresh]
  induction refs generalizing units refs' with
  | nil => exact refresh
  | cons ref rest ih =>
      rw [List.map_cons, refreshAll_cons, twice]
      rw [refreshAll_cons] at refresh
      cases stored : (ref.refreshed ids).store units with
      | error fault =>
          rw [stored] at refresh
          cases refresh
      | ok between =>
          rw [stored] at refresh
          rcases tail : refreshAll ids rest between with ⟨refs, final, result⟩
          simp only [tail, Prod.mk.injEq] at refresh
          obtain ⟨rfl, rfl, rfl⟩ := refresh
          simp only [ih tail]

/-- A refresh of what is refreshed stores the same indexes again. -/
theorem refreshAll_refreshAll {ids : IdSections} {refs refs' : List OperandRef}
    {units units' : Array UInt16} (refresh : refreshAll ids refs units = (refs', units', .ok ())) :
    refreshAll ids refs' units' = (refs', units', .ok ()) := by
  obtain ⟨_, size, frame⟩ := refreshAll_frame ids refs units
  rw [refresh] at size frame
  have again := refreshAll_refreshed (refreshAll_congr_units size frame refresh)
  rwa [← refreshAll_eq_ok refresh] at again

/-- References that are settled and stored stay as they are. -/
theorem refreshAll_of_stored {ids : IdSections} {refs : List OperandRef} {units : Array UInt16}
    (settled : ∀ ref ∈ refs, ref.refreshed ids = ref)
    (stored : ∀ ref ∈ refs, ref.operand.index? units = some ref.target.raw) :
    refreshAll ids refs units = (refs, units, .ok ()) := by
  induction refs with
  | nil => rfl
  | cons ref rest ih =>
      have tail := ih (fun ref inside => settled ref (List.mem_cons_of_mem _ inside))
        fun ref inside => stored ref (List.mem_cons_of_mem _ inside)
      have same : ref.refreshed ids = ref :=
        settled ref List.mem_cons_self
      have kept := store_of_index? (stored ref List.mem_cons_self)
      rw [refreshAll_cons, same, kept]
      simp only [tail]

end OperandRef

namespace CodeItem

/-- The references belong to the operands of the units that name items of a pool. -/
def Scanned (code : CodeItem) : Prop :=
  ∃ found, operands code.units = .ok found ∧
    found.filter Operand.isLinked = code.references.map OperandRef.operand

/-- The units hold the indexes of the references. -/
def Stored (code : CodeItem) : Prop :=
  ∀ ref ∈ code.references, ref.operand.index? code.units = some ref.target.raw

/-- The operands of a scan lie within the units and apart, and other units do not count. -/
theorem operands_eq_ok {units : Array UInt16} {found : List Operand}
    (scan : operands units = .ok found) :
    (∀ operand ∈ found, operand.position + operand.size ≤ units.size) ∧
      found.Pairwise (fun a b => a.position + a.size ≤ b.position) ∧
      ∀ other : Array UInt16, other.size = units.size →
        (∀ place, (∀ operand ∈ found, ¬operand.Covers place) → other[place]? = units[place]?) →
        operands other = .ok found := by
  obtain ⟨found, rfl, inside, apart, stable⟩ := operandsFrom_eq_ok scan
  refine ⟨fun operand listed => (inside operand (by simpa using listed)).2, by simpa using apart,
    fun other size same => ?_⟩
  unfold operands
  rw [size]
  exact stable other [] size fun place _ free => same place (by simpa using free)

/-- The operands of references are among those of a scan. -/
theorem operand_mem_of_linked {found : List Operand} {refs : List OperandRef} {ref : OperandRef}
    (same : found.filter Operand.isLinked = refs.map OperandRef.operand) (listed : ref ∈ refs) :
    ref.operand ∈ found := by
  have linked : ref.operand ∈ found.filter Operand.isLinked := by
    rw [same]
    exact List.mem_map_of_mem listed
  exact (List.mem_filter.1 linked).1

/-- The operands of references are apart. -/
theorem Scanned.apart {code : CodeItem} (scanned : code.Scanned) :
    code.references.Pairwise fun a b => a.position + a.size ≤ b.position := by
  obtain ⟨found, scan, same⟩ := scanned
  have apart := (operands_eq_ok scan).2.1.filter Operand.isLinked
  rw [same, List.pairwise_map] at apart
  exact apart

/-- New units with the same operands in them. -/
theorem Scanned.withUnits {code : CodeItem} (scanned : code.Scanned) {units : Array UInt16}
    {references : List OperandRef}
    (operands : references.map OperandRef.operand = code.references.map OperandRef.operand)
    (size : units.size = code.units.size)
    (frame : ∀ place, (∀ ref ∈ code.references, ¬ref.operand.Covers place) →
      units[place]? = code.units[place]?) :
    Scanned { code with units, references } := by
  obtain ⟨found, scan, same⟩ := scanned
  refine ⟨found, (operands_eq_ok scan).2.2 units size fun place free => ?_, by rw [same, operands]⟩
  exact frame place fun ref listed => free ref.operand (operand_mem_of_linked same listed)

/-- The images that a refresh gives to the references of code. -/
def refreshMap (ids : IdSections) (infos : Section DebugInfo) : RefMap where
  string ref := ref.refresh ids.strings
  type ref := ref.refresh ids.types
  proto ref := ref.refresh ids.protos
  field ref := ref.refresh ids.fields
  method ref := ref.refresh ids.methods
  debugInfo ref := ref.refresh infos

theorem refresh_apply (ids : IdSections) (infos : Section DebugInfo) (code : CodeItem) :
    CodeItem.refresh ids infos code =
      match OperandRef.refreshAll ids code.references code.units with
      | (references, units, .ok ()) => .ok () { code with
          units
          references
          handlers := code.handlers.map (CatchHandler.mapTypes (·.refresh ids.types))
          debugInfo := code.debugInfo.refresh infos }
      | (references, units, .error fault) => .error fault { code with units, references } := by
  unfold CodeItem.refresh
  rw [Step.bind_ok (Step.get_apply code)]
  rcases OperandRef.refreshAll ids code.references code.units with ⟨references, units, result⟩
  cases result <;> rfl

/-- Code that is refreshed has refreshed references. -/
theorem refresh_eq_ok {ids : IdSections} {infos : Section DebugInfo} {code final : CodeItem}
    (refresh : CodeItem.refresh ids infos code = .ok () final) :
    OperandRef.refreshAll ids code.references code.units = (final.references, final.units, .ok ()) ∧
      final = { code.withRefs (refreshMap ids infos) with units := final.units } := by
  rw [refresh_apply] at refresh
  rcases run : OperandRef.refreshAll ids code.references code.units with ⟨references, units, result⟩
  rw [run] at refresh
  cases result with
  | error fault => cases refresh
  | ok nothing =>
      cases refresh
      obtain rfl := OperandRef.refreshAll_eq_ok run
      exact ⟨rfl, rfl⟩

/-- Code that was scanned has its operands where they were once it is refreshed, and its units hold
the current indexes. -/
theorem Scanned.refresh {ids : IdSections} {infos : Section DebugInfo} {code final : CodeItem}
    (scanned : code.Scanned) (refresh : CodeItem.refresh ids infos code = .ok () final) :
    final.Scanned ∧ final.Stored := by
  obtain ⟨run, whole⟩ := refresh_eq_ok refresh
  obtain ⟨operands, size, frame⟩ := OperandRef.refreshAll_frame ids code.references code.units
  rw [run] at operands size frame
  refine ⟨?_, OperandRef.stored_of_refreshAll run scanned.apart⟩
  obtain ⟨found, scan, same⟩ := scanned.withUnits operands size frame
  exact ⟨found, scan, same⟩

/-- Code that is refreshed and stored stays as it is. -/
theorem refresh_of_stored {ids : IdSections} {infos : Section DebugInfo} {code : CodeItem}
    (settled : code.withRefs (refreshMap ids infos) = code) (stored : code.Stored) :
    CodeItem.refresh ids infos code = .ok () code := by
  have references := congrArg references settled
  have each : ∀ ref ∈ code.references, ref.refreshed ids = ref := by
    intro ref inside
    have same : (fun ref : OperandRef => { ref with target := (refreshMap ids infos).item ref.target }) =
        OperandRef.refreshed ids := by
      funext ref
      unfold OperandRef.refreshed
      cases ref.target <;> rfl
    rw [withRefs, same] at references
    exact List.map_inj_left.1 (references.trans (List.map_id _).symm) ref inside
  rw [refresh_apply, OperandRef.refreshAll_of_stored each stored]
  simp only
  congr 1
  conv => rhs; rw [← settled]
  unfold withRefs
  congr 1
  exact references.symm

/-- Refreshing references once more changes nothing. -/
theorem refreshMap_after (ids : IdSections) (infos : Section DebugInfo) :
    (refreshMap ids infos).after (refreshMap ids infos) = refreshMap ids infos := by
  unfold refreshMap RefMap.after
  simp only [RefMap.mk.injEq]
  exact ⟨funext (IndexRef.settled_refresh _), funext (IndexRef.settled_refresh _),
    funext (IndexRef.settled_refresh _), funext (IndexRef.settled_refresh _),
    funext (IndexRef.settled_refresh _), rfl, rfl, rfl, funext (OffsetRef.settled_refresh _)⟩

/-- Code that was refreshed stays as it is. -/
theorem refresh_refresh {ids : IdSections} {infos : Section DebugInfo} {code final : CodeItem}
    (refresh : CodeItem.refresh ids infos code = .ok () final) :
    CodeItem.refresh ids infos final = .ok () final := by
  obtain ⟨run, whole⟩ := refresh_eq_ok refresh
  rw [refresh_apply, OperandRef.refreshAll_refreshAll run]
  have twice := withRefs_after (refreshMap ids infos) (refreshMap ids infos) code
  rw [refreshMap_after] at twice
  have handlers : final.handlers.map (CatchHandler.mapTypes (·.refresh ids.types)) = final.handlers := by
    rw [whole]
    exact (congrArg CodeItem.handlers twice).symm
  have debugInfo : final.debugInfo.refresh infos = final.debugInfo := by
    rw [whole]
    exact OffsetRef.settled_refresh ..
  simp only [handlers, debugInfo]

/-- The reference that a new link against the pools makes of an index. -/
def relinkMap (ids : IdSections) : RefMap where
  string ref := ref.bare.link ids.strings
  type ref := ref.bare.link ids.types
  proto ref := ref.bare.link ids.protos
  field ref := ref.bare.link ids.fields
  method ref := ref.bare.link ids.methods

/-- The references of code that is linked. -/
theorem linkOperands_eq {ids : IdSections} {units : Array UInt16} {found : List Operand}
    {refs : List OperandRef} (whole : ∀ operand ∈ found, (operand.index? units).isSome)
    (same : found.filter Operand.isLinked = refs.map OperandRef.operand)
    (stored : ∀ ref ∈ refs, ref.operand.index? units = some ref.target.raw) :
    linkOperands ids units found =
      .ok (refs.map fun ref => { ref with target := (relinkMap ids).item ref.target }) := by
  induction found generalizing refs with
  | nil =>
      cases refs with
      | nil => rfl
      | cons ref rest => cases same
  | cons operand rest ih =>
      obtain ⟨index, here⟩ := Option.isSome_iff_exists.1 (whole operand List.mem_cons_self)
      have later (operand : Operand) (inside : operand ∈ rest) :=
        whole operand (List.mem_cons_of_mem _ inside)
      rw [linkOperands]
      simp only [here]
      by_cases linked : operand.isLinked = true
      · rw [List.filter_cons_of_pos linked] at same
        cases refs with
        | nil => cases same
        | cons ref refs =>
            rw [List.map_cons, List.cons.injEq] at same
            obtain ⟨rfl, same⟩ := same
            rw [stored ref List.mem_cons_self, Option.some.injEq] at here
            rw [ih later same fun ref inside => stored ref (List.mem_cons_of_mem _ inside)]
            subst here
            obtain ⟨position, wide, target⟩ := ref
            cases target <;> rfl
      · rw [List.filter_cons_of_neg linked] at same
        have none : ItemRef.ofOperand? operand.kind index = none := by
          unfold Operand.isLinked ItemRef.ofOperand? at linked
          unfold ItemRef.ofOperand?
          cases kind : operand.kind <;> simp_all
        rw [ih later same stored, none]
        rfl

/-- Code that was scanned is linked to the items that its units name. -/
theorem link_eq_ok {code : CodeItem} {found : List Operand} {references : List OperandRef} {ids : IdSections}
    (scan : operands code.units = .ok found) (run : linkOperands ids code.units found = .ok references) :
    code.link ids = .ok { code with
      references
      handlers := code.handlers.map (CatchHandler.mapTypes (·.link ids.types)) } := by
  rw [link, scan]
  change (linkOperands ids code.units found >>= _) = _
  rw [run]
  rfl

end CodeItem
end DexArsc.Dex
