/-
Instructions follow their pools. The operands of a walk belong to the instructions that it comes upon, so
linking them never fails, and a refresh against renumbered pools leaves a stream with the same operands,
which link to the same items.
-/

import DexArsc.Proofs.Dex.Code.Refresh
import DexArsc.Proofs.Dex.Section.Valid
import Mathlib.Logic.Relation

namespace DexArsc.Dex

/-- The instruction at one position lies within the units and ends at another one. -/
def Advances (units : Array UInt16) (position next : Nat) : Prop :=
  ∃ length, instructionUnits units position = .ok length ∧ next = position + length ∧ next ≤ units.size

/-- A walk from the first unit comes upon an instruction at the position, or it ends there. -/
def Reaches (units : Array UInt16) : Nat → Prop := Relation.ReflTransGen (Advances units) 0

/-- The instruction from one position to another one has the operand. -/
def Operand.IsOf (units : Array UInt16) (start stop : Nat) (operand : Operand) : Prop :=
  Advances units start stop ∧ ∃ unit, units[start]? = some unit ∧ operand ∈ operandsAt unit start

/-- The walk yields the operands of the instructions that it comes upon and no others. -/
theorem mem_operandsFrom {units : Array UInt16} {fuel position : Nat} {found result : List Operand}
    (walk : operandsFrom units fuel position found = .ok result) (long : units.size ≤ position + fuel)
    {operand : Operand} : operand ∈ result ↔ operand ∈ found ∨ ∃ start stop,
      Relation.ReflTransGen (Advances units) position start ∧ operand.IsOf units start stop := by
  have ends {position : Nat} (outside : units[position]? = none) : ¬∃ start stop,
      Relation.ReflTransGen (Advances units) position start ∧ operand.IsOf units start stop := by
    rintro ⟨start, stop, path, ⟨length, measured, _⟩, _⟩
    have stuck (next : Nat) : ¬Advances units position next := by
      rintro ⟨length, measured, _⟩
      rw [instructionUnits, payloadUnit, outside] at measured
      cases measured
    rcases path.cases_head with rfl | ⟨next, step, _⟩
    · exact stuck _ ⟨length, measured, by assumption⟩
    · exact stuck next step
  induction fuel generalizing position found result with
  | zero =>
      cases walk
      exact List.mem_reverse.trans (or_iff_left (ends (Array.getElem?_eq_none_iff.2 long))).symm
  | succ fuel ih =>
      rcases operandsFrom_succ_eq_ok.1 walk with ⟨outside, rfl⟩ | ⟨unit, length, first, measured, fits, walk⟩
      · exact List.mem_reverse.trans (or_iff_left (ends outside)).symm
      have positive := (instruction_inside first measured).1
      have step : Advances units position (position + length) := ⟨length, measured, rfl, fits⟩
      rw [show operand ∈ result ↔ _ from ih walk (by omega), List.mem_append, List.mem_reverse,
        or_comm (b := operand ∈ found), or_assoc]
      refine or_congr_right ⟨?_, ?_⟩
      · rintro (here | ⟨start, stop, path, there⟩)
        · exact ⟨position, _, .refl, step, unit, first, here⟩
        · exact ⟨start, stop, .head step path, there⟩
      · rintro ⟨start, stop, path, advance, other, there, listed⟩
        rcases path.cases_head with rfl | ⟨next, ⟨_, same, rfl, _⟩, path⟩
        · rw [first] at there
          cases there
          exact .inl listed
        · rw [measured] at same
          cases same
          exact .inr ⟨start, stop, path, advance, other, there, listed⟩

/-- The operands of a stream are those of the instructions that a walk comes upon. -/
theorem mem_operands {units : Array UInt16} {found : List Operand} (scan : operands units = .ok found)
    {operand : Operand} : operand ∈ found ↔ ∃ start stop, Reaches units start ∧
      operand.IsOf units start stop :=
  (mem_operandsFrom scan (Nat.le_add_left ..)).trans (or_iff_right List.not_mem_nil)

namespace Operand

/-- An operand lies behind the first unit of its instruction and within it. -/
theorem IsOf.inside {units : Array UInt16} {start stop : Nat} {operand : Operand}
    (here : operand.IsOf units start stop) :
    start < operand.position ∧ operand.position + operand.size ≤ stop ∧ stop ≤ units.size := by
  obtain ⟨⟨length, measured, rfl, fits⟩, unit, first, listed⟩ := here
  obtain ⟨behind, within⟩ := (instruction_inside first measured).2 operand listed
  exact ⟨behind, within, fits⟩

end Operand

/-- The items of a section are in another one, which may have other indexes for them. -/
structure Section.Renumbers {α : Type} (items other : Section α) : Prop where
  valid : other.Valid
  keeps : ∀ id ∈ items.order, id ∈ other.order

/-- A new order of the items renumbers them. -/
theorem Section.Valid.renumbers_withOrder {α : Type} {items : Section α} (valid : items.Valid)
    {order : Array (Id α)} (same : order.toList.Perm items.order.toList) :
    items.Renumbers (items.withOrder order) where
  valid := valid.withOrder same
  keeps id listed := by
    rw [order_withOrder, ← Array.mem_toList_iff]
    exact same.mem_iff.2 (Array.mem_toList_iff.2 listed)

/-- The items of each pool are in another one, which may have other indexes for them. -/
structure IdSections.Renumbers (ids other : IdSections) : Prop where
  strings : ids.strings.Renumbers other.strings
  types : ids.types.Renumbers other.types
  protos : ids.protos.Renumbers other.protos
  fields : ids.fields.Renumbers other.fields
  methods : ids.methods.Renumbers other.methods

namespace IndexRef

variable {α : Type} {items other : Section α} {place : Nat} {ref : IndexRef α}

/-- The item of the reference stands at a place in the order. -/
def StandsAt (items : Section α) (place : Nat) (ref : IndexRef α) : Prop :=
  ∃ id, ref.item = some id ∧ items.order[place]? = some id

/-- An index that is linked names the item at its place. -/
theorem standsAt_link {raw : UInt32} {id : Id α}
    (found : ((IndexRef.ofRaw raw : IndexRef α).link items).item = some id) :
    ((IndexRef.ofRaw raw).link items).StandsAt items raw.toNat := by
  refine ⟨id, found, ?_⟩
  change none.or (items.get? raw) = some id at found
  rw [Option.none_or, Section.get?] at found
  split at found
  · cases found
  · exact found

/-- Renumbered items stand at a place again. -/
theorem StandsAt.renumbered (stands : ref.StandsAt items place) (renumbers : items.Renumbers other) :
    ∃ place, ref.StandsAt other place := by
  obtain ⟨id, linked, here⟩ := stands
  obtain ⟨next, there⟩ := Array.mem_iff_getElem?.1 (renumbers.keeps id (Array.mem_of_getElem? here))
  exact ⟨next, id, linked, there⟩

/-- A refresh stores the place of the item. -/
theorem StandsAt.refresh (stands : ref.StandsAt items place) (valid : items.Valid) :
    ref.refresh items = { ref with raw := UInt32.ofNat place } := by
  obtain ⟨id, linked, here⟩ := stands
  rw [IndexRef.refresh, linked]
  simp only [valid.index place id here]

/-- A place below the sentinel links to the item again. -/
theorem StandsAt.link_refresh (stands : ref.StandsAt items place) (valid : items.Valid)
    (fits : place < noIndex.toNat) : (ref.refresh items).bare.link items = ref.refresh items := by
  have whole := stands.refresh valid
  obtain ⟨id, linked, here⟩ := stands
  have number : (UInt32.ofNat place).toNat = place := by
    rw [UInt32.toNat_ofNat']
    exact Nat.mod_eq_of_lt (Nat.lt_trans fits (by decide))
  have real : UInt32.ofNat place ≠ noIndex := by
    intro same
    rw [same] at number
    omega
  rw [whole, bare, link, ofRaw, Option.none_or, Section.get?, if_neg real, number, here, linked]

end IndexRef

namespace ItemRef

variable {ids other : IdSections} {place : Nat} {ref : ItemRef}

/-- The item of the reference stands at a place in the order of its pool. -/
def StandsAt (ids : IdSections) (place : Nat) : ItemRef → Prop
  | string ref => ref.StandsAt ids.strings place
  | type ref => ref.StandsAt ids.types place
  | proto ref => ref.StandsAt ids.protos place
  | field ref => ref.StandsAt ids.fields place
  | method ref => ref.StandsAt ids.methods place

theorem StandsAt.renumbered (stands : ref.StandsAt ids place) (renumbers : ids.Renumbers other) :
    ∃ place, ref.StandsAt other place := by
  cases ref with
  | string ref => exact IndexRef.StandsAt.renumbered stands renumbers.strings
  | type ref => exact IndexRef.StandsAt.renumbered stands renumbers.types
  | proto ref => exact IndexRef.StandsAt.renumbered stands renumbers.protos
  | field ref => exact IndexRef.StandsAt.renumbered stands renumbers.fields
  | method ref => exact IndexRef.StandsAt.renumbered stands renumbers.methods

theorem StandsAt.raw_refresh (stands : ref.StandsAt other place) (renumbers : ids.Renumbers other) :
    (ref.refresh other).raw = UInt32.ofNat place := by
  cases ref with
  | string ref => exact congrArg IndexRef.raw (IndexRef.StandsAt.refresh stands renumbers.strings.valid)
  | type ref => exact congrArg IndexRef.raw (IndexRef.StandsAt.refresh stands renumbers.types.valid)
  | proto ref => exact congrArg IndexRef.raw (IndexRef.StandsAt.refresh stands renumbers.protos.valid)
  | field ref => exact congrArg IndexRef.raw (IndexRef.StandsAt.refresh stands renumbers.fields.valid)
  | method ref => exact congrArg IndexRef.raw (IndexRef.StandsAt.refresh stands renumbers.methods.valid)

/-- The reference names no other item once it is refreshed. -/
theorem StandsAt.itemSlot?_refresh (stands : ref.StandsAt other place) (renumbers : ids.Renumbers other) :
    (ref.refresh other).itemSlot? = ref.itemSlot? := by
  cases ref with
  | string ref => exact congrArg (·.item.map Id.slot) (IndexRef.StandsAt.refresh stands renumbers.strings.valid)
  | type ref => exact congrArg (·.item.map Id.slot) (IndexRef.StandsAt.refresh stands renumbers.types.valid)
  | proto ref => exact congrArg (·.item.map Id.slot) (IndexRef.StandsAt.refresh stands renumbers.protos.valid)
  | field ref => exact congrArg (·.item.map Id.slot) (IndexRef.StandsAt.refresh stands renumbers.fields.valid)
  | method ref => exact congrArg (·.item.map Id.slot) (IndexRef.StandsAt.refresh stands renumbers.methods.valid)

/-- A place below the sentinel links to the item again. -/
theorem StandsAt.relink_refresh (stands : ref.StandsAt other place) (renumbers : ids.Renumbers other)
    (fits : place < noIndex.toNat) : (CodeItem.relinkMap other).item (ref.refresh other) = ref.refresh other := by
  cases ref with
  | string ref => exact congrArg string (IndexRef.StandsAt.link_refresh stands renumbers.strings.valid fits)
  | type ref => exact congrArg type (IndexRef.StandsAt.link_refresh stands renumbers.types.valid fits)
  | proto ref => exact congrArg proto (IndexRef.StandsAt.link_refresh stands renumbers.protos.valid fits)
  | field ref => exact congrArg field (IndexRef.StandsAt.link_refresh stands renumbers.fields.valid fits)
  | method ref => exact congrArg method (IndexRef.StandsAt.link_refresh stands renumbers.methods.valid fits)

/-- The kind of an operand alone tells whether it is linked. -/
theorem isSome_ofOperand? (kind : OperandKind) (index other : UInt32) :
    (ofOperand? kind index).isSome = (ofOperand? kind other).isSome := by
  cases kind <;> rfl

/-- The reference of an operand is one to the pool that the operand indexes. -/
theorem operandKind_of_ofOperand? {kind : OperandKind} {index : UInt32} {target : ItemRef}
    (made : ofOperand? kind index = some target) : target.operandKind = kind := by
  cases kind <;> cases made <;> rfl

/-- A reference that resolves when it is linked stands at its index. -/
theorem standsAt_link {kind : OperandKind} {index : UInt32} {target : ItemRef}
    (made : ofOperand? kind index = some target) (resolved : (target.link ids).itemSlot?.isSome) :
    (target.link ids).StandsAt ids index.toNat := by
  have item {α : Type} {found : Option (Id α)} (live : (found.map Id.slot).isSome) : ∃ id, found = some id := by
    rwa [Option.isSome_map, Option.isSome_iff_exists] at live
  cases kind with
  | callSite | methodHandle => cases made
  | string | type | methodProto | field | method =>
      cases made
      obtain ⟨id, found⟩ := item resolved
      exact IndexRef.standsAt_link found

end ItemRef

namespace OperandRef

/-- The greatest index that the operand can hold. -/
def limit (ref : OperandRef) : Nat :=
  if ref.wide then 0xFFFFFFFE else 0xFFFF

/-- A refresh succeeds when each operand lies within the units and holds the new index. -/
theorem refreshAll_of_fits {ids : IdSections} {refs : List OperandRef} {units : Array UInt16}
    (inside : ∀ ref ∈ refs, ref.position + ref.size ≤ units.size)
    (fits : ∀ ref ∈ refs, ref.wide = false → (ref.target.refresh ids).raw.toNat ≤ 0xFFFF) :
    ∃ units', refreshAll ids refs units = (refs.map (refreshed ids), units', .ok ()) := by
  induction refs generalizing units with
  | nil => exact ⟨units, rfl⟩
  | cons ref rest ih =>
      have stored : (ref.refreshed ids).store units = .ok ((ref.refreshed ids).put units) :=
        store_eq_ok.2 ⟨inside ref List.mem_cons_self, fits ref List.mem_cons_self, rfl⟩
      obtain ⟨final, tail⟩ := @ih ((ref.refreshed ids).put units)
        (fun other later => by
          rw [size_put]
          exact inside other (List.mem_cons_of_mem _ later))
        fun other later => fits other (List.mem_cons_of_mem _ later)
      refine ⟨final, ?_⟩
      rw [refreshAll_cons, stored]
      simp only [tail, List.map_cons]

end OperandRef

namespace CodeItem

/-- Operands within the units are linked. Those that resolve name the item at the index in the units. -/
theorem linkOperands_of_inside (ids : IdSections) {units : Array UInt16} {found : List Operand}
    (inside : ∀ operand ∈ found, operand.position + operand.size ≤ units.size) :
    ∃ refs, linkOperands ids units found = .ok refs ∧
      refs.map OperandRef.operand = found.filter Operand.isLinked ∧
      ∀ ref ∈ refs, ref.target.itemSlot?.isSome → ∃ place, ref.target.StandsAt ids place := by
  induction found with
  | nil => exact ⟨[], rfl, rfl, List.forall_mem_nil _⟩
  | cons operand rest ih =>
      obtain ⟨index, here⟩ := Option.isSome_iff_exists.1
        (Operand.isSome_index? (inside operand List.mem_cons_self))
      obtain ⟨refs, tail, same, resolved⟩ := ih fun other later => inside other (List.mem_cons_of_mem _ later)
      rw [linkOperands]
      simp only [here, tail]
      have linked := ItemRef.isSome_ofOperand? operand.kind 0 index
      cases made : ItemRef.ofOperand? operand.kind index with
      | none =>
          rw [made] at linked
          refine ⟨refs, rfl, ?_, resolved⟩
          rw [List.filter_cons_of_neg (by rw [Operand.isLinked, linked]; decide), same]
      | some target =>
          rw [made] at linked
          refine ⟨_, rfl, ?_, List.forall_mem_cons.2 ⟨fun live => ?_, resolved⟩⟩
          · rw [List.filter_cons_of_pos (by rw [Operand.isLinked, linked]; rfl), List.map_cons, same]
            congr 1
            rw [OperandRef.operand, ItemRef.operandKind_link, ItemRef.operandKind_of_ofOperand? made]
          · exact ⟨_, ItemRef.standsAt_link made live⟩

/-- Code that is refreshed against pools differs only in the operands of its references. Its operands are
where they were, and linking them against these pools gives the same items at the same positions. -/
structure Renumbered (pools : IdSections) (code final : CodeItem) : Prop where
  size : final.units.size = code.units.size
  frame : ∀ place, (∀ ref ∈ code.references, ¬ref.operand.Covers place) →
    final.units[place]? = code.units[place]?
  operands : operands final.units = operands code.units
  relinks : ∃ relinked, final.link pools = .ok relinked ∧
    relinked.references.map (fun ref => (ref.operand, ref.target.itemSlot?)) =
      code.references.map fun ref => (ref.operand, ref.target.itemSlot?)

/-- The operands of references lie within the units. -/
theorem Scanned.inside {code : CodeItem} (scanned : code.Scanned) :
    ∀ ref ∈ code.references, ref.position + ref.size ≤ code.units.size := by
  obtain ⟨found, scan, same⟩ := scanned
  exact fun ref listed => (operands_eq_ok scan).1 ref.operand (operand_mem_of_linked same listed)

/-- Code that was scanned is refreshed when each of its items stands at a place that fits its operand. -/
theorem Scanned.renumbered {code : CodeItem} (scanned : code.Scanned) {ids pools : IdSections}
    (renumbers : ids.Renumbers pools) (infos : Section DebugInfo)
    (places : ∀ ref ∈ code.references, ∃ place, ref.target.StandsAt pools place ∧ place ≤ ref.limit) :
    ∃ final, CodeItem.refresh pools infos code = .ok () final ∧ code.Renumbered pools final := by
  have short (ref : OperandRef) (listed : ref ∈ code.references) (narrow : ref.wide = false) :
      (ref.target.refresh pools).raw.toNat ≤ 0xFFFF := by
    obtain ⟨place, stands, fits⟩ := places ref listed
    rw [OperandRef.limit, narrow] at fits
    rw [stands.raw_refresh renumbers, UInt32.toNat_ofNat']
    exact Nat.le_trans (Nat.mod_le ..) fits
  obtain ⟨units, run⟩ := OperandRef.refreshAll_of_fits scanned.inside short
  have refresh : ∃ final, CodeItem.refresh pools infos code = .ok () final ∧ final.units = units ∧
      final.references = code.references.map (OperandRef.refreshed pools) := by
    rw [refresh_apply, run]
    exact ⟨_, rfl, rfl, rfl⟩
  obtain ⟨final, refresh, rfl, references⟩ := refresh
  obtain ⟨operands, size, frame⟩ := OperandRef.refreshAll_frame pools code.references code.units
  rw [run] at operands size frame
  have stored := (scanned.refresh refresh).2
  obtain ⟨found, scan, same⟩ := scanned
  have rescan : Dex.operands final.units = .ok found :=
    (operands_eq_ok scan).2.2 final.units size fun place free =>
      frame place fun ref listed => free ref.operand (operand_mem_of_linked same listed)
  have whole : ∀ operand ∈ found, (operand.index? final.units).isSome := fun operand listed =>
    Operand.isSome_index? ((operands_eq_ok rescan).1 operand listed)
  have named : found.filter Operand.isLinked = final.references.map OperandRef.operand := by
    rw [same, references, operands]
  have relinked : linkOperands pools final.units found = .ok final.references := by
    rw [linkOperands_eq whole named stored, references, List.map_map]
    congr 1
    refine List.map_congr_left fun ref listed => ?_
    obtain ⟨place, stands, fits⟩ := places ref listed
    have real : place < noIndex.toNat := by
      refine Nat.lt_of_le_of_lt fits ?_
      unfold OperandRef.limit
      split <;> decide
    exact congrArg (fun target => { ref with target }) (stands.relink_refresh renumbers real)
  refine ⟨final, refresh, size, frame, rescan.trans scan.symm, _, link_eq_ok rescan relinked, ?_⟩
  rw [references, List.map_map]
  refine List.map_congr_left fun ref listed => ?_
  obtain ⟨place, stands, _⟩ := places ref listed
  exact Prod.ext (OperandRef.operand_refreshed pools ref) (stands.itemSlot?_refresh renumbers)

/-- The operands of an accepted stream stand at ascending positions, each inside an instruction and behind
its first unit, and code with this stream is linked. When every reference of the code resolves, the code is
refreshed against all renumbered pools whose new indexes fit its operands, and finds its items there. -/
theorem link_refresh_of_operands {units : Array UInt16} {found : List Operand}
    (scan : operands units = .ok found) :
    found.Pairwise (fun a b => a.position < b.position) ∧
    (∀ operand ∈ found, ∃ start stop, Reaches units start ∧ operand.IsOf units start stop ∧
      start < operand.position ∧ operand.position + operand.size ≤ stop ∧ stop ≤ units.size) ∧
    ∀ (code : CodeItem) (ids : IdSections), code.units = units → ∃ linked, code.link ids = .ok linked ∧
      linked.units = units ∧ linked.references.map OperandRef.operand = found.filter Operand.isLinked ∧
      ((∀ ref ∈ linked.references, ref.target.itemSlot?.isSome) →
        ∀ (pools : IdSections) (infos : Section DebugInfo), ids.Renumbers pools →
          (∀ ref ∈ linked.references, ∀ place, ref.target.StandsAt pools place → place ≤ ref.limit) →
          ∃ final, CodeItem.refresh pools infos linked = .ok () final ∧ linked.Renumbered pools final) := by
  obtain ⟨inside, apart, _⟩ := operands_eq_ok scan
  refine ⟨apart.imp fun {a b} behind => ?_, fun operand listed => ?_, ?_⟩
  · have positive := a.size_pos
    omega
  · obtain ⟨start, stop, path, here⟩ := (mem_operands scan).1 listed
    exact ⟨start, stop, path, here, here.inside⟩
  · rintro code ids rfl
    obtain ⟨references, run, same, stands⟩ := linkOperands_of_inside ids inside
    refine ⟨_, link_eq_ok scan run, rfl, same, fun resolved pools infos renumbers fits => ?_⟩
    have scanned : Scanned { code with
        references
        handlers := code.handlers.map (CatchHandler.mapTypes (·.link ids.types)) } := ⟨found, scan, same.symm⟩
    refine scanned.renumbered renumbers infos fun ref listed => ?_
    obtain ⟨_, before⟩ := stands ref listed (resolved ref listed)
    obtain ⟨place, after⟩ := before.renumbered renumbers
    exact ⟨place, after, fits ref listed place after⟩

/-- The string of an instruction between a call site and a payload is found again when the strings change
places. -/
theorem link_refresh_of_operands_strings :
    let units : Array UInt16 := #[0x00fd, 0x0007, 0x0000, 0x001a, 0x0000, 0x000e, 0x0100, 0x0000, 0x0000, 0x0000]
    let strings : Section StringItem :=
      ((Section.push { kind := .stringId } { value := default }).2.push { value := default }).2
    let ids (strings : Section StringItem) : IdSections := {
      strings
      types := { kind := .typeId }
      protos := { kind := .protoId }
      fields := { kind := .fieldId }
      methods := { kind := .methodId } }
    let swapped := ids (strings.withOrder #[⟨1⟩, ⟨0⟩])
    let linked : CodeItem := { units, references := [⟨4, false, .string { raw := 0, item := some ⟨0⟩ }⟩] }
    CodeItem.link (ids strings) { units } = .ok linked ∧ ∃ final,
      CodeItem.refresh swapped { kind := .debugInfo } linked = .ok () final ∧ linked.Renumbered swapped final := by
  intro units strings ids swapped linked
  have scan : operands units = .ok [⟨1, false, .callSite⟩, ⟨4, false, .string⟩] := by decide +kernel
  have run : CodeItem.link (ids strings) { units } = .ok linked := by decide +kernel
  have valid : strings.Valid := ((Section.valid_empty .stringId).push _).push _
  have empty {α : Type} (kind : SectionKind) :
      Section.Renumbers ({ kind } : Section α) { kind } := ⟨Section.valid_empty kind, fun _ => id⟩
  have renumbers : (ids strings).Renumbers swapped := {
    strings := valid.renumbers_withOrder (by decide)
    types := empty _
    protos := empty _
    fields := empty _
    methods := empty _ }
  refine ⟨run, ?_⟩
  obtain ⟨_, same, _, _, follows⟩ := (link_refresh_of_operands scan).2.2 { units } (ids strings) rfl
  rw [run] at same
  cases same
  refine follows (by decide) swapped _ renumbers fun ref listed place stands => ?_
  obtain rfl := List.mem_singleton.1 listed
  obtain ⟨_, _, here⟩ := stands
  have inside : place < 2 := (Array.getElem?_eq_some_iff.1 here).1
  exact Nat.le_trans (Nat.le_of_lt inside) (by decide)

end CodeItem
end DexArsc.Dex
