/-
Debug information that code items share. Each duplicate gives way to the first item that tells the same, so
what remains tells everything once.
-/

import DexArsc.Proofs.Dex.Debug.Reencoded
import DexArsc.Proofs.Dex.Edit.Anchored
import DexArsc.Proofs.Dex.File.Built
import Mathlib.Data.List.Pairwise

namespace DexArsc.Dex

/-- The items that are gone and those that are left are all that there were. -/
theorem Section.Loses.perm {α : Type} {items final : Section α} {gone : List (Id α)}
    (loses : items.Loses (· ∈ gone) final) (valid : items.Valid) (finalValid : final.Valid)
    (distinct : gone.Nodup) (live : gone ⊆ items.order.toList) :
    (final.order.toList ++ gone).Perm items.order.toList := by
  have left {id : Id α} : id ∈ final.order.toList ↔ id ∈ items.order.toList ∧ id ∉ gone := by
    rw [Array.mem_toList_iff, Array.mem_toList_iff, finalValid.mem_order_iff, valid.mem_order_iff]
    constructor
    · intro stays
      have here : id ∉ gone := fun inside => by
        rw [loses.lost id inside] at stays
        cases stays
      exact ⟨by rwa [loses.kept id here] at stays, here⟩
    · rintro ⟨stays, here⟩
      exact loses.isSome stays here
  have apart : (final.order.toList ++ gone).Nodup :=
    List.nodup_append.2 ⟨finalValid.nodup, distinct, fun id inside other here same =>
      (left.1 inside).2 (same ▸ here)⟩
  refine (List.perm_ext_iff_of_nodup apart valid.nodup).2 fun id => ?_
  rw [List.mem_append, left]
  constructor
  · rintro (⟨inside, _⟩ | inside)
    · exact inside
    · exact live inside
  · intro inside
    by_cases here : id ∈ gone
    · exact .inr here
    · exact .inl ⟨inside, here⟩

namespace DexFile

section Duplicates

variable {kept infos : List (Id DebugInfo × DebugInfo)}

/-- A duplicate tells the same as what it gives way to. -/
theorem alike_of_mem_duplicates {pair : Id DebugInfo × Id DebugInfo} (inside : pair ∈ duplicates kept infos) :
    ∃ info other, (pair.1, info) ∈ infos ∧ (pair.2, other) ∈ kept ++ infos ∧ info.Alike other := by
  induction infos generalizing kept with
  | nil => cases inside
  | cons entry rest ih =>
      obtain ⟨id, info⟩ := entry
      rw [duplicates] at inside
      split at inside
      · rename_i shared other found
        obtain rfl | inside := List.mem_cons.1 inside
        · have alike : other.Alike info := DebugInfo.alike_iff.1 (by simpa using List.find?_some found)
          exact ⟨info, other, List.mem_cons_self, List.mem_append_left _ (List.mem_of_find?_eq_some found),
            alike.symm⟩
        · obtain ⟨info', other', first, second, alike⟩ := ih inside
          refine ⟨info', other', List.mem_cons_of_mem _ first, ?_, alike⟩
          exact List.mem_append.2 ((List.mem_append.1 second).imp_right (List.mem_cons_of_mem _))
      · obtain ⟨info', other', first, second, alike⟩ := ih inside
        exact ⟨info', other', List.mem_cons_of_mem _ first, by simpa using second, alike⟩

/-- The duplicates are found in the order of the section. -/
theorem sublist_duplicates (kept infos : List (Id DebugInfo × DebugInfo)) :
    ((duplicates kept infos).map Prod.fst).Sublist (infos.map Prod.fst) := by
  induction infos generalizing kept with
  | nil => exact List.Sublist.refl _
  | cons entry rest ih =>
      rw [duplicates]
      split
      · exact (ih kept).cons_cons _
      · exact (ih _).cons _

/-- What is no duplicate tells something of its own. -/
theorem pairwise_of_duplicates (distinct : (infos.map Prod.fst).Nodup)
    (apart : kept.Pairwise fun a b => ¬a.2.Alike b.2) :
    (kept ++ infos.filter fun entry => entry.1 ∉ (duplicates kept infos).map Prod.fst).Pairwise
      fun a b => ¬a.2.Alike b.2 := by
  induction infos generalizing kept with
  | nil => simpa using apart
  | cons entry rest ih =>
      obtain ⟨id, info⟩ := entry
      obtain ⟨new, distinct⟩ := List.nodup_cons.1 distinct
      rw [duplicates]
      split
      · rename_i shared other found
        rw [List.filter_cons_of_neg (by simp), List.map_cons]
        have later : (rest.filter fun entry => entry.1 ∉ id :: (duplicates kept rest).map Prod.fst) =
            rest.filter fun entry => entry.1 ∉ (duplicates kept rest).map Prod.fst := by
          refine List.filter_congr fun entry inside => ?_
          have different : entry.1 ≠ id := fun same => new (List.mem_map.2 ⟨entry, inside, same⟩)
          simp [different]
        rw [later]
        exact ih distinct apart
      · rename_i unlike
        have stays : id ∉ (duplicates (kept ++ [(id, info)]) rest).map Prod.fst := fun inside =>
          new ((sublist_duplicates ..).subset inside)
        rw [List.filter_cons_of_pos (by simpa using stays), List.append_cons]
        refine ih distinct (List.pairwise_append.2 ⟨apart, List.pairwise_singleton _ _, ?_⟩)
        intro other inside entry last
        rw [List.mem_singleton.1 last]
        exact fun alike => List.find?_eq_none.1 unlike other inside (DebugInfo.alike_iff.2 alike)

end Duplicates

/-- Duplicates among the items of a section, each with the item that it gives way to. -/
structure Replaces (infos : Section DebugInfo) (replaced : List (Id DebugInfo × Id DebugInfo)) : Prop where
  nodup : (replaced.map Prod.fst).Nodup
  stays : ∀ pair ∈ replaced, pair.2 ∉ replaced.map Prod.fst
  alike : ∀ pair ∈ replaced, ∃ info other, infos.item? pair.1 = some info ∧
    infos.item? pair.2 = some other ∧ info.Alike other
  unlike : ∀ a b infoA infoB, infos.item? a = some infoA → a ∉ replaced.map Prod.fst →
    infos.item? b = some infoB → b ∉ replaced.map Prod.fst → infoA.Alike infoB → a = b

theorem replaces_duplicates {infos : Section DebugInfo} (valid : infos.Valid) :
    Replaces infos (duplicates [] infos.entries) := by
  have distinct : (infos.entries.map Prod.fst).Nodup := by
    rw [valid.map_fst_entries]
    exact valid.nodup
  refine ⟨(sublist_duplicates ..).nodup distinct, fun pair inside => ?_, fun pair inside => ?_, ?_⟩
  · exact (duplicates_spec [] _ distinct pair inside).2.2
  · obtain ⟨info, other, first, second, alike⟩ := alike_of_mem_duplicates inside
    exact ⟨info, other, valid.mem_entries.1 first, valid.mem_entries.1 second, alike⟩
  · intro a b infoA infoB foundA staysA foundB staysB alike
    have apart := pairwise_of_duplicates distinct List.Pairwise.nil
    rw [List.nil_append] at apart
    have : Std.Symm fun a b : Id DebugInfo × DebugInfo => ¬a.2.Alike b.2 :=
      ⟨fun _ _ unlike alike => unlike alike.symm⟩
    by_contra different
    exact apart.forall (List.mem_filter.2 ⟨valid.mem_entries.2 foundA, decide_eq_true staysA⟩)
      (List.mem_filter.2 ⟨valid.mem_entries.2 foundB, decide_eq_true staysB⟩)
      (fun same => different (congrArg Prod.fst same)) alike

/-- What becomes of a file whose code items share their debug information. Nothing else changes in it. -/
structure Shares (file : DexFile) (count : Nat) (final : DexFile) : Prop where
  codes : ∀ id code named info, file.codes.item? id = some code → code.debugInfo.item = some named →
    file.debugInfos.item? named = some info →
    ∃ slot shared other, final.codes.item? id = some { code with debugInfo := slot } ∧
      slot.item = some shared ∧ final.debugInfos.item? shared = some other ∧ info.Alike other
  apart : ∀ a b infoA infoB, final.debugInfos.item? a = some infoA → final.debugInfos.item? b = some infoB →
    infoA.sameAs infoB = true → a = b
  removed : ∀ id info, file.debugInfos.item? id = some info → final.debugInfos.item? id = none →
    ∃ left other, final.debugInfos.item? left = some other ∧ info.sameAs other = true
  count : final.debugInfos.size + count = file.debugInfos.size
  left : file.debugInfos.Loses (fun id => final.debugInfos.item? id = none) final.debugInfos
  frame : ∃ slot : CodeItem → OffsetRef DebugInfo,
    (∀ code, (∀ named, code.debugInfo.item = some named → (file.debugInfos.item? named).isSome →
      (final.debugInfos.item? named).isSome) → slot code = code.debugInfo) ∧
    final = { file with
      codes := file.codes.map fun code => { code with debugInfo := slot code }
      debugInfos := final.debugInfos }

/-- The slot that names the item to which a duplicate gives way. -/
def sharedSlot (replaced : List (Id DebugInfo × Id DebugInfo)) (slot : OffsetRef DebugInfo) :
    OffsetRef DebugInfo :=
  match slot.item.bind (replaced.lookup ·) with
  | some shared => slot.setItem (some shared)
  | none => slot

theorem shareDebugInfo_eq (file : DexFile) :
    file.shareDebugInfo = ((duplicates [] file.debugInfos.entries).length, { file with
      codes := file.codes.map fun code =>
        { code with debugInfo := sharedSlot (duplicates [] file.debugInfos.entries) code.debugInfo }
      debugInfos := ((duplicates [] file.debugInfos.entries).map Prod.fst).foldl
        (fun infos id => (infos.remove id).2) file.debugInfos }) := by
  unfold shareDebugInfo sharedSlot
  rw [List.foldl_map]
  dsimp only
  congr 3
  funext code
  cases code.debugInfo.item.bind ((duplicates [] file.debugInfos.entries).lookup ·) <;> rfl

/-- A slot stays unless it names a duplicate. -/
theorem sharedSlot_cases (replaced : List (Id DebugInfo × Id DebugInfo)) (slot : OffsetRef DebugInfo) :
    (sharedSlot replaced slot = slot ∧ ∀ named, slot.item = some named → named ∉ replaced.map Prod.fst) ∨
      ∃ named shared, slot.item = some named ∧ (named, shared) ∈ replaced ∧
        sharedSlot replaced slot = slot.setItem (some shared) := by
  unfold sharedSlot
  split
  · rename_i shared found
    obtain ⟨named, names, found⟩ := Option.bind_eq_some_iff.1 found
    obtain ⟨before, behind, parts, _⟩ := List.lookup_eq_some_iff.1 found
    exact .inr ⟨named, shared, names, by simp [parts], rfl⟩
  · rename_i none
    refine .inl ⟨rfl, fun named names inside => ?_⟩
    rw [names, Option.bind_some, List.lookup_eq_none_iff] at none
    obtain ⟨pair, listed, rfl⟩ := List.mem_map.1 inside
    simpa using none pair listed

namespace Replaces

variable {infos final : Section DebugInfo} {replaced : List (Id DebugInfo × Id DebugInfo)}

/-- What a duplicate gives way to is left, and it tells the same. -/
theorem left (replaces : Replaces infos replaced) (loses : infos.Loses (· ∈ replaced.map Prod.fst) final)
    {pair : Id DebugInfo × Id DebugInfo} (inside : pair ∈ replaced) :
    ∃ info other, infos.item? pair.1 = some info ∧ final.item? pair.2 = some other ∧ info.Alike other := by
  obtain ⟨info, other, first, second, alike⟩ := replaces.alike pair inside
  exact ⟨info, other, first, loses.item?_eq_some.2 ⟨second, replaces.stays pair inside⟩, alike⟩

/-- A slot that named an item names one that is left and tells the same. -/
theorem sharedSlot (replaces : Replaces infos replaced) (loses : infos.Loses (· ∈ replaced.map Prod.fst) final)
    {slot : OffsetRef DebugInfo} {named : Id DebugInfo} {info : DebugInfo} (names : slot.item = some named)
    (live : infos.item? named = some info) :
    ∃ shared other, (DexFile.sharedSlot replaced slot).item = some shared ∧ final.item? shared = some other ∧
      info.Alike other := by
  obtain ⟨same, apart⟩ | ⟨named', shared, names', inside, same⟩ := sharedSlot_cases replaced slot
  · exact ⟨named, info, by rw [same, names], loses.item?_eq_some.2 ⟨live, apart named names⟩, .refl info⟩
  · cases names.symm.trans names'
    obtain ⟨info', other, first, second, alike⟩ := replaces.left loses inside
    cases live.symm.trans first
    exact ⟨shared, other, by rw [same]; rfl, second, alike⟩

/-- A slot stays when the item that it names is left. -/
theorem sharedSlot_of_left (replaces : Replaces infos replaced)
    (loses : infos.Loses (· ∈ replaced.map Prod.fst) final) {slot : OffsetRef DebugInfo}
    (stays : ∀ named, slot.item = some named → (infos.item? named).isSome → (final.item? named).isSome) :
    DexFile.sharedSlot replaced slot = slot := by
  obtain ⟨same, _⟩ | ⟨named, shared, names, inside, _⟩ := sharedSlot_cases replaced slot
  · exact same
  · obtain ⟨info, _, found, _⟩ := replaces.left loses inside
    have live := stays named names (by rw [found]; rfl)
    rw [loses.lost named (List.mem_map_of_mem inside)] at live
    cases live

/-- As many items are missing as there are duplicates. -/
theorem count (replaces : Replaces infos replaced) (loses : infos.Loses (· ∈ replaced.map Prod.fst) final)
    (valid : infos.Valid) (finalValid : final.Valid) : final.size + replaced.length = infos.size := by
  have live : replaced.map Prod.fst ⊆ infos.order.toList := fun id gone => by
    obtain ⟨pair, inside, rfl⟩ := List.mem_map.1 gone
    obtain ⟨info, _, found, _⟩ := replaces.left loses inside
    rw [Array.mem_toList_iff, valid.mem_order_iff, found]
    rfl
  simpa [Section.size] using (loses.perm valid finalValid replaces.nodup live).length_eq

end Replaces

variable {file : DexFile}

/-- Sharing debug information. -/
theorem shares_of_valid (valid : file.debugInfos.Valid)
    (finalValid : file.shareDebugInfo.2.debugInfos.Valid) :
    file.Shares file.shareDebugInfo.1 file.shareDebugInfo.2 := by
  have replaces := replaces_duplicates valid
  rw [shareDebugInfo_eq] at finalValid ⊢
  generalize duplicates [] file.debugInfos.entries = replaced at *
  generalize last : (replaced.map Prod.fst).foldl (fun infos id => (infos.remove id).2) file.debugInfos = infos
    at finalValid ⊢
  have loses : file.debugInfos.Loses (· ∈ replaced.map Prod.fst) infos := last ▸
    ((Section.Loses.nothing valid).removeAll valid (replaced.map Prod.fst)).congr fun id _ => by simp
  constructor
  case codes =>
    intro id code named info found names live
    obtain ⟨shared, other, here, there, alike⟩ := replaces.sharedSlot loses names live
    exact ⟨_, shared, other, by simp [Section.item?_map, found], here, there, alike⟩
  case apart =>
    intro a b infoA infoB foundA foundB same
    obtain ⟨foundA, staysA⟩ := loses.item?_eq_some.1 foundA
    obtain ⟨foundB, staysB⟩ := loses.item?_eq_some.1 foundB
    exact replaces.unlike a b infoA infoB foundA staysA foundB staysB (DebugInfo.sameAs_iff.1 same)
  case removed =>
    intro id info found none
    have gone : id ∈ replaced.map Prod.fst := loses.gone_of_none (by rw [found]; rfl) none
    obtain ⟨pair, inside, rfl⟩ := List.mem_map.1 gone
    obtain ⟨info', other, first, second, alike⟩ := replaces.left loses inside
    cases found.symm.trans first
    exact ⟨pair.2, other, second, DebugInfo.sameAs_iff.2 alike⟩
  case count => exact replaces.count loses valid finalValid
  case left =>
    refine loses.congr fun id live => ?_
    exact ⟨fun here => loses.lost id here, fun none => loses.gone_of_none live none⟩
  case frame =>
    exact ⟨fun code => sharedSlot replaced code.debugInfo, fun code => replaces.sharedSlot_of_left loses, rfl⟩

/-- Comparing debug information is an equivalence relation, and in every file code items share what it
identifies. -/
theorem shareDebugInfo_of_built (built : file.Built) :
    (Equivalence fun a b : DebugInfo => a.sameAs b = true) ∧
      file.Shares file.shareDebugInfo.1 file.shareDebugInfo.2 :=
  ⟨DebugInfo.equivalence_sameAs, shares_of_valid (built.regular.orderly.valid .debugInfo)
    ((built.edit .shareDebugInfo).regular.orderly.valid .debugInfo)⟩

/-- Two code items with debug information that says the same, once as it was read and once as it was edited. -/
def twinCodes : DexFile :=
  let info (dirty : Bool) (special : UInt8) : DebugInfo :=
    { sequence := { start := 7, elements := [⟨1, 7, .lineEntry special⟩], dirty } }
  let code (info : UInt32) : CodeItem := { debugInfo := { item := some ⟨info.toNat⟩ } }
  Edit.run [.addDebugInfo (info false 19), .addDebugInfo (info true 0), .addCode (code 0), .addCode (code 1)]

theorem shareDebugInfo_of_built_twinCodes :
    twinCodes.Shares 1 twinCodes.shareDebugInfo.2 ∧
      (twinCodes.shareDebugInfo.2.codes.item? ⟨1⟩).bind (·.debugInfo.item) = some ⟨0⟩ := by
  have built : twinCodes.Built := .run _
  have count : twinCodes.shareDebugInfo.1 = 1 := by decide +kernel
  exact ⟨count ▸ (shareDebugInfo_of_built built).2, by decide +kernel⟩

end DexFile
end DexArsc.Dex
