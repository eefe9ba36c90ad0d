/-
Runs of edits on resource tables. Every table on the way of a run is sound, also behind edits that fail.
-/

import DexArsc.Proofs.BlockTree.Layout
import DexArsc.Proofs.Resource.Edit

namespace DexArsc.Resource

/-- A string is added to a pool that lacks it. -/
def StringPool.internStep (text : String) : Step StringPool UInt32 := do
  let (index, pool) ← (← get).intern text
  MonadState.set pool
  return index

/-- A string of a pool is replaced. -/
def StringPool.setStep (index : UInt32) (text : String) : Step StringPool Unit := do
  MonadState.set (← (← get).set index text)

namespace Table

variable {table final : Table}

/-- A step on the global strings of a table. -/
def onStrings {α : Type} : Step StringPool α → Step Table α :=
  Step.onPart Table.strings fun strings table => { table with strings }

/-- What can be done with a table. -/
inductive Edit
  | internString (text : String)
  | setString (index : UInt32) (text : String)
  | internPoolString (id : UInt32) (which : PackagePool) (text : String)
  | setPoolString (id : UInt32) (which : PackagePool) (index : UInt32) (text : String)
  | internPackage (id : UInt32) (name : String)
  | pushChunk (id : UInt32) (bytes : Bytes)
  | renamePackage (id : UInt32) (name : String)
  | removePackage (id : UInt32)
  | sortPackages
  | refresh
  | toBytes

namespace Edit

/-- The step of an edit, without its result. -/
def step : Edit → Step Table Unit
  | internString text => discard (onStrings (StringPool.internStep text))
  | setString index text => onStrings (StringPool.setStep index text)
  | internPoolString id which text =>
    discard (editPackage id (Package.editPool which (StringPool.internStep text)))
  | setPoolString id which index text =>
    discard (editPackage id (Package.editPool which (StringPool.setStep index text)))
  | internPackage id name => discard (Table.internPackage id name)
  | pushChunk id bytes => discard (Table.pushChunk id bytes)
  | renamePackage id name => Table.renamePackage id name
  | removePackage id => discard (Table.removePackage id)
  | sortPackages => Table.sortPackages
  | refresh => discard Table.refresh
  | toBytes => discard Table.toBytes

end Edit

/-- The tables that edits and merges reach from some first tables, whether the edits succeed or fail. -/
inductive Reached (start : Table → Prop) : Table → Prop
  | start {table : Table} (here : start table) : Reached start table
  | edit {table final : Table} (edit : Edit) (reached : Reached start table)
    (ends : edit.step.Ends table final) : Reached start final
  | merge {table other final : Table} (reached : Reached start table) (also : Reached start other)
    (ends : (Table.merge other).Ends table final) : Reached start final

/-- A table that is new or read. -/
inductive Loaded (table : Table) : Prop
  | empty (made : Table.empty = .ok table)
  | read {data : Bytes} {options : ReadOptions} (run : Table.read data options = .ok table)

theorem Loaded.sound (loaded : Loaded table) : table.Sound := by
  cases loaded with
  | empty made => exact sound_empty made
  | read run => exact sound_read run

/-- Nothing of a table changes but the bytes and the places of nodes. -/
structure Reshaped (table final : Table) : Prop where
  tree : BlockTree.Reshaped table.tree final.tree
  rest : final = { table with tree := final.tree }

theorem Reshaped.refl (table : Table) : Reshaped table table :=
  ⟨.refl _ _, rfl⟩

theorem Reshaped.trans {between : Table} (before : Reshaped table between) (behind : Reshaped between final) :
    Reshaped table final where
  tree := before.tree.trans behind.tree
  rest := by rw [behind.rest, before.rest]

theorem Reshaped.sound (reshaped : Reshaped table final) (sound : table.Sound) : final.Sound := by
  rw [reshaped.rest]
  exact sound.congr reshaped.tree.shapes

theorem onTree_leads {α : Type} {step : Step BlockTree α} (leads : step.Leads BlockTree.Reshaped table.tree) :
    (onTree step).Leads Reshaped table :=
  .onPart leads fun _ reshaped => ⟨reshaped, rfl⟩

theorem refresh_leads (table : Table) : refresh.Leads Reshaped table := by
  have package (package : Package) (table : Table) : (onTree package.refresh).Leads Reshaped table :=
    onTree_leads ((Package.refresh_leads package table.tree).imp fun _ rewritten =>
      rewritten.mono fun _ _ => trivial)
  have last (root : NodeId) (table : Table) : (onTree (BlockTree.refresh root)).Leads Reshaped table :=
    onTree_leads (BlockTree.refresh_leads root table.tree)
  unfold refresh
  refine .get (.bind .trans (.forM .refl .trans (fun value _ table => package value table) table)
    fun _ between _ => ?_)
  split
  · exact .bind .trans (onTree_leads (BlockTree.Rewritten.setLeaf trivial _ between.tree))
      fun _ between _ => last _ between
  · exact last _ between

theorem toBytes_leads (table : Table) : toBytes.Leads Reshaped table := by
  unfold toBytes
  exact .bind .trans (refresh_leads table) fun _ between _ => .get (.pure (.refl between) _)

/-- An edit of a pool ends with the pool where a step on it ends, and with everything else as before. -/
theorem editPool_ends {α : Type} {id : UInt32} {which : PackagePool} {step : Step StringPool α}
    (ends : (editPackage id (Package.editPool which step)).Ends table final) :
    final = table ∨ ∃ before package behind slot pool, table.Splits id before package behind ∧
      package.slot? which = some slot ∧ step.Ends slot.pool pool ∧
        final = { table with packages := before ++ package.withSlot which { slot with pool } :: behind } := by
  rcases Step.onPart?_ends ends with ⟨_, same⟩ | ⟨package, image, found, inner, same⟩
  · exact .inl same
  · obtain ⟨before, behind, splits⟩ := package?_eq_some.1 found
    rw [splits.modifyPackage] at same
    rcases Step.onPart?_ends inner with ⟨_, kept⟩ | ⟨pool, changed, slotted, inner, written⟩
    · left
      rw [same, kept, ← splits.whole]
    · obtain ⟨slot, here, rfl⟩ := Option.map_eq_some_iff.1 slotted
      right
      refine ⟨before, package, behind, slot, changed, splits, here, inner, ?_⟩
      rw [same, written]
      simp only [here]

theorem Splits.houses {id : UInt32} {before behind : List Package} {package : Package}
    (splits : table.Splits id before package behind) (sound : table.Sound) :
    Houses table.tree table.packagesNode (before ++ package :: behind) :=
  splits.whole ▸ sound

theorem Splits.sound_of_same {id : UInt32} {before behind : List Package} {package other : Package}
    (splits : table.Splits id before package behind) (sound : table.Sound) (node : other.node = package.node)
    (chunks : other.chunks = package.chunks) :
    Sound { table with packages := before ++ other :: behind } :=
  (splits.houses sound).replace node chunks

theorem internPackage_sound (sound : table.Sound) (id : UInt32) (name : String) :
    (internPackage id name).Ensures table (fun _ => Sound) Sound := by
  refine (internPackage_ensures sound id name).imp (fun package final interned => ?_) fun final same => same ▸ sound
  cases interned with
  | found here => exact sound
  | made absent small fits made above live attached =>
      refine (sound.grown made.grows).add (made.held) above live ?_ attached
      obtain ⟨node, here, shape⟩ := Option.map_eq_some_iff.1 made.node
      cases live.symm.trans here
      exact congrArg Shape.parent shape

theorem pushChunk_sound (sound : table.Sound) (id : UInt32) (bytes : Bytes) :
    (pushChunk id bytes).Ensures table (fun _ => Sound) Sound := by
  refine (pushChunk_ensures sound id bytes).imp (fun _ final pushed => ?_) fun final same => same ▸ sound
  obtain ⟨before, package, behind, chunk, owner, between, tree, pushed⟩ := pushed
  rw [pushed.final]
  exact (pushed.splits.houses sound).withChunk pushed.found pushed.container pushed.added

theorem renamePackage_sound (sound : table.Sound) (id : UInt32) (name : String) :
    (renamePackage id name).Ensures table (fun _ => Sound) Sound := by
  refine (renamePackage_ensures table id name).imp (fun _ final renamed => ?_) fun final same => same ▸ sound
  obtain ⟨_, before, package, behind, splits, rfl⟩ := renamed
  exact splits.sound_of_same sound rfl rfl

theorem removePackage_sound (sound : table.Sound) (id : UInt32) :
    (removePackage id).Ensures table (fun _ => Sound) Sound := by
  refine (removePackage_ensures sound id).imp (fun package final removed => ?_) fun final same => same ▸ sound
  obtain ⟨before, behind, tree, removed⟩ := removed
  rw [removed.final]
  exact (removed.splits.houses sound).remove removed.removes

theorem sortPackages_sound (sound : table.Sound) : sortPackages.Ensures table (fun _ => Sound) Sound := by
  refine .of_ok (sortPackages_ok sound) ?_
  exact sound.sort (fun _ => BlockTree.perm_sortBy _ _ _) (sortBy_sortKey sound) fun _ => mem_sorted.1

/-- An edit keeps a table sound, whether it succeeds or fails. -/
theorem Edit.sound (edit : Edit) (sound : table.Sound) (ends : edit.step.Ends table final) : final.Sound := by
  have strings {α : Type} (step : Step StringPool α) : (onStrings step).Leads (fun _ => Sound) table := by
    have pool : step.Leads (fun _ _ => True) table.strings := .of_ends fun _ _ => trivial
    exact .onPart pool fun _ _ => sound
  have pools {α : Type} (id : UInt32) (which : PackagePool) (step : Step StringPool α) :
      (editPackage id (Package.editPool which step)).Leads (fun _ => Sound) table :=
    .of_ends fun final ends => by
      rcases editPool_ends ends with rfl | ⟨before, package, behind, slot, pool, splits, _, _, rfl⟩
      · exact sound
      · exact splits.sound_of_same sound (by cases which <;> rfl) (by cases which <;> rfl)
  suffices leads : edit.step.Leads (fun _ => Sound) table from leads.ends ends
  cases edit with
  | internString text => exact (strings _).discard
  | setString index text => exact strings _
  | internPoolString id which text => exact (pools _ _ _).discard
  | setPoolString id which index text => exact (pools _ _ _).discard
  | internPackage id name => exact Step.Leads.discard ⟨internPackage_sound sound id name⟩
  | pushChunk id bytes => exact Step.Leads.discard ⟨pushChunk_sound sound id bytes⟩
  | renamePackage id name => exact ⟨renamePackage_sound sound id name⟩
  | removePackage id => exact Step.Leads.discard ⟨removePackage_sound sound id⟩
  | sortPackages => exact ⟨sortPackages_sound sound⟩
  | refresh => exact ((refresh_leads table).imp fun _ reshaped => reshaped.sound sound).discard
  | toBytes => exact ((toBytes_leads table).imp fun _ reshaped => reshaped.sound sound).discard

end Table
end DexArsc.Resource
