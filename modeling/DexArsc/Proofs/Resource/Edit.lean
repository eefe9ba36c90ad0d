/-
Edits of resource tables: what each of them does to the packages and to the tree, and that all of them
keep a table sound.
-/

import DexArsc.Proofs.Resource.Table

namespace DexArsc.Resource.Table

variable {table final : Table} {id : UInt32} {package : Package}

/-- The first package with an id stands between the packages before and behind it. -/
structure Splits (table : Table) (id : UInt32) (before : List Package) (package : Package)
    (behind : List Package) : Prop where
  whole : table.packages = before ++ package :: behind
  here : package.id = id
  first : ∀ other ∈ before, other.id ≠ id

theorem package?_eq_some : table.package? id = some package ↔ ∃ before behind, table.Splits id before package behind := by
  unfold package?
  rw [List.find?_eq_some_iff_append]
  constructor
  · rintro ⟨here, before, behind, whole, first⟩
    exact ⟨before, behind, whole, by simpa using here, fun other inside => by simpa using first other inside⟩
  · rintro ⟨before, behind, splits⟩
    exact ⟨by simpa using splits.here, before, behind, splits.whole, fun other inside => by
      simpa using splits.first other inside⟩

theorem package_eq_ok : table.package id = .ok package ↔ table.package? id = some package := by
  unfold Table.package
  cases table.package? id <;> simp

theorem modify_middle {α : Type} (before : List α) (value : α) (behind : List α) (change : α → α) :
    (before ++ value :: behind).modify before.length change = before ++ change value :: behind := by
  induction before with
  | nil => rfl
  | cons first rest ih =>
      rw [List.cons_append, List.length_cons, List.modify_succ_cons, ih]
      rfl

namespace Splits

variable {before behind : List Package}

theorem mem (splits : table.Splits id before package behind) : package ∈ table.packages := by
  rw [splits.whole]
  simp

theorem modifyPackage (splits : table.Splits id before package behind) (change : Package → Package) :
    table.modifyPackage id change = { table with packages := before ++ change package :: behind } := by
  have place : table.packages.findIdx? (·.id == id) = some before.length := by
    have none : before.findIdx? (·.id == id) = none :=
      List.findIdx?_eq_none_iff.2 fun other inside => by simpa using splits.first other inside
    rw [splits.whole, List.findIdx?_append, none, List.findIdx?_cons, splits.here]
    simp
  unfold Table.modifyPackage
  rw [place]
  simp only [splits.whole, modify_middle]

theorem eraseP (splits : table.Splits id before package behind) :
    table.packages.eraseP (·.id == id) = before ++ behind := by
  rw [splits.whole, List.eraseP_append_right _ fun other inside => by simpa using splits.first other inside,
    List.eraseP_cons_of_pos (by simpa using splits.here)]

end Splits

/-- A package is found or made. -/
inductive Interned (table : Table) (id : UInt32) (name : String) : Package → Table → Prop
  | found {package : Package} (here : table.package? id = some package) : Interned table id name package table
  | made {between tree : BlockTree} {owner below : Node} (absent : table.package? id = none)
    (small : id ≤ 0xFF) (fits : Package.checkName name = .ok ())
    (made : Package.Made id name table.tree between) (above : between.node? table.packagesNode = some owner)
    (live : between.node? table.tree.fresh = some below)
    (attached : between.Attached table.packagesNode table.tree.fresh owner below tree) :
    Interned table id name (Package.made table.tree id name) { table with
      tree
      packages := table.packages ++ [Package.made table.tree id name] }

theorem make_error {tree : BlockTree} {id : UInt32} {name : String} {fault : Fault}
    (long : Package.checkName name = .error fault) : Package.make id name tree = .error fault tree := by
  unfold Package.make
  rw [long]
  rfl

theorem internPackage_ensures (sound : table.Sound) (id : UInt32) (name : String) :
    (internPackage id name).Ensures table (Interned table id name) (· = table) := by
  unfold internPackage
  refine .behind (Step.get_apply _) ?_
  cases here : table.package? id with
  | some package => exact .of_ok rfl (.found here)
  | none =>
      by_cases large : 0xFF < id
      · simp only [if_pos large]
        exact rfl
      · simp only [if_neg large]
        cases fits : Package.checkName name with
        | error fault =>
            have fails : onTree (Package.make id name) table = .error fault table := by
              rw [onTree, Step.onPart, make_error fits]
            exact .stop fails rfl
        | ok =>
            obtain ⟨between, run, made⟩ := Package.make_ok sound.linked id fits
            have houses := sound.grown made.grows
            obtain ⟨owner, above, container, _⟩ := houses.owner
            obtain ⟨below, live, shape⟩ := Option.map_eq_some_iff.1 made.node
            obtain ⟨_, found, _⟩ := sound.node
            obtain ⟨tree, run', attached⟩ := made.grows.linked.addChild above container live
              (congrArg Shape.parent shape) (BlockTree.index_lt_of_shape? found)
            have first : onTree (Package.make id name) table =
                .ok (Package.made table.tree id name) { table with tree := between } :=
              Step.onPart_eq_ok.2 ⟨between, run, rfl⟩
            have second : onTree (BlockTree.addChild table.packagesNode table.tree.fresh)
                { table with tree := between } = .ok () { table with tree } :=
              Step.onPart_eq_ok.2 ⟨tree, run', rfl⟩
            refine .behind first (.behind second (.of_ok rfl ?_))
            exact .made here (UInt32.not_lt.1 large) fits made above live attached

/-- A chunk is appended to a package. -/
structure ChunkPushed (table : Table) (id : UInt32) (bytes : Bytes) (before : List Package)
    (package : Package) (behind : List Package) (chunk : Chunk) (owner : Node) (between tree : BlockTree)
    (final : Table) : Prop where
  splits : table.Splits id before package behind
  pushable : Package.Pushable bytes chunk
  found : table.tree.node? package.node = some owner
  container : owner.kind = .container
  added : Package.ChunkAdded package.node chunk owner table.tree between tree
  final : final = { table with
    tree
    packages := before ++ package.withChunk chunk.header.type table.tree.fresh :: behind }

theorem pushChunk_ensures (sound : table.Sound) (id : UInt32) (bytes : Bytes) :
    (pushChunk id bytes).Ensures table
      (fun _ final => ∃ before package behind chunk owner between tree,
        ChunkPushed table id bytes before package behind chunk owner between tree final)
      (· = table) := by
  unfold pushChunk
  refine .behind (Step.get_apply _) (.check rfl fun package found => ?_)
  obtain ⟨before, behind, splits⟩ := package?_eq_some.1 (package_eq_ok.1 found)
  obtain ⟨owner, live, container⟩ := (sound.held package splits.mem).owner
  have pushed := Package.pushChunk_ensures sound.linked live container bytes
  cases run : package.pushChunk bytes table.tree with
  | error fault tree =>
      have same := pushed.error run
      subst same
      have fails : onTree (package.pushChunk bytes) table = .error fault table := by
        rw [onTree, Step.onPart, run]
      exact .stop fails rfl
  | ok result tree =>
      obtain ⟨chunk, pushable, rfl, between, added⟩ := pushed.ok run
      refine .behind (Step.onPart_eq_ok.2 ⟨tree, run, rfl⟩) (.behind (Step.modify_apply _ _) (.of_ok rfl ?_))
      have splits' : Splits { table with tree } id before package behind :=
        ⟨splits.whole, splits.here, splits.first⟩
      exact ⟨before, package, behind, chunk, owner, between, tree, splits, pushable, live, container, added,
        splits'.modifyPackage _⟩

theorem renamePackage_ensures (table : Table) (id : UInt32) (name : String) :
    (renamePackage id name).Ensures table
      (fun _ final => Package.checkName name = .ok () ∧ ∃ before package behind,
        table.Splits id before package behind ∧
          final = { table with packages := before ++ { package with name } :: behind })
      (· = table) := by
  unfold renamePackage
  refine .behind (Step.get_apply _) (.check rfl fun package found => .check rfl fun renamed run => ?_)
  obtain ⟨before, behind, splits⟩ := package?_eq_some.1 (package_eq_ok.1 found)
  obtain ⟨_, fits, same⟩ := Except.bind_eq_ok.1 run
  cases same
  exact .of_ok rfl ⟨fits, before, package, behind, splits, splits.modifyPackage _⟩

/-- A package is removed. -/
structure PackageRemoved (table : Table) (id : UInt32) (before : List Package) (package : Package)
    (behind : List Package) (tree : BlockTree) (final : Table) : Prop where
  splits : table.Splits id before package behind
  removes : table.tree.Removes table.packagesNode package.node tree
  final : final = { table with
    tree
    packages := before ++ behind }

theorem removePackage_ensures (sound : table.Sound) (id : UInt32) : (removePackage id).Ensures table
    (fun package final => ∃ before behind tree, PackageRemoved table id before package behind tree final)
    (· = table) := by
  unfold removePackage
  refine .behind (Step.get_apply _) (.check rfl fun package found => ?_)
  obtain ⟨before, behind, splits⟩ := package?_eq_some.1 (package_eq_ok.1 found)
  obtain ⟨tree, run, removes⟩ := sound.linked.remove_child (sound.parent? splits.mem)
  refine .behind (Step.modify_apply _ _) (.behind (Step.onPart_eq_ok.2 ⟨tree, run, rfl⟩) (.of_ok rfl ?_))
  exact ⟨before, behind, tree, splits, removes, by rw [splits.eraseP]⟩

/-- The packages in the order of their ids. -/
def sorted (table : Table) : List Package :=
  table.packages.mergeSort fun first second => first.id ≤ second.id

/-- The place of a node in the order of the packages. -/
def sortKey (table : Table) (node : NodeId) : Nat :=
  match table.sorted.find? (·.node == node) with
  | some package => package.id.toNat + 1
  | none => 0

theorem mem_sorted : package ∈ table.sorted ↔ package ∈ table.packages :=
  (List.mergeSort_perm _ _).mem_iff

theorem sortKey_eq (sound : table.Sound) (inside : package ∈ table.packages) :
    table.sortKey package.node = package.id.toNat + 1 := by
  have nodup : (table.sorted.map Package.node).Nodup :=
    ((List.mergeSort_perm table.packages _).map Package.node).nodup_iff.2 sound.nodup
  obtain ⟨before, behind, whole⟩ := List.append_of_mem (mem_sorted.2 inside)
  have found : table.sorted.find? (·.node == package.node) = some package := by
    refine List.find?_eq_some_iff_append.2 ⟨by simp, before, behind, whole, fun other listed => ?_⟩
    rw [whole, List.map_append, List.map_cons, List.nodup_middle, List.nodup_cons, List.mem_append,
      not_or] at nodup
    simp only [Bool.not_eq_eq_eq_not, Bool.not_true, beq_eq_false_iff_ne]
    intro same
    exact nodup.1.1 (same ▸ List.mem_map_of_mem listed)
  unfold sortKey
  rw [found]

/-- The nodes of the packages are sorted as the packages are. -/
theorem sortBy_sortKey (sound : table.Sound) :
    BlockTree.sortBy (fun first second => decide (first ≤ second)) table.sortKey
      (table.packages.map Package.node) = table.sorted.map Package.node := by
  have keys : (table.packages.map Package.node).map (fun child => (table.sortKey child, child)) =
      table.packages.map fun package => (package.id.toNat + 1, package.node) := by
    rw [List.map_map]
    exact List.map_congr_left fun package inside => by simp only [Function.comp, sortKey_eq sound inside]
  unfold BlockTree.sortBy sorted
  rw [keys, ← List.map_mergeSort, List.map_map]
  · rfl
  · intro first _ second _
    simp only [UInt32.le_iff_toNat_le, Nat.add_le_add_iff_right]

theorem sortPackages_ok (sound : table.Sound) : sortPackages table = .ok () { table with
    tree := table.tree.modifyNode table.packagesNode fun node => { node with
      children := BlockTree.sortBy (fun first second => decide (first ≤ second)) table.sortKey node.children }
    packages := table.sorted } := by
  obtain ⟨owner, found, _⟩ := sound.owner
  have run := BlockTree.sortChildren_ok (fun first second : Nat => decide (first ≤ second))
    (fun _ => table.sortKey) found
  unfold sortPackages
  rw [Step.bind_ok (Step.modify_apply _ _), Step.bind_ok (Step.get_apply _)]
  exact Step.onPart_eq_ok.2 ⟨_, run, rfl⟩

end DexArsc.Resource.Table
