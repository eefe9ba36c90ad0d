/-
Copies of subtrees. A copy consists of fresh nodes with the content of the nodes that they stand
for, in the same order, and everything that was there before stays as it was.
-/

import DexArsc.BlockTree.Import
import DexArsc.Proofs.BlockTree.Removal
import DexArsc.Proofs.Paired
import Mathlib.Data.List.Nodup

namespace DexArsc

/-- A node that is listed once is found. -/
theorem NodeMap.find_of_mem {nodes : NodeMap} (nodup : (nodes.map Prod.fst).Nodup) {id copy : NodeId}
    (inside : (id, copy) ∈ nodes) : nodes.find id = some copy := by
  obtain ⟨before, behind, rfl⟩ := List.append_of_mem inside
  rw [List.map_append, List.map_cons, List.nodup_middle, List.nodup_cons, List.mem_append, not_or] at nodup
  refine List.lookup_eq_some_iff.2 ⟨before, behind, rfl, fun pair listed => bne_iff_ne.2 ?_⟩
  rintro rfl
  exact nodup.1.1 (List.mem_map.2 ⟨pair, listed, rfl⟩)

/-- A fresh node has the content and the place of a node and the copies of its children. -/
structure Node.CopiedBy (pairs : NodeMap) (node fresh : Node) : Prop where
  kind : fresh.kind = node.kind
  tag : fresh.tag = node.tag
  offset : fresh.offset = node.offset
  length : fresh.length = node.length
  children : List.Forall₂ (fun child copy => (child, copy) ∈ pairs) node.children fresh.children

theorem Node.CopiedBy.mono {pairs more : NodeMap} {node fresh : Node} (copied : node.CopiedBy pairs fresh)
    (part : ∀ pair ∈ pairs, pair ∈ more) : node.CopiedBy more fresh where
  kind := copied.kind
  tag := copied.tag
  offset := copied.offset
  length := copied.length
  children := copied.children.imp fun _ _ => part _

/-- The copy of a child. -/
theorem Node.CopiedBy.child {pairs : NodeMap} {node fresh : Node} (copied : node.CopiedBy pairs fresh)
    {child : NodeId} (inside : child ∈ node.children) :
    ∃ copy ∈ fresh.children, (child, copy) ∈ pairs := by
  obtain ⟨place, found⟩ := List.mem_iff_getElem?.1 inside
  obtain ⟨copy, here, listed⟩ := forall₂_getElem? copied.children found
  exact ⟨copy, List.mem_of_getElem? here, listed⟩

namespace BlockTree

open Relation (ReflTransGen)

variable {other tree between final : BlockTree}

/-- Fresh nodes, created one after another, that stand for nodes of another tree. -/
structure Copies (other tree final : BlockTree) (pairs : NodeMap) : Prop where
  forest : final.Forest
  linked : tree.Linked → final.Linked
  size : final.nodes.size = tree.nodes.size + pairs.length
  fresh : pairs.map (fun pair => pair.2.index) = List.range' tree.nodes.size pairs.length
  keys : (pairs.map Prod.fst).Nodup
  each : ∀ pair ∈ pairs, ∃ node fresh, other.node? pair.1 = some node ∧
    final.node? pair.2 = some fresh ∧ node.CopiedBy pairs fresh ∧ fresh.patches = []

namespace Copies

variable {pairs : NodeMap}

theorem bounds (copies : Copies other tree final pairs) {pair : NodeId × NodeId}
    (inside : pair ∈ pairs) : tree.nodes.size ≤ pair.2.index ∧ pair.2.index < final.nodes.size := by
  have listed : pair.2.index ∈ pairs.map fun pair => pair.2.index := List.mem_map_of_mem inside
  rw [copies.fresh, List.mem_range'_1] at listed
  rw [copies.size]
  exact listed

/-- Fresh nodes are different. -/
theorem values (copies : Copies other tree final pairs) : (pairs.map Prod.snd).Nodup := by
  have places : ((pairs.map Prod.snd).map NodeId.index).Nodup := by
    rw [List.map_map]
    exact copies.fresh ▸ List.nodup_range'
  exact List.Nodup.of_map _ places

end Copies

/-- The node that a copy begins with. -/
def copied (node : Node) : Node where
  kind := node.kind
  tag := node.tag
  offset := node.offset
  length := node.length

theorem modifyNode_push (tree : BlockTree) (node : Node) (change : Node → Node) :
    (tree.push node).modifyNode tree.fresh change = tree.push (change node) := by
  unfold modifyNode push fresh
  congr 1
  apply Array.ext_getElem?
  intro place
  rw [Array.getElem?_modify, Array.getElem?_push, Array.getElem?_push]
  split
  · rename_i same
    subst same
    rw [if_pos rfl, if_pos rfl]
    rfl
  · rename_i apart
    rw [if_neg fun same => apart same.symm, if_neg fun same => apart same.symm]

/-- A row of nodes is copied below a node. -/
structure RowCopied (other : BlockTree) (row : List NodeId) (top : NodeId) (tree final : BlockTree)
    (pairs : NodeMap) (copies : List NodeId) : Prop where
  whole : Copies other tree final pairs
  kept : ∀ id, id.index < tree.nodes.size → id ≠ top → final.node? id = tree.node? id
  top : final.node? top = (tree.node? top).map fun node =>
    { node with children := node.children ++ copies }
  listed : List.Forall₂ (fun child copy => (child, copy) ∈ pairs) row copies
  owned : ∀ pair ∈ pairs, ∃ child ∈ row, other.Owns child pair.1

/-- A node is copied with all that it owns. -/
structure Copied (other : BlockTree) (id : NodeId) (tree final : BlockTree) (pairs : NodeMap) :
    Prop where
  whole : Copies other tree final pairs
  kept : ∀ old, old.index < tree.nodes.size → final.node? old = tree.node? old
  root : (id, tree.fresh) ∈ pairs
  orphan : final.parent? tree.fresh = none
  owned : ∀ pair ∈ pairs, other.Owns id pair.1

/-- Nodes that were created behind a tree stand above none of its nodes, as long as these are the same. -/
theorem Forest.index_lt_of_kept (forest : tree.Forest)
    (kept : ∀ old, old.index < tree.nodes.size → final.node? old = tree.node? old) {above below : NodeId}
    (way : ReflTransGen final.Above above below) (low : below.index < tree.nodes.size) :
    above.index < tree.nodes.size := by
  induction way with
  | refl => exact low
  | @tail parent below _ here ih =>
      refine ih ?_
      rw [Above, parent?, kept below low] at here
      obtain ⟨shape, found, _⟩ := forest.parent here
      exact index_lt_of_shape? found

/-- The copy of a node stands above no node that was there before. -/
theorem Copied.not_isAncestor {id old : NodeId} {pairs : NodeMap} (copied : Copied other id tree final pairs)
    (forest : tree.Forest) (low : old.index < tree.nodes.size) : ¬final.isAncestor tree.fresh old = true := by
  rw [copied.whole.forest.isAncestor_iff]
  exact fun way => Nat.lt_irrefl _ (forest.index_lt_of_kept copied.kept way low)

/-- The step on a child of a copied node. -/
def copyChild (other : BlockTree) (fuel : Nat) (top : NodeId) (nodes : NodeMap) (child : NodeId) :
    Step BlockTree NodeMap := do
  let (copy, nodes) ← copyNodes other fuel child nodes
  addChild top copy
  return nodes

theorem RowCopied.nil (forest : tree.Forest) (top : NodeId) : RowCopied other [] top tree tree [] [] where
  whole := {
    forest
    linked := id
    size := by simp
    fresh := by simp
    keys := by simp
    each := by simp }
  kept := fun _ _ _ => rfl
  top := by simp
  listed := .nil
  owned := by simp

/-- A copied node becomes a child, and the rest of its row follows. -/
theorem RowCopied.cons {child top copy : NodeId} {row : List NodeId} {first rest : NodeMap}
    {copies : List NodeId} (source : other.Forest)
    (apart : ∀ next ∈ row, child ≠ next) (parent : NodeId)
    (parents : ∀ next ∈ child :: row, other.parent? next = some parent)
    (here : top.index < tree.nodes.size) (same : copy = tree.fresh)
    (done : Copied other child tree between first) (attaches : between.Attaches top copy)
    (later : RowCopied other row top (between.attach top copy) final rest copies) :
    RowCopied other (child :: row) top tree final (first ++ rest) (copy :: copies) := by
  subst same
  have bigger : tree.nodes.size ≤ between.nodes.size := by rw [done.whole.size]; omega
  have different : tree.fresh ≠ top := by
    rintro rfl
    exact Nat.lt_irrefl _ here
  have kept (id : NodeId) (old : id.index < between.nodes.size) (other' : id ≠ top)
      (notCopy : id ≠ tree.fresh) : final.node? id = between.node? id := by
    rw [later.kept id (by rw [size_attach]; exact old) other', node?_attach different, if_neg other',
      if_neg notCopy]
  refine ⟨⟨later.whole.forest, fun linked => later.whole.linked ((done.whole.linked linked).attach attaches here),
    ?_, ?_, ?_, ?_⟩, fun id old other' => ?_, ?_, ?_, ?_⟩
  · rw [later.whole.size, size_attach, done.whole.size, List.length_append]
    omega
  · rw [List.map_append, done.whole.fresh, later.whole.fresh, size_attach, done.whole.size,
      List.length_append, List.range'_append_1]
  · rw [List.map_append]
    refine List.nodup_append.2 ⟨done.whole.keys, later.whole.keys, ?_⟩
    rintro _ before _ behind rfl
    obtain ⟨pair, inside, rfl⟩ := List.mem_map.1 before
    obtain ⟨pair', inside', equal⟩ := List.mem_map.1 behind
    obtain ⟨next, listed, owns⟩ := later.owned pair' inside'
    rw [equal] at owns
    exact (done.owned pair inside).apart source (parents child List.mem_cons_self)
      (parents next (List.mem_cons_of_mem _ listed)) (apart next listed) owns
  · intro pair inside
    rcases List.mem_append.1 inside with before | behind
    · obtain ⟨node, fresh, found, copied, content, patches⟩ := done.whole.each pair before
      have range := done.whole.bounds before
      have notTop : pair.2 ≠ top := by
        intro equal
        rw [equal] at range
        omega
      have more := content.mono fun pair inside => List.mem_append_left rest inside
      by_cases isCopy : pair.2 = tree.fresh
      · refine ⟨node, { fresh with parent := some top }, found, ?_, ⟨more.1, more.2, more.3, more.4, more.5⟩, patches⟩
        rw [later.kept _ (by rw [size_attach]; exact range.2) notTop, node?_attach different,
          if_neg notTop, if_pos isCopy, ← isCopy, copied]
        rfl
      · exact ⟨node, fresh, found, by rw [kept _ range.2 notTop isCopy, copied], more, patches⟩
    · obtain ⟨node, fresh, found, copied, content, patches⟩ := later.whole.each pair behind
      exact ⟨node, fresh, found, copied,
        content.mono fun pair inside => List.mem_append_right first inside, patches⟩
  · have notCopy : id ≠ tree.fresh := by
      rintro rfl
      exact Nat.lt_irrefl _ old
    rw [kept id (Nat.lt_of_lt_of_le old bigger) other' notCopy, done.kept id old]
  · rw [later.top, node?_attach different, if_pos rfl, done.kept top here]
    cases tree.node? top with
    | none => rfl
    | some node => simp
  · exact .cons (List.mem_append_left _ done.root)
      (later.listed.imp fun _ _ inside => List.mem_append_right first inside)
  · intro pair inside
    rcases List.mem_append.1 inside with before | behind
    · exact ⟨child, List.mem_cons_self, done.owned pair before⟩
    · obtain ⟨next, listed, owns⟩ := later.owned pair behind
      exact ⟨next, List.mem_cons_of_mem _ listed, owns⟩

/-- A row of nodes is copied when the nodes of the row are. -/
theorem copyRow_ok (source : other.Forest) {fuel : Nat}
    (copies : ∀ id nodes (tree : BlockTree), tree.Forest → (other.shape? id).isSome →
      other.nodes.size < fuel + other.depth id → ∃ pairs final,
        copyNodes other fuel id nodes tree = .ok (tree.fresh, nodes ++ pairs) final ∧
          Copied other id tree final pairs)
    {parent top : NodeId} {row : List NodeId} (nodup : row.Nodup)
    (parents : ∀ next ∈ row, other.parent? next = some parent)
    (enough : ∀ next ∈ row, other.nodes.size < fuel + other.depth next) (nodes : NodeMap)
    (forest : tree.Forest) {above : Shape} (owner : tree.shape? top = some above)
    (container : above.content = .container) :
    ∃ pairs copies final, row.foldlM (copyChild other fuel top) nodes tree =
        .ok (nodes ++ pairs) final ∧ RowCopied other row top tree final pairs copies := by
  induction row generalizing nodes tree above with
  | nil => exact ⟨[], [], tree, by rw [List.foldlM_nil, List.append_nil]; rfl, .nil forest top⟩
  | cons child row ih =>
      have live : (other.shape? child).isSome := by
        have up := parents child List.mem_cons_self
        rw [parent?_eq] at up
        obtain ⟨below, found, _⟩ := Option.bind_eq_some_iff.1 up
        rw [found]
        rfl
      obtain ⟨first, between, run, done⟩ := copies child nodes tree forest live
        (enough child List.mem_cons_self)
      have here := index_lt_of_shape? owner
      have different : tree.fresh ≠ top := by
        rintro rfl
        exact Nat.lt_irrefl _ here
      have owner' : between.shape? top = some above := by
        rw [shape?, done.kept top here]
        exact owner
      obtain ⟨_, fresh, _, found, _⟩ := done.whole.each _ done.root
      have attaches : between.Attaches top tree.fresh := {
        owner := ⟨above, owner', container⟩
        orphan := ⟨fresh.shape, by rw [shape?, found]; rfl, by
          have orphan := done.orphan
          rw [parent?, found] at orphan
          exact orphan⟩
        acyclic := done.not_isAncestor forest here }
      have owner'' : (between.attach top tree.fresh).shape? top =
          some { above with children := above.children ++ [tree.fresh] } := by
        rw [shape?_attach different, if_pos rfl, owner', Option.map_some]
      have child_ok : copyChild other fuel top nodes child tree =
          .ok (nodes ++ first) (between.attach top tree.fresh) := by
        unfold copyChild
        rw [Step.bind_ok run]
        exact Step.bind_ok (addChild_of_attaches attaches)
      obtain ⟨rest, copies', final, run', later⟩ := ih (List.nodup_cons.1 nodup).2
        (fun next inside => parents next (List.mem_cons_of_mem _ inside))
        (fun next inside => enough next (List.mem_cons_of_mem _ inside)) (nodes ++ first)
        (done.whole.forest.attach attaches) owner'' container
      refine ⟨first ++ rest, tree.fresh :: copies', final, ?_,
        .cons source (fun next inside => ?_) parent parents here rfl done attaches later⟩
      · rw [List.foldlM_cons, Step.bind_ok child_ok, run', List.append_assoc]
      · rintro rfl
        exact (List.nodup_cons.1 nodup).1 inside

/-- A node is copied in front of the row of its children. -/
theorem Copies.of_row {node : Node} {id : NodeId} {pairs : NodeMap} {copies : List NodeId}
    (source : other.Forest) (here : other.node? id = some node)
    (row : RowCopied other node.children tree.fresh (tree.push (copied node)) final pairs copies) :
    Copies other tree final ((id, tree.fresh) :: pairs) where
  forest := row.whole.forest
  linked linked := row.whole.linked (linked.push rfl rfl)
  size := by
    rw [row.whole.size, size_push, List.length_cons]
    omega
  fresh := by
    rw [List.map_cons, row.whole.fresh, size_push, List.length_cons, List.range'_succ]
    rfl
  keys := by
    rw [List.map_cons]
    refine List.nodup_cons.2 ⟨fun inside => ?_, row.whole.keys⟩
    obtain ⟨pair, listed, same⟩ := List.mem_map.1 inside
    obtain ⟨child, below, owns⟩ := row.owned pair listed
    have top : pair.1 = id := same
    have found : other.shape? id = some node.shape := by rw [shape?, here]; rfl
    exact (top ▸ owns).not_parent source (source.down id _ child found below)
  each := by
    intro pair inside
    rcases List.mem_cons.1 inside with rfl | below
    · have root : final.node? tree.fresh = some { copied node with children := (copied node).children ++ copies } := by
        rw [row.top, node?_push, if_pos rfl]
        rfl
      exact ⟨node, _, here, root, ⟨rfl, rfl, rfl, rfl, row.listed.imp fun _ _ => List.mem_cons_of_mem _⟩, rfl⟩
    · obtain ⟨node, fresh, found, copied, content, patches⟩ := row.whole.each pair below
      exact ⟨node, fresh, found, copied, content.mono fun _ => List.mem_cons_of_mem _, patches⟩

theorem Copied.of_row {node : Node} {id : NodeId} {pairs : NodeMap} {copies : List NodeId}
    (source : other.Forest) (here : other.node? id = some node)
    (row : RowCopied other node.children tree.fresh (tree.push (copied node)) final pairs copies) :
    Copied other id tree final ((id, tree.fresh) :: pairs) where
  whole := .of_row source here row
  kept old before := by
    have notTop : old ≠ tree.fresh := by
      rintro rfl
      exact Nat.lt_irrefl _ before
    have bigger : old.index < (tree.push (copied node)).nodes.size := by
      rw [size_push]
      exact Nat.lt_succ_of_lt before
    rw [row.kept old bigger notTop, node?_push, if_neg notTop]
  root := List.mem_cons_self
  orphan := by
    rw [parent?, row.top, node?_push, if_pos rfl]
    rfl
  owned := by
    intro pair inside
    rcases List.mem_cons.1 inside with rfl | below
    · exact .top
    · obtain ⟨child, listed, owns⟩ := row.owned pair below
      exact Owns.trans (.child .top here listed) owns

theorem copyNodes_of_row {node : Node} {id : NodeId} {fuel : Nat} {nodes pairs : NodeMap}
    (here : other.node? id = some node)
    (run : node.children.foldlM (copyChild other fuel tree.fresh) (nodes ++ [(id, tree.fresh)])
      (tree.push (copied node)) = .ok (nodes ++ [(id, tree.fresh)] ++ pairs) final) :
    copyNodes other (fuel + 1) id nodes tree = .ok (tree.fresh, nodes ++ (id, tree.fresh) :: pairs) final := by
  have placed : (allocate node.kind node.tag >>= fun copy => do
        modify fun tree => tree.modifyNode copy fun fresh =>
          { fresh with offset := node.offset, length := node.length }
        let nodes ← node.children.foldlM (copyChild other fuel copy) (nodes ++ [(id, copy)])
        return (copy, nodes)) tree =
        .ok (tree.fresh, nodes ++ [(id, tree.fresh)] ++ pairs) final := by
    obtain ⟨length, fresh⟩ := allocate_apply node.kind node.tag tree
    rw [Step.bind_ok fresh, Step.bind_ok (Step.modify_apply _ _), modifyNode_push]
    exact Step.bind_ok run
  rw [copyNodes, Step.bind_apply, node_of_some here]
  rw [List.append_assoc] at placed
  exact placed

/-- A live node of a forest is copied with all that it owns. -/
theorem copyNodes_ok (source : other.Forest) {fuel : Nat} (id : NodeId) (nodes : NodeMap)
    (forest : tree.Forest) (live : (other.shape? id).isSome)
    (enough : other.nodes.size < fuel + other.depth id) : ∃ pairs final,
      copyNodes other fuel id nodes tree = .ok (tree.fresh, nodes ++ pairs) final ∧
        Copied other id tree final pairs := by
  induction fuel generalizing id nodes tree with
  | zero =>
      have bound := other.depth_le id
      omega
  | succ fuel ih =>
      obtain ⟨shape, found⟩ := Option.isSome_iff_exists.1 live
      obtain ⟨node, here, rfl⟩ := Option.map_eq_some_iff.1 found
      have pushed : (tree.push (copied node)).Forest := forest.push rfl rfl
      have top : (tree.push (copied node)).shape? tree.fresh = some (copied node).shape := by
        rw [shape?_push, if_pos rfl]
      obtain ⟨pairs, copies, final, run, row⟩ : ∃ pairs copies final,
          node.children.foldlM (copyChild other fuel tree.fresh) (nodes ++ [(id, tree.fresh)])
            (tree.push (copied node)) = .ok (nodes ++ [(id, tree.fresh)] ++ pairs) final ∧
          RowCopied other node.children tree.fresh (tree.push (copied node)) final pairs copies := by
        by_cases childless : node.children = []
        · rw [childless]
          exact ⟨[], [], _, by rw [List.foldlM_nil, List.append_nil]; rfl, .nil pushed _⟩
        · obtain ⟨first, inside⟩ := List.exists_mem_of_ne_nil _ childless
          have container : (copied node).shape.content = .container :=
            source.owner id node.shape first found inside
          exact copyRow_ok source (fun id nodes tree forest live enough => ih id nodes forest live enough)
            (source.nodup id _ found) (fun next inside => source.down id _ next found inside)
            (fun next inside => by
              have deeper := source.depth_lt (source.down id _ next found inside)
              omega) _ pushed top container
      exact ⟨(id, tree.fresh) :: pairs, final, copyNodes_of_row here run, .of_row source here row⟩

/-- A tree with fresh nodes, whose links agree. -/
structure Enlarged (tree final : BlockTree) : Prop where
  forest : final.Forest
  linked : tree.Linked → final.Linked
  size : tree.nodes.size ≤ final.nodes.size
  kept : ∀ old, old.index < tree.nodes.size → final.node? old = tree.node? old

theorem Enlarged.grows (enlarged : tree.Enlarged final) (linked : tree.Linked) :
    Grows tree.nodes.size tree final :=
  ⟨enlarged.linked linked, enlarged.size, enlarged.kept⟩

/-- A subtree is copied with its patches. -/
structure Imported (other : BlockTree) (id : NodeId) (tree final : BlockTree) (pairs : NodeMap) :
    Prop where
  enlarged : tree.Enlarged final
  root : (id, tree.fresh) ∈ pairs
  orphan : final.parent? tree.fresh = none
  fresh : ∀ pair ∈ pairs, tree.nodes.size ≤ pair.2.index
  keys : (pairs.map Prod.fst).Nodup
  values : (pairs.map Prod.snd).Nodup
  owned : ∀ old, old ∈ pairs.map Prod.fst ↔ other.Owns id old
  each : ∀ pair ∈ pairs, ∃ node fresh, other.node? pair.1 = some node ∧
    final.node? pair.2 = some fresh ∧ node.CopiedBy pairs fresh ∧
      node.patches.mapM (Patch.rename pairs) = some fresh.patches

/-- The step that gives a copy its patches. -/
def copyPatches (other : BlockTree) (nodes : NodeMap) (pair : NodeId × NodeId) :
    Step BlockTree Unit := do
  match (← other.node pair.1).patches.mapM (Patch.rename nodes) with
  | some patches => modify fun tree => tree.modifyNode pair.2 fun node => { node with patches }
  | none => fail (.tree (.patchOutside pair.1.index))

/-- Patches are given to nodes, and nothing else changes. -/
structure Patched (fresh : NodeId → Prop) (tree final : BlockTree) : Prop where
  size : final.nodes.size = tree.nodes.size
  kept : ∀ id, ¬fresh id → final.node? id = tree.node? id
  links : ∀ id, (final.shape? id).map Shape.links = (tree.shape? id).map Shape.links

theorem Patched.refl (fresh : NodeId → Prop) (tree : BlockTree) : Patched fresh tree tree :=
  ⟨rfl, fun _ _ => rfl, fun _ => rfl⟩

theorem patched_modifyNode (tree : BlockTree) {id : NodeId} {fresh : NodeId → Prop} (inside : fresh id)
    (patches : List Patch) : Patched fresh tree (tree.modifyNode id fun node => { node with patches }) where
  size := size_modifyNode ..
  kept other outside := by
    rw [node?_modifyNode, if_neg fun same : other = id => outside (same ▸ inside)]
  links := links_modifyNode fun _ _ => rfl

theorem Patched.trans {fresh : NodeId → Prop} (before : Patched fresh tree between)
    (behind : Patched fresh between final) : Patched fresh tree final where
  size := behind.size.trans before.size
  kept id outside := (behind.kept id outside).trans (before.kept id outside)
  links id := (behind.links id).trans (before.links id)

/-- Every copy has the patches of its node. -/
structure PatchesCopied (other : BlockTree) (nodes pairs : NodeMap) (tree final : BlockTree) : Prop where
  patched : Patched (· ∈ pairs.map Prod.snd) tree final
  each : ∀ pair ∈ pairs, ∃ node patches, other.node? pair.1 = some node ∧
    node.patches.mapM (Patch.rename nodes) = some patches ∧
      final.node? pair.2 = (tree.node? pair.2).map fun fresh => { fresh with patches }

/-- Where the patches of copies are given, or one of them names a node outside the subtree. -/
theorem copyPatches_ensures (nodes pairs : NodeMap) (tree : BlockTree)
    (distinct : (pairs.map Prod.snd).Nodup)
    (live : ∀ pair ∈ pairs, ∃ node, other.node? pair.1 = some node) :
    (pairs.forM (copyPatches other nodes)).Ensures tree
      (fun _ => PatchesCopied other nodes pairs tree)
      (fun final => Patched (· ∈ pairs.map Prod.snd) tree final ∧ ∃ pair ∈ pairs, ∃ node,
        other.node? pair.1 = some node ∧ node.patches.mapM (Patch.rename nodes) = none) := by
  induction pairs generalizing tree with
  | nil => exact Step.Ensures.of_ok rfl ⟨.refl _ tree, by simp⟩
  | cons first rest ih =>
      obtain ⟨node, found⟩ := live first List.mem_cons_self
      obtain ⟨apart, distinct⟩ := List.nodup_cons.1 distinct
      rw [Step.forM_cons]
      have more {between final : BlockTree}
          (patched : Patched (· ∈ rest.map Prod.snd) between final) :
          Patched (· ∈ (first :: rest).map Prod.snd) between final :=
        ⟨patched.size, fun id outside => patched.kept id fun inside =>
          outside (List.mem_cons_of_mem _ inside), patched.links⟩
      cases renamed : node.patches.mapM (Patch.rename nodes) with
      | none =>
          have run : copyPatches other nodes first tree =
              .error { cause := .tree (.patchOutside first.1.index) } tree := by
            unfold copyPatches
            rw [Step.bind_apply, node_of_some found]
            simp only [Step.monadLift_ok, renamed]
            rfl
          exact Step.Ensures.of_error (by rw [Step.bind_apply, run])
            ⟨.refl _ tree, first, List.mem_cons_self, node, found, renamed⟩
      | some patches =>
          have run : copyPatches other nodes first tree =
              .ok () (tree.modifyNode first.2 fun node => { node with patches }) := by
            unfold copyPatches
            rw [Step.bind_apply, node_of_some found]
            simp only [Step.monadLift_ok, renamed]
            rfl
          have here : Patched (· ∈ (first :: rest).map Prod.snd) tree _ :=
            patched_modifyNode tree List.mem_cons_self patches
          refine .behind run ((ih _ distinct fun pair inside =>
            live pair (List.mem_cons_of_mem _ inside)).imp
            (fun _ final ⟨patched, each⟩ => ⟨here.trans (more patched), fun pair inside => ?_⟩)
            fun final ⟨patched, pair, inside, outside⟩ =>
              ⟨here.trans (more patched), pair, List.mem_cons_of_mem _ inside, outside⟩)
          rcases List.mem_cons.1 inside with rfl | later
          · refine ⟨node, patches, found, renamed, ?_⟩
            rw [patched.kept _ apart, node?_modifyNode, if_pos rfl]
          · obtain ⟨other, patches', there, renamed', after⟩ := each pair later
            have different : pair.2 ≠ first.2 := fun same =>
              apart (same ▸ List.mem_map_of_mem later)
            refine ⟨other, patches', there, renamed', ?_⟩
            rw [after, node?_modifyNode, if_neg different]

/-- A copy stands for everything that the copied node owns. -/
theorem Copied.mem_keys {id old : NodeId} {pairs : NodeMap} (copied : Copied other id tree final pairs) :
    old ∈ pairs.map Prod.fst ↔ other.Owns id old := by
  constructor
  · intro inside
    obtain ⟨pair, listed, rfl⟩ := List.mem_map.1 inside
    exact copied.owned pair listed
  · intro owns
    induction owns with
    | top => exact List.mem_map.2 ⟨_, copied.root, rfl⟩
    | @child parent old node _ found inside ih =>
        obtain ⟨pair, listed, rfl⟩ := List.mem_map.1 ih
        obtain ⟨node', fresh, here, _, content, _⟩ := copied.whole.each pair listed
        cases found.symm.trans here
        obtain ⟨copy, _, listed'⟩ := content.child inside
        exact List.mem_map.2 ⟨_, listed', rfl⟩

/-- A patch of a subtree names a node outside, so no copy of it is finished. -/
structure Unimported (other : BlockTree) (id : NodeId) (tree final : BlockTree) : Prop where
  enlarged : tree.Enlarged final
  outside : ∃ pairs : NodeMap, (∀ old, other.Owns id old → old ∈ pairs.map Prod.fst) ∧
    ∃ old node, other.Owns id old ∧ other.node? old = some node ∧
      node.patches.mapM (Patch.rename pairs) = none

/-- Where a subtree is copied with its patches. -/
theorem importNode_ensures (source : other.Forest) {id : NodeId} (live : (other.shape? id).isSome)
    (forest : tree.Forest) :
    (importNode other id).Ensures tree
      (fun copy final => copy = tree.fresh ∧ ∃ pairs, Imported other id tree final pairs)
      (Unimported other id tree) := by
  obtain ⟨pairs, between, run, copied⟩ := @copyNodes_ok other tree source (other.nodes.size + 1) id []
    forest live (by omega)
  have enlarged {final : BlockTree} (patched : Patched (· ∈ pairs.map Prod.snd) between final) :
      tree.Enlarged final := by
    refine ⟨copied.whole.forest.of_links patched.links,
      fun linked => (copied.whole.linked linked).of_links patched.links, ?_, fun id before => ?_⟩
    · rw [patched.size, copied.whole.size]
      omega
    · rw [patched.kept id fun inside => ?_, copied.kept id before]
      obtain ⟨pair, listed, rfl⟩ := List.mem_map.1 inside
      have range := copied.whole.bounds listed
      omega
  have patches : (pairs.forM (copyPatches other pairs)).Ensures between
      (fun _ => PatchesCopied other pairs pairs between) (Unimported other id tree) := by
    refine (copyPatches_ensures pairs pairs between copied.whole.values fun pair inside => ?_).imp
      (fun _ _ here => here) fun final ⟨patched, pair, inside, node, found, outside⟩ => ?_
    · obtain ⟨node, _, found, _⟩ := copied.whole.each pair inside
      exact ⟨node, found⟩
    · exact ⟨enlarged patched, pairs, fun old => copied.mem_keys.2, pair.1, node, copied.owned pair inside, found, outside⟩
  unfold importNode
  refine .behind run (.bind patches fun _ final ⟨patched, each⟩ => ⟨rfl, pairs, ?_⟩)
  exact {
    enlarged := enlarged patched
    root := copied.root
    orphan := (parent?_of_links (patched.links _)).trans copied.orphan
    fresh := fun pair inside => (copied.whole.bounds inside).1
    keys := copied.whole.keys
    values := copied.whole.values
    owned := fun _ => copied.mem_keys
    each := fun pair inside => by
      obtain ⟨node, fresh, found, here, content, _⟩ := copied.whole.each pair inside
      obtain ⟨node', patches, found', renamed, after⟩ := each pair inside
      cases found.symm.trans found'
      rw [here] at after
      exact ⟨node, _, found, after, ⟨content.kind, content.tag, content.offset,
        content.length, content.children⟩, renamed⟩ }

end BlockTree
end DexArsc
