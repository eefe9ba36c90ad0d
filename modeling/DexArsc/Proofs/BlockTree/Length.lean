/-
The lengths that leaves report. A leaf reports the number of its bytes when it is created, replaced or laid out. A
change in place that alters this number goes unnoticed until the next replacement or layout.
-/

import DexArsc.Proofs.BlockTree.Copy
import DexArsc.Proofs.BlockTree.Refreshed

namespace DexArsc

/-- What a leaf reports as its length, and the number of its bytes. -/
structure Gauge where
  reported : UInt64
  held : Nat

/-- The gauge of a leaf. -/
def Node.gauge? (node : Node) : Option Gauge :=
  match node.kind with
  | .leaf bytes => some ⟨node.length, bytes.size⟩
  | _ => none

theorem Node.gauge?_of_leaf {node : Node} {bytes : Bytes} (kind : node.kind = .leaf bytes) :
    node.gauge? = some ⟨node.length, bytes.size⟩ := by
  rw [gauge?, kind]

/-- A node with a gauge is a leaf. -/
theorem Node.leaf_of_gauge? {node : Node} {gauge : Gauge} (found : node.gauge? = some gauge) :
    ∃ bytes, node.kind = .leaf bytes ∧ gauge = ⟨node.length, bytes.size⟩ := by
  unfold gauge? at found
  split at found
  · rename_i bytes kind
    exact ⟨bytes, kind, (Option.some.inj found).symm⟩
  · cases found

@[simp] theorem Node.gauge?_blank (node : Node) : node.blank.gauge? = node.gauge? := by
  by_cases isLeaf : ∃ bytes, node.kind = .leaf bytes
  · obtain ⟨bytes, kind⟩ := isLeaf
    rw [blank_leaf kind, gauge?_of_leaf kind, gauge?_of_leaf rfl, Array.size_replicate]
  · rw [blank_of_ne_leaf fun bytes kind => isLeaf ⟨bytes, kind⟩]

theorem Node.CopiedBy.gauge?_eq {pairs : NodeMap} {node fresh : Node} (copied : node.CopiedBy pairs fresh) :
    fresh.gauge? = node.gauge? := by
  rw [gauge?, gauge?, copied.kind, copied.length]

namespace BlockTree

open Relation (ReflTransGen)

variable {tree other between final : BlockTree} {id : NodeId}

/-- The gauge of a live leaf. -/
def gauge? (tree : BlockTree) (id : NodeId) : Option Gauge :=
  (tree.node? id).bind Node.gauge?

theorem gauge?_of_some {node : Node} (live : tree.node? id = some node) : tree.gauge? id = node.gauge? := by
  rw [gauge?, live, Option.bind_some]

theorem gauge?_of_leaf {bytes : Bytes} (found : tree.leaf id = .ok bytes) :
    tree.gauge? id = some ⟨tree.byteCount id, bytes.size⟩ := by
  obtain ⟨node, live, kind⟩ := leaf_eq_ok.1 found
  rw [gauge?_of_some live, Node.gauge?_of_leaf kind, byteCount, live]

/-- A place with a gauge is that of a leaf. -/
theorem leaf_of_gauge? {gauge : Gauge} (found : tree.gauge? id = some gauge) :
    ∃ bytes, tree.leaf id = .ok bytes ∧ gauge = ⟨tree.byteCount id, bytes.size⟩ := by
  obtain ⟨node, live, here⟩ := Option.bind_eq_some_iff.1 found
  obtain ⟨bytes, kind, rfl⟩ := Node.leaf_of_gauge? here
  exact ⟨bytes, leaf_eq_ok.2 ⟨node, live, kind⟩, by rw [byteCount, live]⟩

theorem gauge?_congr (same : final.node? id = tree.node? id) : final.gauge? id = tree.gauge? id := by
  rw [gauge?, gauge?, same]

theorem gauge?_modifyNode (tree : BlockTree) (id other : NodeId) {change : Node → Node}
    (same : ∀ node, (change node).gauge? = node.gauge?) :
    (tree.modifyNode id change).gauge? other = tree.gauge? other := by
  rw [gauge?, gauge?, node?_modifyNode]
  split
  · cases tree.node? other with
    | none => rfl
    | some node => exact same node
  · rfl

theorem gauge?_modifyNode_of_ne {other : NodeId} (apart : other ≠ id) (change : Node → Node) :
    (tree.modifyNode id change).gauge? other = tree.gauge? other :=
  gauge?_congr (by rw [node?_modifyNode, if_neg apart])

theorem Refilled.gauge?_eq (refilled : Refilled tree final) (id : NodeId) : final.gauge? id = tree.gauge? id := by
  have view (node? : Option Node) : node?.bind Node.gauge? = (node?.map Node.blank).bind Node.gauge? := by
    cases node? <;> simp
  rw [gauge?, view, refilled.nodes id, ← view, ← gauge?]

/-- The leaves are as they were, or fewer: no length that they report and no number of bytes is another one. -/
def KeepsGauges (tree final : BlockTree) : Prop :=
  ∀ id gauge, final.gauge? id = some gauge → tree.gauge? id = some gauge

namespace KeepsGauges

theorem refl (tree : BlockTree) : tree.KeepsGauges tree :=
  fun _ _ found => found

theorem trans (before : tree.KeepsGauges between) (behind : between.KeepsGauges final) : tree.KeepsGauges final :=
  fun id gauge found => before id gauge (behind id gauge found)

theorem of_same (same : ∀ id, final.gauge? id = tree.gauge? id) : tree.KeepsGauges final :=
  fun id _ found => same id ▸ found

theorem modifyNode (id : NodeId) {change : Node → Node} (same : ∀ node, (change node).gauge? = node.gauge?) :
    tree.KeepsGauges (tree.modifyNode id change) :=
  .of_same fun other => gauge?_modifyNode tree id other same

theorem adopt (parent child : NodeId) (arrange : List NodeId → List NodeId) :
    tree.KeepsGauges (tree.adopt parent child arrange) := by
  unfold BlockTree.adopt
  refine .of_same fun other => (gauge?_modifyNode _ child other ?_).trans (gauge?_modifyNode tree parent other ?_)
  · exact fun _ => rfl
  · exact fun _ => rfl

theorem erase (id : NodeId) : tree.KeepsGauges (tree.erase id) := by
  intro other gauge found
  rw [gauge?, node?_erase] at found
  split at found
  · cases found
  · exact found

/-- A walk that frees nodes measures none. -/
theorem free (fuel : Nat) (id : NodeId) (tree : BlockTree) : tree.KeepsGauges (tree.free fuel id) := by
  induction fuel generalizing id tree with
  | zero => exact .refl tree
  | succ fuel ih =>
      have row (children : List NodeId) (start : BlockTree) :
          start.KeepsGauges (children.foldl (fun tree child => tree.free fuel child) start) := by
        induction children generalizing start with
        | nil => exact .refl start
        | cons child rest next => exact (ih child start).trans (next _)
      unfold BlockTree.free
      split
      · exact .refl tree
      · exact (erase id).trans (row _ _)

/-- A fresh node that is no leaf measures nothing. -/
theorem push {node : Node} (other : node.gauge? = none) : tree.KeepsGauges (tree.push node) := by
  intro id gauge found
  rw [gauge?, node?_push] at found
  split at found
  · rw [Option.bind_some, other] at found
    cases found
  · exact found

theorem detach (id : NodeId) (tree : BlockTree) : (detach id).Leads KeepsGauges tree := by
  unfold BlockTree.detach
  refine .get (.check (.refl tree) fun node _ => ?_)
  split
  · exact .pure (.refl tree) _
  · exact .bind .trans (.modify (.modifyNode id fun _ => rfl)) fun _ between _ =>
      .get (.check (.refl between) fun _ _ => .modify (.modifyNode _ fun _ => rfl))

theorem sortChildren {κ : Type} (parent : NodeId) (le : κ → κ → Bool) (key : BlockTree → NodeId → κ)
    (tree : BlockTree) : (sortChildren parent le key).Leads KeepsGauges tree := by
  unfold BlockTree.sortChildren
  exact .get (.check (.refl tree) fun _ _ => .modify (.modifyNode parent fun _ => rfl))

theorem copyPatches (nodes : NodeMap) (pair : NodeId × NodeId) (tree : BlockTree) :
    (copyPatches other nodes pair).Leads KeepsGauges tree := by
  unfold BlockTree.copyPatches
  refine .check (.refl tree) fun node _ => ?_
  split
  · exact .modify (.modifyNode pair.2 fun _ => rfl)
  · exact .fail (.refl tree) _

end KeepsGauges

/-- The length that a leaf reported truly before it was resized in place, for every leaf that was. -/
abbrev Resized := NodeId → Option Nat

/-- Every leaf reports its number of bytes, or the one that it had before it was resized. -/
def Reports (tree : BlockTree) (resized : Resized) : Prop :=
  ∀ id gauge, tree.gauge? id = some gauge → gauge.reported = UInt64.ofNat ((resized id).getD gauge.held)

theorem Reports.of_kept {resized : Resized} (reports : tree.Reports resized)
    (kept : tree.KeepsGauges final) : final.Reports resized :=
  fun id gauge found => reports id gauge (kept id gauge found)

/-- The leaves that are resized behind an edit. A leaf is resized when it is changed in place to another number of
bytes, until it is replaced or laid out. -/
def Edit.resized (edit : Edit) (tree : BlockTree) (resized : Resized) : Resized := fun id =>
  match edit with
  | .newLeaf _ _ => if id = tree.fresh then none else resized id
  | .setLeaf leaf _ => if id = leaf then none else resized id
  | .refresh root => if tree.isAncestor root id then none else resized id
  | .modifyLeaf leaf change =>
    match tree.leaf leaf with
    | .ok bytes =>
      if id = leaf ∧ (change bytes).size ≠ bytes.size then some ((resized id).getD bytes.size) else resized id
    | .error _ => resized id
  | _ => resized id

/-- The leaves that are resized behind an import. A copy is resized when its leaf is. -/
def importedResized (other : BlockTree) (id : NodeId) (tree : BlockTree) (resized resized' : Resized) : Resized :=
  fun copy =>
    match copyNodes other (other.nodes.size + 1) id [] tree with
    | .ok (_, nodes) _ =>
      match NodeMap.find (nodes.map Prod.swap) copy with
      | some old => resized' old
      | none => resized copy
    | .error _ _ => resized copy

/-- The trees that edits and imports reach from the empty tree, whether they succeed or fail, with their resized
leaves. -/
inductive Tracked : BlockTree → Resized → Prop
  | empty : Tracked {} fun _ => none
  | edit {tree final : BlockTree} {resized : Resized} (edit : Edit) (tracked : Tracked tree resized)
      (ends : edit.step.Ends tree final) : Tracked final (edit.resized tree resized)
  | imported {tree other final : BlockTree} {resized resized' : Resized} (id : NodeId)
      (tracked : Tracked tree resized) (also : Tracked other resized')
      (ends : (importNode other id).Ends tree final) :
      Tracked final (importedResized other id tree resized resized')

/-- Every tree on the way of a run is tracked, and no other one is. -/
theorem reached_iff_tracked : Reached tree ↔ ∃ resized, Tracked tree resized := by
  constructor
  · intro reached
    induction reached with
    | empty => exact ⟨_, .empty⟩
    | edit edit _ ends ih =>
        obtain ⟨_, tracked⟩ := ih
        exact ⟨_, .edit edit tracked ends⟩
    | imported id _ _ ends ih also =>
        obtain ⟨_, tracked⟩ := ih
        obtain ⟨_, tracked'⟩ := also
        exact ⟨_, .imported id tracked tracked' ends⟩
  · rintro ⟨resized, tracked⟩
    induction tracked with
    | empty => exact .empty
    | edit edit _ ends ih => exact .edit edit ih ends
    | imported id _ _ ends ih also => exact .imported id ih also ends

variable {resized resized' : Resized}

theorem Reports.newLeaf (reports : tree.Reports resized) (tag : UInt32) (bytes : Bytes) :
    (tree.push { kind := .leaf bytes, tag, length := UInt64.ofNat bytes.size }).Reports
      ((Edit.newLeaf tag bytes).resized tree resized) := by
  intro id gauge found
  rw [gauge?, node?_push] at found
  simp only [Edit.resized]
  by_cases isFresh : id = tree.fresh
  · rw [if_pos isFresh, Option.bind_some, Node.gauge?_of_leaf rfl] at found
    cases found
    rw [if_pos isFresh]
    rfl
  · rw [if_neg isFresh] at found ⊢
    exact reports id gauge found

/-- A leaf that is replaced reports its bytes. -/
theorem Reports.setLeaf (reports : tree.Reports resized) (leaf : NodeId) (bytes : Bytes) :
    (setLeaf leaf bytes).Leads
      (fun tree final => final.Reports ((Edit.setLeaf leaf bytes).resized tree resized)) tree := by
  cases held : tree.leaf leaf with
  | error fault =>
      have refused : BlockTree.setLeaf leaf bytes tree = .error fault tree := by
        unfold BlockTree.setLeaf
        rw [Step.bind_ok (Step.get_apply _), Step.bind_apply, held]
        rfl
      refine ⟨.of_error refused fun id gauge found => ?_⟩
      obtain ⟨_, here, _⟩ := leaf_of_gauge? found
      have apart : id ≠ leaf := by
        rintro rfl
        cases held.symm.trans here
      simp only [Edit.resized, if_neg apart]
      exact reports id gauge found
  | ok old =>
      refine ⟨.of_ok (setLeaf_ok held bytes) fun id gauge found => ?_⟩
      by_cases same : id = leaf
      · obtain ⟨node, live, _⟩ := leaf_eq_ok.1 held
        simp only [Edit.resized, if_pos same]
        rw [gauge?, node?_modifyNode, if_pos same, same, live, Option.map_some, Option.bind_some,
          Node.gauge?_of_leaf rfl] at found
        cases found
        rfl
      · simp only [Edit.resized, if_neg same]
        rw [gauge?_modifyNode_of_ne same] at found
        exact reports id gauge found

/-- A leaf that is changed in place reports what it reported before. -/
theorem Reports.modifyLeaf (reports : tree.Reports resized) (leaf : NodeId) (change : Bytes → Bytes) :
    (modifyLeaf leaf change).Leads
      (fun tree final => final.Reports ((Edit.modifyLeaf leaf change).resized tree resized)) tree := by
  cases held : tree.leaf leaf with
  | error fault =>
      have refused : BlockTree.modifyLeaf leaf change tree = .error fault tree := by
        unfold BlockTree.modifyLeaf
        rw [Step.bind_ok (Step.get_apply _), Step.bind_apply, held]
        rfl
      refine ⟨.of_error refused fun id gauge found => ?_⟩
      simp only [Edit.resized, held]
      exact reports id gauge found
  | ok old =>
      refine ⟨.of_ok (modifyLeaf_eq held change) fun id gauge found => ?_⟩
      simp only [Edit.resized, held]
      by_cases same : id = leaf
      · obtain ⟨node, live, kind⟩ := leaf_eq_ok.1 held
        have before := reports leaf _ (by rw [gauge?_of_some live, Node.gauge?_of_leaf kind])
        rw [refill, gauge?, node?_modifyNode, if_pos same, same, live, Option.map_some, Option.bind_some,
          Node.gauge?_of_leaf rfl] at found
        cases found
        subst same
        by_cases kept : (change old).size = old.size
        · rw [if_neg fun resizes => resizes.2 kept, kept]
          exact before
        · rw [if_pos ⟨rfl, kept⟩]
          exact before
      · rw [if_neg fun resizes => same resizes.1]
        rw [refill, gauge?_modifyNode_of_ne same] at found
        exact reports id gauge found

/-- Behind a refresh the leaves below its root report their bytes, also where a patch failed, and the others are as
they were. -/
theorem Forest.refresh_gauges (forest : tree.Forest) {root : NodeId} {node : Node} (live : tree.node? root = some node)
    (ends : (refresh root).Ends tree final) :
    (∀ id gauge, tree.Owns root id → final.gauge? id = some gauge → gauge.reported = UInt64.ofNat gauge.held) ∧
      ∀ id, ¬tree.Owns root id → final.gauge? id = tree.gauge? id := by
  obtain ⟨stop, between, laidOut, written⟩ := forest.refresh_ends live ends
  have refilled : Refilled between final :=
    (Step.Leads.forM .refl .trans (fun pair _ tree => applyPatch_refills pair tree) between).ends written
  refine ⟨fun id gauge owned found => ?_, fun id apart => ?_⟩
  · obtain ⟨node, here, fits⟩ := laidOut.settled id ((laidOut.moved.owns_iff root id).2 owned)
    rw [refilled.gauge?_eq, gauge?_of_some here] at found
    obtain ⟨bytes, kind, rfl⟩ := Node.leaf_of_gauge? found
    simp only [Fits, kind] at fits
    exact fits
  · rw [refilled.gauge?_eq]
    exact gauge?_congr (laidOut.moved.others id apart)

theorem Reports.refresh (reports : tree.Reports resized) (forest : tree.Forest) (root : NodeId) :
    (refresh root).Leads (fun tree final => final.Reports ((Edit.refresh root).resized tree resized)) tree := by
  cases live : tree.node? root with
  | none =>
      have refused : BlockTree.refresh root tree = .error { cause := .tree (.notLive root.index) } tree := by
        unfold BlockTree.refresh
        rw [Step.bind_ok (Step.get_apply _), Step.bind_apply, layOut_of_not_live live]
      refine ⟨.of_error refused fun id gauge found => ?_⟩
      obtain ⟨node, here, _⟩ := Option.bind_eq_some_iff.1 found
      have apart : ¬tree.isAncestor root id = true := by
        rw [forest.isAncestor_iff]
        intro way
        rcases ReflTransGen.cases_head way with rfl | ⟨child, above, _⟩
        · cases live.symm.trans here
        · obtain ⟨shape, there, _⟩ := forest.parent above
          rw [shape?, live] at there
          cases there
      simp only [Edit.resized, if_neg apart]
      exact reports id gauge found
  | some node =>
      refine .of_ends fun final ends id gauge found => ?_
      obtain ⟨below, others⟩ := forest.refresh_gauges live ends
      have owns_iff : tree.isAncestor root id = true ↔ tree.Owns root id :=
        (forest.isAncestor_iff root id).trans (forest.owns_iff root id).symm
      simp only [Edit.resized]
      by_cases owned : tree.Owns root id
      · rw [if_pos (owns_iff.2 owned)]
        exact below id gauge owned found
      · rw [if_neg fun above => owned (owns_iff.1 above)]
        exact reports id gauge (others id owned ▸ found)

/-- An edit tells which leaves it resizes, whether it succeeds or fails. -/
theorem Reports.edit (reports : tree.Reports resized) (forest : tree.Forest) (edit : Edit)
    (ends : edit.step.Ends tree final) : final.Reports (edit.resized tree resized) := by
  have kept (leads : edit.step.Leads KeepsGauges tree) : final.Reports resized :=
    reports.of_kept (leads.ends ends)
  cases edit with
  | newLeaf tag bytes =>
      have made : (Edit.newLeaf tag bytes).step tree =
          .ok () (tree.push { kind := .leaf bytes, tag, length := UInt64.ofNat bytes.size }) := rfl
      rcases ends with ⟨_, run⟩ | ⟨_, run⟩
      · cases made.symm.trans run
        exact reports.newLeaf tag bytes
      · cases made.symm.trans run
  | setLeaf leaf bytes => exact (reports.setLeaf leaf bytes).ends ends
  | modifyLeaf leaf change => exact (reports.modifyLeaf leaf change).ends ends
  | refresh root => exact (reports.refresh forest root).discard.ends ends
  | newContainer tag => exact kept (Step.Leads.discard ⟨.of_ok (newContainer_apply tag tree) (.push rfl)⟩)
  | newPad padding => exact kept (Step.Leads.discard ⟨.of_ok rfl (.push rfl)⟩)
  | addChild parent child => exact kept ⟨(addChild_ensures parent child tree).imp
      (fun _ final ⟨same, _⟩ => same ▸ .adopt parent child _) fun final ⟨same, _⟩ => same ▸ .refl tree⟩
  | insertChild parent position child => exact kept ⟨(insertChild_ensures parent position child tree).imp
      (fun _ final ⟨same, _⟩ => same ▸ .adopt parent child _) fun final ⟨same, _⟩ => same ▸ .refl tree⟩
  | detach id => exact kept (KeepsGauges.detach id tree)
  | remove id => exact kept (.bind .trans (KeepsGauges.detach id tree) fun _ between _ =>
      .modify (.free _ id between))
  | sortChildren parent le key => exact kept (KeepsGauges.sortChildren parent le key tree)
  | addPatch id patch => exact kept ⟨(addPatch_ensures id patch tree).imp
      (fun _ final same => same ▸ .modifyNode id fun _ => rfl) fun final same => same ▸ .refl tree⟩
  | writeField field value => exact kept ((writeField_refills field value tree).imp
      fun final refilled => .of_same refilled.gauge?_eq)

/-- A copy has the gauge of the node that it stands for. -/
theorem Copied.gauge?_of_fresh {pairs : NodeMap} (copied : Copied other id tree between pairs) {copy : NodeId}
    (fresh : tree.nodes.size ≤ copy.index) {gauge : Gauge} (found : between.gauge? copy = some gauge) :
    ∃ old, NodeMap.find (pairs.map Prod.swap) copy = some old ∧ other.gauge? old = some gauge := by
  obtain ⟨node, live, here⟩ := Option.bind_eq_some_iff.1 found
  have listed : copy.index ∈ pairs.map fun pair => pair.2.index := by
    rw [copied.whole.fresh, List.mem_range'_1, ← copied.whole.size]
    exact ⟨fresh, index_lt live⟩
  obtain ⟨⟨old, copy'⟩, inside, same⟩ := List.mem_map.1 listed
  cases NodeId.eq_iff.2 same
  obtain ⟨node', _, there, live', content, _⟩ := copied.whole.each _ inside
  cases live.symm.trans live'
  refine ⟨old, NodeMap.find_of_mem ?_ (List.mem_map.2 ⟨_, inside, rfl⟩), ?_⟩
  · rw [List.map_map]
    exact copied.whole.values
  · rw [gauge?_of_some there, ← content.gauge?_eq, here]

/-- A copy reports what its leaf reports. -/
theorem Reports.imported (reports : tree.Reports resized) (forest : tree.Forest) (reports' : other.Reports resized')
    (source : other.Forest) (id : NodeId) : (importNode other id).Leads
      (fun tree final => final.Reports (importedResized other id tree resized resized')) tree := by
  cases live : other.node? id with
  | none =>
      have refused : copyNodes other (other.nodes.size + 1) id [] tree =
          .error { cause := .tree (.notLive id.index) } tree := by
        rw [copyNodes, Step.bind_apply, node_of_none live]
        rfl
      refine ⟨.of_error (by rw [importNode, Step.bind_apply, refused]) fun copy gauge found => ?_⟩
      simp only [importedResized, refused]
      exact reports copy gauge found
  | some node =>
      obtain ⟨pairs, between, run, copied⟩ := @copyNodes_ok other tree source (other.nodes.size + 1) id []
        forest (by rw [shape?_of_some live]; rfl) (by omega)
      rw [List.nil_append] at run
      have patches : (pairs.forM (copyPatches other pairs)).Leads KeepsGauges between :=
        .forM .refl .trans (fun pair _ tree => KeepsGauges.copyPatches pairs pair tree) between
      have ends (final : BlockTree) (kept : between.KeepsGauges final) :
          final.Reports (importedResized other id tree resized resized') := by
        intro copy gauge found
        simp only [importedResized, run]
        by_cases fresh : tree.nodes.size ≤ copy.index
        · obtain ⟨old, listed, there⟩ := copied.gauge?_of_fresh fresh (kept copy gauge found)
          rw [listed]
          exact reports' old gauge there
        · have unlisted : NodeMap.find (pairs.map Prod.swap) copy = none := by
            refine List.lookup_eq_none_iff.2 fun swapped listed => bne_iff_ne.2 ?_
            obtain ⟨pair, inside, rfl⟩ := List.mem_map.1 listed
            rintro rfl
            exact fresh (copied.whole.bounds inside).1
          rw [unlisted]
          refine reports copy gauge ?_
          rw [← kept copy gauge found]
          exact (gauge?_congr (copied.kept copy (by omega))).symm
      unfold importNode
      exact ⟨.behind run (.bind (patches.ensures.imp (fun _ => ends) ends) fun _ final holds => .of_ok rfl holds)⟩

theorem Tracked.reports (tracked : Tracked tree resized) : tree.Reports resized := by
  induction tracked with
  | empty =>
      intro id gauge found
      cases found
  | edit edit tracked ends ih => exact ih.edit (reached_iff_tracked.2 ⟨_, tracked⟩).forest edit ends
  | imported id tracked tracked' ends ih also =>
      exact (ih.imported (reached_iff_tracked.2 ⟨_, tracked⟩).forest also
        (reached_iff_tracked.2 ⟨_, tracked'⟩).forest id).ends ends

/-- A leaf reports its number of bytes on every tree of a run, unless it was resized in place since it was created,
replaced or laid out. Then it reports the number that it had before, so that it is right exactly when the numbers are
the same. -/
theorem byteCount_of_tracked (tracked : Tracked tree resized) {bytes : Bytes} (held : tree.leaf id = .ok bytes) :
    (∃ node, tree.node id = .ok node ∧ node.length = tree.byteCount id) ∧
      tree.byteCount id = UInt64.ofNat ((resized id).getD bytes.size) ∧
      (tree.byteCount id = UInt64.ofNat bytes.size ↔
        ∀ size ∈ resized id, UInt64.ofNat size = UInt64.ofNat bytes.size) := by
  obtain ⟨node, live, _⟩ := leaf_eq_ok.1 held
  have reported : tree.byteCount id = UInt64.ofNat ((resized id).getD bytes.size) :=
    tracked.reports id _ (gauge?_of_leaf held)
  refine ⟨⟨node, node_of_some live, by rw [byteCount, live]⟩, reported, ?_⟩
  rw [reported]
  cases resized id <;> simp

/-- A byte is appended to a leaf of one byte, which reports one byte until it is refreshed. -/
theorem byteCount_of_tracked_appended : ∃ (appended refreshed : BlockTree) (resized resized' : Resized),
    Tracked appended resized ∧ appended.leaf ⟨0⟩ = .ok #[1, 2] ∧ appended.byteCount ⟨0⟩ = 1 ∧
      Tracked refreshed resized' ∧ refreshed.leaf ⟨0⟩ = .ok #[1, 2] ∧ refreshed.byteCount ⟨0⟩ = 2 := by
  have leaf : Tracked _ _ := .edit (.newLeaf 0 #[1]) .empty (Step.ends_ok rfl)
  have appended : Tracked _ _ := .edit (.modifyLeaf ⟨0⟩ (·.push 2)) leaf (Step.ends_ok rfl)
  have refreshed : Tracked _ _ := .edit (.refresh ⟨0⟩) appended (Step.ends_ok rfl)
  refine ⟨_, _, _, _, appended, rfl, ?_, refreshed, rfl, ?_⟩
  · exact (@byteCount_of_tracked _ ⟨0⟩ _ appended #[1, 2] rfl).2.1
  · exact (@byteCount_of_tracked _ ⟨0⟩ _ refreshed #[1, 2] rfl).2.1

end BlockTree
end DexArsc
