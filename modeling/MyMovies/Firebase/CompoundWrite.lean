import MyMovies.Firebase.ImmutableTree

/-!
# The operations of a compound write

Adding a write merges it into the node that already covers its path, or drops
the writes below it.  Each operation is described by what it does to the
pending map; a compound write applied to a node is its pending map laid over the
values of the node.
-/

namespace MyMovies
namespace Firebase

open Foundation Overlay

abbrev Children := List (Sigma fun _ : String => FImmutableTree FNode)

def ValidPath (path : List String) : Prop := forall k, k ∈ path -> isValidKey k = true

theorem ValidPath.tail {front : String} {rest : List String} (h : ValidPath (front :: rest)) :
    ValidPath rest :=
  fun k hk => h k (List.mem_cons_of_mem front hk)

theorem ValidPath.head {front : String} {rest : List String} (h : ValidPath (front :: rest)) :
    isValidKey front = true :=
  h front List.mem_cons_self

abbrev ValidNode (node : FNode) : Prop := node.WellFormed fun k => isValidKey k = true

theorem ValidNode.values_update {node new : FNode} (hnode : ValidNode node)
    (hnew : ValidNode new) {path : List String} (hpath : ValidPath path) :
    (node.update path new).values = write node.values path new.values :=
  KeyedTree.WellFormed.values_update hnode hnew hpath

namespace FCompoundWrite

open FImmutableTree

def WellFormed (w : FCompoundWrite) : Prop := w.writeTree.WellFormed

def pending (w : FCompoundWrite) : Pending String LeafValue := w.writeTree.pending

theorem completeNode_isSome_iff {w : FCompoundWrite} {path : List String} :
    w.completeNodeAtPath path = none <-> w.pending path = none :=
  (@pending_eq_none_iff w.writeTree path).symm

theorem values_completeNode {w : FCompoundWrite} {path : List String} {node : FNode}
    (h : w.completeNodeAtPath path = some node) (rest : List String) :
    w.pending (path ++ rest) = some (node.values rest) :=
  pending_of_completeNode h rest

theorem wellFormed_emptyWrite : emptyWrite.WellFormed := FImmutableTree.wellFormed_empty

theorem pending_emptyWrite : emptyWrite.pending = fun _ => none := pending_empty

theorem pending_of_isEmpty {w : FCompoundWrite} (h : w.isEmpty = true) :
    w.pending = fun _ => none := by
  rw [pending, FImmutableTree.isEmpty_iff.mp h, pending_empty]

/-!
## Adding a write
-/

theorem addWrite_value (v : FNode) (node : FNode) (path : List String) :
    addWrite ⟨.mk (some v) []⟩ node path = ⟨.mk (some (v.update path node)) []⟩ := by
  cases path <;> rfl

theorem addWrite_nil (w : FCompoundWrite) (node : FNode) :
    addWrite w node [] = ⟨initWithValue node⟩ := rfl

/-- A write below the root goes into the child of its first key. -/
theorem addWrite_cons {cs : Children} (hcs : forall c, c ∈ cs -> FImmutableTree.WellFormed c.2)
    (node : FNode) (front : String) (rest : List String) :
    addWrite ⟨.mk none cs⟩ node (front :: rest) =
      ⟨.mk none (cs.kinsert front
        (addWrite ⟨(cs.dlookup front).getD empty⟩ node rest).writeTree)⟩ := by
  rw [addWrite, findRootMostValueAndPath]
  simp only [value_mk, children_mk]
  cases hlook : cs.dlookup front with
  | none =>
      cases rest with
      | nil => simp [setTree, addWrite, initWithValue, FImmutableTree.isEmpty]
      | cons k rest =>
          have hnone : empty.findRootMostValueAndPath (k :: rest) =
              (none : Option (List String × FNode)) := rfl
          simp only [Option.bind_none, Option.getD_none, addWrite, hnone]
          rw [setTree, children_mk, hlook, Option.getD_none, setTree_isEmpty rfl]
          rfl
  | some child =>
      have hchild := hcs _ (List.of_mem_dlookup (Option.mem_def.mpr hlook))
      cases rest with
      | nil =>
          cases hchild with
          | value v hv =>
              -- the old value and the path end at the same place
              simp only [Option.bind_some, Option.getD_some, findRootMostValueAndPath, value_mk,
                Option.map_some, setValue, children_mk, hlook]
              rfl
          | children ds hnd hvalid hwf =>
              simp [setTree, addWrite, initWithValue, FImmutableTree.isEmpty,
                findRootMostValueAndPath]
      | cons k rest =>
          simp only [Option.bind_some, Option.getD_some, addWrite]
          cases hfound : child.findRootMostValueAndPath (k :: rest) with
          | none =>
              simp only [Option.map_none]
              rw [setTree, children_mk, hlook, Option.getD_some, setTree_isEmpty rfl]
              rfl
          | some found =>
              simp only [Option.map_some]
              rw [setValue, children_mk, hlook, Option.getD_some]
              rfl

theorem wellFormed_kinsert {cs : Children} (hnd : cs.NodupKeys)
    (hvalid : forall c, c ∈ cs -> isValidKey c.1 = true)
    (hwf : forall c, c ∈ cs -> FImmutableTree.WellFormed c.2) {front : String}
    (hfront : isValidKey front = true) {child : FImmutableTree FNode}
    (hchild : child.WellFormed) :
    FImmutableTree.WellFormed (.mk none (cs.kinsert front child)) := by
  refine .children _ (List.kinsert_nodupKeys front _ hnd) ?_ ?_
  · intro c hc
    rcases List.mem_cons.mp hc with rfl | hc
    · exact hfront
    · exact hvalid c ((List.kerase_sublist front cs).subset hc)
  · intro c hc
    rcases List.mem_cons.mp hc with rfl | hc
    · exact hchild
    · exact hwf c ((List.kerase_sublist front cs).subset hc)

theorem WellFormed.addWrite {w : FCompoundWrite} (hw : w.WellFormed) {node : FNode}
    (hnode : ValidNode node) {path : List String} (hpath : ValidPath path) :
    (w.addWrite node path).WellFormed := by
  induction path generalizing w with
  | nil => exact .value node hnode
  | cons front rest ih =>
      rcases w with ⟨tree⟩
      cases hw with
      | value v hv =>
          rw [addWrite_value]
          exact .value _ (KeyedTree.WellFormed.update hv hnode hpath)
      | children cs hnd hvalid hwf =>
          rw [addWrite_cons hwf]
          exact wellFormed_kinsert hnd hvalid hwf hpath.head
            (ih (WellFormed.getD hwf front) hpath.tail)

/-- Adding a write adds it to the pending map. -/
theorem pending_addWrite {w : FCompoundWrite} (hw : w.WellFormed) {node : FNode}
    (hnode : ValidNode node) {path : List String} (hpath : ValidPath path) :
    (w.addWrite node path).pending = add w.pending path node.values := by
  induction path generalizing w with
  | nil =>
      rw [addWrite_nil, pending, initWithValue, pending_value]
      funext q
      exact (add_below w.pending [] node.values q).symm
  | cons front rest ih =>
      rcases w with ⟨tree⟩
      cases hw with
      | value v hv =>
          rw [addWrite_value, pending, pending, pending_value, pending_value,
            ValidNode.values_update hv hnode hpath, add_covered]
      | children cs hnd hvalid hwf =>
          have hrest := ih (WellFormed.getD hwf front) hpath.tail
          rw [addWrite_cons hwf]
          funext q
          cases q with
          | nil =>
              rw [pending, pending_nil, add, overlay]
              rfl
          | cons j q =>
              rw [pending, pending_cons, add]
              by_cases hj : j = front
              · subst hj
                rw [List.dlookup_kinsert, Option.getD_some, overlay_cons_self]
                have hshift : (fun r => pending ⟨.mk none cs⟩ (j :: r)) =
                    pending ⟨(cs.dlookup j).getD empty⟩ := by
                  funext r
                  exact pending_cons cs j r
                rw [hshift]
                exact congrFun hrest q
              · rw [List.dlookup_kinsert_ne hj, overlay_cons_ne hj]
                exact (pending_cons cs j q).symm

/-!
## Removing a write
-/

theorem setTree_empty_empty (path : List String) :
    setTree empty path (empty : FImmutableTree FNode) = empty := by
  induction path with
  | nil => rfl
  | cons front rest ih =>
      have hchild : setTree empty rest ((([] : Children).dlookup front).getD empty) = empty := ih
      show setTree empty (front :: rest) (.mk none []) = empty
      simp only [setTree, children_mk, hchild]
      rfl

theorem wellFormed_setTree_empty {tree : FImmutableTree FNode} (h : tree.WellFormed)
    {path : List String} (hpath : ValidPath path) : (setTree empty path tree).WellFormed := by
  induction path generalizing tree with
  | nil => exact FImmutableTree.wellFormed_empty
  | cons front rest ih =>
      cases h with
      | value v hv =>
          rw [setTree]
          simp only [children_mk, value_mk, List.dlookup_nil, Option.getD_none,
            setTree_empty_empty]
          exact .value v hv
      | children cs hnd hvalid hwf =>
          have hrest := ih (WellFormed.getD hwf front) hpath.tail
          rw [setTree, value_mk, children_mk]
          by_cases hempty : (setTree empty rest ((cs.dlookup front).getD empty)).isEmpty = true
          · have hsub : forall c, c ∈ cs.kerase front -> c ∈ cs :=
              fun c hc => (List.kerase_sublist front cs).subset hc
            rw [if_pos hempty]
            exact .children _ (hnd.kerase front) (fun c hc => hvalid c (hsub c hc))
              (fun c hc => hwf c (hsub c hc))
          · rw [if_neg hempty]
            exact wellFormed_kinsert hnd hvalid hwf hpath.head hrest

theorem WellFormed.removeWriteAtPath {w : FCompoundWrite} (hw : w.WellFormed)
    {path : List String} (hpath : ValidPath path) : (w.removeWriteAtPath path).WellFormed := by
  cases path with
  | nil => exact wellFormed_emptyWrite
  | cons front rest => exact wellFormed_setTree_empty hw hpath

theorem pending_setTree_empty {tree : FImmutableTree FNode} (h : tree.WellFormed)
    {path : List String}
    (hnone : forall q k r, path = q ++ k :: r -> tree.pending q = none) (q : List String) :
    (setTree empty path tree).pending q = if path <+: q then none else tree.pending q := by
  induction path generalizing tree q with
  | nil => rw [setTree, pending_empty, if_pos List.nil_prefix]
  | cons front rest ih =>
      cases h with
      | value v hv =>
          have hroot := hnone [] front rest rfl
          rw [pending_value] at hroot
          cases hroot
      | children cs hnd hvalid hwf =>
          have hrest := ih (WellFormed.getD hwf front) (by
            intro q k r hq
            have hcons := hnone (front :: q) k r (by rw [hq]; rfl)
            rwa [pending_cons] at hcons)
          rw [setTree, value_mk, children_mk]
          cases q with
          | nil =>
              rw [pending_nil, pending_nil]
              simp
          | cons j q =>
              rw [pending_cons, pending_cons]
              by_cases hj : j = front
              · subst hj
                simp only [List.cons_prefix_cons, true_and]
                rw [← hrest q]
                by_cases hempty :
                    (setTree empty rest ((cs.dlookup j).getD empty)).isEmpty = true
                · rw [if_pos hempty, List.dlookup_kerase j hnd, Option.getD_none,
                    FImmutableTree.isEmpty_iff.mp hempty]
                · rw [if_neg hempty, List.dlookup_kinsert, Option.getD_some]
              · rw [if_neg (fun hpre => hj (List.cons_prefix_cons.mp hpre).left.symm)]
                by_cases hempty :
                    (setTree empty rest ((cs.dlookup front).getD empty)).isEmpty = true
                · rw [if_pos hempty, List.dlookup_kerase_ne hj]
                · rw [if_neg hempty, List.dlookup_kinsert_ne hj]

/-- Unless a write above covers the path, removing drops what is pending there. -/
theorem pending_removeWriteAtPath {w : FCompoundWrite} (hw : w.WellFormed)
    {path : List String} (hnone : forall q k r, path = q ++ k :: r -> w.pending q = none)
    (q : List String) :
    (w.removeWriteAtPath path).pending q = if path <+: q then none else w.pending q := by
  cases path with
  | nil =>
      rw [if_pos List.nil_prefix]
      exact congrFun pending_emptyWrite q
  | cons front rest => exact pending_setTree_empty hw hnone q

/-!
## Parts of a compound write
-/

theorem pending_subtreeAtPath {tree : FImmutableTree FNode} (h : tree.WellFormed)
    {path : List String} (hnone : tree.pending path = none) (q : List String) :
    (tree.subtreeAtPath path).pending q = tree.pending (path ++ q) := by
  induction path generalizing tree with
  | nil => rfl
  | cons front rest ih =>
      cases h with
      | value v hv =>
          rw [pending_value] at hnone
          cases hnone
      | children cs hnd hvalid hwf =>
          rw [pending_cons] at hnone
          have hrest := ih (WellFormed.getD hwf front) hnone
          rw [List.cons_append, pending_cons, ← hrest, subtreeAtPath, children_mk]
          cases cs.dlookup front with
          | some child => rfl
          | none =>
              rw [Option.getD_none]
              cases rest <;> rfl

theorem WellFormed.subtreeAtPath {tree : FImmutableTree FNode} (h : tree.WellFormed)
    (path : List String) : (tree.subtreeAtPath path).WellFormed := by
  induction path generalizing tree with
  | nil => exact h
  | cons front rest ih =>
      cases h with
      | value v hv => exact FImmutableTree.wellFormed_empty
      | children cs hnd hvalid hwf =>
          rw [FImmutableTree.subtreeAtPath, children_mk]
          cases hlook : cs.dlookup front with
          | none => exact FImmutableTree.wellFormed_empty
          | some child => exact ih (hwf _ (List.of_mem_dlookup (Option.mem_def.mpr hlook)))

/-- The compound write of a location holds what is pending below it. -/
theorem pending_childCompoundWriteAtPath {w : FCompoundWrite} (hw : w.WellFormed)
    (path : List String) :
    (w.childCompoundWriteAtPath path).pending = fun q => w.pending (path ++ q) := by
  cases path with
  | nil => rfl
  | cons front rest =>
      funext q
      rw [childCompoundWriteAtPath]
      cases hnode : w.completeNodeAtPath (front :: rest) with
      | some node =>
          rw [values_completeNode hnode q]
          exact congrFun (pending_value node []) q
      | none => exact pending_subtreeAtPath hw (completeNode_isSome_iff.mp hnode) q

theorem WellFormed.childCompoundWriteAtPath {w : FCompoundWrite} (hw : w.WellFormed)
    (path : List String) : (w.childCompoundWriteAtPath path).WellFormed := by
  cases path with
  | nil => exact hw
  | cons front rest =>
      rw [FCompoundWrite.childCompoundWriteAtPath]
      cases hnode : w.completeNodeAtPath (front :: rest) with
      | some node => exact .value node (FImmutableTree.WellFormed.completeNode hw hnode)
      | none => exact WellFormed.subtreeAtPath hw (front :: rest)

/-!
## Applying a compound write
-/

theorem validPath_append {path : List String} (hpath : ValidPath path) {k : String}
    (hk : isValidKey k = true) : ValidPath (path ++ [k]) := by
  intro j hj
  rcases List.mem_append.mp hj with hj | hj
  · exact hpath j hj
  · rw [List.mem_singleton.mp hj]
    exact hk

/-- What the recursion over the tree does to the values of the node. -/
theorem applySubtreeWrite_spec {tree : FImmutableTree FNode} (h : tree.WellFormed)
    (relativePath : List String) (hpath : ValidPath relativePath) {node : FNode}
    (hnode : ValidNode node) :
    ValidNode (applySubtreeWrite tree relativePath node) ∧
      (applySubtreeWrite tree relativePath node).values =
        applied (below relativePath tree.pending) node.values := by
  induction h generalizing relativePath node with
  | value v hv =>
      rw [applySubtreeWrite, pending_value, below_some, applied_add_none]
      exact ⟨KeyedTree.WellFormed.update hnode hv hpath, ValidNode.values_update hnode hv hpath⟩
  | children cs hnd hvalid hwf ih =>
      rw [applySubtreeWrite]
      induction cs generalizing node with
      | nil =>
          have hempty : FImmutableTree.pending (.mk none []) = fun _ => none := pending_empty
          rw [applyChildWrites, hempty]
          refine ⟨hnode, ?_⟩
          have hnone : below relativePath (fun _ => none : Pending String LeafValue) =
              fun _ => none := by
            funext q
            by_cases hq : relativePath <+: q
            · rcases hq with ⟨r, rfl⟩
              rw [below_append]
            · exact below_eq_none hq _
          rw [hnone, applied_none]
      | cons c rest ihrest =>
          rcases c with ⟨k, child⟩
          rw [applyChildWrites]
          have hk := hvalid ⟨k, child⟩ List.mem_cons_self
          have hfirst := ih ⟨k, child⟩ List.mem_cons_self _ (validPath_append hpath hk) hnode
          have hlast := ihrest (List.nodupKeys_cons.mp hnd).right
            (fun c hc => hvalid c (List.mem_cons_of_mem _ hc))
            (fun c hc => hwf c (List.mem_cons_of_mem _ hc))
            (fun c hc => ih c (List.mem_cons_of_mem _ hc)) hfirst.left
          refine ⟨hlast.left, ?_⟩
          have hrest : forall q, FImmutableTree.pending (.mk none rest) (k :: q) = none := by
            intro q
            rw [pending_cons, List.dlookup_eq_none.mpr (List.nodupKeys_cons.mp hnd).left]
            exact congrFun pending_empty q
          have hkey : forall q, FImmutableTree.pending (.mk none (⟨k, child⟩ :: rest)) (k :: q) =
              child.pending q := by
            intro q
            rw [pending_cons, List.dlookup_cons_eq]
            rfl
          rw [hlast.right, hfirst.right, applied_applied]
          · congr 1
            apply below_or hkey hrest rfl
            intro j q hj
            have hlook : List.dlookup j (⟨k, child⟩ :: rest) = List.dlookup j rest :=
              List.dlookup_cons_ne rest ⟨k, child⟩ hj
            rw [pending_cons, pending_cons, hlook]
          · exact (FImmutableTree.closed_pending child).below _
          · intro q
            by_cases hq : relativePath ++ [k] <+: q
            · right
              rcases hq with ⟨r, rfl⟩
              rw [List.append_assoc, below_append]
              exact hrest r
            · exact Or.inl (below_eq_none hq _)

/-- Applying a compound write lays its pending map over the values of the node. -/
theorem values_applyToNode {w : FCompoundWrite} (hw : w.WellFormed) {node : FNode}
    (hnode : ValidNode node) :
    (w.applyToNode node).values = applied w.pending node.values := by
  have hspec := applySubtreeWrite_spec hw [] (by simp [ValidPath]) hnode
  rw [below_nil] at hspec
  exact hspec.right

theorem WellFormed.applyToNode {w : FCompoundWrite} (hw : w.WellFormed) {node : FNode}
    (hnode : ValidNode node) : ValidNode (w.applyToNode node) :=
  (applySubtreeWrite_spec hw [] (by simp [ValidPath]) hnode).left

end FCompoundWrite

end Firebase
end MyMovies
