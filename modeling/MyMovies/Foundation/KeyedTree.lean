import Mathlib.Data.List.Sigma

/-!
# Keyed trees with pruning writes

A keyed tree is a leaf value or a finite map from keys to subtrees.  The tree
without children stands for "nothing here", and a write that leaves a subtree
empty removes its key, so emptiness never stays inside a tree.  Reading a child
is total: an absent key, or any key of a leaf, reads as the empty tree.

The children are kept in the keyed lists of Mathlib, so lookup, insertion and
removal are the ones proved there.
-/

namespace MyMovies
namespace Foundation

/-- A leaf value, or children under distinct keys. -/
inductive KeyedTree (Key Value : Type) where
  | leaf (value : Value)
  | node (children : List (Sigma fun _ : Key => KeyedTree Key Value))

namespace KeyedTree

variable {Key Value : Type}

def empty : KeyedTree Key Value := .node []

def isEmpty : KeyedTree Key Value -> Bool
  | .leaf _ => false
  | .node cs => cs.isEmpty

def isLeaf : KeyedTree Key Value -> Bool
  | .leaf _ => true
  | .node _ => false

/-- Keys of the children, in the order in which they are enumerated. -/
def keys : KeyedTree Key Value -> List Key
  | .leaf _ => []
  | .node cs => cs.keys

/--
Trees that writes can produce: keys are distinct and valid, and no child is
empty.
-/
inductive WellFormed (Valid : Key -> Prop) : KeyedTree Key Value -> Prop where
  | leaf (v : Value) : WellFormed Valid (.leaf v)
  | node (cs : List (Sigma fun _ : Key => KeyedTree Key Value)) :
      cs.NodupKeys ->
      (forall c, c ∈ cs -> Valid c.1) ->
      (forall c, c ∈ cs -> c.2.isEmpty = false) ->
      (forall c, c ∈ cs -> WellFormed Valid c.2) ->
      WellFormed Valid (.node cs)

theorem isEmpty_iff {t : KeyedTree Key Value} : t.isEmpty = true <-> t = empty := by
  cases t with
  | leaf v => simp [isEmpty, empty]
  | node cs => simp [isEmpty, empty]

@[simp] theorem isEmpty_empty : (empty : KeyedTree Key Value).isEmpty = true := rfl

@[simp] theorem keys_empty : (empty : KeyedTree Key Value).keys = [] := rfl

@[simp] theorem isLeaf_empty : (empty : KeyedTree Key Value).isLeaf = false := rfl

theorem wellFormed_empty (Valid : Key -> Prop) :
    WellFormed Valid (empty : KeyedTree Key Value) :=
  .node [] List.nodupKeys_nil (by simp) (by simp) (by simp)

theorem WellFormed.nodup_keys {Valid : Key -> Prop} {t : KeyedTree Key Value}
    (h : WellFormed Valid t) : t.keys.Nodup := by
  cases h with
  | leaf v => exact List.nodup_nil
  | node cs hnd hvalid hne hwf => exact hnd

/-!
## Lists of writes
-/

def under (k : Key) (writes : List (List Key × KeyedTree Key Value)) :
    List (List Key × KeyedTree Key Value) :=
  writes.map fun w => (k :: w.1, w.2)

def ValidWrites (Valid : Key -> Prop) (writes : List (List Key × KeyedTree Key Value)) : Prop :=
  forall w, w ∈ writes -> (forall k, k ∈ w.1 -> Valid k) ∧ w.2.WellFormed Valid

theorem ValidWrites.under {Valid : Key -> Prop}
    {writes : List (List Key × KeyedTree Key Value)} (h : ValidWrites Valid writes) {k : Key}
    (hk : Valid k) : ValidWrites Valid (under k writes) := by
  intro w hw
  rcases List.mem_map.mp hw with ⟨w', hw', rfl⟩
  refine ⟨?_, (h w' hw').right⟩
  intro j hj
  rcases List.mem_cons.mp hj with rfl | hj
  · exact hk
  · exact (h w' hw').left j hj

def direct (fields : List (Key × KeyedTree Key Value)) : List (List Key × KeyedTree Key Value) :=
  fields.map fun f => ([f.1], f.2)

variable [DecidableEq Key]

def child : KeyedTree Key Value -> Key -> KeyedTree Key Value
  | .leaf _, _ => empty
  | .node cs, k => (cs.dlookup k).getD empty

/--
Put a subtree under a key.  An empty subtree removes the key, and does nothing
to a leaf; a nonempty one turns a leaf into a tree with that one child.
-/
def setChild : KeyedTree Key Value -> Key -> KeyedTree Key Value -> KeyedTree Key Value
  | .leaf v, k, new => if new.isEmpty then .leaf v else .node [⟨k, new⟩]
  | .node cs, k, new =>
      if new.isEmpty then .node (cs.kerase k) else .node (cs.kinsert k new)

def update : KeyedTree Key Value -> List Key -> KeyedTree Key Value -> KeyedTree Key Value
  | _, [], new => new
  | t, k :: path, new => t.setChild k ((t.child k).update path new)

/-!
## Reading after writing
-/

@[simp] theorem child_leaf (v : Value) (k : Key) :
    (.leaf v : KeyedTree Key Value).child k = empty := rfl

@[simp] theorem child_empty (k : Key) :
    (empty : KeyedTree Key Value).child k = empty := rfl

theorem child_setChild_self {Valid : Key -> Prop} {t : KeyedTree Key Value}
    (ht : WellFormed Valid t) (k : Key) (new : KeyedTree Key Value) :
    (t.setChild k new).child k = new := by
  cases hnew : new.isEmpty with
  | true =>
      rw [isEmpty_iff.mp hnew]
      cases ht with
      | leaf v => rfl
      | node cs hnd hvalid hne hwf =>
          simp [setChild, child, List.dlookup_kerase k hnd]
  | false =>
      cases t with
      | leaf v => simp [setChild, child, hnew]
      | node cs => simp [setChild, child, hnew]

theorem child_setChild_ne {t : KeyedTree Key Value} {j k : Key} (hjk : j ≠ k)
    (new : KeyedTree Key Value) : (t.setChild k new).child j = t.child j := by
  cases hnew : new.isEmpty with
  | true =>
      cases t with
      | leaf v => simp [setChild, hnew]
      | node cs => simp [setChild, child, hnew, List.dlookup_kerase_ne hjk]
  | false =>
      cases t with
      | leaf v => simp [setChild, child, hnew, List.dlookup_cons_ne, hjk]
      | node cs =>
          simp only [setChild, child, hnew, Bool.false_eq_true, if_false]
          rw [List.dlookup_kinsert_ne hjk]

@[simp] theorem update_nil (t new : KeyedTree Key Value) : t.update [] new = new := rfl

theorem update_cons (t new : KeyedTree Key Value) (k : Key) (path : List Key) :
    t.update (k :: path) new = t.setChild k ((t.child k).update path new) := rfl

theorem child_update_self {Valid : Key -> Prop} {t : KeyedTree Key Value}
    (ht : WellFormed Valid t) (k : Key) (path : List Key)
    (new : KeyedTree Key Value) :
    (t.update (k :: path) new).child k = (t.child k).update path new :=
  child_setChild_self ht k _

theorem child_update_ne {t : KeyedTree Key Value} {j k : Key} (hjk : j ≠ k)
    (path : List Key) (new : KeyedTree Key Value) :
    (t.update (k :: path) new).child j = t.child j :=
  child_setChild_ne hjk _

theorem update_empty_empty (path : List Key) :
    (empty : KeyedTree Key Value).update path empty = empty := by
  cases path with
  | nil => rfl
  | cons k path =>
      rw [update_cons, child_empty, update_empty_empty path]
      rfl

theorem isLeaf_setChild_of_isEmpty {t new : KeyedTree Key Value} (k : Key)
    (hnew : new.isEmpty = true) : (t.setChild k new).isLeaf = t.isLeaf := by
  cases t <;> simp [setChild, hnew, isLeaf]

/-!
## Keys and well-formedness
-/

theorem mem_keys_iff {Valid : Key -> Prop} {t : KeyedTree Key Value}
    (ht : WellFormed Valid t) (k : Key) :
    k ∈ t.keys <-> (t.child k).isEmpty = false := by
  cases ht with
  | leaf v => simp [keys]
  | node cs hnd hvalid hne hwf =>
      cases hk : cs.dlookup k with
      | none =>
          simp only [keys, child, hk, Option.getD_none, isEmpty_empty]
          simpa using List.dlookup_eq_none.mp hk
      | some c =>
          have hmem := List.of_mem_dlookup (Option.mem_def.mpr hk)
          simp only [keys, child, hk, Option.getD_some, hne _ hmem, iff_true]
          exact List.mem_keys_of_mem hmem

theorem isEmpty_iff_child {Valid : Key -> Prop} {t : KeyedTree Key Value}
    (ht : WellFormed Valid t) (hleaf : t.isLeaf = false) :
    t.isEmpty = true <-> forall k, (t.child k).isEmpty = true := by
  constructor
  · intro h k
    rw [isEmpty_iff.mp h]
    rfl
  · intro h
    cases t with
    | leaf v => cases hleaf
    | node cs =>
        cases cs with
        | nil => rfl
        | cons c cs =>
            have hmem : c.1 ∈ (KeyedTree.node (c :: cs)).keys := by simp [keys]
            rw [mem_keys_iff ht, h c.1] at hmem
            cases hmem

theorem WellFormed.child {Valid : Key -> Prop} {t : KeyedTree Key Value}
    (ht : WellFormed Valid t) (k : Key) : WellFormed Valid (t.child k) := by
  cases ht with
  | leaf v => exact wellFormed_empty Valid
  | node cs hnd hvalid hne hwf =>
      cases hk : cs.dlookup k with
      | none =>
          simp only [KeyedTree.child, hk, Option.getD_none]
          exact wellFormed_empty Valid
      | some c =>
          simp only [KeyedTree.child, hk, Option.getD_some]
          exact hwf _ (List.of_mem_dlookup (Option.mem_def.mpr hk))

theorem WellFormed.setChild {Valid : Key -> Prop} {t new : KeyedTree Key Value}
    (ht : WellFormed Valid t) (hnew : WellFormed Valid new) {k : Key}
    (hk : Valid k) : WellFormed Valid (t.setChild k new) := by
  cases ht with
  | leaf v =>
      cases he : new.isEmpty with
      | true =>
          simp only [KeyedTree.setChild, he, if_true]
          exact .leaf v
      | false =>
          simp only [KeyedTree.setChild, he]
          exact .node _ (List.nodupKeys_singleton _) (by simpa using hk)
            (by simpa using he) (by simpa using hnew)
  | node cs hnd hvalid hne hwf =>
      have hsub : forall c, c ∈ cs.kerase k -> c ∈ cs :=
        fun c hc => (List.kerase_sublist k cs).subset hc
      cases he : new.isEmpty with
      | true =>
          simp only [KeyedTree.setChild, he, if_true]
          exact .node _ (hnd.kerase k) (fun c hc => hvalid c (hsub c hc))
            (fun c hc => hne c (hsub c hc)) (fun c hc => hwf c (hsub c hc))
      | false =>
          simp only [KeyedTree.setChild, he]
          refine .node _ (List.kinsert_nodupKeys k new hnd) ?_ ?_ ?_
          · intro c hc
            rcases List.mem_cons.mp hc with rfl | hc
            · exact hk
            · exact hvalid c (hsub c hc)
          · intro c hc
            rcases List.mem_cons.mp hc with rfl | hc
            · exact he
            · exact hne c (hsub c hc)
          · intro c hc
            rcases List.mem_cons.mp hc with rfl | hc
            · exact hnew
            · exact hwf c (hsub c hc)

theorem WellFormed.update {Valid : Key -> Prop} {t new : KeyedTree Key Value}
    (ht : WellFormed Valid t) (hnew : WellFormed Valid new) {path : List Key}
    (hpath : forall k, k ∈ path -> Valid k) :
    WellFormed Valid (t.update path new) := by
  induction path generalizing t with
  | nil => exact hnew
  | cons k path ih =>
      have hrest := ih (ht.child k)
        (fun k' hk' => hpath k' (List.mem_cons_of_mem k hk'))
      exact ht.setChild hrest (hpath k List.mem_cons_self)

theorem keys_perm {Valid : Key -> Prop} {t u : KeyedTree Key Value}
    (ht : WellFormed Valid t) (hu : WellFormed Valid u)
    (h : forall k, (t.child k).isEmpty = (u.child k).isEmpty) :
    t.keys.Perm u.keys := by
  apply (List.perm_ext_iff_of_nodup ht.nodup_keys hu.nodup_keys).mpr
  intro k
  rw [mem_keys_iff ht, mem_keys_iff hu, h k]

theorem isEmpty_eq_false_of_child {t : KeyedTree Key Value} {k : Key}
    (hk : (t.child k).isEmpty = false) : t.isEmpty = false := by
  cases ht : t.isEmpty with
  | false => rfl
  | true =>
      rw [isEmpty_iff.mp ht, child_empty, isEmpty_empty] at hk
      cases hk

/-!
## Batches of writes
-/

def updates (t : KeyedTree Key Value) (writes : List (List Key × KeyedTree Key Value)) :
    KeyedTree Key Value :=
  writes.foldl (fun t w => t.update w.1 w.2) t

theorem WellFormed.updates {Valid : Key -> Prop} {t : KeyedTree Key Value}
    (ht : WellFormed Valid t) {writes : List (List Key × KeyedTree Key Value)}
    (hw : ValidWrites Valid writes) : WellFormed Valid (t.updates writes) := by
  induction writes generalizing t with
  | nil => exact ht
  | cons w rest ih =>
      have hfirst := hw w List.mem_cons_self
      exact ih (ht.update hfirst.right hfirst.left)
        (fun w' hw' => hw w' (List.mem_cons_of_mem w hw'))

theorem child_updates_under_self {Valid : Key -> Prop} {t : KeyedTree Key Value}
    (ht : WellFormed Valid t) {k : Key} (hk : Valid k)
    {writes : List (List Key × KeyedTree Key Value)} (hw : ValidWrites Valid writes) :
    (t.updates (under k writes)).child k = (t.child k).updates writes := by
  induction writes generalizing t with
  | nil => rfl
  | cons w rest ih =>
      have hrest : ValidWrites Valid rest := fun w' hw' => hw w' (List.mem_cons_of_mem w hw')
      have hfirst := (ValidWrites.under hw hk) (k :: w.1, w.2) (by simp [KeyedTree.under])
      have hstep := ih (ht.update hfirst.right hfirst.left) hrest
      calc (t.updates (KeyedTree.under k (w :: rest))).child k
          = ((t.update (k :: w.1) w.2).updates (KeyedTree.under k rest)).child k := rfl
        _ = ((t.update (k :: w.1) w.2).child k).updates rest := hstep
        _ = ((t.child k).update w.1 w.2).updates rest := by rw [child_update_self ht]
        _ = (t.child k).updates (w :: rest) := rfl

theorem child_updates_under_ne {t : KeyedTree Key Value} {j k : Key} (hjk : j ≠ k)
    (writes : List (List Key × KeyedTree Key Value)) :
    (t.updates (under k writes)).child j = t.child j := by
  induction writes generalizing t with
  | nil => rfl
  | cons w rest ih =>
      have hstep := ih (t := t.update (k :: w.1) w.2)
      rw [child_update_ne hjk] at hstep
      exact hstep

theorem child_updates_direct_of_not_mem {t : KeyedTree Key Value} {k : Key}
    {fields : List (Key × KeyedTree Key Value)} (hk : k ∉ fields.map Prod.fst) :
    (t.updates (direct fields)).child k = t.child k := by
  induction fields generalizing t with
  | nil => rfl
  | cons f rest ih =>
      rw [List.map_cons, List.mem_cons, not_or] at hk
      have hstep := ih (t := t.update [f.1] f.2) hk.right
      rw [child_update_ne hk.left] at hstep
      exact hstep

theorem child_updates_direct_of_mem {Valid : Key -> Prop} {t : KeyedTree Key Value}
    (ht : WellFormed Valid t) {fields : List (Key × KeyedTree Key Value)}
    (hw : ValidWrites Valid (direct fields)) (hnodup : (fields.map Prod.fst).Nodup)
    {f : Key × KeyedTree Key Value} (hf : f ∈ fields) :
    (t.updates (direct fields)).child f.1 = f.2 := by
  induction fields generalizing t with
  | nil => cases hf
  | cons g rest ih =>
      rw [List.map_cons, List.nodup_cons] at hnodup
      have hfirst := hw ([g.1], g.2) (by simp [direct])
      have hrest : ValidWrites Valid (direct rest) :=
        fun w' hw' => hw w' (List.mem_cons_of_mem _ hw')
      rcases List.mem_cons.mp hf with rfl | hf
      · have hstep := child_updates_direct_of_not_mem (t := t.update [f.1] f.2) hnodup.left
        rw [child_update_self ht] at hstep
        exact hstep
      · exact ih (ht.update hfirst.right hfirst.left) hrest hnodup.right hf

theorem isLeaf_updates_direct {t : KeyedTree Key Value}
    {fields : List (Key × KeyedTree Key Value)}
    (hempty : forall f, f ∈ fields -> f.2.isEmpty = true) :
    (t.updates (direct fields)).isLeaf = t.isLeaf := by
  induction fields generalizing t with
  | nil => rfl
  | cons f rest ih =>
      have hstep := ih (t := t.update [f.1] f.2)
        (fun g hg => hempty g (List.mem_cons_of_mem f hg))
      have hfirst : (t.update [f.1] f.2).isLeaf = t.isLeaf :=
        isLeaf_setChild_of_isEmpty f.1 (hempty f List.mem_cons_self)
      exact hstep.trans hfirst

end KeyedTree
end Foundation
end MyMovies
