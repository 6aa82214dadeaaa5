import MyMovies.Foundation.KeyedTree
import MyMovies.Foundation.Overlay

/-!
# The values of a keyed tree

A keyed tree is read as the function from paths to the leaf values at them.
Trees without empty subtrees that have the same values are the same tree up to
the order of their children, and replacing a subtree is a write at its path.
-/

namespace MyMovies
namespace Foundation
namespace KeyedTree

open Overlay

variable {Key Value : Type}

def leafValue : KeyedTree Key Value -> Option Value
  | .leaf v => some v
  | .node _ => none

theorem leafValue_of_isLeaf {t : KeyedTree Key Value} :
    t.isLeaf = true <-> t.leafValue ≠ none := by
  cases t with
  | leaf v => simp [isLeaf, leafValue]
  | node cs => simp [isLeaf, leafValue]

variable [DecidableEq Key]

/-- The subtree at a path. -/
def descend (t : KeyedTree Key Value) (path : List Key) : KeyedTree Key Value :=
  path.foldl child t

def values (t : KeyedTree Key Value) (path : List Key) : Option Value :=
  (t.descend path).leafValue

/-- The same values at all paths. -/
def Same (t u : KeyedTree Key Value) : Prop := t.values = u.values

@[simp] theorem descend_nil (t : KeyedTree Key Value) : t.descend [] = t := rfl

theorem descend_cons (t : KeyedTree Key Value) (k : Key) (path : List Key) :
    t.descend (k :: path) = (t.child k).descend path := rfl

theorem descend_append (t : KeyedTree Key Value) (p q : List Key) :
    t.descend (p ++ q) = (t.descend p).descend q :=
  List.foldl_append

theorem values_nil (t : KeyedTree Key Value) : t.values [] = t.leafValue := rfl

theorem values_cons (t : KeyedTree Key Value) (k : Key) (path : List Key) :
    t.values (k :: path) = (t.child k).values path := rfl

theorem values_descend (t : KeyedTree Key Value) (p q : List Key) :
    (t.descend p).values q = t.values (p ++ q) := by
  rw [values, values, descend_append]

theorem descend_empty (path : List Key) :
    (empty : KeyedTree Key Value).descend path = empty := by
  induction path with
  | nil => rfl
  | cons k path ih => exact ih

theorem vacant_empty : Vacant (empty : KeyedTree Key Value).values := by
  intro q
  rw [values, descend_empty]
  rfl

theorem WellFormed.descend {Valid : Key -> Prop} {t : KeyedTree Key Value}
    (ht : WellFormed Valid t) (path : List Key) : WellFormed Valid (t.descend path) := by
  induction path generalizing t with
  | nil => exact ht
  | cons k path ih => exact ih (ht.child k)

theorem solid_values (t : KeyedTree Key Value) : Solid t.values := by
  intro q r hr hq
  cases r with
  | nil => exact absurd rfl hr
  | cons k r =>
      rw [values, descend_append]
      rw [values] at hq
      cases hdesc : t.descend q with
      | leaf v =>
          rw [descend_cons, child_leaf, descend_empty]
          rfl
      | node cs =>
          rw [hdesc] at hq
          exact absurd rfl hq

/-!
## Empty trees and equal trees
-/

theorem WellFormed.exists_value {Valid : Key -> Prop} {t : KeyedTree Key Value}
    (ht : WellFormed Valid t) (hne : t.isEmpty = false) : exists q, t.values q ≠ none := by
  induction ht with
  | leaf v => exact ⟨[], by simp [values_nil, leafValue]⟩
  | node cs hnd hvalid hchild hwf ih =>
      cases cs with
      | nil => simp [isEmpty] at hne
      | cons c cs =>
          rcases ih c List.mem_cons_self (hchild c List.mem_cons_self) with ⟨q, hq⟩
          refine ⟨c.1 :: q, ?_⟩
          rw [values_cons, KeyedTree.child, List.dlookup_cons_eq]
          exact hq

theorem WellFormed.vacant_iff {Valid : Key -> Prop} {t : KeyedTree Key Value}
    (ht : WellFormed Valid t) : Vacant t.values <-> t.isEmpty = true := by
  constructor
  · intro hvacant
    cases hne : t.isEmpty with
    | true => rfl
    | false =>
        rcases ht.exists_value hne with ⟨q, hq⟩
        exact absurd (hvacant q) hq
  · intro hempty
    rw [isEmpty_iff.mp hempty]
    exact vacant_empty

theorem Same.isEmpty {Valid : Key -> Prop} {t u : KeyedTree Key Value} (h : Same t u)
    (ht : WellFormed Valid t) (hu : WellFormed Valid u) : t.isEmpty = u.isEmpty := by
  have hiff : t.isEmpty = true <-> u.isEmpty = true := by
    rw [← ht.vacant_iff, ← hu.vacant_iff, show t.values = u.values from h]
  exact Bool.eq_iff_iff.mpr hiff

theorem Same.child {t u : KeyedTree Key Value} (h : Same t u) (k : Key) :
    Same (t.child k) (u.child k) := by
  funext q
  exact congrFun h (k :: q)

theorem Same.descend {t u : KeyedTree Key Value} (h : Same t u) (p : List Key) :
    Same (t.descend p) (u.descend p) := by
  funext q
  rw [values_descend, values_descend, show t.values = u.values from h]

theorem same_iff {t u : KeyedTree Key Value} :
    Same t u <-> t.leafValue = u.leafValue ∧ forall k, Same (t.child k) (u.child k) := by
  constructor
  · intro h
    exact ⟨congrFun h [], h.child⟩
  · rintro ⟨hleaf, hchild⟩
    funext q
    cases q with
    | nil => exact hleaf
    | cons k q => exact congrFun (hchild k) q

/-!
## Writes
-/

theorem WellFormed.clearedBy {Valid : Key -> Prop} {t : KeyedTree Key Value}
    (ht : WellFormed Valid t) (v : Option Value) :
    clearedBy t.values v = if t.isEmpty = true then v else none := by
  by_cases h : t.isEmpty = true
  · rw [if_pos h, clearedBy_vacant (ht.vacant_iff.mpr h)]
  · rw [if_neg h]
    have hne : t.isEmpty = false := by simpa using h
    rcases ht.exists_value hne with ⟨q, hq⟩
    exact clearedBy_of_ne hq v

theorem leafValue_setChild (t new : KeyedTree Key Value) (k : Key) :
    (t.setChild k new).leafValue = if new.isEmpty = true then t.leafValue else none := by
  cases hnew : new.isEmpty with
  | true => cases t <;> simp [setChild, hnew, leafValue]
  | false => cases t <;> simp [setChild, hnew, leafValue]

theorem WellFormed.values_setChild {Valid : Key -> Prop} {t new : KeyedTree Key Value}
    (ht : WellFormed Valid t) (hnew : WellFormed Valid new) (k : Key) :
    (t.setChild k new).values = write t.values [k] new.values := by
  funext q
  cases q with
  | nil =>
      rw [write_root, values_nil, leafValue_setChild, hnew.clearedBy]
      rfl
  | cons j q =>
      rw [values_cons]
      by_cases hjk : j = k
      · subst hjk
        rw [child_setChild_self ht]
        exact (write_below t.values [j] new.values q).symm
      · rw [child_setChild_ne hjk, write_cons_ne _ hjk]
        rfl

theorem isEmpty_update {Valid : Key -> Prop} {t new : KeyedTree Key Value}
    (ht : WellFormed Valid t) {path : List Key} (hne : new.isEmpty = false) :
    (t.update path new).isEmpty = false := by
  induction path generalizing t with
  | nil => exact hne
  | cons k path ih =>
      apply isEmpty_eq_false_of_child (k := k)
      rw [child_update_self ht]
      exact ih (ht.child k)

/-- Replacing a subtree is a write at its path. -/
theorem WellFormed.values_update {Valid : Key -> Prop} {t new : KeyedTree Key Value}
    (ht : WellFormed Valid t) (hnew : WellFormed Valid new) {path : List Key}
    (hpath : forall k, k ∈ path -> Valid k) :
    (t.update path new).values = write t.values path new.values := by
  induction path generalizing t with
  | nil =>
      funext q
      exact (write_below t.values [] new.values q).symm
  | cons k path ih =>
      have hrest := fun k' hk' => hpath k' (List.mem_cons_of_mem k hk')
      have hchild := ih (ht.child k) hrest
      have hwf := (ht.child k).update hnew hrest
      funext q
      rw [update_cons, ht.values_setChild hwf, hchild]
      cases q with
      | nil =>
          rw [write_root, write_root, ← hchild]
          rw [hwf.clearedBy, hnew.clearedBy]
          cases hne : new.isEmpty with
          | false =>
              rw [isEmpty_update (ht.child k) hne]
          | true =>
              rw [isEmpty_iff.mp hne]
              cases t with
              | leaf v => rw [child_leaf, update_empty_empty]; rfl
              | node cs => simp [values_nil, leafValue]
      | cons j q =>
          by_cases hjk : j = k
          · subst hjk
            rw [write_cons_self, write_cons_self]
            rfl
          · rw [write_cons_ne _ hjk, write_cons_ne _ hjk]

/-!
## Comparing two trees
-/

mutual

/-- Equality up to the order of the children. -/
def isEqual [DecidableEq Value] : KeyedTree Key Value -> KeyedTree Key Value -> Bool
  | .leaf v, .leaf w => decide (v = w)
  | .node cs, .node ds => decide (cs.length = ds.length) && isEqualList cs (.node ds)
  | _, _ => false

def isEqualList [DecidableEq Value] :
    List (Sigma fun _ : Key => KeyedTree Key Value) -> KeyedTree Key Value -> Bool
  | [], _ => true
  | ⟨k, c⟩ :: cs, t => isEqual c (t.child k) && isEqualList cs t

end

theorem isEqualList_iff [DecidableEq Value]
    {cs : List (Sigma fun _ : Key => KeyedTree Key Value)} {t : KeyedTree Key Value} :
    isEqualList cs t = true <-> forall c, c ∈ cs -> isEqual c.2 (t.child c.1) = true := by
  induction cs with
  | nil => simp [isEqualList]
  | cons c cs ih => simp [isEqualList, ih]

theorem child_node_of_mem {cs : List (Sigma fun _ : Key => KeyedTree Key Value)}
    (hnd : cs.NodupKeys) {c : Sigma fun _ : Key => KeyedTree Key Value} (hc : c ∈ cs) :
    (node cs).child c.1 = c.2 := by
  rw [child, Option.mem_def.mp (List.mem_dlookup hnd hc), Option.getD_some]

theorem keys_subset_of_same {Valid : Key -> Prop}
    {cs ds : List (Sigma fun _ : Key => KeyedTree Key Value)}
    (hc : WellFormed Valid (.node cs)) (hd : WellFormed Valid (.node ds))
    (h : forall c, c ∈ cs -> Same c.2 ((node ds).child c.1)) : cs.keys ⊆ ds.keys := by
  intro k hk
  rcases List.exists_of_mem_keys hk with ⟨c, hmem⟩
  cases hc with
  | node _ hnd hvalid hne hwf =>
      have hempty := (h _ hmem).isEmpty (hwf _ hmem) (hd.child k)
      rw [hne _ hmem] at hempty
      exact (mem_keys_iff hd k).mpr hempty.symm

/-- The comparison decides whether two trees have the same values. -/
theorem isEqual_iff [DecidableEq Value] {Valid : Key -> Prop}
    {t u : KeyedTree Key Value} (ht : WellFormed Valid t) (hu : WellFormed Valid u) :
    isEqual t u = true <-> Same t u := by
  induction ht generalizing u with
  | leaf v =>
      cases u with
      | leaf w =>
          rw [same_iff]
          simp only [isEqual, decide_eq_true_eq, leafValue, Option.some.injEq, child_leaf]
          exact ⟨fun h => ⟨h, fun _ => rfl⟩, fun h => h.left⟩
      | node ds =>
          have hne : ¬ Same (leaf v : KeyedTree Key Value) (node ds) := by
            intro h
            have hleaf := (same_iff.mp h).left
            cases hleaf
          simp [isEqual, hne]
  | node cs hnd hvalid hne hwf ih =>
      have hcs : WellFormed Valid (.node cs) := .node cs hnd hvalid hne hwf
      cases u with
      | leaf w =>
          have hne : ¬ Same (node cs : KeyedTree Key Value) (leaf w) := by
            intro h
            have hleaf := (same_iff.mp h).left
            cases hleaf
          simp [isEqual, hne]
      | node ds =>
          simp only [isEqual, Bool.and_eq_true, decide_eq_true_eq, isEqualList_iff]
          constructor
          · rintro ⟨hlength, hall⟩
            have hsame : forall c, c ∈ cs -> Same c.2 ((node ds).child c.1) :=
              fun c hc => (ih c hc (hu.child c.1)).mp (hall c hc)
            -- as many keys on both sides, so no key of the right one is missing
            have hperm : cs.keys.Perm ds.keys := by
              have hsub := List.subperm_of_subset hnd (keys_subset_of_same hcs hu hsame)
              apply hsub.perm_of_length_le
              simp [List.keys, hlength]
            apply same_iff.mpr
            refine ⟨rfl, ?_⟩
            intro k
            by_cases hk : k ∈ cs.keys
            · rcases List.exists_of_mem_keys hk with ⟨c, hmem⟩
              rw [child_node_of_mem hnd hmem]
              exact hsame _ hmem
            · have hkd : k ∉ ds.keys := fun h => hk (hperm.mem_iff.mpr h)
              rw [child, child, List.dlookup_eq_none.mpr hk, List.dlookup_eq_none.mpr hkd]
              rfl
          · intro h
            constructor
            · have hperm := keys_perm hcs hu
                (fun k => (h.child k).isEmpty (hcs.child k) (hu.child k))
              simpa [keys, List.keys] using hperm.length_eq
            · intro c hc
              apply (ih c hc (hu.child c.1)).mpr
              rw [← child_node_of_mem hnd hc]
              exact h.child c.1

end KeyedTree
end Foundation
end MyMovies
