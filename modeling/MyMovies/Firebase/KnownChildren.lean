import MyMovies.Firebase.AnsweredWrites

/-!
# Known children

Server data can come child by child, before the listen is complete.  The view
then shows the children that it knows, with the pending writes on top, as long
as no write erases below a value.  With that, the assertion of the filter about
an unchanged child holds whenever a rejected write is taken back.
-/

namespace MyMovies
namespace Firebase

open Foundation Overlay

namespace FViewProcessor

variable {old : FViewCache} {writesCache : FWriteTree} {P P' : Pending String LeafValue}

/-- The event cache shows every child of the server data that no pending write covers. -/
def ChildrenShown (viewCache : FViewCache) (P : Pending String LeafValue) : Prop :=
  forall k, viewCache.cachedServerSnap.isCompleteForChild k = true -> P [k] = none -> forall q,
    viewCache.cachedEventSnap.node.values (k :: q) =
      applied P viewCache.cachedServerSnap.node.values (k :: q)

theorem Agrees.childrenShown (h : Agrees old P)
    (hfull : old.cachedServerSnap.isFullyInitialized = true) : ChildrenShown old P :=
  fun k _ _ q => congrFun (h.shown (Or.inl hfull)).right (k :: q)

theorem ChildrenShown.beside {new : FViewCache} (hold : ChildrenShown old P) (hvalid : old.Valid)
    (hnew : new.Valid)
    (hfull : new.cachedServerSnap.isFullyInitialized = old.cachedServerSnap.isFullyInitialized)
    {k : String} (hpending : forall q, P (k :: q) = P' (k :: q))
    (hevent : forall q, new.cachedEventSnap.node.values (k :: q) =
      old.cachedEventSnap.node.values (k :: q))
    (hserver : forall q, new.cachedServerSnap.node.values (k :: q) =
      old.cachedServerSnap.node.values (k :: q))
    (hcomplete : new.cachedServerSnap.isCompleteForChild k = true) (hnone : P' [k] = none)
    (q : List String) :
    new.cachedEventSnap.node.values (k :: q) =
      applied P' new.cachedServerSnap.node.values (k :: q) := by
  rw [isCompleteForChild_congr hnew.server hvalid.server hfull hserver] at hcomplete
  calc
    new.cachedEventSnap.node.values (k :: q) = old.cachedEventSnap.node.values (k :: q) := hevent q
    _ = applied P old.cachedServerSnap.node.values (k :: q) :=
        hold k hcomplete ((hpending []).trans hnone) q
    _ = applied P' old.cachedServerSnap.node.values (k :: q) :=
        applied_congr_pending fun r => hpending (q ++ r)
    _ = applied P' new.cachedServerSnap.node.values (k :: q) :=
        (applied_congr (hserver q)).symm

/-- Replacing what stands below a key depends on what stands there only. -/
theorem write_congr_child {d e : List String -> Option LeafValue} {k : String}
    (h : forall q, d (k :: q) = e (k :: q)) (p q : List String)
    (new : List String -> Option LeafValue) :
    write d (k :: p) new (k :: q) = write e (k :: p) new (k :: q) := by
  rw [write_cons_self, write_cons_self, show (fun q => d (k :: q)) = fun q => e (k :: q) from
    funext h]

/-!
## Writes of the user
-/

theorem writtenChild_values (hold : ChildrenShown old P) (hvalid : old.Valid)
    (htree : writesCache.Inv) {childKey : String} {rest : List String}
    (hpath : ValidPath (childKey :: rest)) {changedSnap : FNode} (hsnap : ValidNode changedSnap)
    (hpending : pending writesCache = add P (childKey :: rest) changedSnap.values)
    (hclear : Vacant changedSnap.values ->
      Clear old.cachedServerSnap.node.values (childKey :: rest))
    (hcomplete : old.cachedServerSnap.isCompleteForChild childKey = true) (hrest : rest ≠ [])
    (hnone : P [childKey] = none) (q : List String) :
    (writtenChild old writesCache none childKey rest changedSnap).values q =
      applied (pending writesCache) old.cachedServerSnap.node.values (childKey :: q) := by
  cases hevent : old.cachedEventSnap.isCompleteForChild childKey with
  | true =>
      have hchild : (old.cachedEventSnap.node.child childKey).values =
          fun q => applied P old.cachedServerSnap.node.values (childKey :: q) :=
        funext (hold childKey hcomplete hnone)
      rw [writtenChild_known hevent,
        ValidNode.values_update (hvalid.event.child childKey) hsnap hpath.tail, hchild, hpending,
        applied_add hclear, write_cons_self]
  | false =>
      -- the child is computed with the new write, which is then written once more
      have hcompute : completeChild old writesCache none childKey =
          writesCache.calculateCompleteChildAtPath [] childKey old.cachedServerSnap := by
        unfold completeChild
        exact if_neg (by simp [hevent])
      rcases Option.ne_none_iff_exists'.mp (@completeChild_ne_none writesCache _ _
        hcomplete) with ⟨child, hchild⟩
      rcases completeChild_spec htree hvalid.server hchild with ⟨hwf, hvalues⟩
      have hself : write child.values rest changedSnap.values = child.values := by
        apply write_self (KeyedTree.solid_values child)
        intro r
        rw [hvalues, hpending]
        exact applied_some (add_below P (childKey :: rest) changedSnap.values r)
      cases rest with
      | nil => exact absurd rfl hrest
      | cons j rest =>
          simp only [writtenChild, hcompute, hchild]
          rw [ValidNode.values_update hwf hsnap hpath.tail, hself, hvalues]

theorem ChildrenShown.userOverwrite (hold : ChildrenShown old P) (hvalid : old.Valid)
    (htree : writesCache.Inv) {changePath : List String} (hpath : ValidPath changePath)
    {changedSnap : FNode} (hsnap : ValidNode changedSnap)
    (hpending : pending writesCache = add P changePath changedSnap.values)
    (hclear : Vacant changedSnap.values -> Clear old.cachedServerSnap.node.values changePath)
    {r : Processed} (h : UserWrite old changePath changedSnap writesCache none r) :
    ChildrenShown r.1 (pending writesCache) := by
  intro k hcomplete hnone q
  rcases relate changePath [k] with ⟨s, hs⟩ | ⟨j, s, rfl⟩ | hapart
  · -- the write covers the child
    rw [hpending, hs, add_below] at hnone
    cases hnone
  · have hP : P [k] = none := by
      have habove := add_above P [k] j s changedSnap.values
      rw [← hpending, hnone] at habove
      exact Option.map_eq_none_iff.mp habove.symm
    rw [h.server] at hcomplete ⊢
    rw [h.child k (j :: s) rfl]
    rw [show k :: q = [k] ++ q from rfl, write_below]
    exact writtenChild_values hold hvalid htree hpath hsnap hpending hclear hcomplete
      (List.cons_ne_nil j s) hP q
  · cases changePath with
    | nil => exact absurd hapart (not_apart_nil [k])
    | cons c rest =>
        refine hold.beside hvalid h.valid (by rw [h.server]) ?_ ?_ (fun _ => by rw [h.server])
          hcomplete hnone q
        · intro q
          rw [hpending]
          exact (add_apart P (hapart.append q) _).symm
        · intro q
          rw [h.child c rest rfl, write_cons_ne _ (apart_key.mp hapart)]

/-!
## Data of the server
-/

theorem ServerEvent.child_shown {mid : FViewCache} {childKey : String} {rest : List String}
    {r : Processed} (h : ServerEvent mid (childKey :: rest) writesCache r)
    (hnone : pending writesCache (childKey :: rest) = none)
    (hcomplete : r.1.cachedServerSnap.isCompleteForChild childKey = true)
    {d : List String -> Option LeafValue}
    (hbefore : forall q, mid.cachedEventSnap.node.values (childKey :: q) = d (childKey :: q))
    (happlied : applied (pending writesCache) mid.cachedServerSnap.node.values =
      write d (childKey :: rest) fun q =>
        applied (pending writesCache) mid.cachedServerSnap.node.values (childKey :: rest ++ q))
    (q : List String) :
    r.1.cachedEventSnap.node.values (childKey :: q) =
      applied (pending writesCache) r.1.cachedServerSnap.node.values (childKey :: q) := by
  have hchild := (h.child childKey rest rfl).right hnone
  rw [h.server] at hcomplete ⊢
  cases hevent : mid.cachedEventSnap.isCompleteForChild childKey with
  | true =>
      rw [hchild.known hevent, write_congr_child hbefore]
      exact (congrFun happlied (childKey :: q)).symm
  | false => exact hchild.missing hevent hcomplete q

theorem ChildrenShown.serverOverwrite (hold : ChildrenShown old (pending writesCache))
    (hvalid : old.Valid) (htree : writesCache.Inv) {changePath : List String}
    (hpath : ValidPath changePath) {changedSnap : FNode} (hsnap : ValidNode changedSnap)
    (hvisible : Visible (pending writesCache) old.cachedServerSnap.node.values) {r : Processed}
    (h : applyServerOverwriteTo old changePath changedSnap writesCache = some r)
    (hunready : r.1.cachedServerSnap.isFullyInitialized = false) :
    ChildrenShown r.1 (pending writesCache) := by
  have hclosed := closed_pending writesCache
  rcases applyServerOverwriteTo_spec hvalid htree hpath hsnap with ⟨r', hr', hcases⟩
  rw [h] at hr'
  cases hr'
  rcases hcases with ⟨rfl, _⟩ | ⟨mid, hupdate, hevent⟩
  · exact hold
  · cases changePath with
    | nil =>
        rw [hevent.server, hupdate.full] at hunready
        simp at hunready
    | cons c rest =>
        intro k hcomplete hnone
        by_cases hk : k = c
        · subst hk
          by_cases hcovered : pending writesCache (k :: rest) = none
          · cases rest with
            | nil => exact hevent.shown hnone hcomplete
            | cons j rest =>
                have hknown := hupdate.known k (j :: rest) rfl (List.cons_ne_nil j rest)
                apply hevent.child_shown hcovered hcomplete
                  (d := applied (pending writesCache) old.cachedServerSnap.node.values)
                · intro q
                  rw [hupdate.event]
                  exact hold k hknown hnone q
                · rw [hupdate.values]
                  exact applied_write_of_none hclosed hvisible hcovered
          · have hrest : rest ≠ [] := by
              rintro rfl
              exact hcovered hnone
            intro q
            rw [hevent.shadowed hcovered, hupdate.event, hevent.server, hupdate.values,
              applied_write_of_some hclosed hvisible hcovered]
            exact hold k (hupdate.known k rest rfl hrest) hnone q
        · have hfull : r.1.cachedServerSnap.isFullyInitialized =
              old.cachedServerSnap.isFullyInitialized := by
            rw [hevent.server, hupdate.full]
            simp
          refine hold.beside hvalid hevent.valid hfull (fun _ => rfl) ?_ ?_ hcomplete hnone
          · intro q
            rw [(hevent.child c rest rfl).left.apart k q hk, hupdate.event]
          · intro q
            rw [hevent.server, hupdate.values, write_cons_ne _ hk]

/-!
## Answers
-/

theorem AgreeOff.beside {path : List String} (h : AgreeOff path P P') {k : String}
    (hapart : Apart path [k]) (q : List String) : P (k :: q) = P' (k :: q) :=
  h (k :: q) (hapart.append q).left

theorem ChildrenShown.ack (hold : ChildrenShown old P) (hvalid : old.Valid) {path : List String}
    (hoff : AgreeOff path P (pending writesCache)) (hnone : pending writesCache path = none)
    (hclear : Clear old.cachedServerSnap.node.values path)
    (hunready : old.cachedServerSnap.isFullyInitialized = false) {r : Processed}
    (h : Acked old path writesCache r) : ChildrenShown r.1 (pending writesCache) := by
  have hclosed := closed_pending writesCache
  cases path with
  | nil => exact (h.merged hnone rfl hunready).shown hunready
  | cons c rest =>
      intro k hcomplete hk
      cases hpath : old.cachedServerSnap.isCompleteForPath (c :: rest) with
      | false =>
          rw [h.unknown hpath (List.cons_ne_nil c rest)] at hcomplete ⊢
          have hne : k ≠ c := by
            rintro rfl
            rw [show old.cachedServerSnap.isCompleteForChild k = false from hpath] at hcomplete
            cases hcomplete
          exact hold.beside hvalid hvalid rfl (AgreeOff.beside hoff (apart_key.mpr hne))
            (fun _ => rfl) (fun _ => rfl) hcomplete hk
      | true =>
          rcases h.reapplied hnone hpath with ⟨mid, hupdate, hevent⟩
          have hserver : mid.cachedServerSnap.node.values = old.cachedServerSnap.node.values :=
            hupdate.same
          by_cases hne : k = c
          · subst hne
            cases rest with
            | nil => exact hevent.shown hk hcomplete
            | cons j rest =>
                have hP : P [k] = none := (hoff [k] (by simp)).trans hk
                apply hevent.child_shown hnone hcomplete
                  (d := applied P old.cachedServerSnap.node.values)
                · intro q
                  rw [hupdate.event]
                  exact hold k hpath hP q
                · rw [hserver]
                  exact hoff.applied_of_clear hclosed hnone hclear
          · refine hold.beside hvalid h.valid h.full
              (AgreeOff.beside hoff (apart_key.mpr hne)) ?_ ?_ hcomplete hk
            · intro q
              rw [(hevent.child c rest rfl).left.apart k q hne, hupdate.event]
            · intro q
              rw [hevent.server, hserver]

theorem ChildrenShown.revert (hold : ChildrenShown old P) (hvalid : old.Valid)
    {path : List String} (hoff : AgreeOff path P (pending writesCache))
    (hnone : pending writesCache path = none)
    (hunready : old.cachedServerSnap.isFullyInitialized = false) {r : Processed}
    (h : Reverted old path writesCache r) : ChildrenShown r.1 (pending writesCache) := by
  have hchildren := h.children hnone hunready
  intro k hcomplete hk
  by_cases hapart : Apart path [k]
  · exact hold.beside hvalid h.valid (by rw [h.server]) (AgreeOff.beside hoff hapart)
      (hchildren.apart k · hapart) (fun _ => by rw [h.server]) hcomplete hk
  · rw [h.server] at hcomplete ⊢
    exact hchildren.shown k hapart hcomplete hk

theorem complete_of_calculated (htree : writesCache.Inv) {cache : FCacheNode} {childKey : String}
    {child : FNode} (hnone : pending writesCache [childKey] = none)
    (h : writesCache.calculateCompleteChildAtPath [] childKey cache = some child) :
    cache.isCompleteForChild childKey = true := by
  have hnode : writesCache.visibleWrites.completeNodeAtPath [childKey] = none := by
    rw [FCompoundWrite.completeNode_isSome_iff, htree.pending]
    exact hnone
  by_contra hunknown
  simp only [FWriteTree.calculateCompleteChildAtPath, List.nil_append, hnode, if_neg hunknown] at h
  cases h

/-- Taking a write back changes the child at its path, or nothing of it. -/
theorem ChildrenShown.restorable (hold : ChildrenShown old P) (hvalid : old.Valid)
    (htree : writesCache.Inv) {path : List String}
    (hoff : AgreeOff path P (pending writesCache)) (hnone : pending writesCache path = none) :
    Restorable old path writesCache := by
  intro childKey rest newChild hpath hchild
  subst hpath
  rcases completeChild_spec htree hvalid.server hchild with ⟨hnew, hvalues⟩
  cases rest with
  | nil => exact settled_child hvalid.event hnew childKey
  | cons j rest =>
      intro hunchanged
      have hk : pending writesCache [childKey] = none :=
        (closed_pending writesCache).none_above hnone
      have hP : P [childKey] = none := (hoff [childKey] (by simp)).trans hk
      have hcomplete := complete_of_calculated htree hk hchild
      have hbelow := ((unchangedAt_iff hvalid.event hnew).mp hunchanged).left
      have happlied : applied P old.cachedServerSnap.node.values =
          applied (pending writesCache) old.cachedServerSnap.node.values := by
        apply hoff.applied_of_below (closed_pending writesCache) hnone
          (KeyedTree.solid_values old.cachedServerSnap.node)
        intro q
        have hq := hbelow q
        rw [show childKey :: (j :: rest) ++ q = childKey :: (j :: rest ++ q) from rfl,
          hold childKey hcomplete hP, hvalues] at hq
        exact hq
      funext q
      show old.cachedEventSnap.node.values (childKey :: q) = newChild.values q
      rw [hold childKey hcomplete hP, hvalues, happlied]

end FViewProcessor

end Firebase
end MyMovies
