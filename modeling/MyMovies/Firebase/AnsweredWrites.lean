import MyMovies.Firebase.ViewProcessor

/-!
# Answered writes in a view

When the server has answered a write, the view goes over the data at its path
once more: after an acceptance the server data that the write had hidden is
applied anew, after a rejection the event cache is rebuilt there from the server
data and the writes that are still pending.
-/

namespace MyMovies
namespace Firebase

open Foundation Overlay

/-!
## Operations one after the other
-/

theorem isLeaf_of_same {node node' : FNode} (h : KeyedTree.Same node node') :
    node.isLeaf = node'.isLeaf := by
  rw [Bool.eq_iff_iff, KeyedTree.leafValue_of_isLeaf, KeyedTree.leafValue_of_isLeaf,
    (KeyedTree.same_iff.mp h).left]

theorem Sound.append {old : FViewCache} {first last : Processed} (hfirst : Sound old first)
    (hlast : Sound first.1 last)
    (honce : ((first.2 ++ last.2).map FChange.childKey).Nodup)
    (hloud : KeyedTree.Same last.1.cachedEventSnap.node old.cachedEventSnap.node ->
      first.2 ++ last.2 = []) :
    Sound old (last.1, first.2 ++ last.2) where
  valid := hlast.valid
  once := honce
  loud := hloud
  quiet := by
    intro hnil
    rcases List.append_eq_nil_iff.mp hnil with ⟨hnil, hnil'⟩
    rcases hlast.quiet hnil' with hsame | hlast
    · rcases hfirst.quiet hnil with hsame' | hleaf | hempty
      · exact Or.inl (hsame.trans hsame')
      · right
        left
        rw [isLeaf_of_same hsame]
        exact hleaf
      · right
        right
        rw [hsame.isEmpty hlast.valid.event hfirst.valid.event]
        exact hempty
    · exact Or.inr hlast
  kept := fun hfull => hlast.kept (hfirst.kept hfull)

namespace FViewProcessor

variable {viewCache old : FViewCache} {writesCache : FWriteTree}

theorem applyServerOverwriteTo_child (hvalid : old.Valid) (htree : writesCache.Inv)
    {childKey : String} {rest : List String} (hpath : ValidPath (childKey :: rest))
    {changedSnap : FNode} (hsnap : ValidNode changedSnap) {r : Processed}
    (h : applyServerOverwriteTo old (childKey :: rest) changedSnap writesCache = some r) :
    ChildUpdate old childKey r := by
  rcases applyServerOverwriteTo_spec hvalid htree hpath hsnap with ⟨r', hr', hcases⟩
  rw [h] at hr'
  cases hr'
  rcases hcases with ⟨rfl, _⟩ | ⟨mid, hupdate, hevent⟩
  · exact childUpdate_same old childKey
  · have hchild := (hevent.child childKey rest rfl).left
    exact
      { tracked := hchild.tracked
        apart := by
          rw [← hupdate.event]
          exact hchild.apart
        heard := by
          rw [← hupdate.event]
          exact hchild.heard }

/-- Server data below the root does not complete the server cache. -/
theorem applyServerOverwriteTo_full (hvalid : old.Valid) (htree : writesCache.Inv)
    {childKey : String} {rest : List String} (hpath : ValidPath (childKey :: rest))
    {changedSnap : FNode} (hsnap : ValidNode changedSnap) {r : Processed}
    (h : applyServerOverwriteTo old (childKey :: rest) changedSnap writesCache = some r) :
    r.1.cachedServerSnap.isFullyInitialized = old.cachedServerSnap.isFullyInitialized := by
  rcases applyServerOverwriteTo_spec hvalid htree hpath hsnap with ⟨r', hr', hcases⟩
  rw [h] at hr'
  cases hr'
  rcases hcases with ⟨rfl, _⟩ | ⟨mid, hupdate, hevent⟩
  · rfl
  · rw [hevent.server, hupdate.full]
    simp

/-!
## Server data for several children
-/

theorem isCompleteForChild_congr {cache cache' : FCacheNode} (hcache : ValidNode cache.node)
    (hcache' : ValidNode cache'.node)
    (hfull : cache.isFullyInitialized = cache'.isFullyInitialized) {k : String}
    (hvalues : forall q, cache.node.values (k :: q) = cache'.node.values (k :: q)) :
    cache.isCompleteForChild k = cache'.isCompleteForChild k := by
  have hsame : KeyedTree.Same (cache.node.child k) (cache'.node.child k) := funext hvalues
  rw [FCacheNode.isCompleteForChild, FCacheNode.isCompleteForChild, hfull, hasChild, hasChild,
    hsame.isEmpty (hcache.child k) (hcache'.child k)]

theorem ServerEvent.shown {mid : FViewCache} {k : String} {r : Processed}
    (h : ServerEvent mid [k] writesCache r) (hnone : pending writesCache [k] = none)
    (hcomplete : r.1.cachedServerSnap.isCompleteForChild k = true) (q : List String) :
    r.1.cachedEventSnap.node.values (k :: q) =
      applied (pending writesCache) r.1.cachedServerSnap.node.values (k :: q) := by
  have hchild := (h.child k [] rfl).right hnone
  rw [h.server] at hcomplete ⊢
  cases hevent : mid.cachedEventSnap.isCompleteForChild k with
  | true =>
      rw [hchild.known hevent]
      exact write_below _ [k] _ q
  | false => exact hchild.missing hevent hcomplete q

/-- What is left of a view after server data for some of its children. -/
structure ServerChildren (old : FViewCache) (writesCache : FWriteTree) (keys : List String)
    (r : Processed) : Prop extends Sound old r where
  full : r.1.cachedServerSnap.isFullyInitialized = old.cachedServerSnap.isFullyInitialized
  tracked : (r.2.map FChange.childKey).Sublist keys
  apart : forall j q, j ∉ keys ->
    r.1.cachedEventSnap.node.values (j :: q) = old.cachedEventSnap.node.values (j :: q)
  server : forall j q, j ∉ keys ->
    r.1.cachedServerSnap.node.values (j :: q) = old.cachedServerSnap.node.values (j :: q)
  heard : (forall k q, k ∈ keys -> r.1.cachedEventSnap.node.values (k :: q) =
    old.cachedEventSnap.node.values (k :: q)) -> r.2 = []
  shown : forall k, k ∈ keys -> pending writesCache [k] = none ->
    r.1.cachedServerSnap.isCompleteForChild k = true -> forall q,
      r.1.cachedEventSnap.node.values (k :: q) =
        applied (pending writesCache) r.1.cachedServerSnap.node.values (k :: q)

theorem serverChildren_nil (hvalid : old.Valid) :
    ServerChildren old writesCache [] (old, []) where
  toSound := sound_same hvalid
  full := rfl
  tracked := List.nil_sublist _
  apart := fun _ _ _ => rfl
  server := fun _ _ _ => rfl
  heard := fun _ => rfl
  shown := fun _ hk => by cases hk

theorem ServerChildren.append {keys keys' : List String} {first last : Processed}
    (hfirst : ServerChildren old writesCache keys first)
    (hlast : ServerChildren first.1 writesCache keys' last)
    (hnodup : (keys ++ keys').Nodup) :
    ServerChildren old writesCache (keys ++ keys') (last.1, first.2 ++ last.2) := by
  have hdisjoint := (List.nodup_append'.mp hnodup).right.right
  have htracked : ((first.2 ++ last.2).map FChange.childKey).Sublist (keys ++ keys') := by
    rw [List.map_append]
    exact hfirst.tracked.append hlast.tracked
  have hheard : (forall k q, k ∈ keys ++ keys' -> last.1.cachedEventSnap.node.values (k :: q) =
      old.cachedEventSnap.node.values (k :: q)) -> first.2 ++ last.2 = [] := by
    intro hsame
    have hnil := hfirst.heard fun k q hk => by
      rw [← hlast.apart k q (fun hk' => hdisjoint hk hk')]
      exact hsame k q (List.mem_append_left _ hk)
    have hnil' := hlast.heard fun k q hk => by
      rw [hfirst.apart k q (fun hk' => hdisjoint hk' hk)]
      exact hsame k q (List.mem_append_right _ hk)
    rw [hnil, hnil']
    rfl
  exact
    { toSound := hfirst.toSound.append hlast.toSound (hnodup.sublist htracked)
        fun hsame => hheard fun k q _ => congrFun hsame (k :: q)
      full := hlast.full.trans hfirst.full
      tracked := htracked
      apart := by
        intro j q hj
        rw [List.mem_append, not_or] at hj
        exact (hlast.apart j q hj.right).trans (hfirst.apart j q hj.left)
      server := by
        intro j q hj
        rw [List.mem_append, not_or] at hj
        exact (hlast.server j q hj.right).trans (hfirst.server j q hj.left)
      heard := hheard
      shown := by
        intro k hk hnone hcomplete q
        rcases List.mem_append.mp hk with hk | hk
        · have hk' : k ∉ keys' := fun hk' => hdisjoint hk hk'
          have hsame := fun q => hlast.server k q hk'
          rw [isCompleteForChild_congr hlast.valid.server hfirst.valid.server hlast.full hsame]
            at hcomplete
          rw [hlast.apart k q hk', hfirst.shown k hk hnone hcomplete q]
          exact (applied_congr (hsame q)).symm
        · exact hlast.shown k hk hnone hcomplete q }

theorem serverChild_spec (hvalid : old.Valid) (htree : writesCache.Inv) {childKey : String}
    (hkey : isValidKey childKey = true) {changedSnap : FNode} (hsnap : ValidNode changedSnap) :
    exists r, applyServerOverwriteTo old [childKey] changedSnap writesCache = some r ∧
      ServerChildren old writesCache [childKey] r := by
  have hpath : ValidPath [childKey] := by
    intro k hk
    rw [List.mem_singleton.mp hk]
    exact hkey
  rcases applyServerOverwriteTo_spec hvalid htree hpath hsnap with ⟨r, hr, hcases⟩
  have hupdate := applyServerOverwriteTo_child hvalid htree hpath hsnap hr
  refine ⟨r, hr, ?_⟩
  exact
    { toSound := applyServerOverwriteTo_sound hvalid htree hpath hsnap hr
      full := applyServerOverwriteTo_full hvalid htree hpath hsnap hr
      tracked := hupdate.tracked
      apart := fun j q hj => hupdate.apart j q fun heq => hj (List.mem_singleton.mpr heq)
      server := by
        intro j q hj
        have hne : j ≠ childKey := fun heq => hj (List.mem_singleton.mpr heq)
        rcases hcases with ⟨rfl, _⟩ | ⟨mid, hmid, hevent⟩
        · rfl
        · rw [hevent.server, hmid.values, write_cons_ne _ hne]
      heard := fun hsame => hupdate.heard fun q => hsame childKey q List.mem_cons_self
      shown := by
        intro k hk hnone hcomplete
        rw [List.mem_singleton.mp hk] at hnone hcomplete ⊢
        rcases hcases with ⟨rfl, hunknown⟩ | ⟨mid, _, hevent⟩
        · rw [show old.cachedServerSnap.isCompleteForChild childKey = false from hunknown]
            at hcomplete
          cases hcomplete
        · exact hevent.shown hnone hcomplete }

theorem applyServerChildren_spec (htree : writesCache.Inv) {serverNode : FNode}
    (hserver : ValidNode serverNode) {cs : List (String × FCompoundWrite)}
    (hcs : forall c, c ∈ cs -> isValidKey c.1 = true ∧ c.2.WellFormed)
    (hnodup : (cs.map Prod.fst).Nodup) (hvalid : viewCache.Valid) :
    exists r, applyServerChildren serverNode writesCache cs viewCache = some r ∧
      ServerChildren viewCache writesCache (cs.map Prod.fst) r := by
  induction cs generalizing viewCache with
  | nil => exact ⟨_, rfl, serverChildren_nil hvalid⟩
  | cons c cs ih =>
      have hc := hcs c List.mem_cons_self
      rcases serverChild_spec hvalid htree hc.left
        (hc.right.applyToNode (hserver.child c.1)) with ⟨first, hfirst, hchild⟩
      rcases ih (fun c' hc' => hcs c' (List.mem_cons_of_mem c hc'))
        (List.nodup_cons.mp hnodup).right hchild.valid with ⟨last, hlast, hrest⟩
      refine ⟨(last.1, first.2 ++ last.2), ?_, hchild.append hrest hnodup⟩
      rw [applyServerChildren, hfirst, Option.bind_some, hlast, Option.map_some]

theorem nodup_filter_append {cs : List (String × FCompoundWrite)}
    (hnodup : (cs.map Prod.fst).Nodup) {f g : String × FCompoundWrite -> Bool}
    (hfg : forall c, g c = true -> f c = false) :
    ((cs.filter f).map Prod.fst ++ (cs.filter g).map Prod.fst).Nodup := by
  apply List.nodup_append'.mpr
  refine ⟨hnodup.sublist (List.filter_sublist.map _),
    hnodup.sublist (List.filter_sublist.map _), ?_⟩
  intro k hk hk'
  rcases List.mem_map.mp hk with ⟨c, hc, rfl⟩
  rcases List.mem_map.mp hk' with ⟨c', hc', heq⟩
  rcases List.mem_filter.mp hc with ⟨hmem, hf⟩
  rcases List.mem_filter.mp hc' with ⟨hmem', hg⟩
  have hnot := hfg c' hg
  rw [List.inj_on_of_nodup_map hnodup hmem' hmem heq, hf] at hnot
  cases hnot

theorem childCompoundWrites_valid {w : FCompoundWrite} (hw : w.WellFormed) :
    (w.childCompoundWrites.map Prod.fst).Nodup ∧
      forall c, c ∈ w.childCompoundWrites -> isValidKey c.1 = true ∧ c.2.WellFormed := by
  rcases w with ⟨tree⟩
  cases hw with
  | value node hnode => exact ⟨List.nodup_nil, fun c hc => by cases hc⟩
  | children cs hnd hvalid hwf =>
      constructor
      · have hkeys : (FCompoundWrite.childCompoundWrites ⟨.mk none cs⟩).map Prod.fst = cs.keys := by
          rw [FCompoundWrite.childCompoundWrites, List.map_map]
          rfl
        rw [hkeys]
        exact hnd
      · intro c hc
        rcases List.mem_map.mp hc with ⟨d, hd, rfl⟩
        exact ⟨hvalid d hd, hwf d hd⟩

/-- The two loops over the children, those that the server data has and the others. -/
theorem serverChildren_twice (htree : writesCache.Inv) {serverNode : FNode}
    (hserver : ValidNode serverNode) {cs : List (String × FCompoundWrite)}
    (hcs : forall c, c ∈ cs -> isValidKey c.1 = true ∧ c.2.WellFormed)
    (hnodup : (cs.map Prod.fst).Nodup) {f g : String × FCompoundWrite -> Bool}
    (hfg : forall c, g c = true -> f c = false) (hvalid : old.Valid) :
    exists r, ((applyServerChildren serverNode writesCache (cs.filter f) old).bind fun first =>
        (applyServerChildren serverNode writesCache (cs.filter g) first.1).map fun last =>
          (last.1, first.2 ++ last.2)) = some r ∧
      ServerChildren old writesCache
        ((cs.filter f).map Prod.fst ++ (cs.filter g).map Prod.fst) r := by
  have hsplit := fun h : String × FCompoundWrite -> Bool =>
    (hnodup.sublist (List.filter_sublist.map Prod.fst) : ((cs.filter h).map Prod.fst).Nodup)
  have hsub := fun (h : String × FCompoundWrite -> Bool) c (hc : c ∈ cs.filter h) =>
    hcs c (List.mem_of_mem_filter hc)
  rcases applyServerChildren_spec htree hserver (hsub f) (hsplit f) hvalid with
    ⟨first, hfirst, hknown⟩
  rcases applyServerChildren_spec htree hserver (hsub g) (hsplit g) hknown.valid with
    ⟨last, hlast, hothers⟩
  refine ⟨(last.1, first.2 ++ last.2), ?_,
    hknown.append hothers (nodup_filter_append hnodup hfg)⟩
  rw [hfirst, Option.bind_some, hlast, Option.map_some]

/-- What a merge that reaches every child of the server leaves in a view. -/
structure ServerMerge (old : FViewCache) (writesCache : FWriteTree) (r : Processed) : Prop
    extends Sound old r where
  full : r.1.cachedServerSnap.isFullyInitialized = old.cachedServerSnap.isFullyInitialized
  shown : old.cachedServerSnap.isFullyInitialized = false -> forall k,
    r.1.cachedServerSnap.isCompleteForChild k = true -> pending writesCache [k] = none ->
    forall q, r.1.cachedEventSnap.node.values (k :: q) =
      applied (pending writesCache) r.1.cachedServerSnap.node.values (k :: q)

theorem ServerChildren.merge (hvalid : old.Valid) {keys : List String} {r : Processed}
    (h : ServerChildren old writesCache keys r)
    (hkeys : forall k, hasChild old.cachedServerSnap.node k = true -> k ∈ keys) :
    ServerMerge old writesCache r where
  toSound := h.toSound
  full := h.full
  shown := by
    intro hunready k hcomplete hnone
    by_cases hk : k ∈ keys
    · exact h.shown k hk hnone hcomplete
    · -- the child was there before, so it was reached
      rw [isCompleteForChild_congr h.valid.server hvalid.server h.full fun q => h.server k q hk,
        FCacheNode.isCompleteForChild, hunready, Bool.false_or] at hcomplete
      exact absurd (hkeys k hcomplete) hk

theorem applyServerMergeTo_spec (hvalid : old.Valid) (htree : writesCache.Inv)
    {changedChildren : FCompoundWrite} (hchanged : changedChildren.WellFormed)
    (hkeys : forall k, hasChild old.cachedServerSnap.node k = true ->
      k ∈ changedChildren.childCompoundWrites.map Prod.fst) :
    exists r, applyServerMergeTo old changedChildren writesCache = some r ∧
      ServerMerge old writesCache r := by
  rcases childCompoundWrites_valid hchanged with ⟨hnodup, hwrites⟩
  simp only [applyServerMergeTo]
  split
  · rename_i hempty
    rw [Bool.and_eq_true, Bool.not_eq_true'] at hempty
    refine ⟨_, rfl, sound_same hvalid, rfl, ?_⟩
    intro hunready k hcomplete
    rw [FCacheNode.isCompleteForChild, hunready, KeyedTree.isEmpty_iff.mp hempty.left] at hcomplete
    cases hcomplete
  · have hfg : forall c : String × FCompoundWrite,
        (!hasChild old.cachedServerSnap.node c.1 &&
          !(!old.cachedServerSnap.isCompleteForChild c.1 && c.2.rootWrite.isNone)) = true ->
        hasChild old.cachedServerSnap.node c.1 = false := by
      intro c hc
      rw [Bool.and_eq_true, Bool.not_eq_true'] at hc
      exact hc.left
    rcases serverChildren_twice htree hvalid.server hwrites hnodup hfg hvalid with
      ⟨r, hr, hchildren⟩
    refine ⟨r, hr, hchildren.merge hvalid ?_⟩
    intro k hk
    rcases List.mem_map.mp (hkeys k hk) with ⟨c, hc, rfl⟩
    apply List.mem_append_left
    exact List.mem_map_of_mem (List.mem_filter.mpr ⟨hc, hk⟩)

/-!
## Accepted writes
-/

/-- The children of a node as one write each. -/
def childrenWrite (cs : List (Sigma fun _ : String => FNode)) (w : FCompoundWrite) :
    FCompoundWrite :=
  cs.foldl (fun changedChildren child => changedChildren.addWrite child.2 [child.1]) w

theorem childrenWrite_wellFormed {cs : List (Sigma fun _ : String => FNode)}
    (hcs : forall c, c ∈ cs -> isValidKey c.1 = true ∧ ValidNode c.2) {w : FCompoundWrite}
    (hw : w.WellFormed) : (childrenWrite cs w).WellFormed := by
  induction cs generalizing w with
  | nil => exact hw
  | cons c cs ih =>
      have hc := hcs c List.mem_cons_self
      apply ih (fun c' hc' => hcs c' (List.mem_cons_of_mem c hc'))
      apply hw.addWrite hc.right
      intro k hk
      rw [List.mem_singleton.mp hk]
      exact hc.left

theorem childrenWrite_pending {cs : List (Sigma fun _ : String => FNode)}
    (hcs : forall c, c ∈ cs -> isValidKey c.1 = true ∧ ValidNode c.2) {w : FCompoundWrite}
    (hw : w.WellFormed) (hroot : w.pending [] = none) :
    (childrenWrite cs w).pending [] = none ∧
      forall k, w.pending [k] ≠ none ∨ k ∈ cs.map Sigma.fst ->
        (childrenWrite cs w).pending [k] ≠ none := by
  induction cs generalizing w with
  | nil =>
      refine ⟨hroot, ?_⟩
      rintro k (hk | hk)
      · exact hk
      · cases hk
  | cons c cs ih =>
      have hc := hcs c List.mem_cons_self
      have hpath : ValidPath [c.1] := by
        intro k hk
        rw [List.mem_singleton.mp hk]
        exact hc.left
      have hpending := FCompoundWrite.pending_addWrite hw hc.right hpath
      have hroot' : (w.addWrite c.2 [c.1]).pending [] = none := by
        have habove := add_above w.pending [] c.1 [] c.2.values
        rw [hroot] at habove
        rw [hpending]
        exact habove
      have hcovered : (w.addWrite c.2 [c.1]).pending [c.1] ≠ none := by
        have hbelow := add_below w.pending [c.1] c.2.values []
        rw [List.append_nil] at hbelow
        rw [hpending, hbelow]
        simp
      have hrest := ih (fun c' hc' => hcs c' (List.mem_cons_of_mem c hc'))
        (hw.addWrite hc.right hpath) hroot'
      refine ⟨hrest.left, ?_⟩
      rintro k (hk | hk)
      · apply hrest.right k
        left
        rw [hpending]
        exact add_ne_none _ hk
      · rcases List.mem_cons.mp hk with rfl | hk
        · exact hrest.right c.1 (Or.inl hcovered)
        · exact hrest.right k (Or.inr hk)

theorem mem_childCompoundWrites {w : FCompoundWrite} (hw : w.WellFormed)
    (hroot : w.pending [] = none) {k : String} (h : w.pending [k] ≠ none) :
    k ∈ w.childCompoundWrites.map Prod.fst := by
  rcases w with ⟨tree⟩
  cases hw with
  | value node hnode =>
      rw [FCompoundWrite.pending, FImmutableTree.pending_value] at hroot
      cases hroot
  | children cs hnd hvalid hwf =>
      rw [FCompoundWrite.pending, FImmutableTree.pending_cons] at h
      cases hlook : cs.dlookup k with
      | none =>
          rw [hlook, Option.getD_none, FImmutableTree.pending_empty] at h
          exact absurd rfl h
      | some child =>
          have hmem := List.of_mem_dlookup (Option.mem_def.mpr hlook)
          exact List.mem_map.mpr ⟨(k, ⟨child⟩), List.mem_map.mpr ⟨_, hmem, rfl⟩, rfl⟩

theorem childrenWrite_keys {node : FNode} (hnode : ValidNode node) {k : String}
    (hk : hasChild node k = true) :
    k ∈ (childrenWrite (childrenOf node) FCompoundWrite.emptyWrite).childCompoundWrites.map
      Prod.fst := by
  have hcs := fun c (hc : c ∈ childrenOf node) =>
    (⟨(mem_childrenOf hnode hc).left, (mem_childrenOf hnode hc).right.left⟩ :
      isValidKey c.1 = true ∧ ValidNode c.2)
  have hempty := FCompoundWrite.wellFormed_emptyWrite
  have hnone : FCompoundWrite.emptyWrite.pending [] = none := by
    rw [FCompoundWrite.pending_emptyWrite]
  rcases childrenWrite_pending hcs hempty hnone with ⟨hroot, hcovered⟩
  exact mem_childCompoundWrites (childrenWrite_wellFormed hcs hempty) hroot
    (hcovered k (Or.inr (List.mem_map_of_mem (mem_childrenOf_of_hasChild hk))))

theorem ServerUpdate.same {mid : FViewCache} {path : List String}
    (h : ServerUpdate old mid path (old.cachedServerSnap.node.descend path)) :
    KeyedTree.Same mid.cachedServerSnap.node old.cachedServerSnap.node := by
  rw [KeyedTree.Same, h.values]
  apply write_self (KeyedTree.solid_values _)
  intro q
  exact (KeyedTree.values_descend _ path q).symm

/-- What the acceptance of a write at a path leaves in a view. -/
structure Acked (old : FViewCache) (path : List String) (writesCache : FWriteTree)
    (r : Processed) : Prop extends Sound old r where
  full : r.1.cachedServerSnap.isFullyInitialized = old.cachedServerSnap.isFullyInitialized
  server : old.cachedServerSnap.isFullyInitialized = true ->
    KeyedTree.Same r.1.cachedServerSnap.node old.cachedServerSnap.node
  reapplied : pending writesCache path = none ->
    old.cachedServerSnap.isCompleteForPath path = true -> exists mid,
      ServerUpdate old mid path (old.cachedServerSnap.node.descend path) ∧
        ServerEvent mid path writesCache r
  unknown : old.cachedServerSnap.isCompleteForPath path = false -> path ≠ [] -> r = (old, [])
  merged : pending writesCache path = none -> path = [] ->
    old.cachedServerSnap.isFullyInitialized = false -> ServerMerge old writesCache r

theorem isCompleteForPath_of_full {cache : FCacheNode} (h : cache.isFullyInitialized = true)
    (path : List String) : cache.isCompleteForPath path = true := by
  cases path with
  | nil => exact h
  | cons childKey rest => exact complete_of_full h childKey

theorem acked_same (hvalid : old.Valid) {path : List String}
    (h : pending writesCache path ≠ none ∨
      (old.cachedServerSnap.isCompleteForPath path = false ∧ path ≠ [])) :
    Acked old path writesCache (old, []) where
  toSound := sound_same hvalid
  full := rfl
  server := fun _ => rfl
  reapplied := by
    intro hnone hcomplete
    rcases h with hcovered | ⟨hunknown, _⟩
    · exact absurd hnone hcovered
    · rw [hunknown] at hcomplete
      cases hcomplete
  unknown := fun _ _ => rfl
  merged := by
    intro hnone hroot _
    rcases h with hcovered | ⟨_, hbelow⟩
    · exact absurd hnone hcovered
    · exact absurd hroot hbelow

theorem acked_reapplied (hvalid : old.Valid) (htree : writesCache.Inv) {path : List String}
    (hpath : ValidPath path) (hcomplete : old.cachedServerSnap.isCompleteForPath path = true) :
    exists r, applyServerOverwriteTo old path (old.cachedServerSnap.node.descend path)
        writesCache = some r ∧ Acked old path writesCache r := by
  have hsnap := hvalid.server.descend path
  rcases applyServerOverwriteTo_spec hvalid htree hpath hsnap with ⟨r, hr, hcases⟩
  have hupdated : exists mid, ServerUpdate old mid path (old.cachedServerSnap.node.descend path) ∧
      ServerEvent mid path writesCache r := by
    rcases hcases with ⟨_, hunknown⟩ | hupdated
    · rw [hcomplete] at hunknown
      cases hunknown
    · exact hupdated
  refine ⟨r, hr, ?_⟩
  exact
    { toSound := applyServerOverwriteTo_sound hvalid htree hpath hsnap hr
      full := by
        cases path with
        | nil =>
            rcases hupdated with ⟨mid, hupdate, hevent⟩
            rw [hevent.server, hupdate.full,
              show old.cachedServerSnap.isFullyInitialized = true from hcomplete]
            rfl
        | cons childKey rest => exact applyServerOverwriteTo_full hvalid htree hpath hsnap hr
      server := by
        intro _
        rcases hupdated with ⟨mid, hupdate, hevent⟩
        rw [hevent.server]
        exact hupdate.same
      reapplied := fun _ _ => hupdated
      unknown := fun hunknown => by
        rw [hcomplete] at hunknown
        cases hunknown
      merged := by
        rintro _ rfl hunready
        rw [show old.cachedServerSnap.isFullyInitialized = true from hcomplete] at hunready
        cases hunready }

theorem acked_merged (hvalid : old.Valid) (htree : writesCache.Inv)
    (hunready : old.cachedServerSnap.isFullyInitialized = false) :
    exists r, applyServerMergeTo old
        (childrenWrite (childrenOf old.cachedServerSnap.node) FCompoundWrite.emptyWrite)
        writesCache = some r ∧ Acked old [] writesCache r := by
  have hno : forall {Q : Prop}, old.cachedServerSnap.isFullyInitialized = true -> Q :=
    fun hfull => by
      rw [hunready] at hfull
      cases hfull
  have hchanged := childrenWrite_wellFormed
    (fun c hc => ⟨(mem_childrenOf hvalid.server hc).left,
      (mem_childrenOf hvalid.server hc).right.left⟩)
    FCompoundWrite.wellFormed_emptyWrite
  rcases applyServerMergeTo_spec hvalid htree hchanged
    (fun k hk => childrenWrite_keys hvalid.server hk) with ⟨r, hr, hmerge⟩
  refine ⟨r, hr, ?_⟩
  exact
    { toSound := hmerge.toSound
      full := hmerge.full
      server := hno
      reapplied := fun _ => hno
      unknown := fun _ hroot => absurd rfl hroot
      merged := fun _ _ _ => hmerge }

theorem ackUserWriteOn_spec (hvalid : old.Valid) (htree : writesCache.Inv) {path : List String}
    (hpath : ValidPath path) :
    exists r, ackUserWriteOn old path writesCache = some r ∧ Acked old path writesCache r := by
  unfold ackUserWriteOn
  cases hshadow : (writesCache.shadowingWriteAtPath path).isSome with
  | true =>
      refine ⟨_, rfl, acked_same hvalid (Or.inl fun hnone => ?_)⟩
      rw [(shadowing_eq_none_iff htree).mpr hnone] at hshadow
      cases hshadow
  | false =>
      simp only [Bool.false_eq_true, if_false]
      cases hcomplete : old.cachedServerSnap.isCompleteForPath path with
      | true =>
          simp only [if_true]
          exact acked_reapplied hvalid htree hpath hcomplete
      | false =>
          simp only [Bool.false_eq_true, if_false]
          cases path with
          | cons childKey rest =>
              exact ⟨_, rfl, acked_same hvalid (Or.inr ⟨hcomplete, List.cons_ne_nil _ _⟩)⟩
          | nil => exact acked_merged hvalid htree hcomplete

theorem Agrees.ack {P : Pending String LeafValue} (hold : Agrees old P) {path : List String}
    (hoff : AgreeOff path P (pending writesCache)) (hnone : pending writesCache path = none)
    (hclear : old.cachedServerSnap.isFullyInitialized = true ->
      Clear old.cachedServerSnap.node.values path)
    {r : Processed} (h : Acked old path writesCache r) : Agrees r.1 (pending writesCache) := by
  have hclosed := closed_pending writesCache
  refine ⟨h.valid, ?_⟩
  intro hshown
  have hfull : old.cachedServerSnap.isFullyInitialized = true := by
    rcases hshown with hfull | hcovered
    · rw [← h.full]
      exact hfull
    · exact absurd (hclosed.none_above (by simpa using hnone)) hcovered
  rcases h.reapplied hnone (isCompleteForPath_of_full hfull path) with ⟨mid, hupdate, hevent⟩
  have hbefore := hold.shown (Or.inl hfull)
  have hvalues : mid.cachedServerSnap.node.values = old.cachedServerSnap.node.values :=
    hupdate.same
  rw [hevent.server]
  cases path with
  | nil => exact hevent.root hnone rfl
  | cons childKey rest =>
      have hchild := (hevent.child childKey rest rfl).right hnone
      have hcomplete : mid.cachedEventSnap.isCompleteForChild childKey = true := by
        rw [hupdate.event]
        exact complete_of_full hbefore.left childKey
      refine ⟨hchild.full.trans ?_, ?_⟩
      · rw [hupdate.event]
        exact hbefore.left
      · rw [hchild.known hcomplete, hupdate.event, hbefore.right, hvalues]
        exact (hoff.applied_of_clear hclosed hnone (hclear hfull)).symm

/-!
## Rejected writes
-/

theorem setChildren_spec {cs : List (String × FNode)}
    (hcs : forall c, c ∈ cs -> isValidKey c.1 = true ∧ ValidNode c.2) {node : FNode}
    (hnode : ValidNode node) :
    ValidNode (cs.foldl (fun completeChildren c => completeChildren.setChild c.1 c.2) node) ∧
      forall k q, k ∉ cs.map Prod.fst ->
        (cs.foldl (fun completeChildren c => completeChildren.setChild c.1 c.2) node).values
          (k :: q) = node.values (k :: q) := by
  induction cs generalizing node with
  | nil => exact ⟨hnode, fun _ _ _ => rfl⟩
  | cons c cs ih =>
      have hc := hcs c List.mem_cons_self
      have hset := KeyedTree.WellFormed.setChild hnode hc.right hc.left
      have hrest := ih (fun c' hc' => hcs c' (List.mem_cons_of_mem c hc')) hset
      refine ⟨hrest.left, ?_⟩
      intro k q hk
      rw [List.map_cons, List.mem_cons, not_or] at hk
      rw [List.foldl_cons, hrest.right k q hk.right,
        KeyedTree.WellFormed.values_setChild hnode hc.right, write_cons_ne _ hk.left]

theorem setChildren_mem {cs : List (String × FNode)}
    (hcs : forall c, c ∈ cs -> isValidKey c.1 = true ∧ ValidNode c.2)
    (hnodup : (cs.map Prod.fst).Nodup) {node : FNode} (hnode : ValidNode node)
    {c : String × FNode} (hc : c ∈ cs) (q : List String) :
    (cs.foldl (fun completeChildren c => completeChildren.setChild c.1 c.2) node).values
      (c.1 :: q) = c.2.values q := by
  induction cs generalizing node with
  | nil => cases hc
  | cons d cs ih =>
      have hd := hcs d List.mem_cons_self
      have hset := KeyedTree.WellFormed.setChild hnode hd.right hd.left
      have hcs' := fun c' hc' => hcs c' (List.mem_cons_of_mem d hc')
      rcases List.nodup_cons.mp hnodup with ⟨hnew, hnodup'⟩
      rcases List.mem_cons.mp hc with rfl | hc
      · rw [List.foldl_cons, (setChildren_spec hcs' hset).right _ q hnew,
          KeyedTree.WellFormed.values_setChild hnode hd.right]
        exact write_below _ [c.1] _ q
      · exact ih hcs' hnodup' hset hc

theorem validNode_completeChildren {w : FCompoundWrite} (hw : w.WellFormed)
    {c : String × FNode} (hc : c ∈ w.completeChildren) :
    isValidKey c.1 = true ∧ ValidNode c.2 := by
  rcases w with ⟨tree⟩
  cases hw with
  | value node hnode =>
      cases node with
      | leaf v => cases hc
      | node cs =>
          rcases List.mem_map.mp hc with ⟨d, hd, rfl⟩
          have hmem := mem_childrenOf hnode hd
          exact ⟨hmem.left, hmem.right.left⟩
  | children cs hnd hvalid hwf =>
      rcases List.mem_filterMap.mp hc with ⟨d, hd, hsome⟩
      rcases Option.map_eq_some_iff.mp hsome with ⟨node, hnode, rfl⟩
      refine ⟨hvalid d hd, ?_⟩
      have hchild := hwf d hd
      cases hchild' : d.2 with
      | mk value children =>
          rw [hchild'] at hnode hchild
          cases hchild with
          | value node' hnode' =>
              cases hnode
              exact hnode'
          | children => cases hnode

theorem completeChildren_covered {w : FCompoundWrite} (hw : w.WellFormed) {k : String}
    (h : k ∈ w.completeChildren.map Prod.fst) : w.pending [k] ≠ none := by
  rcases w with ⟨tree⟩
  cases hw with
  | value node hnode =>
      rw [FCompoundWrite.pending, FImmutableTree.pending_value]
      simp
  | children cs hnd hvalid hwf =>
      rcases List.mem_map.mp h with ⟨c, hc, rfl⟩
      rcases List.mem_filterMap.mp hc with ⟨d, hd, hsome⟩
      rcases Option.map_eq_some_iff.mp hsome with ⟨node, hnode, rfl⟩
      have hlook : cs.dlookup d.1 = some d.2 :=
        Option.mem_def.mp (List.mem_dlookup_iff hnd |>.mpr hd)
      rw [FCompoundWrite.pending, FImmutableTree.pending_cons, hlook, Option.getD_some]
      cases hchild : d.2 with
      | mk value children =>
          rw [hchild] at hnode
          cases hnode
          rw [FImmutableTree.pending, FImmutableTree.completeNode_value]
          simp

/-- The children of the server with the writes below them, before the children that are
written as a whole. -/
def layeredChildren (writesCache : FWriteTree) (server : FNode) : List (String × FNode) :=
  (childrenOf server).map fun c =>
    (c.1, (writesCache.visibleWrites.childCompoundWriteAtPath [c.1]).applyToNode c.2)

theorem layeredChildren_valid (htree : writesCache.Inv) {server : FNode}
    (hserver : ValidNode server) {c : String × FNode}
    (hc : c ∈ layeredChildren writesCache server) :
    isValidKey c.1 = true ∧ ValidNode c.2 := by
  rcases List.mem_map.mp hc with ⟨d, hd, rfl⟩
  have hmem := mem_childrenOf hserver hd
  exact ⟨hmem.left, (htree.wellFormed.childCompoundWriteAtPath [d.1]).applyToNode hmem.right.left⟩

theorem layeredChildren_nodup {server : FNode} (hserver : ValidNode server) :
    ((layeredChildren writesCache server).map Prod.fst).Nodup := by
  rw [layeredChildren, List.map_map]
  exact nodup_childrenOf hserver

theorem calculateCompleteEventChildren_eq (hnone : writesCache.visibleWrites.completeNodeAtPath
    [] = none) (server : FNode) :
    writesCache.calculateCompleteEventChildrenAtPath [] server =
      writesCache.visibleWrites.completeChildren.foldl
        (fun completeChildren c => completeChildren.setChild c.1 c.2)
        ((layeredChildren writesCache server).foldl
          (fun completeChildren c => completeChildren.setChild c.1 c.2) KeyedTree.empty) := by
  rw [FWriteTree.calculateCompleteEventChildrenAtPath, hnone, layeredChildren, List.foldl_map]
  rfl

theorem calculateCompleteEventChildren_valid (htree : writesCache.Inv) {server : FNode}
    (hserver : ValidNode server) :
    ValidNode (writesCache.calculateCompleteEventChildrenAtPath [] server) := by
  cases hnode : writesCache.visibleWrites.completeNodeAtPath [] with
  | some node =>
      rw [FWriteTree.calculateCompleteEventChildrenAtPath, hnode]
      simp only
      split
      · exact validNode_empty
      · exact FImmutableTree.WellFormed.completeNode htree.wellFormed hnode
  | none =>
      rw [calculateCompleteEventChildren_eq hnode]
      exact (setChildren_spec (fun c hc => validNode_completeChildren htree.wellFormed hc)
        (setChildren_spec (fun c hc => layeredChildren_valid htree hserver hc)
          validNode_empty).left).left

theorem calculateCompleteEventChildren_child (htree : writesCache.Inv) {server : FNode}
    (hserver : ValidNode server) (hroot : pending writesCache [] = none) {k : String}
    (hchild : hasChild server k = true) (hnone : pending writesCache [k] = none)
    (q : List String) :
    (writesCache.calculateCompleteEventChildrenAtPath [] server).values (k :: q) =
      applied (pending writesCache) server.values (k :: q) := by
  have hnode : writesCache.visibleWrites.completeNodeAtPath [] = none := by
    rw [FCompoundWrite.completeNode_isSome_iff, htree.pending]
    exact hroot
  have huncovered : k ∉ writesCache.visibleWrites.completeChildren.map Prod.fst := by
    intro hmem
    apply completeChildren_covered htree.wellFormed hmem
    rw [htree.pending]
    exact hnone
  have hlayered := fun c hc => layeredChildren_valid (c := c) htree hserver hc
  have hmem : (k, (writesCache.visibleWrites.childCompoundWriteAtPath [k]).applyToNode
      (server.child k)) ∈ layeredChildren writesCache server :=
    List.mem_map.mpr ⟨_, mem_childrenOf_of_hasChild hchild, rfl⟩
  have hwf := htree.wellFormed.childCompoundWriteAtPath [k]
  have hpending := FCompoundWrite.pending_childCompoundWriteAtPath htree.wellFormed [k]
  have hvalues : (server.child k).values = fun r => server.values ([k] ++ r) := rfl
  rw [calculateCompleteEventChildren_eq hnode,
    (setChildren_spec (fun c hc => validNode_completeChildren htree.wellFormed hc)
      (setChildren_spec hlayered validNode_empty).left).right k q huncovered,
    setChildren_mem hlayered (layeredChildren_nodup hserver) validNode_empty hmem,
    FCompoundWrite.values_applyToNode hwf (hserver.child k), hpending, htree.pending, hvalues]
  exact applied_shift [k] q

theorem settled_removed {node : FNode} {childKey : String} (h : hasChild node childKey = true)
    (affectedPath : List String) : Settled node childKey KeyedTree.empty affectedPath := by
  intro hunchanged
  have hempty : (node.child childKey).isEmpty = true :=
    beq_iff_eq.mp (Bool.and_eq_true_iff.mp hunchanged).right
  rw [hasChild_iff.mp h] at hempty
  cases hempty

/-- What `revertedChild` leaves of the event cache. -/
structure RevertedChild (old : FViewCache) (childKey : String) (writesCache : FWriteTree)
    (e : FNode × List FChange) : Prop where
  valid : ValidNode e.1
  tracked : (e.2.map FChange.childKey).Sublist [childKey]
  quiet : e.2 = [] -> e.1 = old.cachedEventSnap.node
  loud : KeyedTree.Same e.1 old.cachedEventSnap.node -> e.2 = []
  leaf : old.cachedEventSnap.node.isLeaf = true -> e.1.isEmpty = false
  apart : forall j q, j ≠ childKey ->
    e.1.values (j :: q) = old.cachedEventSnap.node.values (j :: q)
  updated : old.cachedServerSnap.isCompleteForChild childKey = true ->
    e.1.values = write old.cachedEventSnap.node.values [childKey] fun q =>
      applied (pending writesCache) old.cachedServerSnap.node.values (childKey :: q)

theorem revertedChild_updated {childKey : String} {newChild : FNode}
    {e : FNode × List FChange} (h : Updated old.cachedEventSnap.node childKey newChild e)
    (hshown : old.cachedServerSnap.isCompleteForChild childKey = true ->
      newChild.values = fun q => applied (pending writesCache)
        old.cachedServerSnap.node.values (childKey :: q)) :
    RevertedChild old childKey writesCache e where
  valid := h.valid
  tracked := h.tracked
  quiet := h.quiet
  loud := fun hsame => h.loud fun q => congrFun hsame (childKey :: q)
  leaf := h.leaf
  apart := by
    intro j q hj
    rw [h.values, write_cons_ne _ hj]
  updated := by
    intro hcomplete
    rw [h.values, hshown hcomplete]

theorem revertedChild_known {childKey : String} {newChild : FNode}
    (h : writesCache.calculateCompleteChildAtPath [] childKey old.cachedServerSnap =
      some newChild) (rest : List String) :
    revertedChild old childKey rest writesCache =
      updateChildIn old.cachedEventSnap.node childKey newChild rest := by
  simp only [revertedChild, h]

theorem revertedChild_unknown {childKey : String}
    (h : writesCache.calculateCompleteChildAtPath [] childKey old.cachedServerSnap = none)
    (rest : List String) :
    old.cachedServerSnap.isCompleteForChild childKey = false ∧
      revertedChild old childKey rest writesCache =
        if hasChild old.cachedEventSnap.node childKey then
          updateChildIn old.cachedEventSnap.node childKey KeyedTree.empty rest
        else
          some (old.cachedEventSnap.node, []) := by
  have hunknown : old.cachedServerSnap.isCompleteForChild childKey = false := by
    by_contra hcomplete
    exact completeChild_ne_none (by simpa using hcomplete) h
  refine ⟨hunknown, ?_⟩
  simp only [revertedChild, h, hunknown, Bool.false_eq_true, if_false]

theorem revertedChild_spec (hvalid : old.Valid) (htree : writesCache.Inv) {childKey : String}
    (hkey : isValidKey childKey = true) {rest : List String} {e : FNode × List FChange}
    (h : revertedChild old childKey rest writesCache = some e) :
    RevertedChild old childKey writesCache e := by
  cases hchild : writesCache.calculateCompleteChildAtPath [] childKey old.cachedServerSnap with
  | some newChild =>
      have hspec := completeChild_spec htree hvalid.server hchild
      rw [revertedChild_known hchild] at h
      exact revertedChild_updated (updateChildIn_spec hvalid.event hspec.left hkey h)
        fun _ => hspec.right
  | none =>
      rcases revertedChild_unknown hchild rest with ⟨hunknown, heq⟩
      have hno : forall {Q : Prop}, old.cachedServerSnap.isCompleteForChild childKey = true -> Q :=
        fun hcomplete => by
          rw [hunknown] at hcomplete
          cases hcomplete
      rw [heq] at h
      split at h
      · exact revertedChild_updated (updateChildIn_spec hvalid.event validNode_empty hkey h) hno
      · cases h
        exact revertedChild_updated (updated_same hvalid.event rfl) hno

/-- Recomputing the child at the path of a rejected write finds no change beside it. -/
def Restorable (viewCache : FViewCache) (path : List String) (writesCache : FWriteTree) : Prop :=
  forall childKey rest newChild, path = childKey :: rest ->
    writesCache.calculateCompleteChildAtPath [] childKey viewCache.cachedServerSnap =
      some newChild ->
    Settled viewCache.cachedEventSnap.node childKey newChild rest

theorem revertedChild_total (hvalid : old.Valid) (htree : writesCache.Inv) {childKey : String}
    {rest : List String} (hrestorable : Restorable old (childKey :: rest) writesCache) :
    exists e, revertedChild old childKey rest writesCache = some e := by
  cases hchild : writesCache.calculateCompleteChildAtPath [] childKey old.cachedServerSnap with
  | some newChild =>
      have hnew := (completeChild_spec htree hvalid.server hchild).left
      rw [revertedChild_known hchild]
      exact updateChildIn_total hvalid.event hnew (hrestorable _ _ _ rfl hchild)
  | none =>
      rw [(revertedChild_unknown hchild rest).right]
      split
      · rename_i hhas
        exact updateChildIn_total hvalid.event validNode_empty (settled_removed hhas rest)
      · exact ⟨_, rfl⟩

theorem RevertedChild.values {P : Pending String LeafValue} {childKey : String}
    {rest : List String} {e : FNode × List FChange}
    (h : RevertedChild old childKey writesCache e)
    (hoff : AgreeOff (childKey :: rest) P (pending writesCache))
    (hnone : pending writesCache (childKey :: rest) = none)
    (hfull : old.cachedServerSnap.isFullyInitialized = true)
    (hbefore : old.cachedEventSnap.node.values =
      applied P old.cachedServerSnap.node.values) :
    e.1.values = applied (pending writesCache) old.cachedServerSnap.node.values ∨
      (e.1.isEmpty = true ∧
        applied (pending writesCache) old.cachedServerSnap.node.values [] ≠ none) := by
  have hwrite := h.updated (complete_of_full hfull childKey)
  rw [hbefore] at hwrite
  rcases hoff.applied_child (closed_pending writesCache) hnone
    (KeyedTree.solid_values old.cachedServerSnap.node) (fun _ => rfl) with
    heq | ⟨hvacant, hroot⟩
  · left
    rw [hwrite, heq]
  · right
    rw [← hwrite] at hvacant
    exact ⟨h.valid.vacant_iff.mp hvacant, hroot⟩

theorem fullChanges_leaf {oldSnap newSnap : FNode} (hempty : oldSnap.isEmpty = true)
    (hleaf : newSnap.isLeaf = true) : fullChanges oldSnap newSnap = [] := by
  rw [KeyedTree.isEmpty_iff.mp hempty]
  cases newSnap with
  | leaf v => rfl
  | node cs => cases hleaf

/-- An event cache without children is that of a leaf if the data is one. -/
structure RestoredLeaf (old : FViewCache) (writesCache : FWriteTree)
    (e e' : FNode × List FChange) : Prop where
  valid : ValidNode e'.1
  tracked : e'.2 = e.2
  leaf : e'.1 = e.1 ∨ (e.1.isEmpty = true ∧ e'.1.isLeaf = true)
  unready : old.cachedServerSnap.isFullyInitialized = false -> e' = e
  values : old.cachedServerSnap.isFullyInitialized = true ->
    (e.1.values = applied (pending writesCache) old.cachedServerSnap.node.values ∨
      (e.1.isEmpty = true ∧
        applied (pending writesCache) old.cachedServerSnap.node.values [] ≠ none)) ->
    e'.1.values = applied (pending writesCache) old.cachedServerSnap.node.values

theorem restoredLeaf_same {e : FNode × List FChange} (he : ValidNode e.1)
    (hvalues : old.cachedServerSnap.isFullyInitialized = true -> e.1.isEmpty = true ->
      applied (pending writesCache) old.cachedServerSnap.node.values [] = none) :
    RestoredLeaf old writesCache e e where
  valid := he
  tracked := rfl
  leaf := Or.inl rfl
  unready := fun _ => rfl
  values := by
    rintro hfull (hshown | ⟨hempty, hroot⟩)
    · exact hshown
    · exact absurd (hvalues hfull hempty) hroot

theorem restoreLeaf_spec (hvalid : old.Valid) (htree : writesCache.Inv)
    {e : FNode × List FChange} (he : ValidNode e.1) :
    exists e', restoreLeaf old writesCache e = some e' ∧ RestoredLeaf old writesCache e e' := by
  unfold restoreLeaf
  cases hempty : e.1.isEmpty with
  | false =>
      refine ⟨e, rfl, restoredLeaf_same he fun _ hcontra => ?_⟩
      rw [hempty] at hcontra
      cases hcontra
  | true =>
      cases hfull : old.cachedServerSnap.isFullyInitialized with
      | false =>
          refine ⟨e, rfl, restoredLeaf_same he fun hcontra _ => ?_⟩
          rw [hfull] at hcontra
          cases hcontra
      | true =>
          rcases fullEventCache_spec hvalid htree hfull with ⟨node, hnode, hwf, hvalues⟩
          simp only [Bool.and_self, if_true, hnode, Option.map_some]
          cases hleaf : node.isLeaf with
          | true =>
              refine ⟨_, rfl, ?_⟩
              exact
                { valid := hwf
                  tracked := by
                    rw [if_pos rfl, fullChanges_leaf hempty hleaf, List.append_nil]
                  leaf := Or.inr ⟨hempty, hleaf⟩
                  unready := fun hcontra => by
                    rw [hfull] at hcontra
                    cases hcontra
                  values := fun _ _ => hvalues }
          | false =>
              refine ⟨e, rfl, restoredLeaf_same he fun _ _ => ?_⟩
              -- a value at the root makes the data a leaf
              by_contra hroot
              rw [← hvalues] at hroot
              have hleaf' : node.isLeaf = true := KeyedTree.leafValue_of_isLeaf.mpr hroot
              rw [hleaf] at hleaf'
              cases hleaf'

/-- While the server data is not complete, the children off the path of a rejected write stay,
and those on it are shown anew. -/
structure RevertedChildren (old : FViewCache) (path : List String) (writesCache : FWriteTree)
    (r : Processed) : Prop where
  apart : forall k q, Apart path [k] ->
    r.1.cachedEventSnap.node.values (k :: q) = old.cachedEventSnap.node.values (k :: q)
  shown : forall k, ¬ Apart path [k] ->
    old.cachedServerSnap.isCompleteForChild k = true -> pending writesCache [k] = none ->
    forall q, r.1.cachedEventSnap.node.values (k :: q) =
      applied (pending writesCache) old.cachedServerSnap.node.values (k :: q)

/-- What the rejection of a write at a path leaves in a view. -/
structure Reverted (old : FViewCache) (path : List String) (writesCache : FWriteTree)
    (r : Processed) : Prop extends Sound old r where
  server : r.1.cachedServerSnap = old.cachedServerSnap
  values : forall P, AgreeOff path P (pending writesCache) -> pending writesCache path = none ->
    old.cachedServerSnap.isFullyInitialized = true ->
    old.cachedEventSnap.node.values = applied P old.cachedServerSnap.node.values ->
    r.1.cachedEventSnap.isFullyInitialized = true ∧
      r.1.cachedEventSnap.node.values =
        applied (pending writesCache) old.cachedServerSnap.node.values
  children : pending writesCache path = none ->
    old.cachedServerSnap.isFullyInitialized = false -> RevertedChildren old path writesCache r

theorem reverted_root (hvalid : old.Valid) {node : FNode} (hnode : ValidNode node)
    (isComplete : Bool)
    (hshown : old.cachedServerSnap.isFullyInitialized = true ->
      node.values = applied (pending writesCache) old.cachedServerSnap.node.values)
    (hchildren : old.cachedServerSnap.isFullyInitialized = false ->
      pending writesCache [] = none -> forall k, hasChild old.cachedServerSnap.node k = true ->
      pending writesCache [k] = none -> forall q, node.values (k :: q) =
        applied (pending writesCache) old.cachedServerSnap.node.values (k :: q)) :
    Reverted old [] writesCache
      ({ old with
          cachedEventSnap :=
            { node := node
              isFullyInitialized := old.cachedServerSnap.isFullyInitialized || isComplete } },
        fullChanges old.cachedEventSnap.node node) where
  valid := ⟨hnode, hvalid.server⟩
  once := nodup_fullChanges hvalid.event hnode
  quiet := same_of_fullChanges_nil hvalid.event hnode
  loud := fullChanges_of_same hvalid.event hnode
  kept := id
  server := rfl
  values := by
    intro P _ _ hfull _
    refine ⟨?_, hshown hfull⟩
    simp only [hfull, Bool.true_or]
  children := by
    intro hroot hunready
    refine ⟨fun k _ hapart => absurd hapart (not_apart_nil [k]), ?_⟩
    intro k _ hcomplete hnone q
    rw [FCacheNode.isCompleteForChild, hunready, Bool.false_or] at hcomplete
    exact hchildren hunready hroot k hcomplete hnone q

theorem reverted_child (hvalid : old.Valid) (htree : writesCache.Inv) {childKey : String}
    {rest : List String} {e : FNode × List FChange}
    (he : RevertedChild old childKey writesCache e) (isComplete : Bool) :
    exists e', restoreLeaf old writesCache e = some e' ∧
      Reverted old (childKey :: rest) writesCache
        ({ old with
            cachedEventSnap :=
              { node := e'.1
                isFullyInitialized := old.cachedServerSnap.isFullyInitialized || isComplete } },
          e'.2) := by
  rcases restoreLeaf_spec hvalid htree he.valid with ⟨e', he', hrestored⟩
  refine ⟨e', he', ?_⟩
  constructor
  case toSound =>
    constructor
    case valid => exact ⟨hrestored.valid, hvalid.server⟩
    case once =>
      rw [hrestored.tracked]
      exact (List.nodup_singleton childKey).sublist he.tracked
    case quiet =>
      intro hnil
      rcases hrestored.leaf with hsame | ⟨_, hleaf⟩
      · left
        show KeyedTree.Same e'.1 _
        rw [hsame, he.quiet (hrestored.tracked.symm.trans hnil)]
        rfl
      · exact Or.inr (Or.inl hleaf)
    case loud =>
      intro hsame
      rw [hrestored.tracked]
      rcases hrestored.leaf with heq | ⟨hempty, hleaf⟩
      · have hsame' : KeyedTree.Same e'.1 old.cachedEventSnap.node := hsame
        rw [heq] at hsame'
        exact he.loud hsame'
      · -- a leaf is restored only where there was none
        have hleaf' := (isLeaf_of_same hsame).symm.trans hleaf
        rw [he.leaf hleaf'] at hempty
        cases hempty
    case kept => exact id
  case server => rfl
  case values =>
    intro P hoff hnone hfull hbefore
    refine ⟨?_, hrestored.values hfull (he.values hoff hnone hfull hbefore)⟩
    simp only [hfull, Bool.true_or]
  case children =>
    intro _ hunready
    rw [hrestored.unready hunready]
    refine ⟨fun k q hapart => he.apart k q (apart_key.mp hapart), ?_⟩
    intro k hon hcomplete _ q
    have hk : k = childKey := by
      by_contra hne
      exact hon (apart_key.mpr hne)
    subst hk
    show e.1.values (k :: q) = _
    rw [he.updated hcomplete]
    exact write_below _ [k] _ q

theorem reverted_shadowed (hvalid : old.Valid) {path : List String}
    (h : pending writesCache path ≠ none) : Reverted old path writesCache (old, []) where
  toSound := sound_same hvalid
  server := rfl
  values := fun _ _ hnone => absurd hnone h
  children := fun hnone => absurd hnone h

theorem shadowing_isSome_iff (htree : writesCache.Inv) {path : List String} :
    (writesCache.shadowingWriteAtPath path).isSome = true <-> pending writesCache path ≠ none := by
  rw [← Bool.not_eq_false, shadowing_eq_none_iff htree]

theorem revertUserWriteOn_shadowed (htree : writesCache.Inv) {path : List String}
    (h : pending writesCache path ≠ none) :
    revertUserWriteOn old path writesCache = some (old, []) := by
  unfold revertUserWriteOn
  exact if_pos ((shadowing_isSome_iff htree).mpr h)

/-- A rejection at the root always goes through. -/
theorem revertUserWriteOn_root (hvalid : old.Valid) (htree : writesCache.Inv) :
    exists r, revertUserWriteOn old [] writesCache = some r ∧ Reverted old [] writesCache r := by
  by_cases hnone : pending writesCache [] = none
  · simp only [revertUserWriteOn, (shadowing_eq_none_iff htree).mpr hnone, Bool.false_eq_true,
      if_false]
    cases hfull : old.cachedServerSnap.isFullyInitialized with
    | true =>
        rcases fullEventCache_spec hvalid htree hfull with ⟨node, hnode, hwf, hvalues⟩
        simp only [if_true, hnode, Option.map_some]
        refine ⟨_, rfl, ?_⟩
        have hroot := reverted_root hvalid hwf false (fun _ => hvalues) fun hcontra => by
          rw [hfull] at hcontra
          cases hcontra
        rw [hfull] at hroot
        exact hroot
    | false =>
        simp only [Bool.false_eq_true, if_false, Option.map_some]
        refine ⟨_, rfl, ?_⟩
        have hroot := reverted_root hvalid
          (calculateCompleteEventChildren_valid htree hvalid.server) false
          (fun hcontra => by
            rw [hfull] at hcontra
            cases hcontra)
          fun _ hroot k hchild hnone =>
            calculateCompleteEventChildren_child htree hvalid.server hroot hchild hnone
        rw [hfull] at hroot
        exact hroot
  · exact ⟨_, revertUserWriteOn_shadowed htree hnone, reverted_shadowed hvalid hnone⟩

theorem revertUserWriteOn_child (hvalid : old.Valid) (htree : writesCache.Inv)
    {childKey : String} {rest : List String} (hkey : isValidKey childKey = true)
    (hnone : pending writesCache (childKey :: rest) = none) {e : FNode × List FChange}
    (he : revertedChild old childKey rest writesCache = some e) :
    exists r, revertUserWriteOn old (childKey :: rest) writesCache = some r ∧
      Reverted old (childKey :: rest) writesCache r := by
  rcases reverted_child hvalid htree (revertedChild_spec hvalid htree hkey he)
    (writesCache.shadowingWriteAtPath []).isSome with ⟨e', he', hreverted⟩
  refine ⟨_, ?_, hreverted⟩
  simp only [revertUserWriteOn, (shadowing_eq_none_iff htree).mpr hnone, Bool.false_eq_true,
    if_false, he, Option.bind_some, he', Option.map_some]

theorem revertUserWriteOn_spec (hvalid : old.Valid) (htree : writesCache.Inv)
    {path : List String} (hpath : ValidPath path) {r : Processed}
    (h : revertUserWriteOn old path writesCache = some r) : Reverted old path writesCache r := by
  have hsame : forall r', revertUserWriteOn old path writesCache = some r' ->
      Reverted old path writesCache r' -> Reverted old path writesCache r := by
    intro r' hr' hreverted
    rw [h] at hr'
    cases hr'
    exact hreverted
  by_cases hnone : pending writesCache path = none
  · cases path with
    | nil =>
        rcases revertUserWriteOn_root hvalid htree with ⟨r', hr', hreverted⟩
        exact hsame r' hr' hreverted
    | cons childKey rest =>
        cases he : revertedChild old childKey rest writesCache with
        | none =>
            simp only [revertUserWriteOn, (shadowing_eq_none_iff htree).mpr hnone,
              Bool.false_eq_true, if_false, he, Option.bind_none, Option.map_none] at h
            cases h
        | some e =>
            rcases revertUserWriteOn_child hvalid htree hpath.head hnone he with
              ⟨r', hr', hreverted⟩
            exact hsame r' hr' hreverted
  · exact hsame (old, []) (revertUserWriteOn_shadowed htree hnone) (reverted_shadowed hvalid hnone)

theorem revertUserWriteOn_total (hvalid : old.Valid) (htree : writesCache.Inv)
    {path : List String} (hpath : ValidPath path)
    (hrestorable : pending writesCache path = none -> Restorable old path writesCache) :
    exists r, revertUserWriteOn old path writesCache = some r := by
  by_cases hnone : pending writesCache path = none
  · cases path with
    | nil =>
        rcases revertUserWriteOn_root hvalid htree with ⟨r, hr, _⟩
        exact ⟨r, hr⟩
    | cons childKey rest =>
        rcases revertedChild_total hvalid htree (hrestorable hnone) with ⟨e, he⟩
        rcases revertUserWriteOn_child hvalid htree hpath.head hnone he with ⟨r, hr, _⟩
        exact ⟨r, hr⟩
  · exact ⟨_, revertUserWriteOn_shadowed htree hnone⟩

theorem Agrees.revert {P : Pending String LeafValue} (hold : Agrees old P) {path : List String}
    (hoff : AgreeOff path P (pending writesCache)) (hnone : pending writesCache path = none)
    {r : Processed} (h : Reverted old path writesCache r) :
    Agrees r.1 (pending writesCache) := by
  refine ⟨h.valid, ?_⟩
  intro hshown
  rw [h.server] at hshown ⊢
  rcases hshown with hfull | hcovered
  · exact h.values P hoff hnone hfull (hold.shown (Or.inl hfull)).right
  · exact absurd ((closed_pending writesCache).none_above (by simpa using hnone)) hcovered

end FViewProcessor

end Firebase
end MyMovies
