import MyMovies.Firebase.KnownChildren

/-!
# The sync tree

The application observes the root of the database and nothing else, with value
observers, so the tree of sync points has at most one, with one view of the
default query.  Operations of the user and of the server change the caches of
the view, and each value change is raised to every registration.  Persistence is
off, and no transaction, priority or server value is in play.
-/

namespace MyMovies
namespace Firebase

open Foundation Overlay

inductive FOperation where
  | userOverwrite (path : List String) (snap : FNode)
  | serverOverwrite (path : List String) (snap : FNode)
  | ackUserWrite (path : List String) (revert : Bool)
  | listenComplete

structure FViewProcessorResult where
  viewCache : FViewCache
  changes : List FChange
  /-- The snapshot of the value change, if there is one. -/
  valueChange : Option FNode

namespace FViewProcessor

def processOperation (oldViewCache : FViewCache) (operation : FOperation)
    (writesCache : FWriteTree) (optCompleteCache : Option FNode) : Option Processed :=
  match operation with
  | .userOverwrite path snap =>
      applyUserOverwriteTo oldViewCache path snap writesCache optCompleteCache
  | .serverOverwrite path snap => applyServerOverwriteTo oldViewCache path snap writesCache
  | .ackUserWrite path false => ackUserWriteOn oldViewCache path writesCache
  | .ackUserWrite path true => revertUserWriteOn oldViewCache path writesCache
  | .listenComplete => listenCompleteOldCache oldViewCache writesCache

def maybeAddValueFromOldViewCache (oldViewCache newViewCache : FViewCache)
    (changes : List FChange) : Option FNode :=
  if addsValue oldViewCache newViewCache changes then some newViewCache.cachedEventSnap.node
  else none

def applyOperationOn (oldViewCache : FViewCache) (operation : FOperation)
    (writesCache : FWriteTree) (optCompleteCache : Option FNode) : Option FViewProcessorResult :=
  (processOperation oldViewCache operation writesCache optCompleteCache).bind fun processed =>
    (FChildChangeAccumulator.changes processed.2).map fun changes =>
      { viewCache := processed.1
        changes := changes
        valueChange := maybeAddValueFromOldViewCache oldViewCache processed.1 changes }

end FViewProcessor

/-- A value observer, with the snapshots raised to it so far. -/
structure FValueEventRegistration where
  handle : Nat
  raised : List FNode

def FValueEventRegistration.fireEvent (registration : FValueEventRegistration)
    (snapshot : FNode) : FValueEventRegistration :=
  { registration with raised := registration.raised ++ [snapshot] }

/-- Without a handle all registrations are meant. -/
def FValueEventRegistration.matches (registration : FValueEventRegistration)
    (handle : Option Nat) : Bool :=
  match handle with
  | some handle => registration.handle == handle
  | none => true

structure FView where
  viewCache : FViewCache
  eventRegistrations : List FValueEventRegistration

namespace FView

def initWithQuery (initialViewCache : FViewCache) : FView where
  viewCache := initialViewCache
  eventRegistrations := []

/-- `generateEventsForChanges:` for value observers, and the events raised. -/
def raise (view : FView) (valueChange : Option FNode) : FView :=
  match valueChange with
  | some snapshot =>
      { view with
        eventRegistrations := view.eventRegistrations.map fun r => r.fireEvent snapshot }
  | none => view

/-- `none` is also the failed assertion that a complete server snap goes back. -/
def applyOperation (view : FView) (operation : FOperation) (writesCache : FWriteTree)
    (optCompleteServerCache : Option FNode) : Option FView :=
  (FViewProcessor.applyOperationOn view.viewCache operation writesCache
      optCompleteServerCache).bind fun result =>
    if result.viewCache.cachedServerSnap.isFullyInitialized ||
        !view.viewCache.cachedServerSnap.isFullyInitialized then
      some (raise { view with viewCache := result.viewCache } result.valueChange)
    else
      none

/-- A registration is told the complete data that the view has, at once. -/
def initialEvents (view : FView) (registration : FValueEventRegistration) :
    FValueEventRegistration :=
  if view.viewCache.cachedEventSnap.isFullyInitialized then
    registration.fireEvent view.viewCache.cachedEventSnap.node
  else
    registration

def addEventRegistration (view : FView) (handle : Nat) : FView :=
  { view with
    eventRegistrations := view.eventRegistrations ++
      [view.initialEvents { handle := handle, raised := [] }] }

end FView

structure FSyncTree where
  /-- The view of the default query at the root, while there is one. -/
  view : Option FView
  pendingWriteTree : FWriteTree

namespace FSyncTree

def init : FSyncTree where
  view := none
  pendingWriteTree := FWriteTree.init

/-- The complete server data of the view, if there is any. -/
def serverData (tree : FSyncTree) : Option FNode :=
  tree.view.bind fun view => view.viewCache.completeServerSnap

def calcCompleteEventCacheAtPath (tree : FSyncTree) (path : List String)
    (writeIdsToExclude : List Int) : Option FNode :=
  let serverCache := tree.serverData.map fun server => server.descend path
  tree.pendingWriteTree.calculateCompleteEventCacheAtPath path serverCache
    (some writeIdsToExclude) true

def applyOperationToSyncPoints (tree : FSyncTree) (operation : FOperation) : Option FSyncTree :=
  match tree.view with
  | none => some tree
  | some view =>
      (view.applyOperation operation tree.pendingWriteTree
        view.viewCache.completeServerSnap).map fun view' => { tree with view := some view' }

def applyUserOverwriteAtPath (tree : FSyncTree) (write : Write) (writeId : Int) :
    Option FSyncTree :=
  (tree.pendingWriteTree.addOverwriteAtPath
      { toWrite := write, writeId := writeId, visible := true }).bind fun pendingWriteTree =>
    applyOperationToSyncPoints { tree with pendingWriteTree := pendingWriteTree }
      (.userOverwrite write.path write.node)

def applyServerOverwriteAtPath (tree : FSyncTree) (path : List String) (newData : FNode) :
    Option FSyncTree :=
  tree.applyOperationToSyncPoints (.serverOverwrite path newData)

def applyListenComplete (tree : FSyncTree) : Option FSyncTree :=
  tree.applyOperationToSyncPoints .listenComplete

def ackUserWriteWithWriteId (tree : FSyncTree) (writeId : Int) (revert : Bool) :
    Option FSyncTree :=
  (tree.pendingWriteTree.writeForId writeId).bind fun write =>
    (tree.pendingWriteTree.removeWriteId writeId).bind fun removed =>
      if removed.2 then
        applyOperationToSyncPoints { tree with pendingWriteTree := removed.1 }
          (.ackUserWrite write.path revert)
      else
        some { tree with pendingWriteTree := removed.1 }

def removeAllWrites (tree : FSyncTree) : Option FSyncTree :=
  let emptied := { tree with pendingWriteTree := tree.pendingWriteTree.removeAllWrites }
  if tree.pendingWriteTree.allWrites.isEmpty then some emptied
  else emptied.applyOperationToSyncPoints (.ackUserWrite [] true)

/-- `addEventRegistration:forNonExistingViewForQuery:`; without persistence and without
another view there is no server data yet. -/
def newView (tree : FSyncTree) : FView :=
  let serverCache : FCacheNode := { node := KeyedTree.empty, isFullyInitialized := false }
  let eventCache := tree.pendingWriteTree.calculateCompleteEventCacheAtPath []
    (if serverCache.isFullyInitialized then some serverCache.node else none) none false
  FView.initWithQuery
    { cachedEventSnap :=
        match eventCache with
        | some node => { node := node, isFullyInitialized := true }
        | none =>
            { node := tree.pendingWriteTree.calculateCompleteEventChildrenAtPath []
                serverCache.node
              isFullyInitialized := false }
      cachedServerSnap := serverCache }

def addEventRegistration (tree : FSyncTree) (handle : Nat) : FSyncTree :=
  { tree with view := some ((tree.view.getD tree.newView).addEventRegistration handle) }

/-- The view goes with its last registration. -/
def removeEventRegistration (tree : FSyncTree) (handle : Option Nat) : FSyncTree :=
  match tree.view with
  | none => tree
  | some view =>
      let remaining := view.eventRegistrations.filter fun r => !r.matches handle
      if remaining.isEmpty then { tree with view := none }
      else { tree with view := some { view with eventRegistrations := remaining } }

end FSyncTree

/-!
## What an operation does to a view
-/

def FOperation.Valid : FOperation -> Prop
  | .userOverwrite path snap => ValidPath path ∧ ValidNode snap
  | .serverOverwrite path snap => ValidPath path ∧ ValidNode snap
  | .ackUserWrite path _ => ValidPath path
  | .listenComplete => True

theorem FViewCache.Valid.completeServerSnap {viewCache : FViewCache} (h : viewCache.Valid)
    {s : FNode} (hs : viewCache.completeServerSnap = some s) :
    s = viewCache.cachedServerSnap.node ∧ ValidNode s := by
  unfold FViewCache.completeServerSnap at hs
  split at hs
  · cases hs
    exact ⟨rfl, h.server⟩
  · cases hs

namespace FViewProcessor

theorem processOperation_sound {old : FViewCache} (hvalid : old.Valid)
    {writesCache : FWriteTree} (htree : writesCache.Inv) {operation : FOperation}
    (hop : operation.Valid) {optCompleteCache : Option FNode}
    (hcache : forall s, optCompleteCache = some s -> ValidNode s) {r : Processed}
    (h : processOperation old operation writesCache optCompleteCache = some r) : Sound old r := by
  have hsame : forall r', processOperation old operation writesCache optCompleteCache = some r' ->
      Sound old r' -> Sound old r := by
    intro r' hr' hsound
    rw [h] at hr'
    cases hr'
    exact hsound
  cases operation with
  | userOverwrite path snap =>
      rcases applyUserOverwriteTo_spec hvalid htree hcache hop.left hop.right with
        ⟨r', hr', hwrite⟩
      exact hsame r' hr' hwrite.toSound
  | serverOverwrite path snap =>
      exact applyServerOverwriteTo_sound hvalid htree hop.left hop.right h
  | ackUserWrite path revert =>
      cases revert with
      | false =>
          rcases ackUserWriteOn_spec hvalid htree hop with ⟨r', hr', hacked⟩
          exact hsame r' hr' hacked.toSound
      | true => exact (revertUserWriteOn_spec hvalid htree hop h).toSound
  | listenComplete =>
      rcases listenCompleteOldCache_spec hvalid htree with ⟨r', hr', hsound, _⟩
      exact hsame r' hr' hsound

/-- Only a rejection can trip an assertion: that of the filter about an unchanged child. -/
def Passes (old : FViewCache) (writesCache : FWriteTree) : FOperation -> Prop
  | .ackUserWrite path true => pending writesCache path = none -> Restorable old path writesCache
  | _ => True

theorem processOperation_total {old : FViewCache} (hvalid : old.Valid)
    {writesCache : FWriteTree} (htree : writesCache.Inv) {operation : FOperation}
    (hop : operation.Valid) (hpasses : Passes old writesCache operation)
    {optCompleteCache : Option FNode}
    (hcache : forall s, optCompleteCache = some s -> ValidNode s) :
    exists r, processOperation old operation writesCache optCompleteCache = some r := by
  cases operation with
  | userOverwrite path snap =>
      rcases applyUserOverwriteTo_spec hvalid htree hcache hop.left hop.right with ⟨r, hr, _⟩
      exact ⟨r, hr⟩
  | serverOverwrite path snap =>
      rcases applyServerOverwriteTo_spec hvalid htree hop.left hop.right with ⟨r, hr, _⟩
      exact ⟨r, hr⟩
  | ackUserWrite path revert =>
      cases revert with
      | false =>
          rcases ackUserWriteOn_spec hvalid htree hop with ⟨r, hr, _⟩
          exact ⟨r, hr⟩
      | true => exact revertUserWriteOn_total hvalid htree hop hpasses
  | listenComplete =>
      rcases listenCompleteOldCache_spec hvalid htree with ⟨r, hr, _⟩
      exact ⟨r, hr⟩

end FViewProcessor

namespace FView

/-- A complete event cache is what every registration was told last. -/
def UpToDate (view : FView) : Prop :=
  view.viewCache.cachedEventSnap.isFullyInitialized = true ->
    forall registration, registration ∈ view.eventRegistrations ->
      exists snapshot, registration.raised.getLast? = some snapshot ∧ ValidNode snapshot ∧
        KeyedTree.Same snapshot view.viewCache.cachedEventSnap.node

/-- The view after an operation, with what was processed. -/
def processed (view : FView) (r : Processed) : FView :=
  raise { view with viewCache := r.1 }
    (FViewProcessor.maybeAddValueFromOldViewCache view.viewCache r.1 r.2)

theorem viewCache_raise (view : FView) (valueChange : Option FNode) :
    (view.raise valueChange).viewCache = view.viewCache := by
  cases valueChange <;> rfl

theorem viewCache_processed (view : FView) (r : Processed) :
    (view.processed r).viewCache = r.1 :=
  viewCache_raise _ _

theorem applyOperation_eq {view : FView} {writesCache : FWriteTree} {operation : FOperation}
    {optCompleteCache : Option FNode} {r : Processed}
    (hr : FViewProcessor.processOperation view.viewCache operation writesCache
      optCompleteCache = some r) (hsound : Sound view.viewCache r) :
    view.applyOperation operation writesCache optCompleteCache = some (view.processed r) := by
  have hkept : (r.1.cachedServerSnap.isFullyInitialized ||
      !view.viewCache.cachedServerSnap.isFullyInitialized) = true := by
    cases hfull : view.viewCache.cachedServerSnap.isFullyInitialized with
    | false => simp
    | true => simp [hsound.kept hfull]
  rw [applyOperation, FViewProcessor.applyOperationOn, hr, Option.bind_some,
    changes_of_nodup hsound.once, Option.map_some, Option.bind_some, if_pos hkept]
  rfl

theorem applyOperation_spec {view view' : FView} (hvalid : view.viewCache.Valid)
    {writesCache : FWriteTree} (htree : writesCache.Inv) {operation : FOperation}
    (hop : operation.Valid) {optCompleteCache : Option FNode}
    (hcache : forall s, optCompleteCache = some s -> ValidNode s)
    (h : view.applyOperation operation writesCache optCompleteCache = some view') :
    exists r, FViewProcessor.processOperation view.viewCache operation writesCache
        optCompleteCache = some r ∧ Sound view.viewCache r ∧ view' = view.processed r := by
  cases hr : FViewProcessor.processOperation view.viewCache operation writesCache
      optCompleteCache with
  | none =>
      rw [applyOperation, FViewProcessor.applyOperationOn, hr] at h
      cases h
  | some r =>
      have hsound := FViewProcessor.processOperation_sound hvalid htree hop hcache hr
      rw [applyOperation_eq hr hsound] at h
      cases h
      exact ⟨r, rfl, hsound, rfl⟩

/-- Registrations hear of every change of the values. -/
theorem UpToDate.processed {view : FView} (hview : view.UpToDate)
    (hvalid : view.viewCache.Valid) {r : Processed} (hsound : Sound view.viewCache r) :
    (view.processed r).UpToDate := by
  intro hfull registration hregistration
  rw [viewCache_processed] at hfull ⊢
  unfold FView.processed FViewProcessor.maybeAddValueFromOldViewCache at hregistration
  cases hadds : FViewProcessor.addsValue view.viewCache r.1 r.2 with
  | true =>
      rw [hadds, if_pos rfl] at hregistration
      rcases List.mem_map.mp hregistration with ⟨registration', _, rfl⟩
      exact ⟨_, List.getLast?_concat, hsound.valid.event, rfl⟩
  | false =>
      rw [hadds] at hregistration
      rcases FViewProcessor.same_of_not_addsValue hvalid hsound hadds hfull with ⟨hbefore, hsame⟩
      rcases hview hbefore registration hregistration with
        ⟨snapshot, hlast, hwf, hsnapshot⟩
      exact ⟨snapshot, hlast, hwf, hsnapshot.trans hsame.symm⟩

/-- What the registrations of a view are told while its caches change. -/
structure Heard (view view' : FView) : Prop where
  changed : view'.viewCache.cachedEventSnap.isFullyInitialized = true ->
    (view.viewCache.cachedEventSnap.isFullyInitialized = false ∨
      ¬ KeyedTree.Same view'.viewCache.cachedEventSnap.node
        view.viewCache.cachedEventSnap.node) ->
    view'.eventRegistrations = view.eventRegistrations.map fun registration =>
      registration.fireEvent view'.viewCache.cachedEventSnap.node
  unchanged : (view'.viewCache.cachedEventSnap.isFullyInitialized = false ∨
      (view.viewCache.cachedEventSnap.isFullyInitialized = true ∧
        KeyedTree.Same view'.viewCache.cachedEventSnap.node
          view.viewCache.cachedEventSnap.node)) ->
    view'.eventRegistrations = view.eventRegistrations

theorem Heard.refl (view : FView) : Heard view view where
  changed := by
    rintro hfull (hunready | hnot)
    · rw [hfull] at hunready
      cases hunready
    · exact absurd rfl hnot
  unchanged := fun _ => rfl

/-- Whatever is raised, the registrations stay the same ones. -/
theorem Heard.handles {view view' : FView} (h : Heard view view') :
    view'.eventRegistrations.map FValueEventRegistration.handle =
      view.eventRegistrations.map FValueEventRegistration.handle := by
  by_cases hchange : view'.viewCache.cachedEventSnap.isFullyInitialized = true ∧
      (view.viewCache.cachedEventSnap.isFullyInitialized = false ∨
        ¬ KeyedTree.Same view'.viewCache.cachedEventSnap.node
          view.viewCache.cachedEventSnap.node)
  · rw [h.changed hchange.left hchange.right, List.map_map]
    rfl
  · rw [h.unchanged]
    rw [not_and_or, not_or, Bool.not_eq_true, Bool.not_eq_false, not_not] at hchange
    exact hchange

theorem heard_processed {view : FView} (hvalid : view.viewCache.Valid) {r : Processed}
    (hsound : Sound view.viewCache r) : Heard view (view.processed r) := by
  have hadds := FViewProcessor.addsValue_iff hvalid hsound
  constructor
  case changed =>
    intro hfull hchange
    rw [viewCache_processed] at hfull hchange ⊢
    rw [processed, FViewProcessor.maybeAddValueFromOldViewCache,
      if_pos (hadds.mpr ⟨hfull, hchange⟩)]
    rfl
  case unchanged =>
    intro hsame
    rw [viewCache_processed] at hsame
    have hquiet : ¬ FViewProcessor.addsValue view.viewCache r.1 r.2 = true := by
      intro hcon
      rcases hadds.mp hcon with ⟨hfull, hchange⟩
      rcases hsame with hunready | ⟨hbefore, hsame⟩
      · rw [hfull] at hunready
        cases hunready
      · rcases hchange with hunready | hnot
        · rw [hbefore] at hunready
          cases hunready
        · exact hnot hsame
    rw [processed, FViewProcessor.maybeAddValueFromOldViewCache, if_neg hquiet]
    rfl

theorem UpToDate.addEventRegistration {view : FView} (hview : view.UpToDate)
    (hvalid : view.viewCache.Valid) (handle : Nat) :
    (view.addEventRegistration handle).UpToDate := by
  intro hfull registration hregistration
  rcases List.mem_append.mp hregistration with hold | hnew
  · exact hview hfull registration hold
  · have hfull' : view.viewCache.cachedEventSnap.isFullyInitialized = true := hfull
    rw [List.mem_singleton.mp hnew, initialEvents, if_pos hfull']
    exact ⟨_, rfl, hvalid.event, rfl⟩

end FView

/-!
## What keeps every registration up to date
-/

namespace FSyncTree

structure Inv (tree : FSyncTree) : Prop where
  writes : tree.pendingWriteTree.Inv
  valid : forall view, tree.view = some view -> view.viewCache.Valid
  upToDate : forall view, tree.view = some view -> view.UpToDate

theorem inv_init : init.Inv where
  writes := FWriteTree.inv_init
  valid := fun view h => by cases h
  upToDate := fun view h => by cases h

theorem Inv.withWrites {tree : FSyncTree} (h : tree.Inv) {writes : FWriteTree}
    (hwrites : writes.Inv) : Inv { tree with pendingWriteTree := writes } where
  writes := hwrites
  valid := h.valid
  upToDate := h.upToDate

/-- What an operation leaves of the tree. -/
structure Applied (tree : FSyncTree) (operation : FOperation) (tree' : FSyncTree) : Prop where
  inv : tree'.Inv
  writes : tree'.pendingWriteTree = tree.pendingWriteTree
  heard : Option.Rel FView.Heard tree.view tree'.view
  processed : forall view', tree'.view = some view' -> exists view r, tree.view = some view ∧
    view' = view.processed r ∧
      FViewProcessor.processOperation view.viewCache operation tree.pendingWriteTree
        view.viewCache.completeServerSnap = some r

theorem applied_processed {tree : FSyncTree} (h : tree.Inv) {view : FView}
    (hview : tree.view = some view) {operation : FOperation} {r : Processed}
    (hr : FViewProcessor.processOperation view.viewCache operation tree.pendingWriteTree
      view.viewCache.completeServerSnap = some r) (hsound : Sound view.viewCache r) :
    Applied tree operation { tree with view := some (view.processed r) } where
  inv :=
    { writes := h.writes
      valid := by
        intro view' hview'
        cases hview'
        rw [FView.viewCache_processed]
        exact hsound.valid
      upToDate := by
        intro view' hview'
        cases hview'
        exact (h.upToDate view hview).processed (h.valid view hview) hsound }
  writes := rfl
  heard := by
    rw [hview]
    exact .some (FView.heard_processed (h.valid view hview) hsound)
  processed := by
    intro view' hview'
    cases hview'
    exact ⟨view, r, hview, rfl, hr⟩

theorem applyOperationToSyncPoints_spec {tree tree' : FSyncTree} (h : tree.Inv)
    {operation : FOperation} (hop : operation.Valid)
    (happly : tree.applyOperationToSyncPoints operation = some tree') :
    Applied tree operation tree' := by
  unfold applyOperationToSyncPoints at happly
  split at happly
  · rename_i hview
    cases happly
    refine ⟨h, rfl, ?_, ?_⟩
    · rw [hview]
      exact .none
    · intro view' hview'
      rw [hview] at hview'
      cases hview'
  · rename_i view hview
    rcases Option.map_eq_some_iff.mp happly with ⟨view', hview', rfl⟩
    have hvalid := h.valid view hview
    rcases FView.applyOperation_spec hvalid h.writes hop
      (fun s hs => (hvalid.completeServerSnap hs).right) hview' with ⟨r, hr, hsound, rfl⟩
    exact applied_processed h hview hr hsound

theorem applyOperationToSyncPoints_total {tree : FSyncTree} (h : tree.Inv)
    (operation : FOperation) (hop : operation.Valid)
    (hpasses : forall view, tree.view = some view ->
      FViewProcessor.Passes view.viewCache tree.pendingWriteTree operation) :
    exists tree', tree.applyOperationToSyncPoints operation = some tree' ∧
      Applied tree operation tree' := by
  rcases tree with ⟨view, writes⟩
  cases view with
  | none => exact ⟨_, rfl, applyOperationToSyncPoints_spec h hop rfl⟩
  | some view =>
      have hvalid := h.valid view rfl
      have hcache := fun s hs => (hvalid.completeServerSnap (s := s) hs).right
      rcases FViewProcessor.processOperation_total hvalid h.writes hop (hpasses view rfl) hcache
        with ⟨r, hr⟩
      have hsound := FViewProcessor.processOperation_sound hvalid h.writes hop hcache hr
      refine ⟨_, ?_, applied_processed h rfl hr hsound⟩
      simp only [applyOperationToSyncPoints, FView.applyOperation_eq hr hsound, Option.map_some]

theorem applyOperationToSyncPoints_writes {tree tree' : FSyncTree} {operation : FOperation}
    (h : tree.applyOperationToSyncPoints operation = some tree') :
    tree'.pendingWriteTree = tree.pendingWriteTree := by
  unfold applyOperationToSyncPoints at h
  split at h
  · cases h
    rfl
  · rcases Option.map_eq_some_iff.mp h with ⟨view', _, rfl⟩
    rfl

theorem heard_refl (view : Option FView) : Option.Rel FView.Heard view view := by
  cases view with
  | none => exact .none
  | some view => exact .some (FView.Heard.refl view)

theorem upToDate_of_noRegistrations {view : FView} (h : view.eventRegistrations = []) :
    view.UpToDate := by
  intro _ registration hregistration
  rw [h] at hregistration
  cases hregistration

theorem newView_cache {tree : FSyncTree} (hwrites : tree.pendingWriteTree.Inv) :
    tree.newView.viewCache.Valid ∧
      FViewProcessor.Agrees tree.newView.viewCache
        (FViewProcessor.pending tree.pendingWriteTree) := by
  have hnone : forall s, (none : Option FNode) = some s -> ValidNode s := fun s hs => by cases hs
  have hspec := FWriteTree.calculateCompleteEventCache_spec hwrites [] hnone
  have hevent : ValidNode tree.newView.viewCache.cachedEventSnap.node ∧
      (FViewProcessor.pending tree.pendingWriteTree [] ≠ none ->
        tree.newView.viewCache.cachedEventSnap.isFullyInitialized = true ∧
          tree.newView.viewCache.cachedEventSnap.node.values =
            applied (FViewProcessor.pending tree.pendingWriteTree)
              (KeyedTree.empty : FNode).values) := by
    unfold newView
    simp only [Bool.false_eq_true, if_false, FView.initWithQuery]
    cases hcache : tree.pendingWriteTree.calculateCompleteEventCacheAtPath [] none none false with
    | some node =>
        rw [hcache] at hspec
        exact ⟨hspec.valid, fun _ => ⟨rfl, hspec.values⟩⟩
    | none =>
        rw [hcache] at hspec
        refine ⟨FViewProcessor.calculateCompleteEventChildren_valid hwrites validNode_empty, ?_⟩
        intro hcovered
        exact absurd hspec.right hcovered
  have hvalid : tree.newView.viewCache.Valid := ⟨hevent.left, validNode_empty⟩
  refine ⟨hvalid, hvalid, ?_⟩
  rintro (hfull | hcovered)
  · cases hfull
  · exact hevent.right hcovered

theorem Inv.addEventRegistration {tree : FSyncTree} (h : tree.Inv) (handle : Nat) :
    (tree.addEventRegistration handle).Inv where
  writes := h.writes
  valid := by
    intro view hview
    cases hview
    cases hold : tree.view with
    | none => exact (newView_cache h.writes).left
    | some view => exact h.valid view hold
  upToDate := by
    intro view hview
    cases hview
    cases hold : tree.view with
    | none =>
        exact FView.UpToDate.addEventRegistration (upToDate_of_noRegistrations rfl)
          (newView_cache h.writes).left handle
    | some view => exact (h.upToDate view hold).addEventRegistration (h.valid view hold) handle

/-- The view that is left has the same caches and some of the registrations. -/
theorem removeEventRegistration_view {tree : FSyncTree} {handle : Option Nat} {view' : FView}
    (h : (tree.removeEventRegistration handle).view = some view') :
    exists view, tree.view = some view ∧ view'.viewCache = view.viewCache ∧
      view'.eventRegistrations ⊆ view.eventRegistrations := by
  unfold removeEventRegistration at h
  cases hview : tree.view with
  | none =>
      rw [hview] at h
      simp only [hview] at h
      cases h
  | some view =>
      rw [hview] at h
      simp only at h
      split at h
      · cases h
      · cases h
        exact ⟨view, rfl, rfl, List.filter_sublist.subset⟩

theorem removeEventRegistration_writes (tree : FSyncTree) (handle : Option Nat) :
    (tree.removeEventRegistration handle).pendingWriteTree = tree.pendingWriteTree := by
  unfold removeEventRegistration
  cases tree.view with
  | none => rfl
  | some view =>
      simp only
      split <;> rfl

theorem Inv.removeEventRegistration {tree : FSyncTree} (h : tree.Inv) (handle : Option Nat) :
    (tree.removeEventRegistration handle).Inv where
  writes := by
    rw [removeEventRegistration_writes]
    exact h.writes
  valid := by
    intro view' hview'
    rcases removeEventRegistration_view hview' with ⟨view, hview, hcache, _⟩
    rw [hcache]
    exact h.valid view hview
  upToDate := by
    intro view' hview' hfull registration hregistration
    rcases removeEventRegistration_view hview' with ⟨view, hview, hcache, hsub⟩
    rw [hcache] at hfull ⊢
    exact h.upToDate view hview hfull registration (hsub hregistration)

/-!
## What keeps the pending writes shown
-/

/-- The event cache shows the pending writes over the server data. -/
def Shows (tree : FSyncTree) : Prop :=
  forall view, tree.view = some view ->
    FViewProcessor.Agrees view.viewCache (FViewProcessor.pending tree.pendingWriteTree)

/-- No pending write erases anything below a value of the server. -/
def Clear (tree : FSyncTree) : Prop :=
  forall server, tree.serverData = some server ->
    FWriteTree.ClearFor server tree.pendingWriteTree.allWrites

instance Clear.decidable (tree : FSyncTree) : Decidable tree.Clear :=
  match h : tree.serverData with
  | none => isTrue fun server hserver => by
      rw [h] at hserver
      cases hserver
  | some server =>
      decidable_of_iff (FWriteTree.ClearFor server tree.pendingWriteTree.allWrites)
        ⟨fun hclear server' hserver' => by
          rw [h] at hserver'
          cases hserver'
          exact hclear,
        fun hclear => hclear server h⟩

theorem serverData_of_full {tree : FSyncTree} {view : FView} (hview : tree.view = some view)
    (hfull : view.viewCache.cachedServerSnap.isFullyInitialized = true) :
    tree.serverData = some view.viewCache.cachedServerSnap.node := by
  rw [serverData, hview, Option.bind_some, FViewCache.completeServerSnap, if_pos hfull]

theorem Clear.visible {tree : FSyncTree} (h : tree.Clear) {view : FView}
    (hview : tree.view = some view)
    (hfull : view.viewCache.cachedServerSnap.isFullyInitialized = true) :
    Visible (FViewProcessor.pending tree.pendingWriteTree)
      view.viewCache.cachedServerSnap.node.values :=
  visible_pendingOf (h _ (serverData_of_full hview hfull)).clearOf

theorem Shows.serverOverwrite {tree tree' : FSyncTree} (h : tree.Inv) (hshows : tree.Shows)
    (hclear : tree.Clear) {path : List String} (hpath : ValidPath path) {snap : FNode}
    (hsnap : ValidNode snap) (happlied : Applied tree (.serverOverwrite path snap) tree') :
    tree'.Shows := by
  intro view' hview'
  rcases happlied.processed view' hview' with ⟨view, r, hview, rfl, hr⟩
  rw [FView.viewCache_processed, happlied.writes]
  exact (hshows view hview).serverOverwrite h.writes hpath hsnap
    (fun hfull => hclear.visible hview hfull) hr

theorem Shows.listenComplete {tree tree' : FSyncTree} (h : tree.Inv) (hshows : tree.Shows)
    (happlied : Applied tree .listenComplete tree') : tree'.Shows := by
  intro view' hview'
  rcases happlied.processed view' hview' with ⟨view, r, hview, rfl, hr⟩
  rw [FView.viewCache_processed, happlied.writes]
  rcases FViewProcessor.listenCompleteOldCache_spec (h.valid view hview) h.writes with
    ⟨r', hr', _, hevent⟩
  have heq : some r = some r' := hr.symm.trans hr'
  cases heq
  exact (hshows view hview).listenComplete hevent

/-- A write of the user, once it is in the write tree. -/
theorem Shows.userOverwrite {tree tree' : FSyncTree} (h : tree.Inv) {path : List String}
    (hpath : ValidPath path) {snap : FNode} (hsnap : ValidNode snap)
    {P : Pending String LeafValue} (hP : Closed P)
    (hpending : FViewProcessor.pending tree.pendingWriteTree = add P path snap.values)
    (hshows : forall view, tree.view = some view -> FViewProcessor.Agrees view.viewCache P)
    (hclear : forall server, tree'.serverData = some server -> Vacant snap.values ->
      Overlay.Clear server.values path)
    (happlied : Applied tree (.userOverwrite path snap) tree') : tree'.Shows := by
  intro view' hview'
  rcases happlied.processed view' hview' with ⟨view, r, hview, rfl, hr⟩
  rw [FView.viewCache_processed, happlied.writes, hpending]
  have hvalid := h.valid view hview
  rcases FViewProcessor.applyUserOverwriteTo_spec hvalid h.writes
    (fun s hs => (hvalid.completeServerSnap hs).right) hpath hsnap with ⟨r', hr', hwrite⟩
  have heq : some r = some r' := hr.symm.trans hr'
  cases heq
  apply (hshows view hview).userOverwrite hpath hsnap _ hP hwrite
  intro hfull
  -- the write leaves the server cache as it is
  have hfull' : (view.processed r).viewCache.cachedServerSnap.isFullyInitialized = true := by
    rw [FView.viewCache_processed, hwrite.server]
    exact hfull
  have hserver := serverData_of_full hview' hfull'
  rw [FView.viewCache_processed, hwrite.server] at hserver
  exact hclear _ hserver

/-- An answer, once the write is out of the write tree. -/
theorem Shows.ackUserWrite {tree tree' : FSyncTree} (h : tree.Inv) {path : List String}
    (hpath : ValidPath path) {revert : Bool} {P : Pending String LeafValue}
    (hoff : AgreeOff path P (FViewProcessor.pending tree.pendingWriteTree))
    (hnone : FViewProcessor.pending tree.pendingWriteTree path = none)
    (hshows : forall view, tree.view = some view -> FViewProcessor.Agrees view.viewCache P)
    (hclear : revert = false -> forall server, tree.serverData = some server ->
      Overlay.Clear server.values path)
    (happlied : Applied tree (.ackUserWrite path revert) tree') : tree'.Shows := by
  intro view' hview'
  rcases happlied.processed view' hview' with ⟨view, r, hview, rfl, hr⟩
  rw [FView.viewCache_processed, happlied.writes]
  have hvalid := h.valid view hview
  cases revert with
  | false =>
      rcases FViewProcessor.ackUserWriteOn_spec hvalid h.writes hpath with ⟨r', hr', hacked⟩
      have heq : some r = some r' := hr.symm.trans hr'
      cases heq
      exact (hshows view hview).ack hoff hnone
        (fun hfull => hclear rfl _ (serverData_of_full hview hfull)) hacked
  | true =>
      exact (hshows view hview).revert hoff hnone
        (FViewProcessor.revertUserWriteOn_spec hvalid h.writes hpath hr)

theorem Applied.view {tree tree' : FSyncTree} {operation : FOperation}
    (h : Applied tree operation tree') {view : FView} (hview : tree.view = some view) :
    exists r, tree'.view = some (view.processed r) ∧
      FViewProcessor.processOperation view.viewCache operation tree.pendingWriteTree
        view.viewCache.completeServerSnap = some r := by
  have hheard := h.heard
  rw [hview] at hheard
  cases hview' : tree'.view with
  | none =>
      rw [hview'] at hheard
      cases hheard
  | some view' =>
      rcases h.processed view' hview' with ⟨view'', r, hview'', rfl, hr⟩
      rw [hview] at hview''
      cases hview''
      exact ⟨r, rfl, hr⟩

theorem view_of_serverData {tree : FSyncTree} {server : FNode} (h : tree.serverData = some server) :
    exists view, tree.view = some view ∧
      view.viewCache.cachedServerSnap.isFullyInitialized = true ∧
      server = view.viewCache.cachedServerSnap.node := by
  rcases Option.bind_eq_some_iff.mp h with ⟨view, hview, hserver⟩
  rw [FViewCache.completeServerSnap] at hserver
  split at hserver
  · rename_i hfull
    cases hserver
    exact ⟨view, hview, hfull, rfl⟩
  · cases hserver

theorem serverData_processed {tree' : FSyncTree} {view : FView} {r : Processed}
    (hview' : tree'.view = some (view.processed r))
    (hfull : r.1.cachedServerSnap.isFullyInitialized = true) :
    tree'.serverData = some r.1.cachedServerSnap.node := by
  have hserver := serverData_of_full hview'
  rw [FView.viewCache_processed] at hserver
  exact hserver hfull

/-- Server data at a path is written into the server data of the view. -/
theorem Applied.serverOverwrite {tree tree' : FSyncTree} (h : tree.Inv) {path : List String}
    (hpath : ValidPath path) {snap : FNode} (hsnap : ValidNode snap)
    (happlied : Applied tree (.serverOverwrite path snap) tree') {server : FNode}
    (hserver : tree.serverData = some server) :
    exists server', tree'.serverData = some server' ∧
      server'.values = write server.values path snap.values := by
  rcases view_of_serverData hserver with ⟨view, hview, hfull, rfl⟩
  rcases happlied.view hview with ⟨r, hview', hr⟩
  rcases FViewProcessor.applyServerOverwriteTo_spec (h.valid view hview) h.writes hpath hsnap with
    ⟨r', hr', hcases⟩
  have heq : some r = some r' := hr.symm.trans hr'
  cases heq
  rcases hcases with ⟨_, hunready⟩ | ⟨mid, hupdate, hevent⟩
  · rw [FViewProcessor.isCompleteForPath_of_full hfull] at hunready
    cases hunready
  · refine ⟨r.1.cachedServerSnap.node, serverData_processed hview' ?_, ?_⟩
    · rw [hevent.server, hupdate.full, hfull]
      rfl
    · rw [hevent.server, hupdate.values]

theorem Applied.userOverwrite {tree tree' : FSyncTree} (h : tree.Inv) {path : List String}
    (hpath : ValidPath path) {snap : FNode} (hsnap : ValidNode snap)
    (happlied : Applied tree (.userOverwrite path snap) tree') {server : FNode}
    (hserver : tree.serverData = some server) : tree'.serverData = some server := by
  rcases view_of_serverData hserver with ⟨view, hview, hfull, rfl⟩
  rcases happlied.view hview with ⟨r, hview', hr⟩
  have hvalid := h.valid view hview
  rcases FViewProcessor.applyUserOverwriteTo_spec hvalid h.writes
    (fun s hs => (hvalid.completeServerSnap hs).right) hpath hsnap with ⟨r', hr', hwrite⟩
  have heq : some r = some r' := hr.symm.trans hr'
  cases heq
  have hserver' := serverData_processed hview' (by rw [hwrite.server]; exact hfull)
  rw [hwrite.server] at hserver'
  exact hserver'

/-- An answer leaves the server data as it is. -/
theorem Applied.ackUserWrite {tree tree' : FSyncTree} (h : tree.Inv) {path : List String}
    (hpath : ValidPath path) {revert : Bool}
    (happlied : Applied tree (.ackUserWrite path revert) tree') {server : FNode}
    (hserver : tree.serverData = some server) :
    exists server', tree'.serverData = some server' ∧ KeyedTree.Same server' server := by
  rcases view_of_serverData hserver with ⟨view, hview, hfull, rfl⟩
  rcases happlied.view hview with ⟨r, hview', hr⟩
  have hvalid := h.valid view hview
  cases revert with
  | false =>
      rcases FViewProcessor.ackUserWriteOn_spec hvalid h.writes hpath with ⟨r', hr', hacked⟩
      have heq : some r = some r' := hr.symm.trans hr'
      cases heq
      exact ⟨_, serverData_processed hview' (hacked.full.trans hfull), hacked.server hfull⟩
  | true =>
      have hreverted := FViewProcessor.revertUserWriteOn_spec hvalid h.writes hpath hr
      refine ⟨r.1.cachedServerSnap.node, serverData_processed hview' ?_, ?_⟩
      · rw [hreverted.server]
        exact hfull
      · rw [hreverted.server]
        rfl

/-!
## What keeps the known children shown
-/

/-- The data of the server that the view has, complete or not. -/
def sentData (tree : FSyncTree) : Option FNode :=
  tree.view.map fun view => view.viewCache.cachedServerSnap.node

/-- No pending write erases anything below a value that the server has sent. -/
def ClearSent (tree : FSyncTree) : Prop :=
  forall sent, tree.sentData = some sent ->
    FWriteTree.ClearFor sent tree.pendingWriteTree.allWrites

instance ClearSent.decidable (tree : FSyncTree) : Decidable tree.ClearSent :=
  inferInstanceAs (Decidable (forall sent, sent ∈ tree.sentData ->
    FWriteTree.ClearFor sent tree.pendingWriteTree.allWrites))

theorem sentData_of_view {tree : FSyncTree} {view : FView} (hview : tree.view = some view) :
    tree.sentData = some view.viewCache.cachedServerSnap.node := by
  rw [sentData, hview, Option.map_some]

theorem sentData_of_serverData {tree : FSyncTree} {server : FNode}
    (h : tree.serverData = some server) : tree.sentData = some server := by
  rcases view_of_serverData h with ⟨view, hview, _, rfl⟩
  exact sentData_of_view hview

theorem ClearSent.clear {tree : FSyncTree} (h : tree.ClearSent) : tree.Clear :=
  fun server hserver => h server (sentData_of_serverData hserver)

/-- The view shows every child that it has from the server, under the pending writes. -/
def Known (tree : FSyncTree) : Prop :=
  forall view, tree.view = some view ->
    FViewProcessor.ChildrenShown view.viewCache (FViewProcessor.pending tree.pendingWriteTree)

/-- With all the server data, the whole view is shown. -/
theorem Shows.known {tree : FSyncTree} (h : tree.Shows)
    (hunready : forall view, tree.view = some view ->
      view.viewCache.cachedServerSnap.isFullyInitialized = false ->
      FViewProcessor.ChildrenShown view.viewCache
        (FViewProcessor.pending tree.pendingWriteTree)) : tree.Known := by
  intro view hview
  cases hfull : view.viewCache.cachedServerSnap.isFullyInitialized with
  | true => exact (h view hview).childrenShown hfull
  | false => exact hunready view hview hfull

theorem Known.serverOverwrite {tree tree' : FSyncTree} (h : tree.Inv) (hknown : tree.Known)
    (hclear : tree.ClearSent) {path : List String} (hpath : ValidPath path) {snap : FNode}
    (hsnap : ValidNode snap) (happlied : Applied tree (.serverOverwrite path snap) tree')
    (hshows : tree'.Shows) : tree'.Known := by
  apply hshows.known
  intro view' hview' hunready
  rcases happlied.processed view' hview' with ⟨view, r, hview, rfl, hr⟩
  rw [FView.viewCache_processed] at hunready ⊢
  rw [happlied.writes]
  exact (hknown view hview).serverOverwrite (h.valid view hview) h.writes hpath hsnap
    (visible_pendingOf (hclear _ (sentData_of_view hview)).clearOf) hr hunready

theorem Known.listenComplete {tree tree' : FSyncTree} (h : tree.Inv)
    (happlied : Applied tree .listenComplete tree') (hshows : tree'.Shows) : tree'.Known := by
  apply hshows.known
  intro view' hview' hunready
  rcases happlied.processed view' hview' with ⟨view, r, hview, rfl, hr⟩
  rcases FViewProcessor.listenCompleteOldCache_spec (h.valid view hview) h.writes with
    ⟨r', hr', _, hevent⟩
  have heq : some r = some r' := hr.symm.trans hr'
  cases heq
  rw [FView.viewCache_processed, hevent.server] at hunready
  cases hunready

theorem Known.userOverwrite {tree tree' : FSyncTree} (h : tree.Inv) {path : List String}
    (hpath : ValidPath path) {snap : FNode} (hsnap : ValidNode snap)
    {P : Pending String LeafValue}
    (hpending : FViewProcessor.pending tree.pendingWriteTree = add P path snap.values)
    (hknown : forall view, tree.view = some view ->
      FViewProcessor.ChildrenShown view.viewCache P)
    (hclear : forall sent, tree'.sentData = some sent -> Vacant snap.values ->
      Overlay.Clear sent.values path)
    (happlied : Applied tree (.userOverwrite path snap) tree') (hshows : tree'.Shows) :
    tree'.Known := by
  apply hshows.known
  intro view' hview' hunready
  have hclear' := hclear _ (sentData_of_view hview')
  rcases happlied.processed view' hview' with ⟨view, r, hview, rfl, hr⟩
  have hvalid := h.valid view hview
  rcases FViewProcessor.applyUserOverwriteTo_spec hvalid h.writes
    (fun s hs => (hvalid.completeServerSnap hs).right) hpath hsnap with ⟨r', hr', hwrite⟩
  have heq : some r = some r' := hr.symm.trans hr'
  cases heq
  rw [FView.viewCache_processed] at hunready hclear' ⊢
  rw [hwrite.server] at hunready hclear'
  have hnone : view.viewCache.completeServerSnap = none := by
    rw [FViewCache.completeServerSnap, hunready]
    rfl
  rw [hnone] at hwrite
  rw [happlied.writes]
  exact (hknown view hview).userOverwrite hvalid h.writes hpath hsnap hpending hclear' hwrite

theorem Known.ackUserWrite {tree tree' : FSyncTree} (h : tree.Inv) {path : List String}
    (hpath : ValidPath path) {revert : Bool} {P : Pending String LeafValue}
    (hoff : AgreeOff path P (FViewProcessor.pending tree.pendingWriteTree))
    (hnone : FViewProcessor.pending tree.pendingWriteTree path = none)
    (hknown : forall view, tree.view = some view ->
      FViewProcessor.ChildrenShown view.viewCache P)
    (hclear : revert = false -> forall sent, tree.sentData = some sent ->
      Overlay.Clear sent.values path)
    (happlied : Applied tree (.ackUserWrite path revert) tree') (hshows : tree'.Shows) :
    tree'.Known := by
  apply hshows.known
  intro view' hview' hunready
  rcases happlied.processed view' hview' with ⟨view, r, hview, rfl, hr⟩
  rw [FView.viewCache_processed] at hunready ⊢
  rw [happlied.writes]
  have hvalid := h.valid view hview
  cases revert with
  | false =>
      rcases FViewProcessor.ackUserWriteOn_spec hvalid h.writes hpath with ⟨r', hr', hacked⟩
      have heq : some r = some r' := hr.symm.trans hr'
      cases heq
      exact (hknown view hview).ack hvalid hoff hnone (hclear rfl _ (sentData_of_view hview))
        (hacked.full.symm.trans hunready) hacked
  | true =>
      have hreverted := FViewProcessor.revertUserWriteOn_spec hvalid h.writes hpath hr
      rw [hreverted.server] at hunready
      exact (hknown view hview).revert hvalid hoff hnone hunready hreverted

/-!
## What the operations keep
-/

def KeepsShown (tree tree' : FSyncTree) : Prop :=
  tree.Shows -> tree.Clear -> tree'.Clear -> tree'.Shows

def KeepsKnown (tree tree' : FSyncTree) : Prop :=
  tree.Known -> tree.ClearSent -> tree'.ClearSent -> tree'.Shows -> tree'.Known

/-- What an operation of the repo keeps, the last two as far as nothing is erased. -/
structure Keeps (tree tree' : FSyncTree) : Prop where
  inv : tree'.Inv
  shows : KeepsShown tree tree'
  known : KeepsKnown tree tree'

theorem applyServerOverwriteAtPath_spec {tree : FSyncTree} (h : tree.Inv) {path : List String}
    (hpath : ValidPath path) {newData : FNode} (hdata : ValidNode newData) :
    exists tree', tree.applyServerOverwriteAtPath path newData = some tree' ∧
      Keeps tree tree' ∧ Applied tree (.serverOverwrite path newData) tree' := by
  rcases applyOperationToSyncPoints_total h (.serverOverwrite path newData)
    ⟨hpath, hdata⟩ (fun _ _ => trivial) with ⟨tree', htree', happlied⟩
  refine ⟨tree', htree', ⟨happlied.inv, ?_, ?_⟩, happlied⟩
  · intro hshows hclear _
    exact hshows.serverOverwrite h hclear hpath hdata happlied
  · intro hknown hclear _ hshows
    exact hknown.serverOverwrite h hclear hpath hdata happlied hshows

theorem applyListenComplete_spec {tree : FSyncTree} (h : tree.Inv) :
    exists tree', tree.applyListenComplete = some tree' ∧
      Keeps tree tree' ∧ tree'.pendingWriteTree = tree.pendingWriteTree := by
  rcases applyOperationToSyncPoints_total h .listenComplete trivial
    (fun _ _ => trivial) with ⟨tree', htree', happlied⟩
  refine ⟨tree', htree', ⟨happlied.inv, ?_, ?_⟩, happlied.writes⟩
  · intro hshows _ _
    exact hshows.listenComplete h happlied
  · intro _ _ _ hshows
    exact Known.listenComplete h happlied hshows

theorem applyUserOverwriteAtPath_spec {tree : FSyncTree} (h : tree.Inv) (write : Write)
    {writeId : Int} (hid : tree.pendingWriteTree.lastWriteId < writeId) :
    exists tree', tree.applyUserOverwriteAtPath write writeId = some tree' ∧
      Keeps tree tree' ∧ tree'.pendingWriteTree.lastWriteId = writeId ∧
      tree'.pendingWriteTree.allWrites = tree.pendingWriteTree.allWrites ++
        [{ toWrite := write, writeId := writeId, visible := true }] ∧
      forall server, tree.serverData = some server -> tree'.serverData = some server := by
  rcases FWriteTree.addOverwriteAtPath_of_lt
    { toWrite := write, writeId := writeId, visible := true } hid with ⟨writes, hwrites⟩
  have hinv := h.writes.addOverwriteAtPath rfl hwrites
  rcases FWriteTree.addOverwriteAtPath_inv hwrites with ⟨_, heq⟩
  have hmid := h.withWrites hinv
  rcases applyOperationToSyncPoints_total hmid (.userOverwrite write.path write.node)
    ⟨write.valid, write.wellFormed⟩ (fun _ _ => trivial) with ⟨tree', htree', happlied⟩
  have hlast : tree'.pendingWriteTree.lastWriteId = writeId := by
    rw [happlied.writes, heq]
  have hall : tree'.pendingWriteTree.allWrites = tree.pendingWriteTree.allWrites ++
      [{ toWrite := write, writeId := writeId, visible := true }] := by
    rw [happlied.writes, heq]
  have hpending : FViewProcessor.pending writes =
      add (FViewProcessor.pending tree.pendingWriteTree) write.path write.node.values := by
    show FWriteTree.pendingWrites writes.allWrites = _
    rw [heq, FWriteTree.pendingWrites_append]
    rfl
  -- the new write is one of those that may not erase below a value
  have hvacant : forall data : FNode,
      FWriteTree.ClearFor data tree'.pendingWriteTree.allWrites ->
      Vacant write.node.values -> Overlay.Clear data.values write.path := by
    intro data hclear hvacant
    apply hclear { toWrite := write, writeId := writeId, visible := true }
    · rw [hall]
      exact List.mem_append_right _ List.mem_cons_self
    · exact write.wellFormed.vacant_iff.mp hvacant
  refine ⟨tree', ?_, ⟨happlied.inv, ?_, ?_⟩, hlast, hall,
    fun server hserver => happlied.userOverwrite hmid write.valid write.wellFormed hserver⟩
  · rw [applyUserOverwriteAtPath, hwrites, Option.bind_some]
    exact htree'
  · intro hshows _ hclear'
    exact Shows.userOverwrite hmid write.valid write.wellFormed
      (FViewProcessor.closed_pending tree.pendingWriteTree) hpending hshows
      (fun server hserver => hvacant server (hclear' server hserver)) happlied
  · intro hknown _ hclear' hshows'
    exact Known.userOverwrite hmid write.valid write.wellFormed hpending hknown
      (fun sent hsent => hvacant sent (hclear' sent hsent)) happlied hshows'

/-!
## Answered writes
-/

/-- The writes that are left after an answer. -/
structure Answered (tree : FSyncTree) (writeId : Int) (tree' : FSyncTree) : Prop where
  lastWriteId : forall bound, -1 ≤ bound -> tree.pendingWriteTree.lastWriteId ≤ bound ->
    tree'.pendingWriteTree.lastWriteId ≤ bound
  writes : exists front w back, tree.pendingWriteTree.allWrites = front ++ w :: back ∧
    w.writeId = writeId ∧ tree'.pendingWriteTree.allWrites = front ++ back
  server : forall server, tree.serverData = some server ->
    exists server', tree'.serverData = some server' ∧ KeyedTree.Same server' server

/-- The write with this id is pending, and no earlier pending write stands at or above its path. -/
def Answers (tree : FSyncTree) (writeId : Int) : Prop :=
  (exists w, w ∈ tree.pendingWriteTree.allWrites ∧ w.writeId = writeId) ∧
    tree.pendingWriteTree.Answerable writeId

/-- The server has no value above the path of the write. -/
def Arrived (tree : FSyncTree) (writeId : Int) : Prop :=
  forall server w, tree.serverData = some server -> w ∈ tree.pendingWriteTree.allWrites ->
    w.writeId = writeId -> Overlay.Clear server.values w.path

/-- The server has sent no value above the path of the write. -/
def ArrivedSent (tree : FSyncTree) (writeId : Int) : Prop :=
  forall sent, tree.sentData = some sent -> forall w, w ∈ tree.pendingWriteTree.allWrites ->
    w.writeId = writeId -> Overlay.Clear sent.values w.path

theorem arrived_iff {tree : FSyncTree} {writeId : Int} :
    tree.Arrived writeId <-> forall server, server ∈ tree.serverData -> forall w,
      w ∈ tree.pendingWriteTree.allWrites -> w.writeId = writeId ->
        Overlay.Clear server.values w.path :=
  ⟨fun h server hserver w => h server w hserver, fun h server w hserver => h server hserver w⟩

theorem ArrivedSent.arrived {tree : FSyncTree} {writeId : Int} (h : tree.ArrivedSent writeId) :
    tree.Arrived writeId :=
  arrived_iff.mpr fun server hserver => h server (sentData_of_serverData hserver)

instance Answers.decidable (tree : FSyncTree) (writeId : Int) : Decidable (tree.Answers writeId) :=
  inferInstanceAs (Decidable
    ((exists w, w ∈ tree.pendingWriteTree.allWrites ∧ w.writeId = writeId) ∧
      tree.pendingWriteTree.Answerable writeId))

instance Arrived.decidable (tree : FSyncTree) (writeId : Int) : Decidable (tree.Arrived writeId) :=
  decidable_of_iff _ arrived_iff.symm

instance ArrivedSent.decidable (tree : FSyncTree) (writeId : Int) :
    Decidable (tree.ArrivedSent writeId) :=
  inferInstanceAs (Decidable (forall sent, sent ∈ tree.sentData -> forall w,
    w ∈ tree.pendingWriteTree.allWrites -> w.writeId = writeId ->
      Overlay.Clear sent.values w.path))

/-- What taking a write out of the write tree leaves there. -/
structure Removed (tree : FSyncTree) (w : FWriteRecord) (writes : FWriteTree) (needed : Bool) :
    Prop where
  inv : writes.Inv
  split : exists front back, tree.pendingWriteTree.allWrites = front ++ w :: back ∧
    writes.allWrites = front ++ back
  lastWriteId : forall bound, -1 ≤ bound -> tree.pendingWriteTree.lastWriteId ≤ bound ->
    writes.lastWriteId ≤ bound
  agree : AgreeOff w.path (FViewProcessor.pending tree.pendingWriteTree)
    (FViewProcessor.pending writes)
  unchanged : needed = false ->
    FViewProcessor.pending writes = FViewProcessor.pending tree.pendingWriteTree
  uncovered : needed = true -> FViewProcessor.pending writes w.path = none

theorem ackUserWrite_removed {tree : FSyncTree} (h : tree.Inv) {writeId : Int}
    (hanswers : tree.Answers writeId) :
    exists w writes needed, w.writeId = writeId ∧ Removed tree w writes needed ∧
      forall revert, tree.ackUserWriteWithWriteId writeId revert =
        if needed then
          applyOperationToSyncPoints { tree with pendingWriteTree := writes }
            (.ackUserWrite w.path revert)
        else
          some { tree with pendingWriteTree := writes } := by
  rcases hanswers with ⟨⟨w, hw, rfl⟩, hanswerable⟩
  rcases FWriteTree.removeWriteId_of_mem hw with ⟨⟨writes, needed⟩, hremoved⟩
  rcases h.writes.removeWriteId hremoved hanswerable with ⟨front, w', back, hsplit, hid, hspec⟩
  have hfound : tree.pendingWriteTree.writeForId w.writeId = some w' := by
    rw [← hid]
    exact FWriteTree.writeForId_of_split h.writes hsplit
  refine ⟨w', writes, needed, hid, ?_, ?_⟩
  · constructor
    case inv => exact hspec.inv
    case split => exact ⟨front, back, hsplit, hspec.allWrites⟩
    case lastWriteId => exact hspec.lastWriteId
    case agree =>
      have hoff := hspec.agree
      rw [h.writes.pending, hspec.inv.pending] at hoff
      exact hoff
    case unchanged =>
      intro hneeded
      rw [FViewProcessor.pending, FViewProcessor.pending, ← h.writes.pending,
        ← hspec.inv.pending, hspec.unchanged hneeded]
    case uncovered =>
      intro hneeded
      have hcovered := hspec.uncovered hneeded
      rw [hspec.inv.pending] at hcovered
      exact hcovered
  · intro revert
    rw [ackUserWriteWithWriteId, hfound, Option.bind_some, hremoved, Option.bind_some]

theorem Removed.mem {tree : FSyncTree} {w : FWriteRecord} {writes : FWriteTree} {needed : Bool}
    (h : Removed tree w writes needed) : w ∈ tree.pendingWriteTree.allWrites := by
  rcases h.split with ⟨front, back, hsplit, _⟩
  rw [hsplit]
  exact List.mem_append_right front List.mem_cons_self

theorem Removed.answered {tree tree' : FSyncTree} {w : FWriteRecord} {writes : FWriteTree}
    {needed : Bool} (h : Removed tree w writes needed) (hwrites : tree'.pendingWriteTree = writes)
    (hserver : forall server, tree.serverData = some server ->
      exists server', tree'.serverData = some server' ∧ KeyedTree.Same server' server) :
    Answered tree w.writeId tree' where
  lastWriteId := by
    rw [hwrites]
    exact h.lastWriteId
  writes := by
    rcases h.split with ⟨front, back, hsplit, hall⟩
    refine ⟨front, w, back, hsplit, rfl, ?_⟩
    rw [hwrites]
    exact hall
  server := hserver

/-- What an answer leaves of the tree. -/
structure AckedWrite (tree : FSyncTree) (writeId : Int) (revert : Bool) (tree' : FSyncTree) :
    Prop where
  inv : tree'.Inv
  answered : Answered tree writeId tree'
  shows : (revert = false -> tree.Arrived writeId) -> KeepsShown tree tree'
  known : (revert = false -> tree.ArrivedSent writeId) -> KeepsKnown tree tree'

theorem Removed.hidden {tree : FSyncTree} (h : tree.Inv) {w : FWriteRecord}
    {writes : FWriteTree} (hremoved : Removed tree w writes false) (revert : Bool) :
    AckedWrite tree w.writeId revert { tree with pendingWriteTree := writes } where
  inv := h.withWrites hremoved.inv
  answered := hremoved.answered rfl fun server hserver => ⟨server, hserver, rfl⟩
  shows := by
    intro _ hshows _ _ view hview
    show FViewProcessor.Agrees view.viewCache (FViewProcessor.pending writes)
    rw [hremoved.unchanged rfl]
    exact hshows view hview
  known := by
    intro _ hknown _ _ _ view hview
    show FViewProcessor.ChildrenShown view.viewCache (FViewProcessor.pending writes)
    rw [hremoved.unchanged rfl]
    exact hknown view hview

theorem Removed.shown {tree tree' : FSyncTree} (h : tree.Inv) {w : FWriteRecord}
    {writes : FWriteTree} (hremoved : Removed tree w writes true) {revert : Bool}
    (happlied : Applied { tree with pendingWriteTree := writes }
      (.ackUserWrite w.path revert) tree') :
    AckedWrite tree w.writeId revert tree' where
  inv := happlied.inv
  answered := hremoved.answered happlied.writes fun server hserver =>
    happlied.ackUserWrite (h.withWrites hremoved.inv) w.valid hserver
  shows := by
    intro harrived hshows _ _
    exact Shows.ackUserWrite (h.withWrites hremoved.inv) w.valid hremoved.agree
      (hremoved.uncovered rfl) hshows
      (fun hrevert server hserver => harrived hrevert server w hserver hremoved.mem rfl) happlied
  known := by
    intro harrived hknown _ _ hshows'
    exact Known.ackUserWrite (h.withWrites hremoved.inv) w.valid hremoved.agree
      (hremoved.uncovered rfl) hknown
      (fun hrevert sent hsent => harrived hrevert sent hsent w hremoved.mem rfl) happlied hshows'

theorem ackUserWriteWithWriteId_spec {tree tree' : FSyncTree} (h : tree.Inv) {writeId : Int}
    (hanswers : tree.Answers writeId) {revert : Bool}
    (hack : tree.ackUserWriteWithWriteId writeId revert = some tree') :
    AckedWrite tree writeId revert tree' := by
  rcases ackUserWrite_removed h hanswers with ⟨w, writes, needed, rfl, hremoved, heq⟩
  rw [heq] at hack
  cases needed with
  | false =>
      cases hack
      exact hremoved.hidden h revert
  | true =>
      exact hremoved.shown h
        (applyOperationToSyncPoints_spec (h.withWrites hremoved.inv) w.valid hack)

/-- An answer is taken in as long as the view shows what the server has sent. -/
theorem ackUserWriteWithWriteId_total {tree : FSyncTree} (h : tree.Inv) {writeId : Int}
    (hanswers : tree.Answers writeId) (revert : Bool) (hknown : revert = true -> tree.Known) :
    exists tree', tree.ackUserWriteWithWriteId writeId revert = some tree' := by
  rcases ackUserWrite_removed h hanswers with ⟨w, writes, needed, rfl, hremoved, heq⟩
  rw [heq]
  cases needed with
  | false => exact ⟨_, rfl⟩
  | true =>
      have hmid := h.withWrites hremoved.inv
      have hpasses : forall view, tree.view = some view ->
          FViewProcessor.Passes view.viewCache writes (.ackUserWrite w.path revert) := by
        intro view hview
        cases revert with
        | false => trivial
        | true =>
            intro hnone
            exact (hknown rfl view hview).restorable (h.valid view hview) hremoved.inv
              hremoved.agree hnone
      rcases applyOperationToSyncPoints_total hmid (.ackUserWrite w.path revert)
        w.valid hpasses with ⟨tree', htree', _⟩
      exact ⟨tree', htree'⟩

theorem removeAllWrites_spec {tree : FSyncTree} (h : tree.Inv) :
    exists tree', tree.removeAllWrites = some tree' ∧ Keeps tree tree' ∧
      tree'.pendingWriteTree = tree.pendingWriteTree.removeAllWrites := by
  have hmid := h.withWrites (FWriteTree.inv_removeAllWrites tree.pendingWriteTree)
  have hnone : FViewProcessor.pending tree.pendingWriteTree.removeAllWrites = fun _ => none := rfl
  unfold removeAllWrites
  cases hwrites : tree.pendingWriteTree.allWrites with
  | nil =>
      have hsame : FViewProcessor.pending tree.pendingWriteTree = fun _ => none := by
        rw [FViewProcessor.pending, hwrites]
        rfl
      refine ⟨_, rfl, ⟨hmid, ?_, ?_⟩, rfl⟩
      · intro hshows _ _ view hview
        have hbefore := hshows view hview
        rw [hsame] at hbefore
        exact hbefore
      · intro hknown _ _ _ view hview
        have hbefore := hknown view hview
        rw [hsame] at hbefore
        exact hbefore
  | cons w rest =>
      have hroot : ValidPath [] := by simp [ValidPath]
      have hoff : AgreeOff [] (FViewProcessor.pending tree.pendingWriteTree)
          (FViewProcessor.pending tree.pendingWriteTree.removeAllWrites) :=
        fun q hq => absurd List.nil_prefix hq
      rcases applyOperationToSyncPoints_total hmid (.ackUserWrite [] true) hroot
        (fun _ _ _ _ _ _ hpath => by cases hpath) with ⟨tree', htree', happlied⟩
      refine ⟨tree', htree', ⟨happlied.inv, ?_, ?_⟩, happlied.writes⟩
      · intro hshows _ _
        exact Shows.ackUserWrite hmid hroot hoff (congrFun hnone []) hshows
          (fun hcontra => by cases hcontra) happlied
      · intro hknown _ _ hshows'
        exact Known.ackUserWrite hmid hroot hoff (congrFun hnone []) hknown
          (fun hcontra => by cases hcontra) happlied hshows'

theorem newView_known (tree : FSyncTree) :
    FViewProcessor.ChildrenShown tree.newView.viewCache
      (FViewProcessor.pending tree.pendingWriteTree) := by
  intro k hcomplete
  cases hcomplete

theorem addEventRegistration_keeps {tree : FSyncTree} (h : tree.Inv) (handle : Nat) :
    Keeps tree (tree.addEventRegistration handle) where
  inv := h.addEventRegistration handle
  shows := by
    intro hshows _ _ view hview
    cases hview
    cases hold : tree.view with
    | none => exact (newView_cache h.writes).right
    | some view => exact hshows view hold
  known := by
    intro hknown _ _ _ view hview
    cases hview
    cases hold : tree.view with
    | none => exact newView_known tree
    | some view => exact hknown view hold

theorem removeEventRegistration_keeps {tree : FSyncTree} (h : tree.Inv) (handle : Option Nat) :
    Keeps tree (tree.removeEventRegistration handle) where
  inv := h.removeEventRegistration handle
  shows := by
    intro hshows _ _ view' hview'
    rcases removeEventRegistration_view hview' with ⟨view, hview, hcache, _⟩
    rw [hcache, removeEventRegistration_writes]
    exact hshows view hview
  known := by
    intro hknown _ _ _ view' hview'
    rcases removeEventRegistration_view hview' with ⟨view, hview, hcache, _⟩
    rw [hcache, removeEventRegistration_writes]
    exact hknown view hview

end FSyncTree

end Firebase
end MyMovies
