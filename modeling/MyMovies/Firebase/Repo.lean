import MyMovies.Foundation.Runs
import MyMovies.Firebase.SyncTree

/-!
# The repo

`FRepo` numbers the writes of the user, sends them to the server, and passes to
its sync tree what the server answers and sends.  The connection is the
environment: its events come in any order, except where an assumption is named.
-/

namespace MyMovies
namespace Firebase

open Foundation Overlay

/-- The answer to a write; the connection cancels a write that was purged. -/
inductive WriteStatus where
  | ok
  | canceled
  | error (status : String)

structure FRepo where
  serverSyncTree : FSyncTree
  writeIdCounter : Int

namespace FRepo

def init : FRepo where
  serverSyncTree := FSyncTree.init
  writeIdCounter := 0

def withTree (repo : FRepo) (serverSyncTree : FSyncTree) : FRepo :=
  { repo with serverSyncTree := serverSyncTree }

def latestStateAtPath (repo : FRepo) (path : List String) (writeIdsToExclude : List Int) :
    FNode :=
  (repo.serverSyncTree.calcCompleteEventCacheAtPath path writeIdsToExclude).getD KeyedTree.empty

def set (repo : FRepo) (write : Write) : Option FRepo :=
  (repo.serverSyncTree.applyUserOverwriteAtPath write repo.writeIdCounter).map fun tree =>
    { serverSyncTree := tree, writeIdCounter := repo.writeIdCounter + 1 }

def onDataUpdate (repo : FRepo) (data : Write) : Option FRepo :=
  (repo.serverSyncTree.applyServerOverwriteAtPath data.path data.node).map repo.withTree

def ackWrite (repo : FRepo) (writeId : Int) (status : WriteStatus) : Option FRepo :=
  match status with
  | .canceled => some repo
  | .ok => (repo.serverSyncTree.ackUserWriteWithWriteId writeId false).map repo.withTree
  | .error _ => (repo.serverSyncTree.ackUserWriteWithWriteId writeId true).map repo.withTree

inductive Event where
  | set (write : Write)
  | ackWrite (writeId : Int) (status : WriteStatus)
  | purgeOutstandingWrites
  | onDataUpdate (data : Write)
  /-- The server has sent what the listen asked for. -/
  | listenComplete
  /-- The server refuses the listen, or takes it back. -/
  | listenRevoked
  | addEventRegistration (handle : Nat)
  | removeEventRegistration (handle : Nat)

def step (repo : FRepo) : Event -> Option FRepo
  | .set write => repo.set write
  | .ackWrite writeId status => repo.ackWrite writeId status
  | .purgeOutstandingWrites => repo.serverSyncTree.removeAllWrites.map repo.withTree
  | .onDataUpdate data => repo.onDataUpdate data
  | .listenComplete => repo.serverSyncTree.applyListenComplete.map repo.withTree
  | .listenRevoked => some (repo.withTree (repo.serverSyncTree.removeEventRegistration none))
  | .addEventRegistration handle =>
      some (repo.withTree (repo.serverSyncTree.addEventRegistration handle))
  | .removeEventRegistration handle =>
      some (repo.withTree (repo.serverSyncTree.removeEventRegistration (some handle)))

/-!
## What the server has to do
-/

/-- The server answers a write that is pending, and no earlier one over it. -/
def Answers (repo : FRepo) : Event -> Prop
  | .ackWrite _ .canceled => True
  | .ackWrite writeId _ => repo.serverSyncTree.Answers writeId
  | _ => True

/-- The server accepts a write after it has sent what stands at its path. -/
def Arrives (repo : FRepo) : Event -> Prop
  | .ackWrite writeId .ok => repo.serverSyncTree.Arrived writeId
  | _ => True

/-- The same of what the server has sent before the listen is complete. -/
def ArrivesSent (repo : FRepo) : Event -> Prop
  | .ackWrite writeId .ok => repo.serverSyncTree.ArrivedSent writeId
  | _ => True

def Event.answered : Event -> Option Int
  | .ackWrite _ .canceled => none
  | .ackWrite writeId _ => some writeId
  | _ => none

def Event.accepted : Event -> Option Int
  | .ackWrite writeId .ok => some writeId
  | _ => none

theorem answers_iff {repo : FRepo} {e : Event} :
    repo.Answers e <-> forall writeId, writeId ∈ e.answered ->
      repo.serverSyncTree.Answers writeId := by
  cases e with
  | ackWrite writeId status => cases status <;> simp [Answers, Event.answered]
  | _ => simp [Answers, Event.answered]

theorem arrives_iff {repo : FRepo} {e : Event} :
    repo.Arrives e <-> forall writeId, writeId ∈ e.accepted ->
      repo.serverSyncTree.Arrived writeId := by
  cases e with
  | ackWrite writeId status => cases status <;> simp [Arrives, Event.accepted]
  | _ => simp [Arrives, Event.accepted]

theorem arrives_of_sent {repo : FRepo} {e : Event} (h : repo.ArrivesSent e) : repo.Arrives e := by
  cases e with
  | ackWrite writeId status =>
      cases status with
      | ok => exact FSyncTree.ArrivedSent.arrived h
      | _ => trivial
  | _ => trivial

theorem arrivesSent_iff {repo : FRepo} {e : Event} :
    repo.ArrivesSent e <-> forall writeId, writeId ∈ e.accepted ->
      repo.serverSyncTree.ArrivedSent writeId := by
  cases e with
  | ackWrite writeId status => cases status <;> simp [ArrivesSent, Event.accepted]
  | _ => simp [ArrivesSent, Event.accepted]

instance Answers.decidable (repo : FRepo) (e : Event) : Decidable (repo.Answers e) :=
  decidable_of_iff _ answers_iff.symm

instance Arrives.decidable (repo : FRepo) (e : Event) : Decidable (repo.Arrives e) :=
  decidable_of_iff _ arrives_iff.symm

instance ArrivesSent.decidable (repo : FRepo) (e : Event) : Decidable (repo.ArrivesSent e) :=
  decidable_of_iff _ arrivesSent_iff.symm

structure Inv (repo : FRepo) : Prop where
  tree : repo.serverSyncTree.Inv
  counter : repo.serverSyncTree.pendingWriteTree.lastWriteId < repo.writeIdCounter
  positive : 0 ≤ repo.writeIdCounter

theorem inv_init : init.Inv where
  tree := FSyncTree.inv_init
  counter := by decide
  positive := le_rfl

theorem Inv.withTree {repo : FRepo} (h : repo.Inv) {tree : FSyncTree} (htree : tree.Inv)
    (hcounter : tree.pendingWriteTree.lastWriteId < repo.writeIdCounter) :
    (repo.withTree tree).Inv where
  tree := htree
  counter := hcounter
  positive := h.positive

/-- What an event leaves, the other parts as far as the server sent what it accepted. -/
structure Stepped (repo : FRepo) (e : Event) (repo' : FRepo) : Prop where
  inv : repo'.Inv
  shows : repo.Arrives e -> FSyncTree.KeepsShown repo.serverSyncTree repo'.serverSyncTree
  known : repo.ArrivesSent e -> FSyncTree.KeepsKnown repo.serverSyncTree repo'.serverSyncTree

theorem stepped_of_keeps {repo repo' : FRepo} {e : Event} (hinv : repo'.Inv)
    (hkeeps : FSyncTree.Keeps repo.serverSyncTree repo'.serverSyncTree) :
    Stepped repo e repo' :=
  ⟨hinv, fun _ => hkeeps.shows, fun _ => hkeeps.known⟩

theorem set_spec {repo : FRepo} (h : repo.Inv) (write : Write) :
    exists repo', repo.set write = some repo' ∧ Stepped repo (.set write) repo' := by
  rcases FSyncTree.applyUserOverwriteAtPath_spec h.tree write h.counter with
    ⟨tree', htree', hkeeps, hlast, _, _⟩
  refine ⟨{ serverSyncTree := tree', writeIdCounter := repo.writeIdCounter + 1 }, ?_,
    stepped_of_keeps ?_ hkeeps⟩
  · rw [set, htree']
    rfl
  · constructor
    case tree => exact hkeeps.inv
    case counter =>
      show tree'.pendingWriteTree.lastWriteId < repo.writeIdCounter + 1
      rw [hlast]
      exact Int.lt_succ repo.writeIdCounter
    case positive => exact Int.le_add_one h.positive

theorem Inv.acked {repo : FRepo} (h : repo.Inv) {writeId : Int} {revert : Bool}
    {tree' : FSyncTree}
    (hacked : FSyncTree.AckedWrite repo.serverSyncTree writeId revert tree') :
    (repo.withTree tree').Inv := by
  apply h.withTree hacked.inv
  have hcounter := h.counter
  have hpositive := h.positive
  have hbound := hacked.answered.lastWriteId (repo.writeIdCounter - 1) (by omega) (by omega)
  omega

theorem step_unanswered {repo : FRepo} (h : repo.Inv) {e : Event} (he : e.answered = none) :
    exists repo', repo.step e = some repo' ∧ Stepped repo e repo' := by
  cases e with
  | set write => exact set_spec h write
  | ackWrite writeId status =>
      cases status with
      | canceled => exact ⟨repo, rfl, h, fun _ hshows _ _ => hshows, fun _ hknown _ _ _ => hknown⟩
      | ok => cases he
      | error status => cases he
  | purgeOutstandingWrites =>
      rcases FSyncTree.removeAllWrites_spec h.tree with ⟨tree', htree', hkeeps, hwrites⟩
      refine ⟨repo.withTree tree', ?_, stepped_of_keeps (h.withTree hkeeps.inv ?_) hkeeps⟩
      · rw [step, htree']
        rfl
      · rw [hwrites]
        exact h.counter
  | onDataUpdate data =>
      rcases FSyncTree.applyServerOverwriteAtPath_spec h.tree data.valid data.wellFormed with
        ⟨tree', htree', hkeeps, happlied⟩
      refine ⟨repo.withTree tree', ?_, stepped_of_keeps (h.withTree hkeeps.inv ?_) hkeeps⟩
      · rw [step, onDataUpdate, htree']
        rfl
      · rw [happlied.writes]
        exact h.counter
  | listenComplete =>
      rcases FSyncTree.applyListenComplete_spec h.tree with ⟨tree', htree', hkeeps, hwrites⟩
      refine ⟨repo.withTree tree', ?_, stepped_of_keeps (h.withTree hkeeps.inv ?_) hkeeps⟩
      · rw [step, htree']
        rfl
      · rw [hwrites]
        exact h.counter
  | listenRevoked =>
      have hkeeps := FSyncTree.removeEventRegistration_keeps h.tree none
      refine ⟨_, rfl, stepped_of_keeps (h.withTree hkeeps.inv ?_) hkeeps⟩
      rw [FSyncTree.removeEventRegistration_writes]
      exact h.counter
  | addEventRegistration handle =>
      have hkeeps := FSyncTree.addEventRegistration_keeps h.tree handle
      exact ⟨_, rfl, stepped_of_keeps (h.withTree hkeeps.inv h.counter) hkeeps⟩
  | removeEventRegistration handle =>
      have hkeeps := FSyncTree.removeEventRegistration_keeps h.tree (some handle)
      refine ⟨_, rfl, stepped_of_keeps (h.withTree hkeeps.inv ?_) hkeeps⟩
      rw [FSyncTree.removeEventRegistration_writes]
      exact h.counter

theorem step_spec {repo repo' : FRepo} (h : repo.Inv) {e : Event} (hanswers : repo.Answers e)
    (hstep : repo.step e = some repo') : Stepped repo e repo' := by
  cases he : e.answered with
  | none =>
      rcases step_unanswered h he with ⟨repo'', hstep', hspec⟩
      rw [hstep] at hstep'
      cases hstep'
      exact hspec
  | some _ =>
      cases e with
      | ackWrite writeId status =>
          cases status with
          | canceled => cases he
          | ok =>
              rcases Option.map_eq_some_iff.mp hstep with ⟨tree', htree', rfl⟩
              have hacked := FSyncTree.ackUserWriteWithWriteId_spec h.tree hanswers htree'
              exact ⟨h.acked hacked, fun harrives => hacked.shows (fun _ => harrives),
                fun harrives => hacked.known (fun _ => harrives)⟩
          | error status =>
              rcases Option.map_eq_some_iff.mp hstep with ⟨tree', htree', rfl⟩
              have hacked := FSyncTree.ackUserWriteWithWriteId_spec h.tree hanswers htree'
              exact ⟨h.acked hacked, fun _ => hacked.shows (fun hcontra => by cases hcontra),
                fun _ => hacked.known (fun hcontra => by cases hcontra)⟩
      | _ => cases he

theorem step_total {repo : FRepo} (h : repo.Inv) {e : Event} (hanswers : repo.Answers e)
    (hknown : repo.serverSyncTree.Known) : exists repo', repo.step e = some repo' := by
  cases he : e.answered with
  | none =>
      rcases step_unanswered h he with ⟨repo', hstep, _⟩
      exact ⟨repo', hstep⟩
  | some _ =>
      cases e with
      | ackWrite writeId status =>
          cases status with
          | canceled => cases he
          | ok =>
              rcases FSyncTree.ackUserWriteWithWriteId_total h.tree hanswers
                false (fun _ => hknown) with ⟨tree', htree'⟩
              exact ⟨repo.withTree tree', by rw [step, ackWrite, htree']; rfl⟩
          | error status =>
              rcases FSyncTree.ackUserWriteWithWriteId_total h.tree hanswers
                true (fun _ => hknown) with ⟨tree', htree'⟩
              exact ⟨repo.withTree tree', by rw [step, ackWrite, htree']; rfl⟩
      | _ => cases he

/-- The events that change caches, and leave the registrations in place. -/
def Event.isOperation : Event -> Bool
  | .listenRevoked => false
  | .addEventRegistration _ => false
  | .removeEventRegistration _ => false
  | _ => true

theorem operation_cases {repo repo' : FRepo} {e : Event} (he : e.isOperation = true)
    (h : repo.step e = some repo') :
    exists writes,
      repo'.serverSyncTree = { repo.serverSyncTree with pendingWriteTree := writes } ∨
      exists operation : FOperation, operation.Valid ∧
        FSyncTree.applyOperationToSyncPoints
          { repo.serverSyncTree with pendingWriteTree := writes } operation =
            some repo'.serverSyncTree := by
  have hack : forall writeId revert tree',
      repo.serverSyncTree.ackUserWriteWithWriteId writeId revert = some tree' ->
      exists writes, tree' = { repo.serverSyncTree with pendingWriteTree := writes } ∨
        exists operation : FOperation, operation.Valid ∧
          FSyncTree.applyOperationToSyncPoints
            { repo.serverSyncTree with pendingWriteTree := writes } operation = some tree' := by
    intro writeId revert tree' htree'
    rcases Option.bind_eq_some_iff.mp htree' with ⟨write, _, htree'⟩
    rcases Option.bind_eq_some_iff.mp htree' with ⟨removed, _, htree'⟩
    refine ⟨removed.1, ?_⟩
    split at htree'
    · exact Or.inr ⟨.ackUserWrite write.path revert, write.valid, htree'⟩
    · cases htree'
      exact Or.inl rfl
  cases e with
  | set write =>
      rcases Option.map_eq_some_iff.mp h with ⟨tree', htree', rfl⟩
      rcases Option.bind_eq_some_iff.mp htree' with ⟨writes, _, htree'⟩
      exact ⟨writes, Or.inr
        ⟨.userOverwrite write.path write.node, ⟨write.valid, write.wellFormed⟩, htree'⟩⟩
  | ackWrite writeId status =>
      cases status with
      | canceled =>
          cases h
          exact ⟨repo.serverSyncTree.pendingWriteTree, Or.inl rfl⟩
      | ok =>
          rcases Option.map_eq_some_iff.mp h with ⟨tree', htree', rfl⟩
          exact hack writeId false tree' htree'
      | error status =>
          rcases Option.map_eq_some_iff.mp h with ⟨tree', htree', rfl⟩
          exact hack writeId true tree' htree'
  | purgeOutstandingWrites =>
      rcases Option.map_eq_some_iff.mp h with ⟨tree', htree', rfl⟩
      refine ⟨repo.serverSyncTree.pendingWriteTree.removeAllWrites, ?_⟩
      unfold FSyncTree.removeAllWrites at htree'
      split at htree'
      · cases htree'
        exact Or.inl rfl
      · exact Or.inr ⟨.ackUserWrite [] true, by simp [FOperation.Valid, ValidPath], htree'⟩
  | onDataUpdate data =>
      rcases Option.map_eq_some_iff.mp h with ⟨tree', htree', rfl⟩
      exact ⟨repo.serverSyncTree.pendingWriteTree,
        Or.inr ⟨.serverOverwrite data.path data.node, ⟨data.valid, data.wellFormed⟩, htree'⟩⟩
  | listenComplete =>
      rcases Option.map_eq_some_iff.mp h with ⟨tree', htree', rfl⟩
      exact ⟨repo.serverSyncTree.pendingWriteTree, Or.inr ⟨.listenComplete, trivial, htree'⟩⟩
  | listenRevoked => cases he
  | addEventRegistration handle => cases he
  | removeEventRegistration handle => cases he

theorem operation_heard {repo repo' : FRepo} (h : repo.Inv) {e : Event}
    (hanswers : repo.Answers e) (he : e.isOperation = true) (hstep : repo.step e = some repo') :
    Option.Rel FView.Heard repo.serverSyncTree.view repo'.serverSyncTree.view := by
  have hspec := step_spec h hanswers hstep
  rcases operation_cases he hstep with ⟨writes, htree | ⟨operation, hop, happly⟩⟩
  · rw [htree]
    exact FSyncTree.heard_refl _
  · have hwrites : writes.Inv := by
      have hafter := hspec.inv.tree.writes
      rw [FSyncTree.applyOperationToSyncPoints_writes happly] at hafter
      exact hafter
    exact (FSyncTree.applyOperationToSyncPoints_spec (h.tree.withWrites hwrites) hop happly).heard

/-!
## Runs
-/

def titleWrite : Write where
  path := ["titulo"]
  node := .leaf (.string "Alien")
  valid := by decide
  wellFormed := .leaf _

def sequelWrite : Write where
  path := ["titulo"]
  node := .leaf (.string "Aliens")
  valid := by decide
  wellFormed := .leaf _

def twoTitles : List Event :=
  [.addEventRegistration 0, .listenComplete, .set titleWrite, .set sequelWrite]

/-- Every registration was told last what its view has, once that is complete. -/
def UpToDate (repo : FRepo) : Prop :=
  forall view, repo.serverSyncTree.view = some view -> view.UpToDate

theorem always_inv {es : List Event} (hes : Runs.Guarded step Answers init es) :
    Runs.Always step Inv init es :=
  (Runs.always_of_guarded (C := fun _ => True)
    (fun _ _ _ h _ hanswers hstep _ => (step_spec h hanswers hstep).inv) inv_init
    (Runs.always_iff.mpr fun _ _ _ _ _ => trivial) hes).imp fun _ h => h.left

theorem inv_of_run {es : List Event} {repo : FRepo} (hes : Runs.Guarded step Answers init es)
    (h : Runs.run step init es = some repo) : repo.Inv :=
  (always_inv hes).last h

/-- No pending write erases anything below a value that the server has sent. -/
def ClearSent (repo : FRepo) : Prop := repo.serverSyncTree.ClearSent

instance ClearSent.decidable : DecidablePred ClearSent :=
  fun repo => FSyncTree.ClearSent.decidable repo.serverSyncTree

/-- The view shows the pending writes over all that the server has sent. -/
structure ShownSent (repo : FRepo) : Prop where
  inv : repo.Inv
  shows : repo.serverSyncTree.Shows
  known : repo.serverSyncTree.Known

theorem shownSent_init : init.ShownSent where
  inv := inv_init
  shows := fun view h => by cases h
  known := fun view h => by cases h

theorem ShownSent.step {repo repo' : FRepo} (h : repo.ShownSent) (hclear : repo.ClearSent)
    {e : Event} (hanswers : repo.Answers e) (harrives : repo.ArrivesSent e)
    (hstep : repo.step e = some repo') (hclear' : repo'.ClearSent) : repo'.ShownSent := by
  have hspec := step_spec h.inv hanswers hstep
  have hshows := hspec.shows (arrives_of_sent harrives) h.shows
    (FSyncTree.ClearSent.clear hclear) (FSyncTree.ClearSent.clear hclear')
  exact ⟨hspec.inv, hshows, hspec.known harrives h.known hclear hclear' hshows⟩

theorem along_shownSent {repo : FRepo} (h : repo.ShownSent) {es : List Event}
    (hes : Runs.Guarded FRepo.step (fun repo e => repo.Answers e ∧ repo.ArrivesSent e) repo es)
    (hclear : Runs.Always FRepo.step ClearSent repo es) :
    Runs.Along FRepo.step (fun repo => repo.ShownSent ∧ repo.ClearSent) repo es := by
  apply Runs.along_of_guarded _ h hclear hes
  intro repo e h hclear hguard
  rcases step_total h.inv hguard.left h.known with ⟨repo', hstep⟩
  exact ⟨repo', hstep, h.step hclear hguard.left hguard.right hstep⟩

def filmWrite : Write where
  path := ["tt0078748"]
  node := (KeyedTree.empty.setChild "titulo" (.leaf (.string "Alien"))).setChild "anio"
    (.leaf (.string "1979"))
  valid := by decide
  wellFormed := KeyedTree.WellFormed.setChild
    (KeyedTree.WellFormed.setChild (KeyedTree.wellFormed_empty _) (.leaf _) (by decide))
    (.leaf _) (by decide)

def filmTitleWrite : Write where
  path := ["tt0078748", "titulo"]
  node := .leaf (.string "Aliens")
  valid := by decide
  wellFormed := .leaf _

/-- The title of a film that came before the listen was complete is set, and rejected. -/
def rejectedTitle : List Event :=
  [.addEventRegistration 0, .onDataUpdate filmWrite, .set filmTitleWrite, .listenComplete,
    .ackWrite 0 (.error "permission_denied")]

def belowTitleWrite (node : FNode) (hnode : ValidNode node) : Write where
  path := ["tt0078748", "titulo", "es"]
  node := node
  valid := by decide
  wellFormed := hnode

/-- A write below the title hides it, and the next one erases below it: taking that back,
the title is found beside the affected path. -/
example : (Runs.run step init
    [.addEventRegistration 0, .onDataUpdate filmWrite,
      .set (belowTitleWrite (.leaf (.string "Alien")) (.leaf _)),
      .set (belowTitleWrite KeyedTree.empty validNode_empty),
      .ackWrite 0 (.error "permission_denied"),
      .ackWrite 1 (.error "permission_denied")]).isNone = true := by
  decide +kernel

/-- No pending write erases anything below a value of the server. -/
def Clear (repo : FRepo) : Prop := repo.serverSyncTree.Clear

instance Clear.decidable : DecidablePred Clear :=
  fun repo => FSyncTree.Clear.decidable repo.serverSyncTree

/-- Answers that the server may give, when it has sent what it accepted. -/
def Served (repo : FRepo) (e : Event) : Prop := repo.Answers e ∧ repo.Arrives e

instance Served.decidable (repo : FRepo) (e : Event) : Decidable (repo.Served e) :=
  inferInstanceAs (Decidable (repo.Answers e ∧ repo.Arrives e))

structure Shown (repo : FRepo) : Prop where
  inv : repo.Inv
  shows : repo.serverSyncTree.Shows

theorem shown_init : init.Shown where
  inv := inv_init
  shows := fun view h => by cases h

theorem always_shown {es : List Event} (hes : Runs.Guarded step Served init es)
    (hclear : Runs.Always step Clear init es) :
    Runs.Always step (fun repo => repo.Shown ∧ repo.Clear) init es := by
  apply Runs.always_of_guarded _ shown_init hclear hes
  intro repo e repo' hshown hclear hserved hstep hclear'
  have hspec := step_spec hshown.inv hserved.left hstep
  exact ⟨hspec.inv, hspec.shows hserved.right hshown.shows hclear hclear'⟩

/-- The server tree with the pending writes made on it, as the view and all observers have it. -/
structure Made (view : FView) (made : FNode) : Prop where
  complete : view.viewCache.cachedEventSnap.isFullyInitialized = true
  same : KeyedTree.Same view.viewCache.cachedEventSnap.node made
  raised : forall registration, registration ∈ view.eventRegistrations ->
    exists snapshot, registration.raised.getLast? = some snapshot ∧ ValidNode snapshot ∧
      KeyedTree.Same snapshot made

def ShowsMade (repo : FRepo) : Prop :=
  forall view server, repo.serverSyncTree.view = some view ->
    repo.serverSyncTree.serverData = some server ->
    Made view (FWriteTree.madeOn server repo.serverSyncTree.pendingWriteTree.allWrites)

theorem Shown.made {repo : FRepo} (h : repo.Shown) (hclear : repo.Clear) :
    repo.ShowsMade := by
  intro view server hview hserver
  rcases FSyncTree.view_of_serverData hserver with ⟨view', hview', hfull, rfl⟩
  rw [hview] at hview'
  cases hview'
  have hagrees := h.shows view hview
  have hevent := hagrees.shown (Or.inl hfull)
  have hsame : KeyedTree.Same view.viewCache.cachedEventSnap.node
      (FWriteTree.madeOn view.viewCache.cachedServerSnap.node
        repo.serverSyncTree.pendingWriteTree.allWrites) :=
    hevent.right.trans (FWriteTree.applied_pendingWrites hagrees.valid.server (hclear _ hserver))
  refine ⟨hevent.left, hsame, ?_⟩
  intro registration hregistration
  rcases h.inv.tree.upToDate view hview hevent.left registration hregistration with
    ⟨snapshot, hlast, hwf, hsnapshot⟩
  exact ⟨snapshot, hlast, hwf, hsnapshot.trans hsame⟩

theorem shown_of_run {es : List Event} {repo : FRepo} (hes : Runs.Guarded step Served init es)
    (hclear : Runs.Always step Clear init es)
    (h : Runs.run step init es = some repo) : repo.Shown ∧ repo.Clear :=
  (always_shown hes hclear).last h

/-!
## The state computed anew
-/

theorem Inv.valid_serverData {repo : FRepo} (h : repo.Inv) {server : FNode}
    (hserver : repo.serverSyncTree.serverData = some server) : ValidNode server := by
  rcases FSyncTree.view_of_serverData hserver with ⟨view, hview, _, rfl⟩
  exact (h.tree.valid view hview).server

theorem latestState_values {repo : FRepo} (h : repo.Inv) {server : FNode}
    (hserver : repo.serverSyncTree.serverData = some server) (hvalid : ValidNode server)
    (path : List String) (writeIdsToExclude : List Int) :
    (repo.latestStateAtPath path writeIdsToExclude).values = fun q =>
      applied (FWriteTree.pendingWrites (repo.serverSyncTree.pendingWriteTree.allWrites.filter
        (FWriteTree.kept writeIdsToExclude))) server.values (path ++ q) := by
  have hknown : forall s, some (server.descend path) = some s -> ValidNode s := by
    intro s hs
    cases hs
    exact hvalid.descend path
  rcases FWriteTree.hiddenEventCache_spec h.tree.writes path writeIdsToExclude hknown with
    ⟨cache, hcache, hshows⟩
  rw [latestStateAtPath, FSyncTree.calcCompleteEventCacheAtPath, hserver, Option.map_some, hcache,
    Option.getD_some, hshows.values]
  funext q
  rw [← applied_shift path q]
  congr 1
  funext r
  exact KeyedTree.values_descend server path r

theorem answers_of_first {tree : FSyncTree} (h : tree.Inv) {w : FWriteRecord}
    {rest : List FWriteRecord} (hpending : tree.pendingWriteTree.allWrites = w :: rest) :
    tree.Answers w.writeId := by
  have hordered := h.writes.ordered
  rw [hpending] at hordered
  have hlater := (List.pairwise_cons.mp hordered).left
  constructor
  · refine ⟨w, ?_, rfl⟩
    rw [hpending]
    exact List.mem_cons_self
  · intro w' r _ hr _ hlt
    exfalso
    rw [hpending] at hr
    rcases List.mem_cons.mp hr with rfl | hr
    · exact lt_irrefl _ hlt
    · exact lt_asymm hlt (hlater r hr)

theorem answered_first {tree tree' : FSyncTree} (h : tree.Inv) {w : FWriteRecord}
    {rest : List FWriteRecord} (hpending : tree.pendingWriteTree.allWrites = w :: rest)
    (hanswered : FSyncTree.Answered tree w.writeId tree') :
    tree'.pendingWriteTree.allWrites = rest := by
  have hordered := h.writes.ordered
  rw [hpending] at hordered
  have hlater := (List.pairwise_cons.mp hordered).left
  rcases hanswered.writes with ⟨front, w', back, hsplit, hid, hwrites⟩
  rw [hpending] at hsplit
  cases front with
  | nil =>
      rw [hwrites]
      exact (List.cons.inj hsplit).right.symm
  | cons r front =>
      exfalso
      rcases List.cons.inj hsplit with ⟨_, hrest⟩
      have hlt := hlater w' (by
        rw [hrest]
        exact List.mem_append_right front List.mem_cons_self)
      rw [hid] at hlt
      exact lt_irrefl _ hlt

theorem silent_of_same (e : Event) {repo repo' : FRepo} (h : repo.Shown) (h' : repo'.Shown)
    (hclear : repo.Clear) (hclear' : repo'.Clear)
    (hanswers : repo.Answers e) (he : e.isOperation = true) (hstep : repo.step e = some repo')
    {view : FView} {server server' : FNode} (hview : repo.serverSyncTree.view = some view)
    (hserver : repo.serverSyncTree.serverData = some server)
    (hserver' : repo'.serverSyncTree.serverData = some server')
    (hsame : KeyedTree.Same
      (FWriteTree.madeOn server' repo'.serverSyncTree.pendingWriteTree.allWrites)
      (FWriteTree.madeOn server repo.serverSyncTree.pendingWriteTree.allWrites)) :
    exists view', repo'.serverSyncTree.view = some view' ∧
      view'.eventRegistrations = view.eventRegistrations ∧
      KeyedTree.Same view'.viewCache.cachedEventSnap.node view.viewCache.cachedEventSnap.node := by
  rcases FSyncTree.view_of_serverData hserver' with ⟨view', hview', _, _⟩
  have hbefore := h.made hclear view server hview hserver
  have hafter := h'.made hclear' view' server' hview' hserver'
  have hevent : KeyedTree.Same view'.viewCache.cachedEventSnap.node
      view.viewCache.cachedEventSnap.node :=
    (hafter.same.trans hsame).trans hbefore.same.symm
  have hheard := operation_heard h.inv hanswers he hstep
  rw [hview, hview'] at hheard
  cases hheard with
  | some hheard =>
      exact ⟨view', hview', hheard.unchanged (Or.inr ⟨hbefore.complete, hevent⟩), hevent⟩

theorem set_shown {repo : FRepo} (h : repo.Shown) (hclear : repo.Clear)
    (write : Write) :
    exists repo', repo.step (.set write) = some repo' ∧
      (repo'.Clear -> repo'.Shown) ∧
      repo'.serverSyncTree.pendingWriteTree.allWrites =
        repo.serverSyncTree.pendingWriteTree.allWrites ++
          [{ toWrite := write, writeId := repo.writeIdCounter, visible := true }] ∧
      forall server, repo.serverSyncTree.serverData = some server ->
        repo'.serverSyncTree.serverData = some server := by
  rcases FSyncTree.applyUserOverwriteAtPath_spec h.inv.tree write h.inv.counter with
    ⟨tree', htree', hkeeps, _, hall, hdata⟩
  rcases set_spec h.inv write with ⟨repo', hstep, hspec⟩
  have heq : repo' = { serverSyncTree := tree', writeIdCounter := repo.writeIdCounter + 1 } := by
    rw [set, htree'] at hstep
    exact (Option.some.inj hstep).symm
  subst heq
  exact ⟨_, hstep, fun hclear' => ⟨hspec.inv, hkeeps.shows h.shows hclear hclear'⟩, hall, hdata⟩

/-- What a run of writes leaves: their records after those that were pending. -/
structure Queued (repo : FRepo) (writes : List Write) (repo' : FRepo) : Prop where
  shown : repo'.Shown
  clear : repo'.Clear
  records : exists records : List FWriteRecord,
    records.map FWriteRecord.toWrite = writes ∧
      repo'.serverSyncTree.pendingWriteTree.allWrites =
        repo.serverSyncTree.pendingWriteTree.allWrites ++ records
  server : forall server, repo.serverSyncTree.serverData = some server ->
    repo'.serverSyncTree.serverData = some server
  handles : forall view, repo.serverSyncTree.view = some view ->
    exists view', repo'.serverSyncTree.view = some view' ∧
      view'.eventRegistrations.map FValueEventRegistration.handle =
        view.eventRegistrations.map FValueEventRegistration.handle

theorem queued_cons {repo repo₁ repo₂ : FRepo} {write : Write} {rest : List Write}
    {writeId : Int}
    (hall : repo₁.serverSyncTree.pendingWriteTree.allWrites =
      repo.serverSyncTree.pendingWriteTree.allWrites ++
        [{ toWrite := write, writeId := writeId, visible := true }])
    (hserver : forall server, repo.serverSyncTree.serverData = some server ->
      repo₁.serverSyncTree.serverData = some server)
    (hheard : Option.Rel FView.Heard repo.serverSyncTree.view repo₁.serverSyncTree.view)
    (h : Queued repo₁ rest repo₂) : Queued repo (write :: rest) repo₂ where
  shown := h.shown
  clear := h.clear
  records := by
    rcases h.records with ⟨records, hwrites, hall'⟩
    refine ⟨{ toWrite := write, writeId := writeId, visible := true } :: records, ?_, ?_⟩
    · rw [List.map_cons, hwrites]
    · rw [hall', hall, List.append_assoc]
      rfl
  server := fun server hs => h.server server (hserver server hs)
  handles := by
    intro view hview
    rw [hview] at hheard
    cases hview₁ : repo₁.serverSyncTree.view with
    | none =>
        rw [hview₁] at hheard
        cases hheard
    | some view₁ =>
        rw [hview₁] at hheard
        cases hheard with
        | some hheard =>
            rcases h.handles view₁ hview₁ with ⟨view', hview', hhandles⟩
            exact ⟨view', hview', hhandles.trans hheard.handles⟩

theorem sets_shown {repo : FRepo} (h : repo.Shown) (writes : List Write)
    (hclear : Runs.Always step Clear repo
      (writes.map Event.set)) :
    exists repo', Runs.run step repo (writes.map Event.set) = some repo' ∧
      Queued repo writes repo' := by
  induction writes generalizing repo with
  | nil =>
      refine ⟨repo, rfl, ?_⟩
      exact
        { shown := h
          clear := hclear
          records := ⟨[], rfl, (List.append_nil _).symm⟩
          server := fun _ hs => hs
          handles := fun view hview => ⟨view, hview, rfl⟩ }
  | cons write rest ih =>
      rcases set_shown h hclear.left write with ⟨repo₁, hstep, hshown, hall, hserver⟩
      have hrest := hclear.right repo₁ hstep
      have hheard := operation_heard (e := .set write) h.inv trivial rfl hstep
      rcases ih (hshown (Runs.always_head hrest)) hrest with ⟨repo₂, hrun, hqueued⟩
      refine ⟨repo₂, ?_, queued_cons hall hserver hheard hqueued⟩
      rw [List.map_cons, Runs.run_cons, hstep]
      exact hrun

theorem onDataUpdate_shown {repo : FRepo} (h : repo.Shown) (hclear : repo.Clear)
    (data : Write) {server : FNode} (hserver : repo.serverSyncTree.serverData = some server) :
    exists repo' server', repo.step (.onDataUpdate data) = some repo' ∧
      (repo'.Clear -> repo'.Shown) ∧
      repo'.serverSyncTree.pendingWriteTree = repo.serverSyncTree.pendingWriteTree ∧
      repo'.serverSyncTree.serverData = some server' ∧
      server'.values = write server.values data.path data.node.values := by
  rcases FSyncTree.applyServerOverwriteAtPath_spec h.inv.tree data.valid data.wellFormed with
    ⟨tree', htree', hkeeps, happlied⟩
  rcases happlied.serverOverwrite h.inv.tree data.valid data.wellFormed hserver with
    ⟨server', hserver', hvalues⟩
  refine ⟨repo.withTree tree', server', ?_, ?_, happlied.writes, hserver', hvalues⟩
  · rw [step, onDataUpdate, htree']
    rfl
  · intro hclear'
    refine ⟨h.inv.withTree hkeeps.inv ?_, hkeeps.shows h.shows hclear hclear'⟩
    rw [happlied.writes]
    exact h.inv.counter

theorem ackWrite_shown {repo : FRepo} (h : repo.Shown) (hclear : repo.Clear)
    {w : FWriteRecord} {rest : List FWriteRecord}
    (hpending : repo.serverSyncTree.pendingWriteTree.allWrites = w :: rest)
    (harrived : repo.serverSyncTree.Arrived w.writeId) {server : FNode}
    (hserver : repo.serverSyncTree.serverData = some server) :
    exists repo' server', repo.step (.ackWrite w.writeId .ok) = some repo' ∧ repo'.Shown ∧
      repo'.Clear ∧
      repo'.serverSyncTree.pendingWriteTree.allWrites = rest ∧
      repo'.serverSyncTree.serverData = some server' ∧ KeyedTree.Same server' server := by
  have hanswers := answers_of_first h.inv.tree hpending
  rcases FSyncTree.ackUserWriteWithWriteId_total h.inv.tree hanswers false
    (fun hcontra => by cases hcontra) with ⟨tree', htree'⟩
  have hacked := FSyncTree.ackUserWriteWithWriteId_spec h.inv.tree hanswers htree'
  rcases hacked.answered.server server hserver with ⟨server', hserver', hsame⟩
  have hrest := answered_first h.inv.tree hpending hacked.answered
  have hclear' : tree'.Clear := by
    intro s hs
    rw [hserver'] at hs
    cases hs
    rw [hrest]
    intro r hr hempty
    have hbefore := (hclear server hserver).same hsame
    rw [hpending] at hbefore
    exact hbefore r (List.mem_cons_of_mem w hr) hempty
  refine ⟨repo.withTree tree', server', ?_, ⟨h.inv.acked hacked, ?_⟩, hclear', hrest, hserver',
    hsame⟩
  · rw [step, ackWrite, htree']
    rfl
  · exact hacked.shows (fun _ => harrived) h.shows hclear hclear'

theorem write_again (server server' : FNode) {path : List String}
    {new : List String -> Option LeafValue} (h : server'.values = write server.values path new) :
    write server'.values path new = server'.values := by
  apply write_self (KeyedTree.solid_values server')
  intro q
  rw [h, write_below]

theorem clear_of_written {server server' : FNode} {w : FWriteRecord}
    (h : server'.values = write server.values w.path w.node.values)
    (hclear : w.node.isEmpty = true -> Overlay.Clear server.values w.path) :
    Overlay.Clear server'.values w.path := by
  intro q k r hpath
  have habove := write_above server.values q k r w.node.values
  rw [← hpath, ← h] at habove
  rw [habove]
  cases hempty : w.node.isEmpty with
  | true =>
      rw [clearedBy_vacant (w.wellFormed.vacant_iff.mpr hempty)]
      exact hclear hempty q k r hpath
  | false =>
      rcases KeyedTree.WellFormed.exists_value w.wellFormed hempty with ⟨p, hp⟩
      exact clearedBy_of_ne hp _

end FRepo

end Firebase
end MyMovies
