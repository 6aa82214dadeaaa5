import Mathlib.Data.List.Nodup

/-!
# Loaders of one view

The vendored `LoaderManager` restricted to the loaders of one view.  Showing a
loader takes two hops: `perform(_:with:afterDelay:)` schedules `_showLoader`,
which queues the block that adds the loader to the view and registers it.
Hiding takes two hops as well: the block queued by a controller's
`removeLoadingView` asks to hide every loader registered at that moment, and
each request queues a block that removes the loader.  The main queue runs its
blocks first in, first out.
-/

namespace MyMovies
namespace Loader

/-- Blocks that the loader code puts on the main queue. -/
inductive MainBlock where
  /-- The block of `_showLoader`. -/
  | showLoader (uuid : Nat)
  | hideLoaderOfView
  /-- The block of `hideLoader`. -/
  | hideLoader (uuid : Nat)
deriving DecidableEq, Repr

/-- Loaders of one view, and the main-loop work that concerns them. -/
structure LoaderView where
  nextUuid : Nat
  /-- Scheduled calls of `_showLoader`. -/
  delayed : List Nat
  mainQueue : List MainBlock
  activeLoaders : List Nat
  /-- Loaders that are subviews of the view. -/
  visibleLoaders : List Nat
  /-- Blocks run so far, the latest first; no code reads it. -/
  ran : List MainBlock
deriving DecidableEq, Repr

namespace LoaderView

def initial : LoaderView where
  nextUuid := 0
  delayed := []
  mainQueue := []
  activeLoaders := []
  visibleLoaders := []
  ran := []

def hideLoader (v : LoaderView) (uuid : Nat) : LoaderView :=
  { v with
    delayed := v.delayed.erase uuid
    mainQueue := v.mainQueue ++ [.hideLoader uuid] }

/-- `LoaderManager.showLoader` on a new loader object. -/
def showLoader (v : LoaderView) : LoaderView :=
  let hidden := hideLoader { v with nextUuid := v.nextUuid + 1 } v.nextUuid
  { hidden with delayed := hidden.delayed ++ [v.nextUuid] }

def performShowLoader (v : LoaderView) (uuid : Nat) : LoaderView :=
  if uuid ∈ v.delayed then
    { v with
      delayed := v.delayed.erase uuid
      mainQueue := v.mainQueue ++ [.showLoader uuid] }
  else
    v

def hideLoaderOfView (v : LoaderView) : LoaderView :=
  v.activeLoaders.foldl hideLoader v

def runShow (v : LoaderView) (uuid : Nat) : LoaderView :=
  { v with
    visibleLoaders := v.visibleLoaders.insert uuid
    activeLoaders := v.activeLoaders.insert uuid }

def runHide (v : LoaderView) (uuid : Nat) : LoaderView :=
  if uuid ∈ v.activeLoaders then
    { v with
      visibleLoaders := v.visibleLoaders.erase uuid
      activeLoaders := v.activeLoaders.erase uuid }
  else
    v

/-- The main queue runs its first block. -/
def runBlock (v : LoaderView) : LoaderView :=
  match v.mainQueue with
  | [] => v
  | b :: rest =>
      let v := { v with mainQueue := rest, ran := b :: v.ran }
      match b with
      | .showLoader uuid => v.runShow uuid
      | .hideLoaderOfView => v.hideLoaderOfView
      | .hideLoader uuid => v.runHide uuid

/-- The controllers' `showLoadingView`. -/
def showLoadingView (v : LoaderView) : LoaderView := v.showLoader

/-- The controllers' `removeLoadingView`. -/
def removeLoadingView (v : LoaderView) : LoaderView :=
  { v with mainQueue := v.mainQueue ++ [.hideLoaderOfView] }

inductive MainLoopEvent where
  | performShowLoader (uuid : Nat)
  | runBlock
deriving DecidableEq, Repr

def mainLoop (v : LoaderView) : MainLoopEvent -> LoaderView
  | .performShowLoader uuid => v.performShowLoader uuid
  | .runBlock => v.runBlock

/-- Loaders shown since the last `hideLoaderOfView` block of a history. -/
def shownSince : List MainBlock -> List Nat
  | [] => []
  | .showLoader uuid :: ran => uuid :: shownSince ran
  | .hideLoaderOfView :: _ => []
  | .hideLoader _ :: ran => shownSince ran

def shownSinceHide (v : LoaderView) : List Nat := shownSince v.ran

def HiddenSinceShow (v : LoaderView) : Prop := v.shownSinceHide = []

instance (v : LoaderView) : Decidable v.HiddenSinceShow :=
  inferInstanceAs (Decidable (_ = _))

/-!
## The invariant of the two hops
-/

/-- Behind the block that shows a loader nothing on the queue concerns it. -/
def ShowIsLast (a b : MainBlock) : Prop :=
  forall uuid, a = .showLoader uuid -> b ≠ .showLoader uuid ∧ b ≠ .hideLoader uuid

structure Inv (v : LoaderView) : Prop where
  visible : v.visibleLoaders = v.activeLoaders
  nodup_active : v.activeLoaders.Nodup
  nodup_delayed : v.delayed.Nodup
  delayed_lt : forall u, u ∈ v.delayed -> u < v.nextUuid
  show_lt : forall u, .showLoader u ∈ v.mainQueue -> u < v.nextUuid
  active_lt : forall u, u ∈ v.activeLoaders -> u < v.nextUuid
  delayed_new : forall u, u ∈ v.delayed ->
    u ∉ v.activeLoaders ∧ .showLoader u ∉ v.mainQueue
  active_not_queued : forall u, u ∈ v.activeLoaders -> .showLoader u ∉ v.mainQueue
  show_last : v.mainQueue.Pairwise ShowIsLast
  shown_active : forall u, u ∈ v.shownSinceHide ->
    u ∈ v.activeLoaders ∧ .hideLoader u ∉ v.mainQueue
  active_covered : forall u, u ∈ v.activeLoaders ->
    u ∈ v.shownSinceHide ∨ .hideLoader u ∈ v.mainQueue

theorem inv_initial : Inv initial := by
  constructor <;> simp [initial, shownSinceHide, shownSince]

theorem showIsLast_append {q : List MainBlock} {b : MainBlock}
    (hq : q.Pairwise ShowIsLast)
    (hb : forall u, .showLoader u ∈ q -> b ≠ .showLoader u ∧ b ≠ .hideLoader u) :
    (q ++ [b]).Pairwise ShowIsLast := by
  apply List.pairwise_append.mpr
  refine ⟨hq, List.pairwise_singleton _ _, ?_⟩
  intro a ha c hc u hau
  rw [List.mem_singleton.mp hc]
  exact hb u (hau ▸ ha)

/-- New blocks behind the queue leave the registered loaders accounted for. -/
theorem Inv.covered_append {v : LoaderView} (h : Inv v) (blocks : List MainBlock) {u : Nat}
    (hu : u ∈ v.activeLoaders) :
    u ∈ v.shownSinceHide ∨ .hideLoader u ∈ v.mainQueue ++ blocks := by
  rcases h.active_covered u hu with hshown | hhide
  · exact Or.inl hshown
  · exact Or.inr (List.mem_append_left blocks hhide)

theorem inv_showLoader {v : LoaderView} (h : Inv v) : Inv v.showLoader := by
  have hfresh : v.nextUuid ∉ v.activeLoaders :=
    fun hmem => Nat.lt_irrefl _ (h.active_lt _ hmem)
  have hnotshow : .showLoader v.nextUuid ∉ v.mainQueue :=
    fun hmem => Nat.lt_irrefl _ (h.show_lt _ hmem)
  have herase : v.delayed.erase v.nextUuid = v.delayed :=
    List.erase_of_not_mem fun hmem => Nat.lt_irrefl _ (h.delayed_lt _ hmem)
  have hdelayed : forall u, u ∈ v.delayed ++ [v.nextUuid] ->
      u ∈ v.delayed ∨ u = v.nextUuid := by
    intro u hu
    simpa using hu
  constructor <;> simp only [showLoader, hideLoader, herase]
  case visible => exact h.visible
  case nodup_active => exact h.nodup_active
  case nodup_delayed =>
    apply List.nodup_append.mpr
    refine ⟨h.nodup_delayed, by simp, ?_⟩
    intro a ha b hb hab
    have hb' : b = v.nextUuid := by simpa using hb
    rw [hab, hb'] at ha
    exact Nat.lt_irrefl _ (h.delayed_lt _ ha)
  case delayed_lt =>
    intro u hu
    rcases hdelayed u hu with hu | rfl
    · exact Nat.lt_succ_of_lt (h.delayed_lt u hu)
    · exact Nat.lt_succ_self _
  case show_lt =>
    intro u hu
    exact Nat.lt_succ_of_lt (h.show_lt u (by simpa using hu))
  case active_lt => exact fun u hu => Nat.lt_succ_of_lt (h.active_lt u hu)
  case delayed_new =>
    intro u hu
    rcases hdelayed u hu with hu | rfl
    · simpa using h.delayed_new u hu
    · exact ⟨hfresh, by simpa using hnotshow⟩
  case active_not_queued =>
    intro u hu
    simpa using h.active_not_queued u hu
  case show_last =>
    apply showIsLast_append h.show_last
    intro u hu
    refine ⟨by simp, ?_⟩
    intro heq
    cases heq
    exact hnotshow hu
  case shown_active =>
    intro u hu
    have hold := h.shown_active u hu
    refine ⟨hold.left, ?_⟩
    have hne : u ≠ v.nextUuid := fun heq => hfresh (heq ▸ hold.left)
    simpa [hne] using hold.right
  case active_covered => exact fun u hu => h.covered_append _ hu

theorem inv_performShowLoader {v : LoaderView} (h : Inv v) (uuid : Nat) :
    Inv (v.performShowLoader uuid) := by
  by_cases hmem : uuid ∈ v.delayed
  · have hnew := h.delayed_new uuid hmem
    have hsub : forall u, u ∈ v.delayed.erase uuid -> u ∈ v.delayed ∧ u ≠ uuid := by
      intro u hu
      have := (h.nodup_delayed.mem_erase_iff).mp hu
      exact ⟨this.right, this.left⟩
    constructor <;> simp only [performShowLoader, hmem, if_true]
    case visible => exact h.visible
    case nodup_active => exact h.nodup_active
    case nodup_delayed => exact h.nodup_delayed.erase uuid
    case delayed_lt => exact fun u hu => h.delayed_lt u (hsub u hu).left
    case show_lt =>
      intro u hu
      rcases List.mem_append.mp hu with hu | hu
      · exact h.show_lt u hu
      · have : u = uuid := by simpa using hu
        rw [this]
        exact h.delayed_lt uuid hmem
    case active_lt => exact h.active_lt
    case delayed_new =>
      intro u hu
      have hold := h.delayed_new u (hsub u hu).left
      refine ⟨hold.left, ?_⟩
      simpa [(hsub u hu).right] using hold.right
    case active_not_queued =>
      intro u hu
      have hne : u ≠ uuid := fun heq => hnew.left (heq ▸ hu)
      simpa [hne] using h.active_not_queued u hu
    case show_last =>
      apply showIsLast_append h.show_last
      intro u hu
      refine ⟨?_, by simp⟩
      intro heq
      cases heq
      exact hnew.right hu
    case shown_active =>
      intro u hu
      simpa using h.shown_active u hu
    case active_covered => exact fun u hu => h.covered_append _ hu
  · simpa [performShowLoader, hmem] using h

theorem inv_removeLoadingView {v : LoaderView} (h : Inv v) :
    Inv v.removeLoadingView := by
  constructor <;> simp only [removeLoadingView]
  case visible => exact h.visible
  case nodup_active => exact h.nodup_active
  case nodup_delayed => exact h.nodup_delayed
  case delayed_lt => exact h.delayed_lt
  case show_lt => exact fun u hu => h.show_lt u (by simpa using hu)
  case active_lt => exact h.active_lt
  case delayed_new => exact fun u hu => by simpa using h.delayed_new u hu
  case active_not_queued => exact fun u hu => by simpa using h.active_not_queued u hu
  case show_last => exact showIsLast_append h.show_last (by simp)
  case shown_active => exact fun u hu => by simpa using h.shown_active u hu
  case active_covered => exact fun u hu => h.covered_append _ hu

/-!
## Running a block
-/

theorem foldl_hideLoader (uuids : List Nat) (v : LoaderView)
    (h : forall u, u ∈ uuids -> u ∉ v.delayed) :
    uuids.foldl hideLoader v =
      { v with mainQueue := v.mainQueue ++ uuids.map .hideLoader } := by
  induction uuids generalizing v with
  | nil => simp
  | cons u rest ih =>
      have hu : v.delayed.erase u = v.delayed :=
        List.erase_of_not_mem (h u List.mem_cons_self)
      have hrest : forall w, w ∈ rest -> w ∉ (v.hideLoader u).delayed := by
        intro w hw
        simp only [hideLoader, hu]
        exact h w (List.mem_cons_of_mem u hw)
      rw [List.foldl_cons, ih _ hrest]
      simp [hideLoader, hu]

section RunBlock

variable {v : LoaderView} {rest : List MainBlock}

theorem hideLoaderOfView_eq (h : Inv v) (ran : List MainBlock) :
    hideLoaderOfView { v with mainQueue := rest, ran := ran } =
      { v with mainQueue := rest ++ v.activeLoaders.map .hideLoader, ran := ran } := by
  have hdisjoint : forall u, u ∈ v.activeLoaders -> u ∉ v.delayed :=
    fun u hu hmem => (h.delayed_new u hmem).left hu
  exact foldl_hideLoader v.activeLoaders { v with mainQueue := rest, ran := ran } hdisjoint

theorem mem_of_rest {b b' : MainBlock} (hq : v.mainQueue = b :: rest) (hb : b' ∈ rest) :
    b' ∈ v.mainQueue := by
  rw [hq]
  exact List.mem_cons_of_mem b hb

theorem inv_runShow (h : Inv v) {uuid : Nat} (hq : v.mainQueue = .showLoader uuid :: rest) :
    Inv ({ v with mainQueue := rest, ran := .showLoader uuid :: v.ran }.runShow uuid) := by
  have hlast := List.pairwise_cons.mp (hq ▸ h.show_last)
  have hnotactive : uuid ∉ v.activeLoaders :=
    fun hmem => h.active_not_queued uuid hmem (by simp [hq])
  constructor <;> simp only [runShow, shownSinceHide, shownSince]
  case visible => rw [h.visible]
  case nodup_active => exact h.nodup_active.insert
  case nodup_delayed => exact h.nodup_delayed
  case delayed_lt => exact h.delayed_lt
  case show_lt => exact fun u hu => h.show_lt u (mem_of_rest hq hu)
  case active_lt =>
    intro u hu
    rcases List.mem_insert_iff.mp hu with rfl | hu
    · exact h.show_lt u (by simp [hq])
    · exact h.active_lt u hu
  case delayed_new =>
    intro u hu
    have hold := h.delayed_new u hu
    refine ⟨?_, fun hmem => hold.right (mem_of_rest hq hmem)⟩
    intro hmem
    rcases List.mem_insert_iff.mp hmem with rfl | hmem
    · exact hold.right (by simp [hq])
    · exact hold.left hmem
  case active_not_queued =>
    intro u hu hmem
    rcases List.mem_insert_iff.mp hu with rfl | hu
    · exact (hlast.left _ hmem u rfl).left rfl
    · exact h.active_not_queued u hu (mem_of_rest hq hmem)
  case show_last => exact hlast.right
  case shown_active =>
    intro u hu
    rcases List.mem_cons.mp hu with rfl | hu
    · exact ⟨List.mem_insert_self, fun hmem => (hlast.left _ hmem u rfl).right rfl⟩
    · have hold := h.shown_active u hu
      exact ⟨List.mem_insert_of_mem hold.left, fun hmem => hold.right (mem_of_rest hq hmem)⟩
  case active_covered =>
    intro u hu
    rcases List.mem_insert_iff.mp hu with rfl | hu
    · exact Or.inl List.mem_cons_self
    · rcases h.active_covered u hu with hshown | hhide
      · exact Or.inl (List.mem_cons_of_mem _ hshown)
      · rw [hq] at hhide
        exact Or.inr (by simpa using hhide)

theorem inv_hideLoaderOfView (h : Inv v) (hq : v.mainQueue = .hideLoaderOfView :: rest) :
    Inv ({ v with mainQueue := rest, ran := .hideLoaderOfView :: v.ran }.hideLoaderOfView) := by
  rw [hideLoaderOfView_eq h]
  constructor <;> simp only [shownSinceHide, shownSince]
  case visible => exact h.visible
  case nodup_active => exact h.nodup_active
  case nodup_delayed => exact h.nodup_delayed
  case delayed_lt => exact h.delayed_lt
  case show_lt => exact fun u hu => h.show_lt u (mem_of_rest hq (by simpa using hu))
  case active_lt => exact h.active_lt
  case delayed_new =>
    intro u hu
    have hold := h.delayed_new u hu
    refine ⟨hold.left, fun hmem => hold.right (mem_of_rest hq ?_)⟩
    simpa using hmem
  case active_not_queued =>
    intro u hu hmem
    exact h.active_not_queued u hu (mem_of_rest hq (by simpa using hmem))
  case show_last =>
    apply List.pairwise_append.mpr
    refine ⟨(List.pairwise_cons.mp (hq ▸ h.show_last)).right, ?_, ?_⟩
    · apply List.pairwise_map.mpr
      apply List.pairwise_of_forall
      intro a b u hu
      cases hu
    · intro a ha b hb u hau
      rcases List.mem_map.mp hb with ⟨w, hw, rfl⟩
      refine ⟨by simp, ?_⟩
      intro heq
      have hwu : w = u := MainBlock.hideLoader.inj heq
      rw [hwu] at hw
      exact h.active_not_queued u hw (mem_of_rest hq (hau ▸ ha))
  case shown_active => exact fun u hu => nomatch hu
  case active_covered =>
    intro u hu
    exact Or.inr (List.mem_append_right _ (List.mem_map.mpr ⟨u, hu, rfl⟩))

theorem inv_runHide (h : Inv v) {uuid : Nat} (hq : v.mainQueue = .hideLoader uuid :: rest) :
    Inv ({ v with mainQueue := rest, ran := .hideLoader uuid :: v.ran }.runHide uuid) := by
  have hlast := (List.pairwise_cons.mp (hq ▸ h.show_last)).right
  have hcovered : forall u, u ∈ v.activeLoaders -> u ≠ uuid ->
      u ∈ shownSince v.ran ∨ .hideLoader u ∈ rest := by
    intro u hu hne
    rcases h.active_covered u hu with hshown | hhide
    · exact Or.inl hshown
    · rw [hq] at hhide
      exact Or.inr (by simpa [hne] using hhide)
  have hshown : forall u, u ∈ shownSince v.ran ->
      u ∈ v.activeLoaders ∧ .hideLoader u ∉ rest ∧ u ≠ uuid := by
    intro u hu
    have hold := h.shown_active u hu
    refine ⟨hold.left, fun hmem => hold.right (mem_of_rest hq hmem), ?_⟩
    intro heq
    exact hold.right (by simp [hq, heq])
  by_cases hmem : uuid ∈ v.activeLoaders
  · have herase : forall u, u ∈ v.activeLoaders.erase uuid ->
        u ∈ v.activeLoaders ∧ u ≠ uuid := by
      intro u hu
      have := h.nodup_active.mem_erase_iff.mp hu
      exact ⟨this.right, this.left⟩
    constructor <;> simp only [runHide, hmem, if_true, shownSinceHide, shownSince]
    case visible => rw [h.visible]
    case nodup_active => exact h.nodup_active.erase uuid
    case nodup_delayed => exact h.nodup_delayed
    case delayed_lt => exact h.delayed_lt
    case show_lt => exact fun u hu => h.show_lt u (mem_of_rest hq hu)
    case active_lt => exact fun u hu => h.active_lt u (herase u hu).left
    case delayed_new =>
      intro u hu
      have hold := h.delayed_new u hu
      exact ⟨fun hu' => hold.left (herase u hu').left, fun hu' => hold.right (mem_of_rest hq hu')⟩
    case active_not_queued =>
      exact fun u hu hu' => h.active_not_queued u (herase u hu).left (mem_of_rest hq hu')
    case show_last => exact hlast
    case shown_active =>
      intro u hu
      have hold := hshown u hu
      exact ⟨h.nodup_active.mem_erase_iff.mpr ⟨hold.right.right, hold.left⟩, hold.right.left⟩
    case active_covered =>
      exact fun u hu => hcovered u (herase u hu).left (herase u hu).right
  · constructor <;> simp only [runHide, hmem, if_false, shownSinceHide, shownSince]
    case visible => exact h.visible
    case nodup_active => exact h.nodup_active
    case nodup_delayed => exact h.nodup_delayed
    case delayed_lt => exact h.delayed_lt
    case show_lt => exact fun u hu => h.show_lt u (mem_of_rest hq hu)
    case active_lt => exact h.active_lt
    case delayed_new =>
      intro u hu
      have hold := h.delayed_new u hu
      exact ⟨hold.left, fun hu' => hold.right (mem_of_rest hq hu')⟩
    case active_not_queued =>
      exact fun u hu hu' => h.active_not_queued u hu (mem_of_rest hq hu')
    case show_last => exact hlast
    case shown_active => exact fun u hu => ⟨(hshown u hu).left, (hshown u hu).right.left⟩
    case active_covered =>
      exact fun u hu => hcovered u hu (fun heq => hmem (heq ▸ hu))

end RunBlock

theorem inv_runBlock {v : LoaderView} (h : Inv v) : Inv v.runBlock := by
  unfold runBlock
  cases hq : v.mainQueue with
  | nil => exact h
  | cons b rest =>
      cases b with
      | showLoader uuid => exact inv_runShow h hq
      | hideLoaderOfView => exact inv_hideLoaderOfView h hq
      | hideLoader uuid => exact inv_runHide h hq

theorem inv_mainLoop {v : LoaderView} (h : Inv v) (e : MainLoopEvent) :
    Inv (v.mainLoop e) := by
  cases e with
  | performShowLoader uuid => exact inv_performShowLoader h uuid
  | runBlock => exact inv_runBlock h

/--
Once the main queue is empty, the loaders still visible are exactly those shown
since the last `hideLoaderOfView` block.
-/
theorem visibleLoaders_eq_nil_iff {v : LoaderView} (h : Inv v)
    (hq : v.mainQueue = []) : v.visibleLoaders = [] <-> v.HiddenSinceShow := by
  rw [h.visible]
  constructor
  · intro hnone
    apply List.eq_nil_iff_forall_not_mem.mpr
    intro u hu
    have hactive := (h.shown_active u hu).left
    rw [hnone] at hactive
    cases hactive
  · intro hnone
    apply List.eq_nil_iff_forall_not_mem.mpr
    intro u hu
    rcases h.active_covered u hu with hshown | hhide
    · rw [hnone] at hshown
      cases hshown
    · rw [hq] at hhide
      cases hhide

/-!
## Loaders left behind
-/

/-- While nothing is waited for and the main queue is empty, no loader is visible. -/
def NoLoaderLeft (idle : Prop) (v : LoaderView) : Prop :=
  idle -> v.mainQueue = [] -> v.visibleLoaders = []

/-- With no block left to hide them, no loader was shown since the last hide. -/
def HiddenWhenEmpty (v : LoaderView) : Prop := v.mainQueue = [] -> v.HiddenSinceShow

/--
The last block of the main queue, when nothing is waited for: it must not show a
loader, and when it hides one no other may have been shown since the last
`hideLoaderOfView` block.
-/
def LastBlockHides (idle : Prop) (v : LoaderView) : Prop :=
  idle -> forall b, v.mainQueue = [b] ->
    b = .hideLoaderOfView ∨ ((exists uuid, b = .hideLoader uuid) ∧ v.HiddenSinceShow)

def MainLoopHides (idle : Prop) (v : LoaderView) : MainLoopEvent -> Prop
  | .performShowLoader _ => True
  | .runBlock => LastBlockHides idle v

theorem noLoaderLeft_of_queued {idle : Prop} {v : LoaderView} (h : v.mainQueue ≠ []) :
    NoLoaderLeft idle v := fun _ hq => absurd hq h

theorem NoLoaderLeft.mono {idle idle' : Prop} {v : LoaderView} (h : NoLoaderLeft idle v)
    (hidle : idle' -> idle) : NoLoaderLeft idle' v := fun hi => h (hidle hi)

theorem noLoaderLeft_iff {idle : Prop} {v : LoaderView} (h : Inv v) :
    NoLoaderLeft idle v <-> (idle -> v.HiddenWhenEmpty) := by
  constructor
  · intro hleft hidle hq
    exact (visibleLoaders_eq_nil_iff h hq).mp (hleft hidle hq)
  · intro hhidden hidle hq
    exact (visibleLoaders_eq_nil_iff h hq).mpr (hhidden hidle hq)

theorem noLoaderLeft_showLoader (idle : Prop) (v : LoaderView) :
    NoLoaderLeft idle v.showLoader :=
  noLoaderLeft_of_queued (by simp [showLoader, hideLoader])

theorem noLoaderLeft_removeLoadingView (idle : Prop) (v : LoaderView) :
    NoLoaderLeft idle v.removeLoadingView :=
  noLoaderLeft_of_queued (by simp [removeLoadingView])

theorem noLoaderLeft_performShowLoader {idle : Prop} {v : LoaderView}
    (h : NoLoaderLeft idle v) (uuid : Nat) : NoLoaderLeft idle (v.performShowLoader uuid) := by
  unfold performShowLoader
  split
  · exact noLoaderLeft_of_queued (by simp)
  · exact h

theorem runBlock_mainQueue {v : LoaderView} (h : Inv v) {b : MainBlock}
    {rest : List MainBlock} (hq : v.mainQueue = b :: rest) :
    exists more, v.runBlock.mainQueue = rest ++ more := by
  unfold runBlock
  rw [hq]
  cases b with
  | showLoader uuid => exact ⟨[], (List.append_nil rest).symm⟩
  | hideLoaderOfView =>
      exact ⟨v.activeLoaders.map .hideLoader, congrArg mainQueue (hideLoaderOfView_eq h _)⟩
  | hideLoader uuid =>
      refine ⟨[], ?_⟩
      simp only [runHide, List.append_nil]
      split
      · rfl
      · rfl

theorem runBlock_shownSinceHide {v : LoaderView} (h : Inv v) {b : MainBlock}
    {rest : List MainBlock} (hq : v.mainQueue = b :: rest) :
    v.runBlock.shownSinceHide = shownSince (b :: v.ran) := by
  unfold runBlock
  rw [hq]
  cases b with
  | showLoader uuid => rfl
  | hideLoaderOfView => exact congrArg shownSinceHide (hideLoaderOfView_eq h _)
  | hideLoader uuid =>
      simp only [runHide, shownSinceHide]
      split
      · rfl
      · rfl

theorem noLoaderLeft_runBlock_iff {idle : Prop} {v : LoaderView} (h : Inv v)
    (hleft : NoLoaderLeft idle v) : NoLoaderLeft idle v.runBlock <-> LastBlockHides idle v := by
  cases hq : v.mainQueue with
  | nil =>
      have hsame : v.runBlock = v := by
        unfold runBlock
        rw [hq]
      rw [hsame]
      refine iff_of_true hleft ?_
      intro _ b hb
      rw [hq] at hb
      cases hb
  | cons b rest =>
      rcases runBlock_mainQueue h hq with ⟨more, hafter⟩
      have hshown := runBlock_shownSinceHide h hq
      have hvisible : v.runBlock.mainQueue = [] ->
          (v.runBlock.visibleLoaders = [] <-> shownSince (b :: v.ran) = []) := by
        intro hempty
        rw [visibleLoaders_eq_nil_iff (inv_runBlock h) hempty, HiddenSinceShow, hshown]
      constructor
      · intro hnone hidle b' hb'
        rw [hq] at hb'
        cases hb'
        cases b with
        | hideLoaderOfView => exact Or.inl rfl
        | showLoader uuid =>
            have hempty : v.runBlock.mainQueue = [] := by
              unfold runBlock
              rw [hq]
              rfl
            have hnil := (hvisible hempty).mp (hnone hidle hempty)
            cases hnil
        | hideLoader uuid =>
            have hempty : v.runBlock.mainQueue = [] := by
              unfold runBlock
              rw [hq]
              simp only [runHide]
              split
              · rfl
              · rfl
            exact Or.inr ⟨⟨uuid, rfl⟩, (hvisible hempty).mp (hnone hidle hempty)⟩
      · intro hlast hidle hempty
        have hrest : rest = [] := by
          rw [hafter] at hempty
          exact (List.append_eq_nil_iff.mp hempty).left
        apply (hvisible hempty).mpr
        rcases hlast hidle b (by rw [hq, hrest]) with rfl | ⟨⟨uuid, rfl⟩, hhidden⟩
        · rfl
        · exact hhidden

theorem noLoaderLeft_mainLoop_iff {idle : Prop} {v : LoaderView} (h : Inv v)
    (hleft : NoLoaderLeft idle v) (e : MainLoopEvent) :
    NoLoaderLeft idle (v.mainLoop e) <-> MainLoopHides idle v e := by
  cases e with
  | performShowLoader uuid =>
      exact iff_of_true (noLoaderLeft_performShowLoader hleft uuid) trivial
  | runBlock => exact noLoaderLeft_runBlock_iff h hleft

end LoaderView
end Loader
end MyMovies
