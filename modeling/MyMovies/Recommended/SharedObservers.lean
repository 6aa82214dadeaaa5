import MyMovies.Foundation.Runs
import MyMovies.Recommended.RecommendedMoviesTableViewController
import MyMovies.Recommended.Sharing

/-!
# The recommended screen and its observers

The screen, the shared tree and the observers between them.  A registration is
carried out later, on the queue of the database; it raises one event with the
current tree, each later change raises one event for every observer, and losing
access to the reference cancels all of them.  Events reach the screen on the
main thread, in the order in which they were raised.
-/

namespace MyMovies
namespace Recommended

open Foundation Firebase Loader

structure SharedObservers where
  tree : Database
  screen : RecommendedMoviesTableViewController
  /-- Calls of `observe` that the database has not carried out. -/
  registering : Nat
  observers : Nat
  events : List ObserverEvent

namespace SharedObservers

inductive Event where
  | viewDidAppear
  | viewDidDisappear
  /-- The database carries out a registration. -/
  | register
  /-- The database refuses a registration. -/
  | refuse (error : String)
  | change (tree : Database)
  | cancel (error : String)
  /-- The main thread handles the next observer event. -/
  | deliver
  | cellForRow (row : Nat)
  | didSelectRow (row : Nat)
  | mainLoop (e : LoaderView.MainLoopEvent)

def initial (tree : Database) : SharedObservers where
  tree := tree
  screen := RecommendedMoviesTableViewController.initial
  registering := 0
  observers := 0
  events := []

def viewDidAppear (s : SharedObservers) : SharedObservers :=
  { s with screen := s.screen.viewDidAppear, registering := s.registering + 1 }

def register (s : SharedObservers) : SharedObservers :=
  if s.registering = 0 then
    s
  else
    { s with
      registering := s.registering - 1
      observers := s.observers + 1
      events := s.events ++ [.value s.tree] }

def refuse (s : SharedObservers) (error : String) : SharedObservers :=
  if s.registering = 0 then
    s
  else
    { s with registering := s.registering - 1, events := s.events ++ [.cancelled error] }

def change (s : SharedObservers) (tree : Database) : SharedObservers :=
  { s with
    tree := tree
    events := s.events ++ List.replicate s.observers (.value tree) }

def cancel (s : SharedObservers) (error : String) : SharedObservers :=
  { s with
    observers := 0
    events := s.events ++ List.replicate s.observers (.cancelled error) }

def deliver (s : SharedObservers) : Option SharedObservers :=
  match s.events with
  | [] => some s
  | e :: rest => (s.screen.deliver e).map fun c => { s with screen := c, events := rest }

/-- The table asks only for rows that it counted at its last reload. -/
def step (s : SharedObservers) : Event -> Option SharedObservers
  | .viewDidAppear => some s.viewDidAppear
  | .viewDidDisappear => some s
  | .register => some s.register
  | .refuse error => some (s.refuse error)
  | .change tree => some (s.change tree)
  | .cancel error => some (s.cancel error)
  | .deliver => s.deliver
  | .cellForRow row =>
      if row < s.screen.reloaded.length then
        (s.screen.cellForRowAt row).map fun _ => s
      else
        some s
  | .didSelectRow row =>
      if row < s.screen.reloaded.length then
        (s.screen.didSelectRowAt row).map fun imdbID =>
          { s with screen := { s.screen with pushed := imdbID.toList ++ s.screen.pushed } }
      else
        some s
  | .mainLoop e => some { s with screen := { s.screen with view := s.screen.view.mainLoop e } }

theorem deliver_cases (s : SharedObservers) :
    (s.events = [] ∧ s.deliver = some s) ∨
    (exists snapshot rest, s.events = .value snapshot :: rest ∧
      s.deliver = some { s with screen := s.screen.rebuilt snapshot, events := rest }) ∨
    (exists error rest, s.events = .cancelled error :: rest ∧
      s.deliver = some { s with screen := s.screen.alerted, events := rest }) := by
  unfold deliver
  cases hevents : s.events with
  | nil => exact Or.inl ⟨rfl, rfl⟩
  | cons e rest =>
      cases e with
      | value snapshot => exact Or.inr (Or.inl ⟨snapshot, rest, rfl, rfl⟩)
      | cancelled error => exact Or.inr (Or.inr ⟨error, rest, rfl, rfl⟩)

theorem deliver_inv {s s' : SharedObservers} (h : s.deliver = some s') :
    s' = s ∨
    (exists snapshot rest, s.events = .value snapshot :: rest ∧
      s' = { s with screen := s.screen.rebuilt snapshot, events := rest }) ∨
    (exists error rest, s.events = .cancelled error :: rest ∧
      s' = { s with screen := s.screen.alerted, events := rest }) := by
  rcases deliver_cases s with ⟨_, heq⟩ | ⟨snapshot, rest, hevents, heq⟩ |
    ⟨error, rest, hevents, heq⟩
  · rw [heq] at h
    exact Or.inl (Option.some.inj h).symm
  · rw [heq] at h
    exact Or.inr (Or.inl ⟨snapshot, rest, hevents, (Option.some.inj h).symm⟩)
  · rw [heq] at h
    exact Or.inr (Or.inr ⟨error, rest, hevents, (Option.some.inj h).symm⟩)

theorem cellForRow_eq {s s' : SharedObservers} {row : Nat}
    (h : s.step (.cellForRow row) = some s') : s' = s := by
  simp only [step] at h
  split at h
  · rcases Option.map_eq_some_iff.mp h with ⟨_, _, rfl⟩
    rfl
  · cases h
    rfl

theorem didSelectRow_eq {s s' : SharedObservers} {row : Nat}
    (h : s.step (.didSelectRow row) = some s') :
    exists pushed, s' = { s with screen := { s.screen with pushed := pushed } } := by
  simp only [step] at h
  split at h
  · rcases Option.map_eq_some_iff.mp h with ⟨imdbID, _, rfl⟩
    exact ⟨_, rfl⟩
  · cases h
    exact ⟨s.screen.pushed, rfl⟩

/-!
## Convergence
-/

def Undisturbed : Event -> Prop
  | .refuse _ => False
  | .cancel _ => False
  | _ => True

/-- The screen shows the list of the current tree. -/
def Synced (s : SharedObservers) : Prop :=
  s.screen.movies = getRecommendedMovies s.tree.root ∧ s.screen.reloaded = s.screen.movies

/-- No registration and no event is pending. -/
def Settled (s : SharedObservers) : Prop :=
  s.registering = 0 ∧ s.events = []

/-- Observers that the screen owns, carried out or not. -/
def live (s : SharedObservers) : Nat := s.registering + s.observers

/-- What the pending events promise while nothing is refused or cancelled. -/
structure ConvergenceInv (s : SharedObservers) : Prop where
  /-- The last event to come carries the current tree. -/
  newest : forall e, s.events.getLast? = some e -> e = .value s.tree
  unobserved : s.observers = 0 -> s.events = []
  /-- Without events to come, an observed tree is on screen, unless the screen
  has appeared again and waits for a registration. -/
  synced : s.observers ≠ 0 -> Settled s -> Synced s

theorem convergenceInv_initial (tree : Database) : ConvergenceInv (initial tree) where
  newest := by simp [initial]
  unobserved := fun _ => rfl
  synced := fun h => absurd rfl h

section Convergence

variable {s : SharedObservers}

theorem convergenceInv_register (h : ConvergenceInv s) : ConvergenceInv s.register := by
  unfold register
  split
  · exact h
  · refine ⟨?_, fun hzero => absurd hzero (Nat.succ_ne_zero _), ?_⟩
    · intro e he
      rw [List.getLast?_concat] at he
      exact (Option.some.inj he).symm
    · intro _ hsettled
      exact absurd hsettled.right (by simp)

theorem convergenceInv_change (h : ConvergenceInv s) (tree : Database) :
    ConvergenceInv (s.change tree) := by
  by_cases hzero : s.observers = 0
  · have hnone : (s.change tree).events = [] := by
      simp [change, hzero, h.unobserved hzero]
    refine ⟨?_, fun _ => hnone, fun hne => absurd hzero hne⟩
    intro e he
    rw [hnone] at he
    cases he
  · rcases Nat.exists_eq_succ_of_ne_zero hzero with ⟨n, hn⟩
    have hevents : (s.change tree).events =
        (s.events ++ List.replicate n (.value tree)) ++ [.value tree] := by
      simp [change, hn, List.replicate_succ']
    refine ⟨?_, fun hne => absurd hne hzero, ?_⟩
    · intro e he
      rw [hevents, List.getLast?_concat] at he
      exact (Option.some.inj he).symm
    · intro _ hsettled
      rw [Settled, hevents] at hsettled
      exact absurd hsettled.right (by simp)

/-- The events left after a delivery end with the same event. -/
theorem newest_rest (h : ConvergenceInv s) {e : ObserverEvent} {rest : List ObserverEvent}
    (hevents : s.events = e :: rest) :
    forall e', rest.getLast? = some e' -> e' = .value s.tree := by
  intro e' he'
  have hne : rest ≠ [] := by
    intro hnil
    rw [hnil] at he'
    cases he'
  apply h.newest
  rw [hevents, List.getLast?_cons_of_ne_nil hne]
  exact he'

theorem observed_of_events (h : ConvergenceInv s) {e : ObserverEvent}
    {rest : List ObserverEvent} (hevents : s.events = e :: rest) : s.observers ≠ 0 := by
  intro hzero
  have hnone := h.unobserved hzero
  rw [hevents] at hnone
  cases hnone

/-- The last event delivered is the newest one. -/
theorem convergenceInv_deliver (h : ConvergenceInv s) {s' : SharedObservers}
    (hstep : s.deliver = some s') : ConvergenceInv s' := by
  rcases deliver_inv hstep with rfl | ⟨snapshot, rest, hevents, rfl⟩ |
    ⟨error, rest, hevents, rfl⟩
  · exact h
  · have hobserved := observed_of_events h hevents
    refine ⟨newest_rest h hevents, fun hzero => absurd hzero hobserved, ?_⟩
    intro _ hsettled
    rcases hsettled with ⟨_, hlast⟩
    have hrest : rest = [] := hlast
    have hnewest := h.newest (.value snapshot) (by rw [hevents, hrest]; rfl)
    cases hnewest
    exact ⟨rfl, rfl⟩
  · have hobserved := observed_of_events h hevents
    refine ⟨newest_rest h hevents, fun hzero => absurd hzero hobserved, ?_⟩
    -- the newest event is not a cancellation
    intro _ hsettled
    rcases hsettled with ⟨_, hlast⟩
    have hrest : rest = [] := hlast
    have hnewest := h.newest (.cancelled error) (by rw [hevents, hrest]; rfl)
    cases hnewest

theorem convergenceInv_step {e : Event} (he : Undisturbed e) (h : ConvergenceInv s)
    {s' : SharedObservers} (hstep : s.step e = some s') : ConvergenceInv s' := by
  cases e with
  | viewDidAppear =>
      cases hstep
      refine ⟨h.newest, h.unobserved, ?_⟩
      intro _ hsettled
      rcases hsettled with ⟨hreg, _⟩
      exact absurd hreg (Nat.succ_ne_zero _)
  | viewDidDisappear =>
      cases hstep
      exact h
  | register =>
      cases hstep
      exact convergenceInv_register h
  | refuse error => exact absurd he id
  | change tree =>
      cases hstep
      exact convergenceInv_change h tree
  | cancel error => exact absurd he id
  | deliver => exact convergenceInv_deliver h hstep
  | cellForRow row =>
      rw [cellForRow_eq hstep]
      exact h
  | didSelectRow row =>
      rcases didSelectRow_eq hstep with ⟨pushed, rfl⟩
      exact ⟨h.newest, h.unobserved, h.synced⟩
  | mainLoop e =>
      cases hstep
      exact ⟨h.newest, h.unobserved, h.synced⟩

/-- Only an appearance adds an observer, and only a disturbance takes one away. -/
theorem live_step_cases {e : Event} {s' : SharedObservers} (hstep : s.step e = some s') :
    (e = .viewDidAppear ∧ s'.live = s.live + 1) ∨
    (e ≠ .viewDidAppear ∧ s'.live ≤ s.live ∧ (Undisturbed e -> s'.live = s.live)) := by
  have hsame : e ≠ .viewDidAppear -> s'.live = s.live ->
      e ≠ .viewDidAppear ∧ s'.live ≤ s.live ∧ (Undisturbed e -> s'.live = s.live) :=
    fun hne heq => ⟨hne, Nat.le_of_eq heq, fun _ => heq⟩
  cases e with
  | viewDidAppear =>
      cases hstep
      refine Or.inl ⟨rfl, ?_⟩
      simp only [live, viewDidAppear]
      omega
  | viewDidDisappear =>
      cases hstep
      exact Or.inr (hsame (by simp) rfl)
  | register =>
      cases hstep
      refine Or.inr (hsame (by simp) ?_)
      simp only [live, register]
      split
      · rfl
      · simp only
        omega
  | refuse error =>
      cases hstep
      refine Or.inr ⟨by simp, ?_, fun he => absurd he id⟩
      simp only [live, refuse]
      split
      · exact Nat.le_refl _
      · simp only
        omega
  | change tree =>
      cases hstep
      exact Or.inr (hsame (by simp) rfl)
  | cancel error =>
      cases hstep
      refine Or.inr ⟨by simp, ?_, fun he => absurd he id⟩
      simp only [live, cancel]
      omega
  | deliver =>
      refine Or.inr (hsame (by simp) ?_)
      rcases deliver_inv hstep with rfl | ⟨snapshot, rest, _, rfl⟩ | ⟨error, rest, _, rfl⟩
      · rfl
      · rfl
      · rfl
  | cellForRow row =>
      exact Or.inr (hsame (by simp) (congrArg live (cellForRow_eq hstep)))
  | didSelectRow row =>
      rcases didSelectRow_eq hstep with ⟨pushed, rfl⟩
      exact Or.inr (hsame (by simp) rfl)
  | mainLoop e =>
      cases hstep
      exact Or.inr (hsame (by simp) rfl)

theorem live_step {e : Event} (he : Undisturbed e) {s' : SharedObservers}
    (hstep : s.step e = some s') : s.live ≤ s'.live := by
  rcases live_step_cases hstep with ⟨_, hgrow⟩ | ⟨_, _, hsame⟩
  · rw [hgrow]
    exact Nat.le_succ _
  · exact Nat.le_of_eq (hsame he).symm

theorem live_of_appeared {tree : Database} {es : List Event}
    (hes : forall e, e ∈ es -> Undisturbed e) (happeared : .viewDidAppear ∈ es)
    (h : Runs.run step (initial tree) es = some s) : 1 ≤ s.live := by
  rcases List.append_of_mem happeared with ⟨front, back, rfl⟩
  rw [Runs.run_append] at h
  rcases Option.bind_eq_some_iff.mp h with ⟨t, _, hback⟩
  rcases Runs.run_cons_some hback with ⟨t', hstep, hrest⟩
  cases hstep
  have hlive : 1 ≤ t.viewDidAppear.live := by
    simp only [live, viewDidAppear]
    omega
  refine Runs.run_invariant_of_events (I := fun s => 1 ≤ s.live) (A := Undisturbed)
    (fun s e s' he hs hstep => Nat.le_trans hs (live_step he hstep)) ?_ hlive hrest
  exact fun e he => hes e (List.mem_append_right front (List.mem_cons_of_mem _ he))

end Convergence

/-- List and table show each child of `pelis` once, and nothing else. -/
structure ShowsTree (s : SharedObservers) : Prop where
  entries : s.screen.movies.Perm
    ((pelis s.tree).keys.map fun k => film k ((pelis s.tree).child k))
  keys_nodup : (pelis s.tree).keys.Nodup
  rows : s.screen.reloaded = s.screen.movies ∧
    s.screen.numberOfRows = (pelis s.tree).keys.length
  empty : (pelis s.tree).isEmpty = true -> s.screen.movies = []

theorem showsTree_of_synced {s : SharedObservers} (h : Synced s)
    (hdict : exportsArray (pelis s.tree).keys = false) : ShowsTree s := by
  have hmovies : s.screen.movies =
      (pelis s.tree).keys.map fun k => film k ((pelis s.tree).child k) := by
    rw [h.left, list_eq, filmsOf, hdict]
    rfl
  refine ⟨List.Perm.of_eq hmovies, (pelis_wellFormed s.tree).nodup_keys, ⟨h.right, ?_⟩, ?_⟩
  · rw [RecommendedMoviesTableViewController.numberOfRows, hmovies, List.length_map]
  · intro hempty
    rw [hmovies, KeyedTree.isEmpty_iff.mp hempty]
    rfl

/-- Once everything pending is done, a screen that has appeared shows the current tree. -/
theorem recommended_list_converges (tree : Database) (es : List Event) (s : SharedObservers)
    (hes : forall e, e ∈ es -> Undisturbed e) (happeared : .viewDidAppear ∈ es)
    (h : Runs.run step (initial tree) es = some s) (hsettled : s.Settled)
    (hdict : exportsArray (pelis s.tree).keys = false) : ShowsTree s := by
  have hinv : ConvergenceInv s :=
    Runs.run_invariant_of_events (fun _ _ _ he hs hstep => convergenceInv_step he hs hstep) hes
      (convergenceInv_initial tree) h
  have hlive := live_of_appeared hes happeared h
  have hobserved : s.observers ≠ 0 := by
    intro hzero
    rw [live, hsettled.left, hzero] at hlive
    exact absurd hlive (by decide)
  exact showsTree_of_synced (hinv.synced hobserved hsettled) hdict

def matrixTree : Database := (share Database.empty matrixScreen).getD Database.empty

/-- Two appearances around a change; the second observer reports the tree again. -/
def twoVisits : List Event :=
  [.viewDidAppear, .register, .change matrixTree, .viewDidDisappear, .viewDidAppear, .deliver,
    .register, .deliver, .deliver]

theorem recommended_list_converges_twoVisits :
    exists s, Runs.run step (initial Database.empty) twoVisits = some s ∧ ShowsTree s := by
  have hes : forall e, e ∈ twoVisits -> Undisturbed e := by
    intro e he
    simp only [twoVisits, List.mem_cons, List.not_mem_nil, or_false] at he
    rcases he with rfl | rfl | rfl | rfl | rfl | rfl | rfl | rfl | rfl <;> trivial
  have hrun : (Runs.run step (initial Database.empty) twoVisits).map (fun s =>
      (s.registering, s.events.isEmpty, exportsArray (pelis s.tree).keys)) =
        some (0, true, false) := by
    decide
  rcases Option.map_eq_some_iff.mp hrun with ⟨s, hs, hobs⟩
  simp only [Prod.mk.injEq, List.isEmpty_iff] at hobs
  exact ⟨s, hs, recommended_list_converges _ _ s hes (by simp [twoVisits]) hs
    ⟨hobs.left, hobs.right.left⟩ hobs.right.right⟩

/-!
## Observers and callbacks
-/

def deliverAll (s : SharedObservers) : SharedObservers :=
  { s with
    screen := s.events.foldl (fun c e => (c.deliver e).getD c) s.screen
    events := [] }

/-- One observer at most, and one callback for each change or failure. -/
structure OncePerEvent (s : SharedObservers) : Prop where
  one_observer : s.live ≤ 1
  change_once : s.observers ≠ 0 -> forall tree,
    (s.change tree).deliverAll.screen.rebuilds = s.deliverAll.screen.rebuilds + 1
  failure_once : forall error,
    (s.cancel error).deliverAll.screen.alerts.length ≤ s.deliverAll.screen.alerts.length + 1

def AppearsUnobserved (s : SharedObservers) : Event -> Prop
  | .viewDidAppear => s.live = 0
  | _ => True

theorem rebuilds_deliver_value (n : Nat) (tree : Database)
    (c : RecommendedMoviesTableViewController) :
    ((List.replicate n (ObserverEvent.value tree)).foldl
      (fun c e => (c.deliver e).getD c) c).rebuilds = c.rebuilds + n := by
  induction n generalizing c with
  | zero => rfl
  | succ n ih =>
      rw [List.replicate_succ, List.foldl_cons, ih]
      show c.rebuilds + 1 + n = c.rebuilds + (n + 1)
      omega

theorem alerts_deliver_cancelled (n : Nat) (error : String)
    (c : RecommendedMoviesTableViewController) :
    ((List.replicate n (ObserverEvent.cancelled error)).foldl
      (fun c e => (c.deliver e).getD c) c).alerts.length = c.alerts.length + n := by
  induction n generalizing c with
  | zero => rfl
  | succ n ih =>
      rw [List.replicate_succ, List.foldl_cons, ih]
      show c.alerts.length + 1 + n = c.alerts.length + (n + 1)
      omega

theorem rebuilds_change (s : SharedObservers) (tree : Database) :
    (s.change tree).deliverAll.screen.rebuilds =
      s.deliverAll.screen.rebuilds + s.observers := by
  simp only [deliverAll, change, List.foldl_append]
  exact rebuilds_deliver_value s.observers tree _

theorem alerts_cancel (s : SharedObservers) (error : String) :
    (s.cancel error).deliverAll.screen.alerts.length =
      s.deliverAll.screen.alerts.length + s.observers := by
  simp only [deliverAll, cancel, List.foldl_append]
  exact alerts_deliver_cancelled s.observers error _

theorem oncePerEvent_iff (s : SharedObservers) : OncePerEvent s <-> s.live ≤ 1 := by
  constructor
  · exact OncePerEvent.one_observer
  · intro h
    have hobservers : s.observers ≤ 1 := Nat.le_trans (Nat.le_add_left _ _) h
    refine ⟨h, ?_, ?_⟩
    · intro hne tree
      rw [rebuilds_change]
      omega
    · intro error
      rw [alerts_cancel]
      omega

theorem oncePerEvent_step_iff (s : SharedObservers) (e : Event) (h : OncePerEvent s) :
    (forall s', s.step e = some s' -> OncePerEvent s') <-> s.AppearsUnobserved e := by
  have hlive := h.one_observer
  by_cases happear : e = .viewDidAppear
  · subst happear
    have hgrow : s.viewDidAppear.live = s.live + 1 := by
      simp only [live, viewDidAppear]
      omega
    simp only [step, Option.some.injEq, forall_eq', oncePerEvent_iff, hgrow, AppearsUnobserved]
    omega
  · have htrue : s.AppearsUnobserved e := by
      cases e with
      | viewDidAppear => exact absurd rfl happear
      | _ => trivial
    refine iff_of_true ?_ htrue
    intro s' hstep
    rcases live_step_cases hstep with ⟨heq, _⟩ | ⟨_, hle, _⟩
    · exact absurd heq happear
    · exact (oncePerEvent_iff s').mpr (Nat.le_trans hle hlive)

/--
Each change and each failure is handled once in every state of a run exactly
when the screen never appears while it owns an observer.
-/
theorem once_per_event_iff_appears_unobserved (tree : Database) (es : List Event) :
    Runs.Always step OncePerEvent (initial tree) es <->
      Runs.Guarded step AppearsUnobserved (initial tree) es := by
  have hinitial : OncePerEvent (initial tree) := (oncePerEvent_iff _).mpr (Nat.zero_le 1)
  exact Runs.always_iff_guarded (I := fun _ => True) (fun _ _ _ _ _ => trivial)
    (fun s e _ h => oncePerEvent_step_iff s e h) trivial hinitial es

/-- After two visits one change rebuilds the list twice, and one failure alerts twice. -/
theorem two_visits_handle_twice :
    exists s, Runs.run step (initial Database.empty) twoVisits = some s ∧ s.live = 2 ∧
      (s.change Database.empty).deliverAll.screen.rebuilds = s.deliverAll.screen.rebuilds + 2 ∧
      (s.cancel "permission denied").deliverAll.screen.alerts = ["Info", "Info"] ∧
      ¬ OncePerEvent s := by
  have hrun : (Runs.run step (initial Database.empty) twoVisits).map (fun s =>
      (s.live, s.observers, (s.cancel "permission denied").deliverAll.screen.alerts)) =
        some (2, 2, ["Info", "Info"]) := by
    decide
  rcases Option.map_eq_some_iff.mp hrun with ⟨s, hs, hobs⟩
  simp only [Prod.mk.injEq] at hobs
  rcases hobs with ⟨hlive, hobservers, halerts⟩
  refine ⟨s, hs, hlive, ?_, halerts, ?_⟩
  · rw [rebuilds_change, hobservers]
  · rw [oncePerEvent_iff, hlive]
    decide

end SharedObservers
end Recommended
end MyMovies
