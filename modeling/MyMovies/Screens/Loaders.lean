import MyMovies.Detail.DetailScreen
import MyMovies.Recommended.SharedObservers
import MyMovies.Search.MovieController

/-!
# Loaders of the three screens

The search, detail and recommended screens show a loader when they ask for data.
The recommended screen hides its loaders on every answer, the other two only on
a successful one, and a hide reaches only the loaders that are visible when its
block runs.  What is left on an idle screen is decided by the order of the
main-thread blocks of the run.
-/

namespace MyMovies
namespace Screens

open Foundation Firebase Network Storage Loader View Detail Recommended Search

/-!
## Loaders that a step touches
-/

theorem detail_view_cases {urlFromString : String -> Option URL} {locale : AppLocale}
    {s s' : DetailScreen} {e : DetailEvent} (h : s.Inv)
    (hstep : s.step urlFromString locale e = some s') :
    (s'.controller.view = s.controller.view ∧
      s'.controller.outstanding = s.controller.outstanding) ∨
    s'.controller.view = s.controller.view.removeLoadingView ∨
    (s'.controller.view = s.controller.view ∧ exists r countReply,
      e = .response r countReply ∧ s.controller.outstanding = true ∧
        (MovieDetailModel.getMovieDetail locale r).success = none) ∨
    (exists e', e = .mainLoop e' ∧ s'.controller.view = s.controller.view.mainLoop e' ∧
      s'.controller.outstanding = s.controller.outstanding) := by
  cases e with
  | response r countReply =>
      rcases Option.map_eq_some_iff.mp hstep with ⟨c, hreceive, rfl⟩
      cases hout : s.controller.outstanding with
      | false =>
          simp only [MovieDetailController.receive, hout] at hreceive
          cases hreceive
          exact Or.inl ⟨rfl, hout⟩
      | true =>
          rcases MovieDetailController.receive_cases urlFromString locale s.storage hout r
            countReply with ⟨dto, _, heq⟩ | ⟨error, hfail, heq⟩
          · rw [heq] at hreceive
            have hpres : s.controller.answered.hasPresenter = true := h.presenter
            have hview := MovieDetailController.showMovie_view urlFromString
              s.controller.answered dto
            rcases MovieDetailController.successSearch_cases hpres hreceive with
              ⟨state, rfl | rfl⟩
            · exact Or.inr (Or.inl hview)
            · exact Or.inr (Or.inl hview)
          · rw [heq] at hreceive
            cases hreceive
            exact Or.inr (Or.inr (Or.inl ⟨rfl, r, countReply, rfl, rfl, hfail⟩))
  | toFavourites countReply fetchReply =>
      cases hstep
      left
      rcases DetailScreen.toFavourites_screen_cases s.storage s.controller countReply fetchReply
        with heq | heq | ⟨state, _, heq⟩
      · have hview := congrArg MovieDetailController.view heq
        have hout := congrArg MovieDetailController.outstanding heq
        exact ⟨hview, hout⟩
      · have hview := congrArg MovieDetailController.view heq
        have hout := congrArg MovieDetailController.outstanding heq
        exact ⟨hview, hout⟩
      · have hview := congrArg MovieDetailController.view heq
        have hout := congrArg MovieDetailController.outstanding heq
        exact ⟨hview, hout⟩
  | websiteTapped =>
      rcases Option.map_eq_some_iff.mp hstep with ⟨v, _, rfl⟩
      exact Or.inl ⟨rfl, rfl⟩
  | imageLongPressed =>
      cases hstep
      exact Or.inl ⟨rfl, rfl⟩
  | saveConfirmed =>
      rcases Option.map_eq_some_iff.mp hstep with ⟨v, _, rfl⟩
      exact Or.inl ⟨rfl, rfl⟩
  | saveCancelled =>
      cases hstep
      exact Or.inl ⟨rfl, rfl⟩
  | imageDownloaded succeeded =>
      cases hstep
      exact Or.inl ⟨rfl, rfl⟩
  | mainLoop e =>
      cases hstep
      exact Or.inr (Or.inr (Or.inr ⟨e, rfl, rfl, rfl⟩))
  | storageChanged storage =>
      cases hstep
      exact Or.inl ⟨rfl, rfl⟩

theorem detailView_step {urlFromString : String -> Option URL} {locale : AppLocale}
    {s s' : DetailScreen} {e : DetailEvent} (h : s.Inv ∧ s.controller.view.Inv)
    (hstep : s.step urlFromString locale e = some s') : s'.Inv ∧ s'.controller.view.Inv := by
  refine ⟨DetailScreen.inv_step h.left e hstep, ?_⟩
  rcases detail_view_cases h.left hstep with ⟨hview, _⟩ | hview | ⟨hview, _⟩ | ⟨e', _, hview, _⟩
  · rw [hview]
    exact h.right
  · rw [hview]
    exact LoaderView.inv_removeLoadingView h.right
  · rw [hview]
    exact h.right
  · rw [hview]
    exact LoaderView.inv_mainLoop h.right e'

theorem recommended_view_cases {s s' : SharedObservers} {e : SharedObservers.Event}
    (hstep : s.step e = some s') :
    (s'.screen.view = s.screen.view ∧ (s'.Settled -> s.Settled)) ∨
    s'.screen.view = s.screen.view.showLoader ∨
    s'.screen.view = s.screen.view.removeLoadingView ∨
    (exists e', e = .mainLoop e' ∧ s'.screen.view = s.screen.view.mainLoop e' ∧
      (s'.Settled -> s.Settled)) := by
  cases e with
  | viewDidAppear =>
      cases hstep
      exact Or.inr (Or.inl rfl)
  | viewDidDisappear =>
      cases hstep
      exact Or.inl ⟨rfl, id⟩
  | register =>
      cases hstep
      left
      unfold SharedObservers.register
      split
      · exact ⟨rfl, id⟩
      · exact ⟨rfl, fun h => absurd h.right (by simp)⟩
  | refuse error =>
      cases hstep
      left
      unfold SharedObservers.refuse
      split
      · exact ⟨rfl, id⟩
      · exact ⟨rfl, fun h => absurd h.right (by simp)⟩
  | change tree =>
      cases hstep
      exact Or.inl ⟨rfl, fun h => ⟨h.left, (List.append_eq_nil_iff.mp h.right).left⟩⟩
  | cancel error =>
      cases hstep
      exact Or.inl ⟨rfl, fun h => ⟨h.left, (List.append_eq_nil_iff.mp h.right).left⟩⟩
  | deliver =>
      rcases SharedObservers.deliver_inv hstep with rfl | ⟨snapshot, rest, _, rfl⟩ |
        ⟨error, rest, _, rfl⟩
      · exact Or.inl ⟨rfl, id⟩
      · exact Or.inr (Or.inr (Or.inl rfl))
      · exact Or.inr (Or.inr (Or.inl rfl))
  | cellForRow row =>
      rw [SharedObservers.cellForRow_eq hstep]
      exact Or.inl ⟨rfl, id⟩
  | didSelectRow row =>
      rcases SharedObservers.didSelectRow_eq hstep with ⟨pushed, rfl⟩
      exact Or.inl ⟨rfl, id⟩
  | mainLoop e =>
      cases hstep
      exact Or.inr (Or.inr (Or.inr ⟨e, rfl, rfl, id⟩))

theorem recommendedView_step {s s' : SharedObservers} {e : SharedObservers.Event}
    (h : s.screen.view.Inv) (hstep : s.step e = some s') : s'.screen.view.Inv := by
  rcases recommended_view_cases hstep with ⟨hview, _⟩ | hview | hview | ⟨e', _, hview, _⟩
  · rw [hview]
    exact h
  · rw [hview]
    exact LoaderView.inv_showLoader h
  · rw [hview]
    exact LoaderView.inv_removeLoadingView h
  · rw [hview]
    exact LoaderView.inv_mainLoop h e'

/-!
## Steps that leave no loader behind
-/

/-- No loader of the search screen is left behind. -/
def SearchCleared (c : MovieController) : Prop :=
  LoaderView.NoLoaderLeft (c.outstanding = []) c.view

def DetailCleared (s : DetailScreen) : Prop :=
  LoaderView.NoLoaderLeft (s.controller.outstanding = false) s.controller.view

def RecommendedCleared (s : SharedObservers) : Prop :=
  LoaderView.NoLoaderLeft s.Settled s.screen.view

/--
The last request of the search screen does not fail while a loader shown since
the last hide has no block left to hide it, and the main loop ends with a hide.
-/
def SearchHides (locale : AppLocale) (c : MovieController) : MovieController.Event -> Prop
  | .response request r => request ∈ c.outstanding.map Prod.fst ->
      (MoviesModel.getMovies locale r).success = none ->
        (forall p, p ∈ c.outstanding -> p.1 = request) -> LoaderView.HiddenWhenEmpty c.view
  | .mainLoop e => LoaderView.MainLoopHides (c.outstanding = []) c.view e
  | _ => True

/-- The same for the one request of a detail screen. -/
def DetailHides (locale : AppLocale) (s : DetailScreen) : DetailEvent -> Prop
  | .response r _ => s.controller.outstanding = true ->
      (MovieDetailModel.getMovieDetail locale r).success = none ->
        LoaderView.HiddenWhenEmpty s.controller.view
  | .mainLoop e => LoaderView.MainLoopHides (s.controller.outstanding = false) s.controller.view e
  | _ => True

/-- The recommended screen hides on every answer; only the order of the blocks matters. -/
def RecommendedHides (s : SharedObservers) : SharedObservers.Event -> Prop
  | .mainLoop e => LoaderView.MainLoopHides s.Settled s.screen.view e
  | _ => True

theorem searchCleared_of_outstanding {c : MovieController} (h : c.outstanding ≠ []) :
    SearchCleared c := fun hidle => absurd hidle h

theorem searchCleared_response_iff (locale : AppLocale) {c : MovieController} (h : c.Inv)
    (hclear : SearchCleared c) (request : Nat) (r : DataResponse) :
    (forall c', c.receive locale request r = some c' -> SearchCleared c') <->
      SearchHides locale c (.response request r) := by
  rcases MovieController.receive_cases locale c request r with
    ⟨hout, heq⟩ | ⟨hout, dto, hsuccess, heq⟩ | ⟨hout, error, hfail, heq⟩
  · simp only [heq, Option.some.injEq, forall_eq', SearchHides]
    exact iff_of_true hclear fun hmem => absurd hmem hout
  · simp only [heq, Option.some.injEq, forall_eq', SearchHides]
    refine iff_of_true (LoaderView.noLoaderLeft_removeLoadingView _ _) ?_
    intro _ hnone
    rw [hsuccess] at hnone
    cases hnone
  · -- the failed request leaves the loaders as they are
    have hlast : (c.outstanding.filter fun p => p.1 != request) = [] <->
        forall p, p ∈ c.outstanding -> p.1 = request := by
      simp [List.filter_eq_nil_iff]
    simp only [heq, Option.some.injEq, forall_eq', SearchHides, hout, hfail, true_implies]
    show LoaderView.NoLoaderLeft ((c.outstanding.filter fun p => p.1 != request) = []) c.view <-> _
    rw [LoaderView.noLoaderLeft_iff h.view, hlast]

theorem searchCleared_step_iff (count : String -> Nat) (locale : AppLocale) (c : MovieController)
    (e : MovieController.Event) (h : c.Inv) (hclear : SearchCleared c) :
    (forall c', c.step count locale e = some c' -> SearchCleared c') <->
      SearchHides locale c e := by
  cases e with
  | textDidChange searchText =>
      refine iff_of_true ?_ trivial
      intro c' hstep
      cases hstep
      unfold MovieController.textDidChange
      split
      · exact searchCleared_of_outstanding (by simp [MovieController.searchMovie])
      · exact hclear
  | searchButtonClicked =>
      refine iff_of_true ?_ trivial
      intro c' hstep
      cases hstep
      exact searchCleared_of_outstanding
        (by simp [MovieController.searchButtonClicked, MovieController.searchMovie])
  | cancelButtonClicked =>
      refine iff_of_true ?_ trivial
      intro c' hstep
      cases hstep
      exact hclear
  | response request r => exact searchCleared_response_iff locale h hclear request r
  | cellForRow row =>
      refine iff_of_true ?_ trivial
      intro c' hstep
      rw [MovieController.cellForRow_eq hstep]
      exact hclear
  | didSelectRow row =>
      refine iff_of_true ?_ trivial
      intro c' hstep
      rcases MovieController.didSelectRow_eq hstep with ⟨pushed, rfl⟩
      exact hclear
  | mainLoop e =>
      simp only [MovieController.step, Option.some.injEq, forall_eq']
      exact LoaderView.noLoaderLeft_mainLoop_iff h.view hclear e

theorem detailCleared_step_iff (urlFromString : String -> Option URL) (locale : AppLocale)
    (s : DetailScreen) (e : DetailEvent) (h : s.Inv ∧ s.controller.view.Inv)
    (hclear : DetailCleared s) :
    (forall s', s.step urlFromString locale e = some s' -> DetailCleared s') <->
      DetailHides locale s e := by
  constructor
  · intro hall
    cases e with
    | response r countReply =>
        intro hout hfail
        rcases MovieDetailController.receive_cases urlFromString locale s.storage hout r
          countReply with ⟨dto, hsuccess, _⟩ | ⟨error, _, heq⟩
        · rw [hsuccess] at hfail
          cases hfail
        · have hafter := hall { s with controller := s.controller.answered.failed error }
            (by rw [DetailScreen.step, heq]; rfl)
          exact (LoaderView.noLoaderLeft_iff h.right).mp hafter rfl
    | mainLoop e => exact (LoaderView.noLoaderLeft_mainLoop_iff h.right hclear e).mp (hall _ rfl)
    | _ => trivial
  · intro hguard s' hstep
    unfold DetailCleared
    rcases detail_view_cases h.left hstep with ⟨hview, hout⟩ | hview |
      ⟨hview, r, countReply, rfl, hwaiting, hfail⟩ | ⟨e', rfl, hview, hout⟩
    · rw [hview, hout]
      exact hclear
    · rw [hview]
      exact LoaderView.noLoaderLeft_removeLoadingView _ _
    · rw [hview, LoaderView.noLoaderLeft_iff h.right]
      exact fun _ => hguard hwaiting hfail
    · rw [hview, hout]
      exact (LoaderView.noLoaderLeft_mainLoop_iff h.right hclear e').mpr hguard

theorem recommendedCleared_step_iff (s : SharedObservers) (e : SharedObservers.Event)
    (h : s.screen.view.Inv) (hclear : RecommendedCleared s) :
    (forall s', s.step e = some s' -> RecommendedCleared s') <-> RecommendedHides s e := by
  constructor
  · intro hall
    cases e with
    | mainLoop e => exact (LoaderView.noLoaderLeft_mainLoop_iff h hclear e).mp (hall _ rfl)
    | _ => trivial
  · intro hguard s' hstep
    unfold RecommendedCleared
    rcases recommended_view_cases hstep with ⟨hview, hsettled⟩ | hview | hview |
      ⟨e', rfl, hview, hsettled⟩
    · rw [hview]
      exact hclear.mono hsettled
    · rw [hview]
      exact LoaderView.noLoaderLeft_showLoader _ _
    · rw [hview]
      exact LoaderView.noLoaderLeft_removeLoadingView _ _
    · rw [hview]
      exact ((LoaderView.noLoaderLeft_mainLoop_iff h hclear e').mpr hguard).mono hsettled

/--
No state of a run leaves a loader behind exactly when no last request fails over
an unhidden loader and the blocks of the main queue end with a hide.
-/
theorem loaders_left_iff (count : String -> Nat) (urlFromString : String -> Option URL)
    (locale : AppLocale) :
    (forall es, Runs.Always (MovieController.step count locale) SearchCleared
        MovieController.initial es <->
      Runs.Guarded (MovieController.step count locale) (SearchHides locale)
        MovieController.initial es) ∧
    (forall storage imdbID es, Runs.Always (DetailScreen.step urlFromString locale) DetailCleared
        (DetailScreen.initial storage imdbID) es <->
      Runs.Guarded (DetailScreen.step urlFromString locale) (DetailHides locale)
        (DetailScreen.initial storage imdbID) es) ∧
    forall tree es, Runs.Always SharedObservers.step RecommendedCleared
        (SharedObservers.initial tree) es <->
      Runs.Guarded SharedObservers.step RecommendedHides (SharedObservers.initial tree) es := by
  refine ⟨?_, ?_, ?_⟩
  · intro es
    have hclear : SearchCleared MovieController.initial := fun _ _ => rfl
    exact Runs.always_iff_guarded
      (fun _ e _ h hstep => MovieController.inv_step count locale h e hstep)
      (searchCleared_step_iff count locale) MovieController.inv_initial hclear es
  · intro storage imdbID es
    have hview := LoaderView.inv_showLoader LoaderView.inv_initial
    have hclear : DetailCleared (DetailScreen.initial storage imdbID) := fun _ _ => rfl
    exact Runs.always_iff_guarded (fun _ _ _ h hstep => detailView_step h hstep)
      (detailCleared_step_iff urlFromString locale)
      ⟨DetailScreen.inv_initial storage imdbID, hview⟩ hclear es
  · intro tree es
    have hclear : RecommendedCleared (SharedObservers.initial tree) := fun _ _ => rfl
    exact Runs.always_iff_guarded (fun _ _ _ h hstep => recommendedView_step h hstep)
      recommendedCleared_step_iff LoaderView.inv_initial hclear es

def failedSearch : List MovieController.Event :=
  [.textDidChange "star", .mainLoop (.performShowLoader 0), .mainLoop .runBlock,
    .mainLoop .runBlock, .response 0 .failure]

def failedDetail : List DetailEvent :=
  [.mainLoop (.performShowLoader 0), .mainLoop .runBlock, .mainLoop .runBlock,
    .response .failure .answers]

def earlySnapshot : List SharedObservers.Event :=
  [.viewDidAppear, .register, .deliver, .mainLoop .runBlock, .mainLoop .runBlock,
    .mainLoop (.performShowLoader 0), .mainLoop .runBlock]

/-- A failure, or a hide that comes before its show, leaves a loader on an idle screen. -/
theorem loaders_left_behind :
    (exists c, Runs.run (MovieController.step String.length .en) MovieController.initial
        failedSearch = some c ∧ c.outstanding = [] ∧ c.view.mainQueue = [] ∧
      c.view.visibleLoaders = [0] ∧
      ¬ Runs.Always (MovieController.step String.length .en) SearchCleared
        MovieController.initial failedSearch) ∧
    (exists s, Runs.run (DetailScreen.step (fun value => some ⟨value⟩) .en)
        (DetailScreen.initial Storage.StorageService.empty "tt0133093") failedDetail = some s ∧
      s.controller.outstanding = false ∧ s.controller.view.mainQueue = [] ∧
      s.controller.view.visibleLoaders = [0] ∧
      ¬ Runs.Always (DetailScreen.step (fun value => some ⟨value⟩) .en) DetailCleared
        (DetailScreen.initial Storage.StorageService.empty "tt0133093") failedDetail) ∧
    (exists s, Runs.run SharedObservers.step (SharedObservers.initial Database.empty)
        earlySnapshot = some s ∧ s.Settled ∧ s.screen.view.mainQueue = [] ∧
      s.screen.view.visibleLoaders = [0] ∧
      ¬ Runs.Always SharedObservers.step RecommendedCleared
        (SharedObservers.initial Database.empty) earlySnapshot) := by
  refine ⟨?_, ?_, ?_⟩
  · have hrun : (Runs.run (MovieController.step String.length .en) MovieController.initial
        failedSearch).map (fun c => (c.outstanding, c.view.mainQueue, c.view.visibleLoaders)) =
          some ([], [], [0]) := by
      decide
    rcases Option.map_eq_some_iff.mp hrun with ⟨c, hc, hobs⟩
    simp only [Prod.mk.injEq] at hobs
    rcases hobs with ⟨hout, hqueue, hvisible⟩
    refine ⟨c, hc, hout, hqueue, hvisible, ?_⟩
    intro halways
    have hclear := halways.last hc hout hqueue
    rw [hclear] at hvisible
    cases hvisible
  · have hrun : (Runs.run (DetailScreen.step (fun value => some ⟨value⟩) .en)
        (DetailScreen.initial Storage.StorageService.empty "tt0133093") failedDetail).map
          (fun s => (s.controller.outstanding, s.controller.view.mainQueue,
            s.controller.view.visibleLoaders)) = some (false, [], [0]) := by
      decide
    rcases Option.map_eq_some_iff.mp hrun with ⟨s, hs, hobs⟩
    simp only [Prod.mk.injEq] at hobs
    rcases hobs with ⟨hout, hqueue, hvisible⟩
    refine ⟨s, hs, hout, hqueue, hvisible, ?_⟩
    intro halways
    have hclear := halways.last hs hout hqueue
    rw [hclear] at hvisible
    cases hvisible
  · have hrun : (Runs.run SharedObservers.step (SharedObservers.initial Database.empty)
        earlySnapshot).map (fun s => (s.registering, s.events.isEmpty, s.screen.view.mainQueue,
          s.screen.view.visibleLoaders)) = some (0, true, [], [0]) := by
      decide
    rcases Option.map_eq_some_iff.mp hrun with ⟨s, hs, hobs⟩
    simp only [Prod.mk.injEq, List.isEmpty_iff] at hobs
    rcases hobs with ⟨hregistering, hevents, hqueue, hvisible⟩
    refine ⟨s, hs, ⟨hregistering, hevents⟩, hqueue, hvisible, ?_⟩
    intro halways
    have hclear := halways.last hs ⟨hregistering, hevents⟩ hqueue
    rw [hclear] at hvisible
    cases hvisible

end Screens
end MyMovies
