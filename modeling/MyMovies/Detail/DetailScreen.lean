import MyMovies.Favourites.FavouritesStore

/-!
# One detail screen from load to close

Every event that reaches a single `MovieDetailController` after `viewDidLoad`:
its response, taps, long presses, the dialog that saves the image, the end of an
image download, and main-loop steps of the loader.  Other screens may replace
the store at any time.
-/

namespace MyMovies
namespace Detail

open Foundation Network Storage Loader View Favourites

structure DetailScreen where
  storage : StorageService
  controller : MovieDetailController

inductive DetailEvent where
  | response (r : DataResponse) (countReply : CoreDataReply)
  | toFavourites (countReply fetchReply : CoreDataReply)
  | websiteTapped
  | imageLongPressed
  | saveConfirmed
  | saveCancelled
  | imageDownloaded (succeeded : Bool)
  | mainLoop (e : LoaderView.MainLoopEvent)
  | storageChanged (s : StorageService)

namespace DetailScreen

/-- A screen that has just been opened, over any store. -/
def initial (storage : StorageService) (imdbID : String) : DetailScreen where
  storage := storage
  controller := MovieDetailController.opened imdbID

variable (urlFromString : String -> Option URL) (locale : AppLocale)

def step (s : DetailScreen) : DetailEvent -> Option DetailScreen
  | .response r countReply =>
      (s.controller.receive urlFromString locale s.storage r countReply).map fun c =>
        { s with controller := c }
  | .toFavourites countReply fetchReply =>
      let result := s.controller.toFavourites s.storage countReply fetchReply
      some { storage := result.1, controller := result.2 }
  | .websiteTapped =>
      (s.controller.movieWebSite.tapped urlFromString).map fun v =>
        { s with controller := { s.controller with movieWebSite := v } }
  | .imageLongPressed =>
      some { s with controller :=
        { s.controller with movieImage := s.controller.movieImage.longPressed } }
  | .saveConfirmed =>
      s.controller.movieImage.saveConfirmed.map fun v =>
        { s with controller := { s.controller with movieImage := v } }
  | .saveCancelled =>
      some { s with controller :=
        { s.controller with movieImage := s.controller.movieImage.saveCancelled } }
  | .imageDownloaded succeeded =>
      some { s with controller :=
        { s.controller with movieImage := s.controller.movieImage.downloadCompleted succeeded } }
  | .mainLoop e =>
      some { s with controller := { s.controller with view := s.controller.view.mainLoop e } }
  | .storageChanged storage => some { s with storage := storage }

/--
The two conditions on an event: the favourite query of a response with an
`imdbID` is answered, and a website is tapped only when its text is empty or a URL.
-/
def Permitted (s : DetailScreen) : DetailEvent -> Prop
  | .response r countReply => s.controller.outstanding = true ->
      forall dto imdbID, (MovieDetailModel.getMovieDetail locale r).success = some dto ->
        dto.imdbID = some imdbID -> countReply = .answers
  | .websiteTapped => s.controller.movieWebSite.OpensUrl urlFromString
  | _ => True

/-!
## The invariant of the screen
-/

structure Inv (s : DetailScreen) : Prop where
  presenter : s.controller.hasPresenter = true
  image : s.controller.movieImage.Inv
  unloaded : s.controller.outstanding = true ->
    s.controller.movieDetailDto = none ∧ s.controller.isFavourite = none

theorem inv_initial (storage : StorageService) (imdbID : String) :
    Inv (initial storage imdbID) where
  presenter := rfl
  image := by
    intro h
    rcases h with h | h
    · cases h
    · exact absurd rfl h
  unloaded := fun _ => ⟨rfl, rfl⟩

/-- The three screens that a tap on the favourite button can leave. -/
theorem toFavourites_screen_cases (s : StorageService) (c : MovieDetailController)
    (countReply fetchReply : CoreDataReply) :
    (c.toFavourites s countReply fetchReply).2 = c ∨
    (c.toFavourites s countReply fetchReply).2 = c.updateFavouriteUI .notFavourite ∨
    exists state, c.movieDetailDto ≠ none ∧
      (c.toFavourites s countReply fetchReply).2 = c.showFavourite state := by
  unfold MovieDetailController.toFavourites
  by_cases hfav : c.isFavourite = some .isFavourite
  · rw [if_pos hfav]
    rcases removeFromFavourites_cases s c fetchReply with
      ⟨_, heq | heq⟩ | ⟨imdbID, hid, _, heq⟩
    · exact Or.inl (by rw [heq])
    · exact Or.inr (Or.inl (by rw [heq]))
    · rcases loadedID_eq_some hid with ⟨dto, hdto, _⟩
      exact Or.inr (Or.inr ⟨.notFavourite, by simp [hdto], by rw [heq]⟩)
  · rw [if_neg hfav]
    rcases addToFavourites_cases s c countReply fetchReply with
      ⟨_, heq⟩ | ⟨dto, imdbID, hdto, _, _, heq⟩
    · exact Or.inl (by rw [heq])
    · exact Or.inr (Or.inr ⟨.isFavourite, by simp [hdto], by rw [heq]⟩)

section Step

variable {urlFromString locale} {s : DetailScreen}

theorem inv_toFavourites (h : Inv s) (countReply fetchReply : CoreDataReply)
    (storage : StorageService) :
    Inv { storage := storage,
          controller := (s.controller.toFavourites s.storage countReply fetchReply).2 } := by
  rcases toFavourites_screen_cases s.storage s.controller countReply fetchReply with
    heq | heq | ⟨state, hdto, heq⟩
  · rw [heq]
    exact ⟨h.presenter, h.image, h.unloaded⟩
  · rw [heq]
    exact ⟨h.presenter, h.image, h.unloaded⟩
  · rw [heq]
    refine ⟨h.presenter, h.image, ?_⟩
    intro hout
    exact absurd (h.unloaded hout).left hdto

theorem inv_of_answered {c : MovieDetailController} (hpres : c.hasPresenter = true)
    (himage : c.movieImage.Inv) (hout : c.outstanding = false) (storage : StorageService) :
    Inv { storage := storage, controller := c } := by
  refine ⟨hpres, himage, ?_⟩
  intro htrue
  rw [hout] at htrue
  cases htrue

theorem inv_successSearch {c c' : MovieDetailController} (hpres : c.hasPresenter = true)
    (himage : c.movieImage.Inv) (hout : c.outstanding = false) {storage : StorageService}
    {dto : MovieDetailDto} {countReply : CoreDataReply}
    (h : c.successSearch urlFromString storage (some dto) countReply = some c') :
    Inv { storage := storage, controller := c' } := by
  have hshown := MovieDetailController.showMovie_movieImage urlFromString himage dto
  have hpres' := (MovieDetailController.showMovie_hasPresenter urlFromString c dto).trans hpres
  have hout' := (MovieDetailController.showMovie_outstanding urlFromString c dto).trans hout
  rcases MovieDetailController.successSearch_cases hpres h with ⟨state, rfl | rfl⟩
  · exact inv_of_answered (c := MovieDetailController.updateFavouriteUI _ _) hpres' hshown hout' _
  · exact inv_of_answered (c := MovieDetailController.showFavourite _ _) hpres' hshown hout' _

theorem inv_receive (h : Inv s) {r : DataResponse} {countReply : CoreDataReply}
    {c : MovieDetailController}
    (hreceive : s.controller.receive urlFromString locale s.storage r countReply = some c) :
    Inv { s with controller := c } := by
  cases hout : s.controller.outstanding with
  | false =>
      simp only [MovieDetailController.receive, hout] at hreceive
      cases hreceive
      exact h
  | true =>
      rcases MovieDetailController.receive_cases urlFromString locale s.storage hout r countReply
        with ⟨dto, _, heq⟩ | ⟨error, _, heq⟩
      · rw [heq] at hreceive
        exact inv_successSearch (c := s.controller.answered) h.presenter h.image rfl hreceive
      · rw [heq] at hreceive
        cases hreceive
        exact inv_of_answered (c := s.controller.answered.failed error) h.presenter h.image rfl
          s.storage

theorem inv_step (h : Inv s) (e : DetailEvent) {s' : DetailScreen}
    (hstep : s.step urlFromString locale e = some s') : Inv s' := by
  cases e with
  | response r countReply =>
      rcases Option.map_eq_some_iff.mp hstep with ⟨c, hreceive, rfl⟩
      exact inv_receive h hreceive
  | toFavourites countReply fetchReply =>
      cases hstep
      exact inv_toFavourites h countReply fetchReply _
  | websiteTapped =>
      rcases Option.map_eq_some_iff.mp hstep with ⟨v, _, rfl⟩
      exact ⟨h.presenter, h.image, h.unloaded⟩
  | imageLongPressed =>
      cases hstep
      exact ⟨h.presenter, UIImageView.inv_longPressed h.image, h.unloaded⟩
  | saveConfirmed =>
      rcases Option.map_eq_some_iff.mp hstep with ⟨v, hv, rfl⟩
      rcases UIImageView.saveConfirmed_of_inv h.image with ⟨v', hv', himage⟩
      rw [hv] at hv'
      cases hv'
      exact ⟨h.presenter, himage, h.unloaded⟩
  | saveCancelled =>
      cases hstep
      exact ⟨h.presenter, UIImageView.inv_saveCancelled h.image, h.unloaded⟩
  | imageDownloaded succeeded =>
      cases hstep
      exact ⟨h.presenter, UIImageView.inv_downloadCompleted h.image succeeded, h.unloaded⟩
  | mainLoop e =>
      cases hstep
      exact ⟨h.presenter, h.image, h.unloaded⟩
  | storageChanged storage =>
      cases hstep
      exact ⟨h.presenter, h.image, h.unloaded⟩

theorem exists_receive_iff (h : Inv s) (r : DataResponse) (countReply : CoreDataReply) :
    (exists c, s.controller.receive urlFromString locale s.storage r countReply = some c) <->
      s.Permitted urlFromString locale (.response r countReply) := by
  cases hout : s.controller.outstanding with
  | false => simp [MovieDetailController.receive, Permitted, hout]
  | true =>
      have hpres : s.controller.answered.hasPresenter = true := h.presenter
      rcases MovieDetailController.receive_cases urlFromString locale s.storage hout r countReply
        with ⟨dto, hmodel, heq⟩ | ⟨error, hmodel, heq⟩
      · simp only [Permitted, hout, hmodel, heq, Option.some.injEq, true_implies]
        cases hid : dto.imdbID with
        | none =>
            rw [MovieDetailController.successSearch_of_no_id hpres hid]
            refine iff_of_true ⟨_, rfl⟩ ?_
            rintro _ imdbID rfl hsome
            rw [hid] at hsome
            cases hsome
        | some imdbID =>
            cases countReply with
            | answers =>
                rw [MovieDetailController.successSearch_answers hpres hid]
                exact iff_of_true ⟨_, rfl⟩ fun _ _ _ _ => rfl
            | throws error =>
                have hstatus : s.controller.answered.isFavourite = none := (h.unloaded hout).right
                rw [MovieDetailController.successSearch_throws hpres hid, hstatus]
                refine iff_of_false (by simp) ?_
                intro hanswers
                cases hanswers dto imdbID rfl hid
      · simp [Permitted, hmodel, heq]

theorem exists_step_iff (h : Inv s) (e : DetailEvent) :
    (exists s', s.step urlFromString locale e = some s') <->
      s.Permitted urlFromString locale e := by
  cases e with
  | response r countReply =>
      rw [← exists_receive_iff h]
      simp [step, Option.map_eq_some_iff]
  | websiteTapped =>
      rw [Permitted, ← UITextView.exists_tapped_iff]
      simp [step, Option.map_eq_some_iff]
  | saveConfirmed =>
      rcases UIImageView.saveConfirmed_of_inv h.image with ⟨v, hv, _⟩
      exact iff_of_true ⟨_, by rw [step, hv]; rfl⟩ trivial
  | toFavourites countReply fetchReply => exact iff_of_true ⟨_, rfl⟩ trivial
  | imageLongPressed => exact iff_of_true ⟨_, rfl⟩ trivial
  | saveCancelled => exact iff_of_true ⟨_, rfl⟩ trivial
  | imageDownloaded succeeded => exact iff_of_true ⟨_, rfl⟩ trivial
  | mainLoop e => exact iff_of_true ⟨_, rfl⟩ trivial
  | storageChanged storage => exact iff_of_true ⟨_, rfl⟩ trivial

end Step

/-- A run of the screen traps exactly when one of its events is not permitted. -/
theorem detail_screen_runs_iff_permitted (storage : StorageService) (imdbID : String)
    (es : List DetailEvent) :
    (exists s, Runs.run (step urlFromString locale) (initial storage imdbID) es = some s) <->
      Runs.Guarded (step urlFromString locale) (Permitted urlFromString locale)
        (initial storage imdbID) es :=
  Runs.run_iff_guarded (fun _ e _ h hstep => inv_step h e hstep)
    (fun _ e h => exists_step_iff h e) (inv_initial storage imdbID) es

theorem detail_screen_traps :
    Runs.run (step (fun value => some ⟨value⟩) .en) (initial StorageService.empty "tt0133093")
      [.response (.success 200 (.object [⟨"imdbID", .string "tt0133093"⟩])) (.throws "locked")]
        = none ∧
    Runs.run (step (fun value => if ' ' ∈ value.toList then none else some ⟨value⟩) .en)
      (initial StorageService.empty "tt0133093")
      [.response (.success 200 (.object
          [⟨"imdbID", .string "tt0133093"⟩, ⟨"Website", .string "not a site"⟩])) .answers,
        .websiteTapped] = none := by
  constructor
  · rfl
  · rfl

end DetailScreen
end Detail
end MyMovies
