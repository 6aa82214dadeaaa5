import Mathlib.Data.Set.Insert
import MyMovies.View.MovieDetailController

/-!
# The favourites as a set of movies

Any number of detail screens read and write one store.  What the store is for
is a set of `imdbID`s: an add whose queries are answered puts the movie into the
set, a remove whose query is answered takes it out.  The state machine below runs
the operations of the screens in any order and keeps, beside the store, the list of
these operations; no code reads that list.
-/

namespace MyMovies
namespace Favourites

open Foundation Network Storage View

/-!
## The set of favourites
-/

/-- An add (`true`) or a remove (`false`) of a movie. -/
abbrev FavOp := String × Bool

/-- Movies whose most recent operation is an add; the latest operation is first. -/
def favouriteSet (completed : List FavOp) : Set String :=
  { imdbID | completed.lookup imdbID = some true }

theorem mem_favouriteSet {completed : List FavOp} {imdbID : String} :
    imdbID ∈ favouriteSet completed <-> completed.lookup imdbID = some true := Iff.rfl

@[simp] theorem favouriteSet_nil : favouriteSet [] = ∅ := by
  ext i
  simp [mem_favouriteSet]

theorem lookup_cons_ne {i imdbID : String} (hi : i ≠ imdbID) (flag : Bool)
    (completed : List FavOp) :
    ((imdbID, flag) :: completed).lookup i = completed.lookup i := by
  have hbeq : (i == imdbID) = false := by simpa using hi
  rw [List.lookup_cons, hbeq]

theorem favouriteSet_add (imdbID : String) (completed : List FavOp) :
    favouriteSet ((imdbID, true) :: completed) = insert imdbID (favouriteSet completed) := by
  ext i
  rw [Set.mem_insert_iff, mem_favouriteSet, mem_favouriteSet]
  by_cases hi : i = imdbID
  · simp [hi]
  · simp [lookup_cons_ne hi, hi]

theorem favouriteSet_remove (imdbID : String) (completed : List FavOp) :
    favouriteSet ((imdbID, false) :: completed) = favouriteSet completed \ {imdbID} := by
  ext i
  rw [Set.mem_sdiff, mem_favouriteSet, mem_favouriteSet, Set.mem_singleton_iff]
  by_cases hi : i = imdbID
  · simp [hi]
  · simp [lookup_cons_ne hi, hi]

/-- The set read off the store. -/
def storedSet (s : StorageService) : Set String :=
  { imdbID | s.isFavourite imdbID = true }

/-!
## The system of screens
-/

structure FavouritesSystem where
  storage : StorageService
  screens : List MovieDetailController
  completed : List FavOp

inductive FavouritesEvent where
  | openScreen (imdbID : String)
  | successSearch (screen : Nat) (movieDetail : Option MovieDetailDto)
      (countReply : CoreDataReply)
  | addToFavourites (screen : Nat) (countReply fetchReply : CoreDataReply)
  | removeFromFavourites (screen : Nat) (fetchReply : CoreDataReply)
  | getFavourites (fetchReply : CoreDataReply)

/-- The operation of an add for a loaded movie, when the queries that it makes are answered. -/
def completedAdd (s : StorageService) (c : MovieDetailController)
    (countReply fetchReply : CoreDataReply) : Option FavOp :=
  match c.loadedID with
  | none => none
  | some imdbID =>
      if MovieDetailController.AddCompletes s imdbID countReply fetchReply then
        some (imdbID, true)
      else
        none

def completedRemove (c : MovieDetailController) (fetchReply : CoreDataReply) : Option FavOp :=
  match c.loadedID, fetchReply with
  | some imdbID, .answers => some (imdbID, false)
  | _, _ => none

namespace FavouritesSystem

def initial : FavouritesSystem where
  storage := StorageService.empty
  screens := []
  completed := []

/-- Put back a screen, with the store and the operation its handler left. -/
def update (s : FavouritesSystem) (screen : Nat) (result : StorageService × MovieDetailController)
    (op : Option FavOp) : FavouritesSystem where
  storage := result.1
  screens := s.screens.set screen result.2
  completed := op.toList ++ s.completed

/-- Run the handler of one screen; an event for a screen that does not exist does nothing. -/
def onScreen (s : FavouritesSystem) (screen : Nat)
    (handler : MovieDetailController -> Option FavouritesSystem) : Option FavouritesSystem :=
  match s.screens[screen]? with
  | none => some s
  | some c => handler c

def step (urlFromString : String -> Option URL) (s : FavouritesSystem) :
    FavouritesEvent -> Option FavouritesSystem
  | .openScreen imdbID =>
      some { s with screens := s.screens ++ [MovieDetailController.opened imdbID] }
  | .successSearch screen movieDetail countReply =>
      s.onScreen screen fun c =>
        (c.successSearch urlFromString s.storage movieDetail countReply).map fun c' =>
          s.update screen (s.storage, c') none
  | .addToFavourites screen countReply fetchReply =>
      s.onScreen screen fun c =>
        some (s.update screen (c.addToFavourites s.storage countReply fetchReply)
          (completedAdd s.storage c countReply fetchReply))
  | .removeFromFavourites screen fetchReply =>
      s.onScreen screen fun c =>
        some (s.update screen (c.removeFromFavourites s.storage fetchReply)
          (completedRemove c fetchReply))
  | .getFavourites _ => some s

end FavouritesSystem

/-!
## The two writing operations
-/

section Operations

variable {s : StorageService} {c : MovieDetailController}

theorem loadedID_eq_some {imdbID : String} (h : c.loadedID = some imdbID) :
    exists dto, c.movieDetailDto = some dto ∧ dto.imdbID = some imdbID :=
  Option.bind_eq_some_iff.mp h

/-- An add either changes nothing or completes for the movie of the screen. -/
theorem addToFavourites_cases (s : StorageService) (c : MovieDetailController)
    (countReply fetchReply : CoreDataReply) :
    (completedAdd s c countReply fetchReply = none ∧
      c.addToFavourites s countReply fetchReply = (s, c)) ∨
    (exists dto imdbID, c.movieDetailDto = some dto ∧ dto.imdbID = some imdbID ∧
      completedAdd s c countReply fetchReply = some (imdbID, true) ∧
      c.addToFavourites s countReply fetchReply =
        (MovieDetailController.storeAdded s dto imdbID, c.showFavourite .isFavourite)) := by
  cases hload : c.loadedID with
  | none =>
      refine Or.inl ⟨?_, MovieDetailController.addToFavourites_of_no_id hload _ _⟩
      simp only [completedAdd, hload]
  | some imdbID =>
      rcases loadedID_eq_some hload with ⟨dto, hdto, hid⟩
      have heq := MovieDetailController.addToFavourites_eq (s := s) hdto hid countReply fetchReply
      by_cases hdone : MovieDetailController.AddCompletes s imdbID countReply fetchReply
      · have hdo := MovieDetailController.addToFavouritesDo_of_completes c dto hdone
        rw [hdo] at heq
        exact Or.inr ⟨dto, imdbID, hdto, hid, by simp only [completedAdd, hload, if_pos hdone], heq⟩
      · rcases MovieDetailController.addToFavouritesDo_of_not_completes c dto hdone with
          ⟨error, hdo⟩
        rw [hdo] at heq
        exact Or.inl ⟨by simp only [completedAdd, hload, if_neg hdone], heq⟩

theorem removeFromFavourites_cases (s : StorageService) (c : MovieDetailController)
    (fetchReply : CoreDataReply) :
    (completedRemove c fetchReply = none ∧
      (c.removeFromFavourites s fetchReply = (s, c) ∨
        c.removeFromFavourites s fetchReply = (s, c.updateFavouriteUI .notFavourite))) ∨
    (exists imdbID, c.loadedID = some imdbID ∧
      completedRemove c fetchReply = some (imdbID, false) ∧
      c.removeFromFavourites s fetchReply =
        (s.reflag imdbID false, c.showFavourite .notFavourite)) := by
  cases hload : c.loadedID with
  | none =>
      have heq := MovieDetailController.removeFromFavourites_of_no_id (s := s) hload fetchReply
      exact Or.inl ⟨by simp only [completedRemove, hload], Or.inr heq⟩
  | some imdbID =>
      have heq := MovieDetailController.removeFromFavourites_eq (s := s) hload fetchReply
      cases fetchReply with
      | throws error => exact Or.inl ⟨by simp only [completedRemove, hload], Or.inl heq⟩
      | answers =>
          rw [MovieDetailController.removeFromFavouritesDo_answers] at heq
          refine Or.inr ⟨imdbID, rfl, ?_, heq⟩
          simp only [completedRemove, hload]

theorem storedSet_eq_of_records {s s' : StorageService} {imdbID : String}
    (hrec : forall j, j ≠ imdbID -> s'.records j = s.records j) {j : String} (hj : j ≠ imdbID) :
    j ∈ storedSet s' <-> j ∈ storedSet s := by
  show s'.isFavourite j = true <-> s.isFavourite j = true
  rw [StorageService.isFavourite, StorageService.isFavourite, hrec j hj]

theorem storedSet_storeAdded (hs : s.Inv) {dto : MovieDetailDto} {imdbID : String}
    (hid : dto.imdbID = some imdbID) :
    storedSet (MovieDetailController.storeAdded s dto imdbID) = insert imdbID (storedSet s) := by
  ext j
  rw [Set.mem_insert_iff]
  by_cases hj : j = imdbID
  · rw [hj]
    exact iff_of_true (MovieDetailController.isFavourite_storeAdded hs hid) (Or.inl rfl)
  · rw [storedSet_eq_of_records
      (fun k hk => MovieDetailController.records_storeAdded_ne hs hid hk) hj]
    simp [hj]

theorem storedSet_reflag (hs : s.Inv) (imdbID : String) :
    storedSet (s.reflag imdbID false) = storedSet s \ {imdbID} := by
  ext j
  rw [Set.mem_sdiff, Set.mem_singleton_iff]
  by_cases hj : j = imdbID
  · have hflag := MovieDetailController.isFavourite_reflag hs imdbID false
    rw [Bool.false_and] at hflag
    simp [hj, storedSet, hflag]
  · rw [storedSet_eq_of_records (fun k hk => StorageService.records_reflag_ne hs hk) hj]
    simp [hj]

end Operations

/-!
## Runs of the screens
-/

theorem forall_mem_set {α : Type} {P : α -> Prop} {l : List α} {n : Nat} {a : α}
    (ha : P a) (hl : forall b, b ∈ l -> P b) : forall b, b ∈ l.set n a -> P b := by
  intro b hb
  rcases List.mem_or_eq_of_mem_set hb with hb | rfl
  · exact hl b hb
  · exact ha

namespace FavouritesSystem

/-- The store is in order and flags exactly the movies of the abstract set. -/
structure Inv (s : FavouritesSystem) : Prop where
  store : s.storage.Inv
  refines : storedSet s.storage = favouriteSet s.completed
  presenters : forall c, c ∈ s.screens -> c.hasPresenter = true

theorem inv_initial : Inv initial where
  store := StorageService.inv_empty
  refines := by
    ext i
    simp [initial, storedSet, StorageService.isFavourite, StorageService.records,
      StorageService.empty]
  presenters := by simp [initial]

section Step

variable {s : FavouritesSystem} {screen : Nat} {c : MovieDetailController}

theorem onScreen_cases {handler : MovieDetailController -> Option FavouritesSystem}
    {s' : FavouritesSystem} (hstep : s.onScreen screen handler = some s') :
    s' = s ∨ exists c, c ∈ s.screens ∧ handler c = some s' := by
  unfold onScreen at hstep
  cases hc : s.screens[screen]? with
  | none =>
      rw [hc] at hstep
      cases hstep
      exact Or.inl rfl
  | some c =>
      rw [hc] at hstep
      exact Or.inr ⟨c, List.mem_of_getElem? hc, hstep⟩

theorem inv_onScreen (h : Inv s) {handler : MovieDetailController -> Option FavouritesSystem}
    {s' : FavouritesSystem} (hstep : s.onScreen screen handler = some s')
    (hhandler : forall c, c ∈ s.screens -> handler c = some s' -> Inv s') : Inv s' := by
  rcases onScreen_cases hstep with hsame | ⟨c, hc, hdone⟩
  · rw [hsame]
    exact h
  · exact hhandler c hc hdone

theorem successSearch_hasPresenter {urlFromString : String -> Option URL}
    (hc : c.hasPresenter = true) {t : StorageService} {movieDetail : Option MovieDetailDto}
    {countReply : CoreDataReply} {c' : MovieDetailController}
    (h : c.successSearch urlFromString t movieDetail countReply = some c') :
    c'.hasPresenter = true := by
  cases movieDetail with
  | none =>
      cases h
      exact hc
  | some dto =>
      have hshown := (MovieDetailController.showMovie_hasPresenter urlFromString c dto).trans hc
      rcases MovieDetailController.successSearch_cases hc h with ⟨state, rfl | rfl⟩
      · exact hshown
      · exact hshown

theorem inv_addToFavourites (h : Inv s) (hc : c ∈ s.screens)
    (countReply fetchReply : CoreDataReply) :
    Inv (s.update screen (c.addToFavourites s.storage countReply fetchReply)
      (completedAdd s.storage c countReply fetchReply)) := by
  have hpres := h.presenters c hc
  rcases addToFavourites_cases s.storage c countReply fetchReply with
    ⟨hop, heq⟩ | ⟨dto, imdbID, hdto, hid, hop, heq⟩
  · rw [hop, heq]
    exact ⟨h.store, h.refines, forall_mem_set hpres h.presenters⟩
  · rw [hop, heq]
    refine ⟨MovieDetailController.inv_storeAdded h.store hid, ?_, forall_mem_set hpres h.presenters⟩
    calc storedSet (MovieDetailController.storeAdded s.storage dto imdbID)
        = insert imdbID (storedSet s.storage) := storedSet_storeAdded h.store hid
      _ = insert imdbID (favouriteSet s.completed) := by rw [h.refines]
      _ = favouriteSet ((imdbID, true) :: s.completed) := (favouriteSet_add _ _).symm

theorem inv_removeFromFavourites (h : Inv s) (hc : c ∈ s.screens)
    (fetchReply : CoreDataReply) :
    Inv (s.update screen (c.removeFromFavourites s.storage fetchReply)
      (completedRemove c fetchReply)) := by
  have hpres := h.presenters c hc
  rcases removeFromFavourites_cases s.storage c fetchReply with
    ⟨hop, heq | heq⟩ | ⟨imdbID, hid, hop, heq⟩
  · rw [hop, heq]
    exact ⟨h.store, h.refines, forall_mem_set hpres h.presenters⟩
  · rw [hop, heq]
    exact ⟨h.store, h.refines, forall_mem_set hpres h.presenters⟩
  · rw [hop, heq]
    refine ⟨StorageService.inv_reflag h.store imdbID false, ?_, forall_mem_set hpres h.presenters⟩
    calc storedSet (s.storage.reflag imdbID false)
        = storedSet s.storage \ {imdbID} := storedSet_reflag h.store imdbID
      _ = favouriteSet s.completed \ {imdbID} := by rw [h.refines]
      _ = favouriteSet ((imdbID, false) :: s.completed) := (favouriteSet_remove _ _).symm

end Step

theorem inv_step (urlFromString : String -> Option URL) (s : FavouritesSystem)
    (e : FavouritesEvent) (s' : FavouritesSystem) (h : Inv s)
    (hstep : s.step urlFromString e = some s') : Inv s' := by
  cases e with
  | openScreen imdbID =>
      cases hstep
      refine ⟨h.store, h.refines, ?_⟩
      intro c hc
      rcases List.mem_append.mp hc with hc | hc
      · exact h.presenters c hc
      · rw [List.mem_singleton.mp hc]
        rfl
  | successSearch screen movieDetail countReply =>
      apply inv_onScreen h hstep
      intro c hc hmap
      rcases Option.map_eq_some_iff.mp hmap with ⟨c', hsearch, rfl⟩
      exact ⟨h.store, h.refines,
        forall_mem_set (successSearch_hasPresenter (h.presenters c hc) hsearch) h.presenters⟩
  | addToFavourites screen countReply fetchReply =>
      apply inv_onScreen h hstep
      intro c hc hdone
      cases hdone
      exact inv_addToFavourites h hc countReply fetchReply
  | removeFromFavourites screen fetchReply =>
      apply inv_onScreen h hstep
      intro c hc hdone
      cases hdone
      exact inv_removeFromFavourites h hc fetchReply
  | getFavourites fetchReply =>
      cases hstep
      exact h

theorem inv_run {urlFromString : String -> Option URL} {es : List FavouritesEvent}
    {s : FavouritesSystem} (h : Runs.run (step urlFromString) initial es = some s) : Inv s :=
  Runs.run_invariant (inv_step urlFromString) inv_initial h

/-!
## The refinement
-/

section Refinement

variable {s : StorageService} {c : MovieDetailController}

theorem results_favRequest (s : StorageService) :
    s.results FavouritesModel.favRequest = s.viewContext.filter MovieEntity.isFavourite := by
  simp only [StorageService.results, FavouritesModel.favRequest]
  apply List.filter_congr
  intro m _
  cases hm : m.isFavourite <;> simp [NSPredicate.evaluate, hm]

theorem getFavourites_lists_storedSet (hs : s.Inv) :
    exists favourites,
      FavouritesModel.getFavourites s .answers =
        { isSuccessful := true, success := some favourites, fail := none } ∧
      favourites.Nodup ∧
      (forall m, m ∈ favourites -> exists imdbID, m.imdbID = some imdbID ∧
        imdbID ∈ storedSet s) ∧
      forall imdbID, imdbID ∈ storedSet s ->
        exists m, (m ∈ favourites ∧ m.imdbID = some imdbID) ∧
          forall m', m' ∈ favourites -> m'.imdbID = some imdbID -> m' = m := by
  refine ⟨s.results FavouritesModel.favRequest, rfl, ?_, ?_, ?_⟩ <;> rw [results_favRequest]
  · exact (List.Nodup.of_map _ hs.nodup_imdbID).filter _
  · intro m hm
    rcases List.mem_filter.mp hm with ⟨hmem, hflag⟩
    rcases Option.isSome_iff_exists.mp (hs.hasImdbID m hmem) with ⟨imdbID, hid⟩
    exact ⟨imdbID, hid, StorageService.isFavourite_iff.mpr ⟨m, hmem, hid, hflag⟩⟩
  · intro imdbID hstored
    rcases StorageService.isFavourite_iff.mp hstored with ⟨m, hmem, hid, hflag⟩
    refine ⟨m, ⟨List.mem_filter.mpr ⟨hmem, hflag⟩, hid⟩, ?_⟩
    intro m' hm' hid'
    exact hs.eq_of_imdbID (List.mem_filter.mp hm').left hmem (hid'.trans hid.symm)

theorem successSearch_status (urlFromString : String -> Option URL) (hs : s.Inv)
    (hc : c.hasPresenter = true) {dto : MovieDetailDto} {imdbID : String}
    (hid : dto.imdbID = some imdbID) :
    exists c', c.successSearch urlFromString s (some dto) .answers = some c' ∧
      (c'.isFavourite = some .isFavourite <-> imdbID ∈ storedSet s) ∧
      (c'.isFavourite = some .notFavourite <-> imdbID ∉ storedSet s) := by
  refine ⟨_, MovieDetailController.successSearch_answers hc hid, ?_⟩
  rw [MovieDetailController.countedState_eq hs]
  show (some _ = some FavState.isFavourite <-> s.isFavourite imdbID = true) ∧
    (some _ = some FavState.notFavourite <-> ¬ s.isFavourite imdbID = true)
  cases s.isFavourite imdbID <;> simp [MovieDetailController.favState]

theorem addToFavourites_frame (hs : s.Inv) {imdbID j : String}
    (hid : c.loadedID = some imdbID) (hj : j ≠ imdbID) (countReply fetchReply : CoreDataReply) :
    (c.addToFavourites s countReply fetchReply).1.records j = s.records j := by
  rcases addToFavourites_cases s c countReply fetchReply with
    ⟨_, heq⟩ | ⟨dto, i, hdto, hi, _, heq⟩
  · rw [heq]
  · have hsame : i = imdbID := by
      rw [MovieDetailController.loadedID, hdto, Option.bind_some, hi] at hid
      exact Option.some.inj hid
    rw [heq]
    exact MovieDetailController.records_storeAdded_ne hs hi (hsame ▸ hj)

theorem removeFromFavourites_frame (hs : s.Inv) {imdbID j : String}
    (hid : c.loadedID = some imdbID) (hj : j ≠ imdbID) (fetchReply : CoreDataReply) :
    (c.removeFromFavourites s fetchReply).1.records j = s.records j := by
  rcases removeFromFavourites_cases s c fetchReply with
    ⟨_, heq | heq⟩ | ⟨i, hi, _, heq⟩
  · rw [heq]
  · rw [heq]
  · rw [hid] at hi
    rw [heq]
    exact StorageService.records_reflag_ne hs (Option.some.inj hi ▸ hj)

theorem addToFavourites_unchanged {countReply fetchReply : CoreDataReply}
    (h : c.loadedID = none ∨ (exists error, countReply = .throws error) ∨
      exists imdbID error, c.loadedID = some imdbID ∧ s.records imdbID ≠ [] ∧
        fetchReply = .throws error) :
    c.addToFavourites s countReply fetchReply = (s, c) := by
  cases hload : c.loadedID with
  | none => exact MovieDetailController.addToFavourites_of_no_id hload _ _
  | some imdbID =>
      rcases loadedID_eq_some hload with ⟨dto, hdto, hid⟩
      have hnot : ¬ MovieDetailController.AddCompletes s imdbID countReply fetchReply := by
        intro hcompletes
        rcases hcompletes with ⟨hcount, hfetch⟩
        rcases h with hnone | ⟨error, hthrow⟩ | ⟨i, error, hi, hrec, hthrow⟩
        · rw [hload] at hnone
          cases hnone
        · rw [hthrow] at hcount
          cases hcount
        · rw [hload] at hi
          cases hi
          rw [hthrow] at hfetch
          exact absurd (hfetch hrec) (by simp)
      rcases MovieDetailController.addToFavouritesDo_of_not_completes c dto hnot with
        ⟨error, hdo⟩
      rw [MovieDetailController.addToFavourites_eq hdto hid, hdo]

theorem removeFromFavourites_unchanged {fetchReply : CoreDataReply}
    (h : c.loadedID = none ∨ exists error, fetchReply = .throws error) :
    (c.removeFromFavourites s fetchReply).1 = s ∧
      (c.removeFromFavourites s fetchReply).2.isFavourite = c.isFavourite := by
  cases hload : c.loadedID with
  | none =>
      rw [MovieDetailController.removeFromFavourites_of_no_id hload]
      exact ⟨rfl, rfl⟩
  | some imdbID =>
      rcases h with hnone | ⟨error, rfl⟩
      · rw [hload] at hnone
        cases hnone
      · rw [MovieDetailController.removeFromFavourites_eq hload,
          MovieDetailController.removeFromFavouritesDo_throws]
        exact ⟨rfl, rfl⟩

theorem successSearch_unchanged {urlFromString : String -> Option URL}
    (hc : c.hasPresenter = true) {movieDetail : Option MovieDetailDto}
    {countReply : CoreDataReply} {c' : MovieDetailController}
    (h : movieDetail.bind MovieDetailDto.imdbID = none ∨ exists error, countReply = .throws error)
    (hsearch : c.successSearch urlFromString s movieDetail countReply = some c') :
    c'.isFavourite = c.isFavourite := by
  cases movieDetail with
  | none =>
      cases hsearch
      rfl
  | some dto =>
      cases hid : dto.imdbID with
      | none =>
          rw [MovieDetailController.successSearch_of_no_id hc hid] at hsearch
          cases hsearch
          simp [MovieDetailController.updateFavouriteUI]
      | some imdbID =>
          rcases h with hnone | ⟨error, rfl⟩
          · rw [Option.bind_some, hid] at hnone
            cases hnone
          · rw [MovieDetailController.successSearch_throws hc hid] at hsearch
            rcases Option.map_eq_some_iff.mp hsearch with ⟨state, _, rfl⟩
            simp [MovieDetailController.updateFavouriteUI]

end Refinement

/-- What the store promises at every point of a run. -/
structure RefinesPlainSet (urlFromString : String -> Option URL) (s : FavouritesSystem) :
    Prop where
  at_most_one : forall imdbID, (s.storage.records imdbID).length ≤ 1
  getFavourites : exists favourites,
    FavouritesModel.getFavourites s.storage .answers =
      { isSuccessful := true, success := some favourites, fail := none } ∧
    favourites.Nodup ∧
    (forall m, m ∈ favourites -> exists imdbID, m.imdbID = some imdbID ∧
      imdbID ∈ favouriteSet s.completed) ∧
    forall imdbID, imdbID ∈ favouriteSet s.completed ->
      exists m, (m ∈ favourites ∧ m.imdbID = some imdbID) ∧
        forall m', m' ∈ favourites -> m'.imdbID = some imdbID -> m' = m
  status : forall c, c ∈ s.screens -> forall (dto : MovieDetailDto) imdbID,
    dto.imdbID = some imdbID ->
      exists c', c.successSearch urlFromString s.storage (some dto) .answers = some c' ∧
        (c'.isFavourite = some .isFavourite <-> imdbID ∈ favouriteSet s.completed) ∧
        (c'.isFavourite = some .notFavourite <-> imdbID ∉ favouriteSet s.completed)
  frame : forall c, c ∈ s.screens -> forall imdbID j, c.loadedID = some imdbID -> j ≠ imdbID ->
    (forall countReply fetchReply,
      (c.addToFavourites s.storage countReply fetchReply).1.records j = s.storage.records j) ∧
    forall fetchReply,
      (c.removeFromFavourites s.storage fetchReply).1.records j = s.storage.records j
  add_unchanged : forall c, c ∈ s.screens -> forall countReply fetchReply,
    (c.loadedID = none ∨ (exists error, countReply = .throws error) ∨
      exists imdbID error, c.loadedID = some imdbID ∧ s.storage.records imdbID ≠ [] ∧
        fetchReply = .throws error) ->
      (c.addToFavourites s.storage countReply fetchReply).1 = s.storage ∧
        (c.addToFavourites s.storage countReply fetchReply).2.isFavourite = c.isFavourite
  remove_unchanged : forall c, c ∈ s.screens -> forall fetchReply,
    (c.loadedID = none ∨ exists error, fetchReply = .throws error) ->
      (c.removeFromFavourites s.storage fetchReply).1 = s.storage ∧
        (c.removeFromFavourites s.storage fetchReply).2.isFavourite = c.isFavourite
  search_unchanged : forall c, c ∈ s.screens -> forall movieDetail countReply c',
    (movieDetail.bind MovieDetailDto.imdbID = none ∨ exists error, countReply = .throws error) ->
      c.successSearch urlFromString s.storage movieDetail countReply = some c' ->
        c'.isFavourite = c.isFavourite
  saved : s.storage.persistentStore = s.storage.viewContext ∧ s.storage.hasChanges = false

theorem favourites_store_refines_plain_set (urlFromString : String -> Option URL)
    (es : List FavouritesEvent) (s : FavouritesSystem)
    (h : Runs.run (step urlFromString) initial es = some s) :
    RefinesPlainSet urlFromString s := by
  have hinv := inv_run h
  constructor
  case at_most_one => exact hinv.store.length_records_le
  case getFavourites =>
    rw [← hinv.refines]
    exact getFavourites_lists_storedSet hinv.store
  case status =>
    intro c hc dto imdbID hid
    rw [← hinv.refines]
    exact successSearch_status urlFromString hinv.store (hinv.presenters c hc) hid
  case frame =>
    intro c _ imdbID j hid hj
    exact ⟨addToFavourites_frame hinv.store hid hj,
      removeFromFavourites_frame hinv.store hid hj⟩
  case add_unchanged =>
    intro c _ countReply fetchReply hcase
    rw [addToFavourites_unchanged hcase]
    exact ⟨rfl, rfl⟩
  case remove_unchanged =>
    intro c _ fetchReply hcase
    exact removeFromFavourites_unchanged hcase
  case search_unchanged =>
    intro c hc movieDetail countReply c' hcase hsearch
    exact successSearch_unchanged (hinv.presenters c hc) hcase hsearch
  case saved => exact ⟨hinv.store.saved, hinv.store.noChanges⟩

/-- Two screens of one movie: an add, a remove that throws, a remove that does not. -/
def twoScreensRun : List FavouritesEvent :=
  let dto := MovieDetailDto.mapping [⟨"imdbID", .string "tt0133093"⟩]
  [.openScreen "tt0133093", .openScreen "tt0133093",
    .successSearch 0 (some dto) .answers, .successSearch 1 (some dto) .answers,
    .addToFavourites 0 .answers .answers, .removeFromFavourites 1 (.throws "locked"),
    .removeFromFavourites 1 .answers]

theorem favourites_store_refines_plain_set_twoScreensRun :
    exists s, Runs.run (step fun value => some ⟨value⟩) initial twoScreensRun = some s ∧
      RefinesPlainSet (fun value => some ⟨value⟩) s := by
  rcases Option.isSome_iff_exists.mp (by decide :
      (Runs.run (step fun value => some ⟨value⟩) initial twoScreensRun).isSome = true)
    with ⟨s, hs⟩
  exact ⟨s, hs, favourites_store_refines_plain_set _ _ s hs⟩

end FavouritesSystem

end Favourites
end MyMovies
