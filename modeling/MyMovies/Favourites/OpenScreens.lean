import MyMovies.Favourites.FavouritesStore

/-!
# Open detail screens and the store

The search, favourites and recommended tabs each keep a stack of detail screens,
so several screens of one movie can be open at once.  A screen reads its
favourite status from the store when its response arrives and from then on
changes it on its own taps only; the two list screens that follow a shared
store read it again whenever they appear.  Core Data answers every query here.
-/

namespace MyMovies
namespace Favourites

open Foundation Network Storage View

structure OpenScreens where
  storage : StorageService
  screens : List MovieDetailController

inductive ScreenEvent where
  | openScreen (imdbID : String)
  | response (screen : Nat) (r : DataResponse)
  | toFavourites (screen : Nat)

namespace OpenScreens

def initial : OpenScreens where
  storage := StorageService.empty
  screens := []

def onScreen (s : OpenScreens) (screen : Nat)
    (handler : MovieDetailController -> Option (StorageService × MovieDetailController)) :
    Option OpenScreens :=
  match s.screens[screen]? with
  | none => some s
  | some c =>
      (handler c).map fun result =>
        { storage := result.1, screens := s.screens.set screen result.2 }

def step (urlFromString : String -> Option URL) (locale : AppLocale) (s : OpenScreens) :
    ScreenEvent -> Option OpenScreens
  | .openScreen imdbID =>
      some { s with screens := s.screens ++ [MovieDetailController.opened imdbID] }
  | .response screen r =>
      s.onScreen screen fun c =>
        (c.receive urlFromString locale s.storage r .answers).map fun c' => (s.storage, c')
  | .toFavourites screen =>
      s.onScreen screen fun c => some (c.toFavourites s.storage .answers .answers)

/-!
## Agreement
-/

/-- Status and icon of a loaded screen are those of the stored flag. -/
def ScreenAgrees (t : StorageService) (c : MovieDetailController) : Prop :=
  forall imdbID, c.loadedID = some imdbID ->
    c.isFavourite = some (MovieDetailController.favState (t.isFavourite imdbID)) ∧
    c.favButtonImage = some (MovieDetailController.favouriteIcon
      (MovieDetailController.favState (t.isFavourite imdbID)))

def Listed (t : StorageService) (imdbID : String) : Prop :=
  exists favourites, (FavouritesModel.getFavourites t .answers).success = some favourites ∧
    exists m, m ∈ favourites ∧ m.imdbID = some imdbID

def TapFlips (t : StorageService) (c : MovieDetailController) : Prop :=
  forall imdbID, c.loadedID = some imdbID ->
    (Listed (c.toFavourites t .answers .answers).1 imdbID <-> ¬ Listed t imdbID)

def Agrees (s : OpenScreens) : Prop :=
  forall c, c ∈ s.screens -> ScreenAgrees s.storage c ∧ TapFlips s.storage c

/-- A tap on a loaded screen is allowed when no other loaded screen shows its movie. -/
def TapIsAlone (s : OpenScreens) : ScreenEvent -> Prop
  | .toFavourites screen => forall c imdbID, s.screens[screen]? = some c ->
      c.loadedID = some imdbID ->
      forall n d, n ≠ screen -> s.screens[n]? = some d -> d.loadedID ≠ some imdbID
  | _ => True

theorem listed_iff (t : StorageService) (imdbID : String) :
    Listed t imdbID <-> t.isFavourite imdbID = true := by
  have hlist : (FavouritesModel.getFavourites t .answers).success =
      some (t.results FavouritesModel.favRequest) := rfl
  rw [StorageService.isFavourite_iff]
  constructor
  · intro hlisted
    rcases hlisted with ⟨favourites, hsuccess, m, hm, hid⟩
    rw [hlist] at hsuccess
    cases hsuccess
    rw [FavouritesSystem.results_favRequest] at hm
    rcases List.mem_filter.mp hm with ⟨hmem, hflag⟩
    exact ⟨m, hmem, hid, hflag⟩
  · intro hflagged
    rcases hflagged with ⟨m, hmem, hid, hflag⟩
    refine ⟨_, hlist, m, ?_, hid⟩
    rw [FavouritesSystem.results_favRequest]
    exact List.mem_filter.mpr ⟨hmem, hflag⟩

section Tap

variable {t : StorageService} {c : MovieDetailController} {imdbID : String}

theorem toFavourites_of_agrees (ht : t.Inv) (hload : c.loadedID = some imdbID)
    (hagree : ScreenAgrees t c) :
    exists t', c.toFavourites t .answers .answers =
        (t', c.showFavourite (MovieDetailController.favState (!t.isFavourite imdbID))) ∧
      t'.Inv ∧ t'.isFavourite imdbID = (!t.isFavourite imdbID) ∧
      forall j, j ≠ imdbID -> t'.isFavourite j = t.isFavourite j := by
  have hstatus := (hagree imdbID hload).left
  unfold MovieDetailController.toFavourites
  cases hflag : t.isFavourite imdbID with
  | true =>
      have hfav : c.isFavourite = some .isFavourite := by rw [hstatus, hflag]; rfl
      rw [if_pos hfav]
      refine ⟨t.reflag imdbID false, ?_, StorageService.inv_reflag ht imdbID false, ?_, ?_⟩
      · rw [MovieDetailController.removeFromFavourites_eq hload,
          MovieDetailController.removeFromFavouritesDo_answers]
        rfl
      · rw [MovieDetailController.isFavourite_reflag ht]
        rfl
      · intro j hj
        rw [StorageService.isFavourite, StorageService.records_reflag_ne ht hj,
          StorageService.isFavourite]
  | false =>
      have hnot : c.isFavourite ≠ some .isFavourite := by
        rw [hstatus, hflag]
        decide
      rw [if_neg hnot]
      rcases loadedID_eq_some hload with ⟨dto, hdto, hid⟩
      refine ⟨MovieDetailController.storeAdded t dto imdbID, ?_,
        MovieDetailController.inv_storeAdded ht hid,
        MovieDetailController.isFavourite_storeAdded ht hid, ?_⟩
      · rw [MovieDetailController.addToFavourites_eq hdto hid,
          MovieDetailController.addToFavouritesDo_of_completes c _ ⟨rfl, fun _ => rfl⟩]
        rfl
      · intro j hj
        rw [StorageService.isFavourite, MovieDetailController.records_storeAdded_ne ht hid hj,
          StorageService.isFavourite]

theorem toFavourites_of_no_id (hload : c.loadedID = none) :
    exists c', c.toFavourites t .answers .answers = (t, c') ∧ c'.loadedID = none ∧
      c'.hasPresenter = c.hasPresenter := by
  unfold MovieDetailController.toFavourites
  by_cases hfav : c.isFavourite = some .isFavourite
  · rw [if_pos hfav, MovieDetailController.removeFromFavourites_of_no_id hload]
    exact ⟨_, rfl, hload, rfl⟩
  · rw [if_neg hfav, MovieDetailController.addToFavourites_of_no_id hload]
    exact ⟨c, rfl, hload, rfl⟩

theorem tapFlips_of_agrees (ht : t.Inv) (hagree : ScreenAgrees t c) : TapFlips t c := by
  intro imdbID hload
  rcases toFavourites_of_agrees ht hload hagree with ⟨t', htap, _, hflag, _⟩
  rw [htap, listed_iff, listed_iff, hflag]
  cases t.isFavourite imdbID <;> simp

theorem screenAgrees_of_no_id (hload : c.loadedID = none) : ScreenAgrees t c := by
  intro imdbID hid
  rw [hload] at hid
  cases hid

theorem screenAgrees_showFavourite (hload : c.loadedID = some imdbID) {state : FavState}
    (hstate : state = MovieDetailController.favState (t.isFavourite imdbID)) :
    ScreenAgrees t (c.showFavourite state) := by
  intro j hj
  have hsame : j = imdbID := by
    have hj' : c.loadedID = some j := hj
    rw [hload] at hj'
    exact (Option.some.inj hj').symm
  rw [hsame, ← hstate]
  exact ⟨rfl, rfl⟩

theorem screenAgrees_of_same_flag {t' : StorageService} (hagree : ScreenAgrees t c)
    (hsame : forall j, c.loadedID = some j -> t'.isFavourite j = t.isFavourite j) :
    ScreenAgrees t' c := by
  intro j hj
  rw [hsame j hj]
  exact hagree j hj

theorem toFavourites_screen (ht : t.Inv) (hagree : ScreenAgrees t c) :
    exists t' c', c.toFavourites t .answers .answers = (t', c') ∧ t'.Inv ∧
      ScreenAgrees t' c' ∧ c'.hasPresenter = c.hasPresenter ∧
      ((c.loadedID = none ∧ t' = t) ∨
        exists imdbID, c.loadedID = some imdbID ∧
          t'.isFavourite imdbID = (!t.isFavourite imdbID) ∧
          forall j, j ≠ imdbID -> t'.isFavourite j = t.isFavourite j) := by
  cases hload : c.loadedID with
  | none =>
      rcases toFavourites_of_no_id (t := t) hload with ⟨c', htap, hload', hpres⟩
      exact ⟨t, c', htap, ht, screenAgrees_of_no_id hload', hpres, Or.inl ⟨rfl, rfl⟩⟩
  | some imdbID =>
      rcases toFavourites_of_agrees ht hload hagree with ⟨t', htap, ht', hflag, hother⟩
      refine ⟨t', _, htap, ht', ?_, rfl, Or.inr ⟨imdbID, rfl, hflag, hother⟩⟩
      exact screenAgrees_showFavourite hload (by rw [hflag])

theorem receive_agrees (urlFromString : String -> Option URL) (locale : AppLocale) (ht : t.Inv)
    (hc : c.hasPresenter = true) (hagree : ScreenAgrees t c) (r : DataResponse) :
    exists c', c.receive urlFromString locale t r .answers = some c' ∧
      c'.hasPresenter = true ∧ ScreenAgrees t c' := by
  cases hout : c.outstanding with
  | false =>
      refine ⟨c, ?_, hc, hagree⟩
      simp [MovieDetailController.receive, hout]
  | true =>
      rcases MovieDetailController.receive_cases urlFromString locale t hout r .answers with
        ⟨dto, _, heq⟩ | ⟨error, _, heq⟩
      · have hanswered : c.answered.hasPresenter = true := hc
        rw [heq]
        cases hid : dto.imdbID with
        | none =>
            refine ⟨_, MovieDetailController.successSearch_of_no_id hanswered hid _, ?_, ?_⟩
            · simpa [MovieDetailController.updateFavouriteUI] using hanswered
            · apply screenAgrees_of_no_id
              simpa [MovieDetailController.loadedID, MovieDetailController.updateFavouriteUI]
                using hid
        | some imdbID =>
            refine ⟨_, MovieDetailController.successSearch_answers hanswered hid, ?_, ?_⟩
            · simpa [MovieDetailController.showFavourite] using hanswered
            · refine screenAgrees_showFavourite ?_
                (MovieDetailController.countedState_eq ht imdbID)
              simpa [MovieDetailController.loadedID] using hid
      · exact ⟨_, heq, hc, hagree⟩

end Tap

/-!
## Steps and runs
-/

structure Inv (s : OpenScreens) : Prop where
  store : s.storage.Inv
  presenters : forall c, c ∈ s.screens -> c.hasPresenter = true

theorem inv_initial : Inv initial where
  store := StorageService.inv_empty
  presenters := by simp [initial]

theorem getElem?_cases (s : OpenScreens) (screen : Nat) :
    s.screens[screen]? = none ∨ exists c, s.screens[screen]? = some c ∧ c ∈ s.screens := by
  cases hc : s.screens[screen]? with
  | none => exact Or.inl rfl
  | some c => exact Or.inr ⟨c, rfl, List.mem_of_getElem? hc⟩

theorem onScreen_none {s : OpenScreens} {screen : Nat} (hc : s.screens[screen]? = none)
    (handler : MovieDetailController -> Option (StorageService × MovieDetailController)) :
    s.onScreen screen handler = some s := by
  simp only [onScreen, hc]

theorem onScreen_some {s : OpenScreens} {screen : Nat} {c : MovieDetailController}
    (hc : s.screens[screen]? = some c)
    (handler : MovieDetailController -> Option (StorageService × MovieDetailController)) :
    s.onScreen screen handler = (handler c).map fun result =>
      { storage := result.1, screens := s.screens.set screen result.2 } := by
  simp only [onScreen, hc]

/-- It is enough that the screens agree; the taps follow. -/
theorem agrees_iff {s : OpenScreens} (h : Inv s) :
    s.Agrees <-> forall c, c ∈ s.screens -> ScreenAgrees s.storage c := by
  constructor
  · intro hagree c hc
    exact (hagree c hc).left
  · intro hagree c hc
    exact ⟨hagree c hc, tapFlips_of_agrees h.store (hagree c hc)⟩

section Step

variable {urlFromString : String -> Option URL} {locale : AppLocale} {s : OpenScreens}

theorem agrees_openScreen (urlFromString : String -> Option URL) (locale : AppLocale)
    (h : Inv s) (hagree : s.Agrees) (imdbID : String) :
    exists s', s.step urlFromString locale (.openScreen imdbID) = some s' ∧
      Inv s' ∧ s'.Agrees := by
  have hall := (agrees_iff h).mp hagree
  have hinv : Inv { s with screens := s.screens ++ [MovieDetailController.opened imdbID] } := by
    refine ⟨h.store, ?_⟩
    intro c hc
    rcases List.mem_append.mp hc with hc | hc
    · exact h.presenters c hc
    · rw [List.mem_singleton.mp hc]
      rfl
  refine ⟨_, rfl, hinv, (agrees_iff hinv).mpr ?_⟩
  intro c hc
  rcases List.mem_append.mp hc with hc | hc
  · exact hall c hc
  · rw [List.mem_singleton.mp hc]
    exact screenAgrees_of_no_id rfl

theorem agrees_response (urlFromString : String -> Option URL) (locale : AppLocale)
    (h : Inv s) (hagree : s.Agrees) (screen : Nat) (r : DataResponse) :
    exists s', s.step urlFromString locale (.response screen r) = some s' ∧
      Inv s' ∧ s'.Agrees := by
  have hall := (agrees_iff h).mp hagree
  rcases getElem?_cases s screen with hnone | ⟨c, hc, hmem⟩
  · exact ⟨s, onScreen_none hnone _, h, hagree⟩
  · rcases receive_agrees urlFromString locale h.store (h.presenters c hmem) (hall c hmem) r with
      ⟨c', hreceive, hpres, hagrees⟩
    have hinv : Inv { s with screens := s.screens.set screen c' } :=
      ⟨h.store, forall_mem_set hpres h.presenters⟩
    refine ⟨_, ?_, hinv, (agrees_iff hinv).mpr (forall_mem_set hagrees hall)⟩
    simp only [step, onScreen_some hc, hreceive, Option.map_some]

/--
After a tap has turned over the flag of a movie, the screens agree exactly when
the tapped screen was the only loaded one of that movie.
-/
theorem screensAgree_after_tap_iff {t' : StorageService} {screen : Nat}
    {c c' : MovieDetailController} {imdbID : String}
    (hall : forall d, d ∈ s.screens -> ScreenAgrees s.storage d)
    (hc : s.screens[screen]? = some c) (hc' : ScreenAgrees t' c')
    (hflag : t'.isFavourite imdbID = !s.storage.isFavourite imdbID)
    (hother : forall j, j ≠ imdbID -> t'.isFavourite j = s.storage.isFavourite j) :
    (forall d, d ∈ s.screens.set screen c' -> ScreenAgrees t' d) <->
      forall n d, n ≠ screen -> s.screens[n]? = some d -> d.loadedID ≠ some imdbID := by
  constructor
  · -- another loaded screen would still show the old flag
    intro hagree n d hn hd hid
    have hd' : d ∈ s.screens.set screen c' := by
      apply List.mem_of_getElem? (i := n)
      rw [List.getElem?_set_ne (Ne.symm hn)]
      exact hd
    have hold := (hall d (List.mem_of_getElem? hd) imdbID hid).left
    have hnew := (hagree d hd' imdbID hid).left
    rw [hold, hflag] at hnew
    cases hf : s.storage.isFavourite imdbID <;>
      simp [hf, MovieDetailController.favState] at hnew
  · intro halone d hd
    rcases List.mem_iff_getElem?.mp hd with ⟨n, hn⟩
    by_cases hsame : n = screen
    · rw [hsame, List.getElem?_set_self (List.getElem?_eq_some_iff.mp hc).choose] at hn
      cases hn
      exact hc'
    · rw [List.getElem?_set_ne (Ne.symm hsame)] at hn
      apply screenAgrees_of_same_flag (hall d (List.mem_of_getElem? hn))
      intro j hj
      apply hother
      intro heq
      exact halone n d hsame hn (heq ▸ hj)

theorem agrees_toFavourites_iff (h : Inv s) (hagree : s.Agrees) (screen : Nat) :
    (exists s', s.step urlFromString locale (.toFavourites screen) = some s' ∧ s'.Agrees) <->
      s.TapIsAlone (.toFavourites screen) := by
  have hall := (agrees_iff h).mp hagree
  rcases getElem?_cases s screen with hnone | ⟨c, hc, hmem⟩
  · constructor
    · intro _ c imdbID hc
      rw [hnone] at hc
      cases hc
    · intro _
      exact ⟨s, onScreen_none hnone _, hagree⟩
  · rcases toFavourites_screen h.store (hall c hmem) with ⟨t', c', htap, ht', hc', hpres, hflip⟩
    have hstep : s.step urlFromString locale (.toFavourites screen) =
        some { storage := t', screens := s.screens.set screen c' } := by
      simp only [step, onScreen_some hc, htap, Option.map_some]
    have hinv : Inv { storage := t', screens := s.screens.set screen c' } :=
      ⟨ht', forall_mem_set (hpres.trans (h.presenters c hmem)) h.presenters⟩
    have hafter : (exists s', s.step urlFromString locale (.toFavourites screen) = some s' ∧
        s'.Agrees) <-> forall d, d ∈ s.screens.set screen c' -> ScreenAgrees t' d := by
      rw [hstep, ← agrees_iff hinv]
      simp
    rw [hafter]
    rcases hflip with ⟨hload, rfl⟩ | ⟨imdbID, hload, hflag, hother⟩
    · constructor
      · intro _ d imdbID hd hid
        rw [hc] at hd
        cases hd
        rw [hload] at hid
        cases hid
      · intro _
        exact forall_mem_set hc' hall
    · rw [screensAgree_after_tap_iff hall hc hc' hflag hother]
      constructor
      · intro halone d i hd hi
        rw [hc] at hd
        cases hd
        rw [hload] at hi
        cases hi
        exact halone
      · intro halone
        exact halone c imdbID hc hload

theorem inv_step (h : Inv s) (hagree : s.Agrees) (e : ScreenEvent) {s' : OpenScreens}
    (hstep : s.step urlFromString locale e = some s') : Inv s' := by
  cases e with
  | openScreen imdbID =>
      rcases agrees_openScreen urlFromString locale h hagree imdbID with ⟨t, ht, hinv, _⟩
      rw [hstep] at ht
      cases ht
      exact hinv
  | response screen r =>
      rcases agrees_response urlFromString locale h hagree screen r with ⟨t, ht, hinv, _⟩
      rw [hstep] at ht
      cases ht
      exact hinv
  | toFavourites screen =>
      rcases getElem?_cases s screen with hnone | ⟨c, hc, hmem⟩
      · simp only [step, onScreen_none hnone] at hstep
        cases hstep
        exact h
      · rcases toFavourites_screen h.store ((agrees_iff h).mp hagree c hmem) with
          ⟨t', c', htap, ht', _, hpres, _⟩
        simp only [step, onScreen_some hc, htap, Option.map_some] at hstep
        cases hstep
        exact ⟨ht', forall_mem_set (hpres.trans (h.presenters c hmem)) h.presenters⟩

theorem agrees_step_iff (h : Inv s) (hagree : s.Agrees) (e : ScreenEvent) :
    (exists s', s.step urlFromString locale e = some s' ∧ s'.Agrees) <-> s.TapIsAlone e := by
  cases e with
  | openScreen imdbID =>
      rcases agrees_openScreen urlFromString locale h hagree imdbID with ⟨t, ht, _, hagree'⟩
      exact iff_of_true ⟨t, ht, hagree'⟩ trivial
  | response screen r =>
      rcases agrees_response urlFromString locale h hagree screen r with ⟨t, ht, _, hagree'⟩
      exact iff_of_true ⟨t, ht, hagree'⟩ trivial
  | toFavourites screen => exact agrees_toFavourites_iff h hagree screen

end Step

/--
Along a run all loaded screens agree with the store, and every tap on one flips
its movie, exactly when no loaded screen is tapped while another loaded screen
shows the same movie.
-/
theorem screens_agree_iff_taps_alone (urlFromString : String -> Option URL) (locale : AppLocale)
    (es : List ScreenEvent) :
    Runs.Along (step urlFromString locale) Agrees initial es <->
      Runs.Guarded (step urlFromString locale) TapIsAlone initial es :=
  Runs.along_iff_guarded (fun _ e _ h hagree hstep => inv_step h hagree e hstep)
    (fun _ e h hagree => agrees_step_iff h hagree e) inv_initial (fun _ hc => nomatch hc) es

/-- One movie opened from two tabs, loaded in both, and favourited in the first. -/
def staleRun : List ScreenEvent :=
  let r : DataResponse := .success 200 (.object [⟨"imdbID", .string "tt0133093"⟩])
  [.openScreen "tt0133093", .openScreen "tt0133093", .response 0 r, .response 1 r,
    .toFavourites 0]

/-- The second screen still offers to add the movie, and a tap on it keeps it listed. -/
theorem screens_disagree_after_staleRun :
    exists s c, Runs.run (step (fun value => some ⟨value⟩) .en) initial staleRun = some s ∧
      s.screens[1]? = some c ∧ c.loadedID = some "tt0133093" ∧
      s.storage.isFavourite "tt0133093" = true ∧
      c.isFavourite = some .notFavourite ∧ c.favButtonImage = some "add-favorite" ∧
      (c.toFavourites s.storage .answers .answers).1.isFavourite "tt0133093" = true ∧
      ¬ s.Agrees := by
  have hrun : ((Runs.run (step (fun value => some ⟨value⟩) .en) initial staleRun).bind fun s =>
      s.screens[1]?.map fun c =>
        (c.loadedID, s.storage.isFavourite "tt0133093", c.isFavourite, c.favButtonImage,
          (c.toFavourites s.storage .answers .answers).1.isFavourite "tt0133093")) =
      some (some "tt0133093", true, some .notFavourite, some "add-favorite", true) := by
    decide
  rcases Option.bind_eq_some_iff.mp hrun with ⟨s, hs, hmap⟩
  rcases Option.map_eq_some_iff.mp hmap with ⟨c, hc, hobs⟩
  simp only [Prod.mk.injEq] at hobs
  rcases hobs with ⟨hid, hflag, hstatus, hicon, htap⟩
  refine ⟨s, c, hs, hc, hid, hflag, hstatus, hicon, htap, ?_⟩
  intro hagree
  have hscreen := ((hagree c (List.mem_of_getElem? hc)).left _ hid).left
  rw [hstatus, hflag] at hscreen
  exact absurd hscreen (by decide)

end OpenScreens
end Favourites
end MyMovies
