import MyMovies.Foundation.Runs
import MyMovies.View.Utilities

/-!
# A cell of the movie lists

`MovieCell` is recycled by its table: between two rows `prepareForReuse` clears
its texts and its image.  Downloads end at any time.  `sd_setImage` cancels the
download before it and nothing else cancels one, so the end of a download
matters only if no later one has been started.
-/

namespace MyMovies
namespace View

open Foundation

structure MovieCell where
  movieImageView : UIImageView
  movieTitleLabel : String
  movieYearLabel : String
  /-- Downloads started so far; they are numbered from zero. -/
  downloads : Nat
  /-- Arguments of the last `setCellValues` since the last reuse; no code reads it. -/
  bound : Option CellValues
deriving DecidableEq, Repr

namespace MovieCell

/-- A cell as the storyboard creates it. -/
def initial : MovieCell where
  movieImageView := UIImageView.initial
  movieTitleLabel := "Label"
  movieYearLabel := "Label"
  downloads := 0
  bound := none

def prepareForReuse (c : MovieCell) : MovieCell :=
  { c with
    movieTitleLabel := ""
    movieYearLabel := ""
    movieImageView := { c.movieImageView with image := none }
    bound := none }

/-- The end of a download; one that `sd_setImage` has cancelled does nothing. -/
def downloadCompleted (c : MovieCell) (download : Nat) (succeeded : Bool) : MovieCell :=
  if download + 1 = c.downloads then
    { c with movieImageView := c.movieImageView.downloadCompleted succeeded }
  else
    c

variable (urlFromString : String -> Option URL)

def setCellValues (c : MovieCell) (v : CellValues) : MovieCell :=
  let c := { c with bound := some v }
  match urlFromString (checkImageUrl v.movieImage) with
  | none => c
  | some movieImageURL =>
      { c with
        movieImageView := c.movieImageView.sd_setImage movieImageURL (some (.named "noposter"))
        downloads := c.downloads + 1
        movieTitleLabel := v.movieTitle
        movieYearLabel := v.movieYear }

inductive Event where
  | prepareForReuse
  | setCellValues (v : CellValues)
  | downloadCompleted (download : Nat) (succeeded : Bool)

def step (c : MovieCell) : Event -> Option MovieCell
  | .prepareForReuse => some c.prepareForReuse
  | .setCellValues v => some (c.setCellValues urlFromString v)
  | .downloadCompleted download succeeded => some (c.downloadCompleted download succeeded)

/-!
## What a cell may show
-/

def ShowsNoMovie (image : Option UIImage) : Prop :=
  image = none ∨ image = some (.named "noposter")

def ShowsTexts (c : MovieCell) (v : CellValues) : Prop :=
  c.movieTitleLabel = v.movieTitle ∧ c.movieYearLabel = v.movieYear

/-- The URL of the poster that a call asks for. -/
def posterURL (v : CellValues) : Option URL := urlFromString (checkImageUrl v.movieImage)

/-- Until the next reuse a cell shows the texts and the image of its last call. -/
def ShowsOwnMovie (c : MovieCell) : Prop :=
  forall v, c.bound = some v ->
    c.ShowsTexts v ∧ (ShowsNoMovie c.movieImageView.image ∨
      exists url, posterURL urlFromString v = some url ∧
        c.movieImageView.image = some (.downloaded url))

/--
A poster that is not a URL is set only on a cell that already shows the texts and
no movie, and no download succeeds while the cell is bound to such a poster.
-/
def BindsPoster (c : MovieCell) : Event -> Prop
  | .prepareForReuse => True
  | .setCellValues v => posterURL urlFromString v = none ->
      c.ShowsTexts v ∧ ShowsNoMovie c.movieImageView.image
  | .downloadCompleted download succeeded =>
      forall v, c.bound = some v -> posterURL urlFromString v = none ->
        download + 1 = c.downloads -> succeeded = true ->
          c.movieImageView.attachedDownload = none

/-- The attached download is the one of the last call, if that call has a URL. -/
def Inv (c : MovieCell) : Prop :=
  forall v url, c.bound = some v -> posterURL urlFromString v = some url ->
    c.movieImageView.attachedDownload = none ∨ c.movieImageView.attachedDownload = some url

/-!
## What one call does
-/

variable {urlFromString}
variable {c : MovieCell}

theorem setCellValues_of_url {v : CellValues} {url : URL}
    (hurl : posterURL urlFromString v = some url) :
    c.setCellValues urlFromString v =
      { c with
        bound := some v
        movieImageView := c.movieImageView.sd_setImage url (some (.named "noposter"))
        downloads := c.downloads + 1
        movieTitleLabel := v.movieTitle
        movieYearLabel := v.movieYear } := by
  unfold posterURL at hurl
  simp only [setCellValues, hurl]

theorem setCellValues_of_no_url {v : CellValues} (hurl : posterURL urlFromString v = none) :
    c.setCellValues urlFromString v = { c with bound := some v } := by
  unfold posterURL at hurl
  simp only [setCellValues, hurl]

theorem downloadCompleted_of_stale {download : Nat} (hstale : download + 1 ≠ c.downloads)
    (succeeded : Bool) : c.downloadCompleted download succeeded = c := if_neg hstale

theorem downloadCompleted_of_latest {download : Nat} (hlatest : download + 1 = c.downloads)
    (succeeded : Bool) :
    c.downloadCompleted download succeeded =
      { c with movieImageView := c.movieImageView.downloadCompleted succeeded } := if_pos hlatest

@[simp] theorem downloadCompleted_bound (c : MovieCell) (download : Nat) (succeeded : Bool) :
    (c.downloadCompleted download succeeded).bound = c.bound := by
  unfold downloadCompleted
  split
  · rfl
  · rfl

theorem showsTexts_downloadCompleted_iff (c : MovieCell) (download : Nat) (succeeded : Bool)
    (v : CellValues) : (c.downloadCompleted download succeeded).ShowsTexts v <->
      c.ShowsTexts v := by
  unfold downloadCompleted
  split
  · rfl
  · rfl

theorem downloadCompleted_image_cases (c : MovieCell) (download : Nat) (succeeded : Bool) :
    ((c.downloadCompleted download succeeded).movieImageView.image = c.movieImageView.image ∧
      (download + 1 = c.downloads -> succeeded = true ->
        c.movieImageView.attachedDownload = none)) ∨
    (exists url, download + 1 = c.downloads ∧ succeeded = true ∧
      c.movieImageView.attachedDownload = some url ∧
      (c.downloadCompleted download succeeded).movieImageView.image =
        some (.downloaded url)) := by
  by_cases hlatest : download + 1 = c.downloads
  · rw [downloadCompleted_of_latest hlatest]
    cases hattached : c.movieImageView.attachedDownload with
    | none =>
        refine Or.inl ⟨?_, fun _ _ => rfl⟩
        simp only [UIImageView.downloadCompleted, hattached]
    | some url =>
        cases succeeded with
        | false =>
            refine Or.inl ⟨?_, fun _ hsucceeded => nomatch hsucceeded⟩
            simp [UIImageView.downloadCompleted, hattached]
        | true =>
            refine Or.inr ⟨url, hlatest, rfl, rfl, ?_⟩
            simp [UIImageView.downloadCompleted, hattached]
  · rw [downloadCompleted_of_stale hlatest]
    exact Or.inl ⟨rfl, fun heq => absurd heq hlatest⟩

theorem downloadCompleted_attached (c : MovieCell) (download : Nat) (succeeded : Bool) :
    (c.downloadCompleted download succeeded).movieImageView.attachedDownload = none ∨
    (c.downloadCompleted download succeeded).movieImageView.attachedDownload =
      c.movieImageView.attachedDownload := by
  by_cases hlatest : download + 1 = c.downloads
  · rw [downloadCompleted_of_latest hlatest]
    exact Or.inl (UIImageView.downloadCompleted_attachedDownload c.movieImageView succeeded)
  · rw [downloadCompleted_of_stale hlatest]
    exact Or.inr rfl

/-!
## Which download is attached
-/

theorem inv_of_unbound (hunbound : c.bound = none) : c.Inv urlFromString := by
  intro v url hbound _
  rw [hunbound] at hbound
  cases hbound

theorem inv_initial : initial.Inv urlFromString := inv_of_unbound rfl

theorem inv_setCellValues (c : MovieCell) (v : CellValues) :
    (c.setCellValues urlFromString v).Inv urlFromString := by
  cases hurl : posterURL urlFromString v with
  | none =>
      rw [setCellValues_of_no_url hurl]
      intro w url hbound hposter
      cases hbound
      rw [hurl] at hposter
      cases hposter
  | some url =>
      rw [setCellValues_of_url hurl]
      intro w url' hbound hposter
      cases hbound
      rw [hurl] at hposter
      cases hposter
      exact Or.inr rfl

theorem inv_downloadCompleted (h : c.Inv urlFromString) (download : Nat) (succeeded : Bool) :
    (c.downloadCompleted download succeeded).Inv urlFromString := by
  intro v url hbound hposter
  rw [downloadCompleted_bound] at hbound
  rcases downloadCompleted_attached c download succeeded with hnone | hsame
  · exact Or.inl hnone
  · rw [hsame]
    exact h v url hbound hposter

theorem inv_step {c' : MovieCell} (e : Event) (h : c.Inv urlFromString)
    (hstep : step urlFromString c e = some c') : c'.Inv urlFromString := by
  cases e with
  | prepareForReuse =>
      cases hstep
      exact inv_of_unbound rfl
  | setCellValues v =>
      cases hstep
      exact inv_setCellValues c v
  | downloadCompleted download succeeded =>
      cases hstep
      exact inv_downloadCompleted h download succeeded

/-!
## Which steps keep the property
-/

theorem showsOwnMovie_of_unbound (hunbound : c.bound = none) :
    c.ShowsOwnMovie urlFromString := by
  intro v hbound
  rw [hunbound] at hbound
  cases hbound

theorem showsOwnMovie_initial : initial.ShowsOwnMovie urlFromString :=
  showsOwnMovie_of_unbound rfl

/-- The early return leaves texts, image and download of the row before. -/
theorem showsOwnMovie_setCellValues_iff (c : MovieCell) (v : CellValues) :
    (c.setCellValues urlFromString v).ShowsOwnMovie urlFromString <->
      BindsPoster urlFromString c (.setCellValues v) := by
  cases hurl : posterURL urlFromString v with
  | none =>
      rw [setCellValues_of_no_url hurl]
      constructor
      · intro hown _
        rcases hown v rfl with ⟨htexts, himage | ⟨url, hposter, _⟩⟩
        · exact ⟨htexts, himage⟩
        · rw [hurl] at hposter
          cases hposter
      · intro hbinds w hbound
        cases hbound
        rcases hbinds hurl with ⟨htexts, himage⟩
        exact ⟨htexts, Or.inl himage⟩
  | some url =>
      rw [setCellValues_of_url hurl]
      constructor
      · intro _ hnone
        rw [hurl] at hnone
        cases hnone
      · intro _ w hbound
        cases hbound
        exact ⟨⟨rfl, rfl⟩, Or.inl (Or.inr rfl)⟩

theorem showsOwnMovie_downloadCompleted_iff (h : c.Inv urlFromString)
    (hown : c.ShowsOwnMovie urlFromString) (download : Nat) (succeeded : Bool) :
    (c.downloadCompleted download succeeded).ShowsOwnMovie urlFromString <->
      BindsPoster urlFromString c (.downloadCompleted download succeeded) := by
  unfold ShowsOwnMovie BindsPoster
  simp only [downloadCompleted_bound, showsTexts_downloadCompleted_iff]
  rcases downloadCompleted_image_cases c download succeeded with
    ⟨hsame, hnone⟩ | ⟨url, hlatest, hsucceeded, hattached, himage⟩
  · rw [hsame]
    exact iff_of_true hown fun _ _ _ => hnone
  · rw [himage, hattached]
    constructor
    · intro hown' v hbound hposter _ _
      rcases (hown' v hbound).right with hshows | ⟨url', hposter', _⟩
      · rcases hshows with hempty | hplaceholder
        · cases hempty
        · cases hplaceholder
      · rw [hposter] at hposter'
        cases hposter'
    · intro hbinds v hbound
      refine ⟨(hown v hbound).left, Or.inr ?_⟩
      cases hposter : posterURL urlFromString v with
      | none => cases hbinds v hbound hposter hlatest hsucceeded
      | some url' =>
          rcases h v url' hbound hposter with hdetached | hposted
          · rw [hattached] at hdetached
            cases hdetached
          · rw [hattached] at hposted
            cases hposted
            exact ⟨url, rfl, rfl⟩

theorem showsOwnMovie_step_iff (e : Event) (h : c.Inv urlFromString)
    (hown : c.ShowsOwnMovie urlFromString) :
    (forall c', step urlFromString c e = some c' -> c'.ShowsOwnMovie urlFromString) <->
      BindsPoster urlFromString c e := by
  cases e with
  | prepareForReuse =>
      refine iff_of_true ?_ trivial
      intro c' hstep
      cases hstep
      exact showsOwnMovie_of_unbound rfl
  | setCellValues v =>
      rw [← showsOwnMovie_setCellValues_iff]
      simp [step]
  | downloadCompleted download succeeded =>
      rw [← showsOwnMovie_downloadCompleted_iff h hown]
      simp [step]

/-!
## Runs of a cell
-/

theorem bound_of_step {c' : MovieCell} {e : Event} {v : CellValues}
    (hstep : step urlFromString c e = some c') (hbound : c'.bound = some v) :
    c.bound = some v ∨ e = .setCellValues v := by
  cases e with
  | prepareForReuse =>
      cases hstep
      cases hbound
  | setCellValues w =>
      cases hstep
      cases hurl : posterURL urlFromString w with
      | none =>
          rw [setCellValues_of_no_url hurl] at hbound
          cases hbound
          exact Or.inr rfl
      | some url =>
          rw [setCellValues_of_url hurl] at hbound
          cases hbound
          exact Or.inr rfl
  | downloadCompleted download succeeded =>
      cases hstep
      rw [downloadCompleted_bound] at hbound
      exact Or.inl hbound

/-- The poster of a row is a URL. -/
def Event.HasURL (urlFromString : String -> Option URL) : Event -> Prop
  | .setCellValues v => posterURL urlFromString v ≠ none
  | _ => True

/-- What holds of a cell while all posters have a URL. -/
structure BoundToURLs (urlFromString : String -> Option URL) (c : MovieCell) : Prop where
  attached : c.Inv urlFromString
  shown : c.ShowsOwnMovie urlFromString
  urls : forall v, c.bound = some v -> posterURL urlFromString v ≠ none

theorem BoundToURLs.bindsPoster (h : c.BoundToURLs urlFromString) {e : Event}
    (he : e.HasURL urlFromString) : BindsPoster urlFromString c e := by
  cases e with
  | prepareForReuse => trivial
  | setCellValues v =>
      intro hposter
      exact absurd hposter he
  | downloadCompleted download succeeded =>
      intro v hbound hposter
      exact absurd hposter (h.urls v hbound)

theorem boundToURLs_initial : initial.BoundToURLs urlFromString where
  attached := inv_initial
  shown := showsOwnMovie_initial
  urls := by
    intro v hbound
    cases hbound

theorem boundToURLs_step {c' : MovieCell} {e : Event} (he : e.HasURL urlFromString)
    (h : c.BoundToURLs urlFromString) (hstep : step urlFromString c e = some c') :
    c'.BoundToURLs urlFromString where
  attached := inv_step e h.attached hstep
  shown := (showsOwnMovie_step_iff e h.attached h.shown).mpr (h.bindsPoster he) c' hstep
  urls := by
    intro v hbound
    rcases bound_of_step hstep hbound with hbefore | hset
    · exact h.urls v hbefore
    · rw [hset] at he
      exact he

/-- A cell that is bound only to posters with a URL shows only its own movie. -/
theorem shows_own_movie_of_urls {es : List Event}
    (hes : forall e, e ∈ es -> e.HasURL urlFromString) :
    Runs.Always (step urlFromString) (ShowsOwnMovie urlFromString) initial es := by
  apply Runs.always_iff.mpr
  intro front back t hsplit hrun
  have hfront : forall e, e ∈ front -> e.HasURL urlFromString := by
    intro e he
    apply hes e
    rw [hsplit]
    exact List.mem_append_left back he
  have ht : t.BoundToURLs urlFromString :=
    Runs.run_invariant_of_events (fun _ _ _ he h hstep => boundToURLs_step he h hstep)
      hfront boundToURLs_initial hrun
  exact ht.shown

/--
In every state of a run the cell shows only its own movie exactly when every event
is handled in a state where `BindsPoster` allows it.
-/
theorem cell_shows_own_movie_iff (urlFromString : String -> Option URL) (es : List Event) :
    Runs.Always (step urlFromString) (ShowsOwnMovie urlFromString) initial es <->
      Runs.Guarded (step urlFromString) (BindsPoster urlFromString) initial es :=
  Runs.always_iff_guarded (fun _ e _ h hstep => inv_step e h hstep)
    (fun _ e h hown => showsOwnMovie_step_iff e h hown) inv_initial showsOwnMovie_initial es

def urlWithoutBlank (value : String) : Option URL :=
  if ' ' ∈ value.toList then none else some ⟨value⟩

def recycledRun : List Event :=
  [.setCellValues ⟨"matrix.jpg", "The Matrix", "1999"⟩,
    .prepareForReuse,
    .setCellValues ⟨"not a poster", "Heat", "1995"⟩,
    .downloadCompleted 0 true]

/-- The row shows no texts and the poster of the row before. -/
theorem cell_shows_previous_movie :
    exists c, Runs.run (step urlWithoutBlank) initial recycledRun = some c ∧
      c.bound = some ⟨"not a poster", "Heat", "1995"⟩ ∧
      c.movieTitleLabel = "" ∧ c.movieYearLabel = "" ∧
      c.movieImageView.image = some (.downloaded ⟨"matrix.jpg"⟩) ∧
      ¬ Runs.Always (step urlWithoutBlank) (ShowsOwnMovie urlWithoutBlank) initial
        recycledRun := by
  have hrun : (Runs.run (step urlWithoutBlank) initial recycledRun).map (fun c =>
        (c.bound, c.movieTitleLabel, c.movieYearLabel, c.movieImageView.image)) =
      some (some ⟨"not a poster", "Heat", "1995"⟩, "", "",
        some (.downloaded ⟨"matrix.jpg"⟩)) := by
    decide
  rcases Option.map_eq_some_iff.mp hrun with ⟨c, hc, hobs⟩
  simp only [Prod.mk.injEq] at hobs
  rcases hobs with ⟨hbound, htitle, hyear, himage⟩
  refine ⟨c, hc, hbound, htitle, hyear, himage, ?_⟩
  intro halways
  have hshown := (halways.last hc _ hbound).left.left
  rw [htitle] at hshown
  exact absurd hshown (by decide)

end MovieCell
end View
end MyMovies
