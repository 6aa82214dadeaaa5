import Mathlib.Logic.Basic

/-!
# Image and text views

The extensions of `UIImageView` and `UITextView` in `Utilities.swift`, with
`sd_setImage` of the vendored SDWebImage.  `URL(string:)` is an arbitrary
partial function, a parameter of everything that parses a URL.  A handler that
force-unwraps an optional returns `none` when the optional is `nil`.
-/

namespace MyMovies
namespace View

structure URL where
  absoluteString : String
deriving DecidableEq, Repr

inductive UIImage where
  | named (name : String)
  | downloaded (url : URL)
deriving DecidableEq, Repr

def checkImageUrl (imageURL : String) : String :=
  if imageURL != "" then imageURL else "https://via.placeholder.com/150"

/-- The arguments of `MovieCell.setCellValues`. -/
structure CellValues where
  movieImage : String
  movieTitle : String
  movieYear : String
deriving DecidableEq, Repr

/-!
## Image views
-/

structure UIImageView where
  image : Option UIImage
  /-- The download that SDWebImage keeps for the view. -/
  attachedDownload : Option URL
  hasSaveGesture : Bool
  saveAlerts : Nat
  savedPhotos : List UIImage
deriving DecidableEq, Repr

namespace UIImageView

def initial : UIImageView where
  image := none
  attachedDownload := none
  hasSaveGesture := false
  saveAlerts := 0
  savedPhotos := []

/-- Show the placeholder and replace the attached download by a new one. -/
def sd_setImage (v : UIImageView) (url : URL) (placeholderImage : Option UIImage) :
    UIImageView :=
  { v with image := placeholderImage, attachedDownload := some url }

/-- The attached download ends; without an image the view keeps the one it has. -/
def downloadCompleted (v : UIImageView) (succeeded : Bool) : UIImageView :=
  match v.attachedDownload with
  | none => v
  | some url =>
      { v with
        image := if succeeded then some (.downloaded url) else v.image
        attachedDownload := none }

theorem downloadCompleted_attachedDownload (v : UIImageView) (succeeded : Bool) :
    (v.downloadCompleted succeeded).attachedDownload = none := by
  unfold downloadCompleted
  cases hattached : v.attachedDownload with
  | none => exact hattached
  | some url => rfl

def setSaveGesture (v : UIImageView) : UIImageView :=
  { v with hasSaveGesture := true }

/-- A long press reaches `longPressed` only through its gesture recognizer. -/
def longPressed (v : UIImageView) : UIImageView :=
  if v.hasSaveGesture then { v with saveAlerts := v.saveAlerts + 1 } else v

/-- The save action of the dialog, with `self.image!`. -/
def saveConfirmed (v : UIImageView) : Option UIImageView :=
  if v.saveAlerts = 0 then
    some v
  else
    v.image.map fun image =>
      { v with saveAlerts := v.saveAlerts - 1, savedPhotos := image :: v.savedPhotos }

def saveCancelled (v : UIImageView) : UIImageView :=
  { v with saveAlerts := v.saveAlerts - 1 }

/-- Whatever offers to save the image has an image to save. -/
def Inv (v : UIImageView) : Prop :=
  v.hasSaveGesture = true ∨ v.saveAlerts ≠ 0 -> v.image.isSome = true

theorem inv_sd_setImage (v : UIImageView) (url : URL) (image : UIImage) :
    (v.sd_setImage url (some image)).setSaveGesture.Inv := fun _ => rfl

theorem inv_downloadCompleted {v : UIImageView} (h : v.Inv) (succeeded : Bool) :
    (v.downloadCompleted succeeded).Inv := by
  unfold downloadCompleted
  cases v.attachedDownload with
  | none => exact h
  | some url =>
      cases succeeded with
      | false => exact h
      | true => exact fun _ => rfl

theorem inv_longPressed {v : UIImageView} (h : v.Inv) : v.longPressed.Inv := by
  unfold longPressed
  by_cases hgesture : v.hasSaveGesture = true
  · rw [if_pos hgesture]
    exact fun _ => h (Or.inl hgesture)
  · rw [if_neg hgesture]
    exact h

theorem inv_saveCancelled {v : UIImageView} (h : v.Inv) : v.saveCancelled.Inv := by
  intro hopen
  apply h
  rcases hopen with hgesture | halert
  · exact Or.inl hgesture
  · exact Or.inr fun hzero => halert (by simp [saveCancelled, hzero])

theorem saveConfirmed_of_inv {v : UIImageView} (h : v.Inv) :
    exists v', v.saveConfirmed = some v' ∧ v'.Inv := by
  unfold saveConfirmed
  by_cases hzero : v.saveAlerts = 0
  · rw [if_pos hzero]
    exact ⟨v, rfl, h⟩
  · rw [if_neg hzero]
    have himage := h (Or.inr hzero)
    rcases Option.isSome_iff_exists.mp himage with ⟨image, hv⟩
    rw [hv]
    exact ⟨_, rfl, fun _ => rfl⟩

end UIImageView

/-!
## Text views
-/

structure UITextView where
  text : String
  /-- The link attribute; `none` is the empty string put in its place. -/
  link : Option URL
  hasTapGesture : Bool
  presented : List URL
deriving DecidableEq, Repr

namespace UITextView

def initial (text : String) : UITextView where
  text := text
  link := none
  hasTapGesture := false
  presented := []

variable (urlFromString : String -> Option URL)

def setAsLink (v : UITextView) (value : String) : UITextView :=
  { v with text := value, link := urlFromString value }

def setTappable (v : UITextView) (_value : String) : UITextView :=
  { v with hasTapGesture := true }

/-- The handler of the tap gesture, with `URL(string: self.text)!`. -/
def tapped (v : UITextView) : Option UITextView :=
  if !v.hasTapGesture then
    some v
  else if v.text != "" then
    (urlFromString v.text).map fun urlToOpen =>
      { v with presented := urlToOpen :: v.presented }
  else
    some v

def OpensUrl (v : UITextView) : Prop :=
  v.hasTapGesture = true -> v.text ≠ "" -> (urlFromString v.text).isSome = true

theorem exists_tapped_iff (v : UITextView) :
    (exists v', v.tapped urlFromString = some v') <-> v.OpensUrl urlFromString := by
  unfold tapped OpensUrl
  by_cases hgesture : v.hasTapGesture = true
  · by_cases htext : v.text = ""
    · simp [hgesture, htext]
    · cases urlFromString v.text <;> simp [hgesture, htext]
  · simp [hgesture]

end UITextView

end View
end MyMovies
