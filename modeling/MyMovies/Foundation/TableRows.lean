import Mathlib.Data.List.Basic

/-!
# Rows of a table with a cached count

A table counts the rows of its data source when it reloads.  Until the next
reload it may ask for the cell of any row below that count, or report a tap on
it, while the data source answers from its current list.  The data source is
safe when every such row still exists and a tap opens the element that the
reload associated with the row.
-/

namespace MyMovies
namespace Foundation
namespace TableRows

variable {Element Cell Id : Type}

/--
The data source answers every row of the last reload.  Its two callbacks return
`none` when they read an index out of range; `some none` is an answer that does
not read the list.
-/
def RowsSafe (cell : Element -> Cell) (idOf : Element -> Id)
    (cellForRowAt : Nat -> Option (Option Cell)) (didSelectRowAt : Nat -> Option (Option Id))
    (backing reloaded : List Element) : Prop :=
  forall row e, reloaded[row]? = some e ->
    exists e', backing[row]? = some e' ∧ cellForRowAt row = some (some (cell e')) ∧
      didSelectRowAt row = some (some (idOf e))

variable {cell : Element -> Cell} {idOf : Element -> Id}
  {cellForRowAt : Nat -> Option (Option Cell)} {didSelectRowAt : Nat -> Option (Option Id)}

/-- A data source that reloads whenever its list changes is safe. -/
theorem rowsSafe_self {backing : List Element}
    (hcell : forall row e, backing[row]? = some e -> cellForRowAt row = some (some (cell e)))
    (hselect : forall row e, backing[row]? = some e -> didSelectRowAt row = some (some (idOf e))) :
    RowsSafe cell idOf cellForRowAt didSelectRowAt backing backing :=
  fun row e he => ⟨e, he, hcell row e he, hselect row e he⟩

theorem rowsSafe_nil (backing : List Element) :
    RowsSafe cell idOf cellForRowAt didSelectRowAt backing [] := by
  intro row e he
  simp at he

/-- A list that has not come yet has no rows. -/
theorem rowsSafe_getD {list : Option (List Element)}
    (hcell : forall elements row, list = some elements ->
      cellForRowAt row = elements[row]?.map fun e => some (cell e))
    (hselect : forall elements row, list = some elements ->
      didSelectRowAt row = elements[row]?.map fun e => some (idOf e)) :
    RowsSafe cell idOf cellForRowAt didSelectRowAt (list.getD []) (list.getD []) := by
  cases list with
  | none => exact rowsSafe_nil _
  | some elements =>
      apply rowsSafe_self
      · intro row e he
        have he' : elements[row]? = some e := he
        rw [hcell elements row rfl, he', Option.map_some]
      · intro row e he
        have he' : elements[row]? = some e := he
        rw [hselect elements row rfl, he', Option.map_some]

theorem rowsSafe_of_empty_backing {reloaded : List Element}
    (h : RowsSafe cell idOf cellForRowAt didSelectRowAt [] reloaded) : reloaded = [] := by
  cases reloaded with
  | nil => rfl
  | cons e rest =>
      rcases h 0 e rfl with ⟨e', he', _⟩
      simp at he'

end TableRows
end Foundation
end MyMovies
