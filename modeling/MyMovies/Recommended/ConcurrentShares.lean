import MyMovies.Foundation.Runs
import MyMovies.Recommended.Sharing

/-!
# Shares from several devices

Each share is three separate `setValue` writes.  A device sends its writes in
the order in which it issued them, and the writes of different devices reach the
shared tree in any order.  Observers see every tree in between, so a list can
show a movie while a share is under way; what it shows for each field is then
the value of the last write to that field.
-/

namespace MyMovies
namespace Recommended

open Foundation Firebase Network View

structure SetValue where
  /-- Position of the share among all shares. -/
  share : Nat
  imdbID : String
  field : String
  value : Option String
  write : Write

structure SharedDatabase where
  db : Database
  /-- Writes that a device has issued and that have not been applied. -/
  pending : Nat -> List SetValue
  shares : List MovieDetailController
  /-- Writes applied, the latest first. -/
  applied : List SetValue

inductive SharedEvent where
  | shareTapped (device : Nat) (screen : MovieDetailController)
  | apply (device : Nat)

namespace SharedDatabase

def initial (db : Database) : SharedDatabase where
  db := db
  pending := fun _ => []
  shares := []
  applied := []

def issued (share : Nat) (c : MovieDetailController) (writes : List Write) : List SetValue :=
  List.zipWith
    (fun p w => { share := share, imdbID := c.imdbID, field := p.1, value := p.2, write := w })
    (published c) writes

/-- A share that raises an exception and an empty queue do nothing. -/
def step (s : SharedDatabase) : SharedEvent -> Option SharedDatabase
  | .shareTapped device c =>
      match c.shareTapped with
      | none => some s
      | some writes =>
          some { s with
            pending := Function.update s.pending device
              (s.pending device ++ issued s.shares.length c writes)
            shares := s.shares ++ [c] }
  | .apply device =>
      match s.pending device with
      | [] => some s
      | w :: rest =>
          some { s with
            db := s.db.set w.write
            pending := Function.update s.pending device rest
            applied := w :: s.applied }

def list (s : SharedDatabase) : List RecommendedMovie := getRecommendedMovies s.db.root

def storedField (db : Database) (imdbID field : String) : Option String :=
  asString (((pelis db).child imdbID).child field)

def lastWrite (applied : List SetValue) (imdbID field : String) : Option SetValue :=
  applied.find? fun w => w.imdbID == imdbID && w.field == field

/-- The value of the last write to a field, or what the database held at the start. -/
def fieldValue (start : Database) (s : SharedDatabase) (imdbID field : String) : Option String :=
  match lastWrite s.applied imdbID field with
  | some w => w.value
  | none => storedField start imdbID field

/-- The entry that a share is meant to publish. -/
def sharedMovie (c : MovieDetailController) : RecommendedMovie where
  title := c.movieDetailDto.bind MovieDetailDto.title
  year := c.movieDetailDto.bind MovieDetailDto.year
  imdb := some c.imdbID
  poster := c.movieDetailDto.bind MovieDetailDto.poster

/-- Every entry of the list is the entry of one share, or of the list at the start. -/
def Atomic (start : Database) (s : SharedDatabase) : Prop :=
  forall m, m ∈ s.list ->
    m ∈ s.shares.map sharedMovie ∨ m ∈ getRecommendedMovies start.root

instance (start : Database) (s : SharedDatabase) : Decidable (Atomic start s) :=
  inferInstanceAs (Decidable (forall m, m ∈ s.list -> _))

/-- Shares of screens that a list opened with a legal key. -/
def LegalEvent : SharedEvent -> Prop
  | .shareTapped _ c => isValidKey c.imdbID = true
  | .apply _ => True

theorem value_of_mem_published {c : MovieDetailController} {field : String}
    {value value' : Option String} (h : (field, value) ∈ published c)
    (h' : (field, value') ∈ published c) : value = value' := by
  have hnodup : ((published c).map Prod.fst).Nodup := by
    rw [fields_published]
    decide
  exact congrArg Prod.snd (List.inj_on_of_nodup_map hnodup h h' rfl)

/-!
## The last write to a field
-/

structure Issued (shares : List MovieDetailController) (w : SetValue) : Prop where
  effect : w.write.effect = (["pelis", w.imdbID, w.field], nodeFrom w.value)
  key : isValidKey w.imdbID = true
  origin : exists c, shares[w.share]? = some c ∧ c.imdbID = w.imdbID ∧
    (w.field, w.value) ∈ published c

structure Inv (start : Database) (s : SharedDatabase) : Prop where
  pending : forall device w, w ∈ s.pending device -> Issued s.shares w
  applied : forall w, w ∈ s.applied -> Issued s.shares w
  field : forall imdbID field, storedField s.db imdbID field = fieldValue start s imdbID field

theorem inv_initial (start : Database) : Inv start (initial start) where
  pending := fun _ _ hw => nomatch hw
  applied := fun _ hw => nomatch hw
  field := fun _ _ => rfl

theorem Issued.append {shares : List MovieDetailController} {w : SetValue}
    (h : Issued shares w) (c : MovieDetailController) : Issued (shares ++ [c]) w := by
  refine ⟨h.effect, h.key, ?_⟩
  rcases h.origin with ⟨c', hc', hid, hmem⟩
  have hlt := (List.getElem?_eq_some_iff.mp hc').choose
  exact ⟨c', by rw [List.getElem?_append_left hlt]; exact hc', hid, hmem⟩

theorem issued_of_mem {shares : List MovieDetailController} {c : MovieDetailController}
    {writes : List Write} (hvalid : isValidKey c.imdbID = true)
    (h : c.shareTapped = some writes) {w : SetValue}
    (hw : w ∈ issued shares.length c writes) : Issued (shares ++ [c]) w := by
  have hne : c.imdbID ≠ "" := (isValidKey_iff.mp hvalid).left
  have heffects := effect_shareTapped (slash_not_mem_of_isValidKey hvalid) h
  have hlast : (shares ++ [c])[shares.length]? = some c := by simp
  have hlength : writes.length = 3 := by
    simpa [shareWrites, hne, KeyedTree.under, KeyedTree.direct, fieldNodes, published]
      using congrArg List.length heffects
  rcases List.length_eq_three.mp hlength with ⟨t, y, p, rfl⟩
  simp only [shareWrites, if_neg hne, KeyedTree.under, KeyedTree.direct, fieldNodes,
    published, List.map_cons, List.map_nil, List.cons.injEq, and_true] at heffects
  simp only [issued, published, List.zipWith_cons_cons, List.zipWith_nil_left, List.mem_cons,
    List.not_mem_nil, or_false] at hw
  rcases hw with rfl | rfl | rfl
  · exact ⟨heffects.left, hvalid, c, hlast, rfl, by simp [published]⟩
  · exact ⟨heffects.right.left, hvalid, c, hlast, rfl, by simp [published]⟩
  · exact ⟨heffects.right.right, hvalid, c, hlast, rfl, by simp [published]⟩

theorem storedField_set {shares : List MovieDetailController} {db : Database} {w : SetValue}
    (hw : Issued shares w) (imdbID field : String) :
    storedField (db.set w.write) imdbID field =
      if w.imdbID = imdbID ∧ w.field = field then w.value else storedField db imdbID field := by
  have hroot : (db.set w.write).root =
      db.root.update ["pelis", w.imdbID, w.field] (nodeFrom w.value) := by
    rw [Database.root_set, hw.effect]
  have hpelis : pelis (db.set w.write) =
      (pelis db).update [w.imdbID, w.field] (nodeFrom w.value) := by
    rw [pelis, hroot, KeyedTree.child_update_self db.wellFormed]
    rfl
  have hwf := pelis_wellFormed db
  unfold storedField
  rw [hpelis]
  by_cases hid : w.imdbID = imdbID
  · rw [hid, KeyedTree.child_update_self hwf]
    by_cases hfield : w.field = field
    · rw [if_pos ⟨rfl, hfield⟩, hfield, KeyedTree.child_update_self (hwf.child _),
        KeyedTree.update_nil, asString_nodeFrom]
    · rw [if_neg fun h => hfield h.right, KeyedTree.child_update_ne (Ne.symm hfield)]
  · rw [if_neg fun h => hid h.left, KeyedTree.child_update_ne (Ne.symm hid)]

theorem lastWrite_cons (w : SetValue) (applied : List SetValue) (imdbID field : String) :
    lastWrite (w :: applied) imdbID field =
      if w.imdbID = imdbID ∧ w.field = field then some w else lastWrite applied imdbID field := by
  unfold lastWrite
  rw [List.find?_cons]
  by_cases h : w.imdbID = imdbID ∧ w.field = field
  · rw [if_pos h, h.left, h.right]
    simp
  · rw [if_neg h]
    have hfalse : (w.imdbID == imdbID && w.field == field) = false := by
      simpa using h
    rw [hfalse]

theorem inv_step {start : Database} {s s' : SharedDatabase} {e : SharedEvent}
    (hlegal : LegalEvent e) (h : Inv start s) (hstep : s.step e = some s') : Inv start s' := by
  cases e with
  | shareTapped device c =>
      simp only [step] at hstep
      cases hshare : c.shareTapped with
      | none =>
          rw [hshare] at hstep
          cases hstep
          exact h
      | some writes =>
          rw [hshare] at hstep
          cases hstep
          refine ⟨?_, fun w hw => (h.applied w hw).append c, h.field⟩
          intro d w hw
          by_cases hd : d = device
          · rw [hd] at hw
            simp only [Function.update_self] at hw
            rcases List.mem_append.mp hw with hw | hw
            · exact (h.pending device w hw).append c
            · exact issued_of_mem hlegal hshare hw
          · simp only [Function.update_of_ne hd] at hw
            exact (h.pending d w hw).append c
  | apply device =>
      simp only [step] at hstep
      cases hpending : s.pending device with
      | nil =>
          rw [hpending] at hstep
          cases hstep
          exact h
      | cons w rest =>
          rw [hpending] at hstep
          cases hstep
          have hw : Issued s.shares w := h.pending device w (by simp [hpending])
          refine ⟨?_, ?_, ?_⟩
          · intro d w' hw'
            by_cases hd : d = device
            · rw [hd] at hw'
              simp only [Function.update_self] at hw'
              exact h.pending device w' (by rw [hpending]; exact List.mem_cons_of_mem w hw')
            · simp only [Function.update_of_ne hd] at hw'
              exact h.pending d w' hw'
          · intro w' hw'
            rcases List.mem_cons.mp hw' with rfl | hw'
            · exact hw
            · exact h.applied w' hw'
          · intro imdbID field
            rw [storedField_set hw, fieldValue, lastWrite_cons]
            by_cases hsame : w.imdbID = imdbID ∧ w.field = field
            · rw [if_pos hsame, if_pos hsame]
            · rw [if_neg hsame, if_neg hsame]
              exact h.field imdbID field

theorem inv_run {start : Database} {es : List SharedEvent} {s : SharedDatabase}
    (hlegal : forall e, e ∈ es -> LegalEvent e)
    (h : Runs.run step (initial start) es = some s) : Inv start s :=
  Runs.run_invariant_of_events (fun _ _ _ he hs hstep => inv_step he hs hstep) hlegal
    (inv_initial start) h

/-!
## What a snapshot shows
-/

/-- The writes of a share are in, and no other share of the movie has written since the first. -/
structure Uninterrupted (s : SharedDatabase) (n : Nat) (c : MovieDetailController) : Prop where
  share : s.shares[n]? = some c
  last : exists newer older, s.applied = newer ++ older ∧
    (forall w, w ∈ newer -> w.imdbID = c.imdbID -> w.share = n) ∧
    forall field, field ∈ ["title", "year", "poster"] ->
      exists w, w ∈ newer ∧ w.imdbID = c.imdbID ∧ w.field = field

/-- What an observer sees of the shares, in any snapshot. -/
structure ShowsLastWrites (start : Database) (s : SharedDatabase) : Prop where
  field : forall m, m ∈ s.list -> exists imdbID,
    m = { title := fieldValue start s imdbID "title", year := fieldValue start s imdbID "year",
          imdb := some imdbID, poster := fieldValue start s imdbID "poster" }
  origin : forall imdbID field w, lastWrite s.applied imdbID field = some w ->
    exists c, s.shares[w.share]? = some c ∧ c.imdbID = imdbID ∧ (field, w.value) ∈ published c
  whole : forall n c, s.Uninterrupted n c ->
    forall m, m ∈ s.list -> m.imdb = some c.imdbID -> m = sharedMovie c
  /-- Children whose keys make an array are not decoded. -/
  listed : forall n c, s.Uninterrupted n c -> Publishes c ->
    exportsArray (pelis s.db).keys = false -> sharedMovie c ∈ s.list

section Snapshot

variable {start : Database} {s : SharedDatabase}

theorem Inv.origin (h : Inv start s) {imdbID field : String} {w : SetValue}
    (hw : lastWrite s.applied imdbID field = some w) :
    exists c, s.shares[w.share]? = some c ∧ c.imdbID = imdbID ∧
      (field, w.value) ∈ published c := by
  have hissued := h.applied w (List.mem_of_find?_eq_some hw)
  have hkey := List.find?_some hw
  rw [Bool.and_eq_true, beq_iff_eq, beq_iff_eq] at hkey
  rcases hissued.origin with ⟨c, hc, hid, hmem⟩
  rw [hkey.left] at hid
  rw [hkey.right] at hmem
  exact ⟨c, hc, hid, hmem⟩

theorem Inv.entry (h : Inv start s) {m : RecommendedMovie} (hm : m ∈ s.list) :
    exists imdbID,
      m = { title := fieldValue start s imdbID "title", year := fieldValue start s imdbID "year",
            imdb := some imdbID, poster := fieldValue start s imdbID "poster" } := by
  rw [list, list_eq] at hm
  rcases mem_filmsOf_iff.mp hm with ⟨_, k, _, rfl⟩
  refine ⟨k, ?_⟩
  rw [← h.field, ← h.field, ← h.field]
  rfl

theorem Inv.storedField_eq (h : Inv start s) {n : Nat} {c : MovieDetailController}
    (hshare : s.Uninterrupted n c) {field : String} {value : Option String}
    (hmem : (field, value) ∈ published c) : storedField s.db c.imdbID field = value := by
  have hfield : field ∈ ["title", "year", "poster"] := by
    rw [← fields_published c]
    exact List.mem_map_of_mem hmem
  rcases hshare.last with ⟨newer, older, hsplit, halone, hwritten⟩
  have hfound : (lastWrite newer c.imdbID field).isSome = true := by
    rcases hwritten field hfield with ⟨w, hw, hid, hkey⟩
    rw [lastWrite, List.find?_isSome]
    exact ⟨w, hw, by simp [hid, hkey]⟩
  rcases Option.isSome_iff_exists.mp hfound with ⟨w, hw⟩
  have hlast : lastWrite s.applied c.imdbID field = some w := by
    have hw' : newer.find? (fun w => w.imdbID == c.imdbID && w.field == field) = some w := hw
    rw [lastWrite, hsplit, List.find?_append, hw']
    rfl
  have hkey := List.find?_some hw
  rw [Bool.and_eq_true, beq_iff_eq, beq_iff_eq] at hkey
  have hnumber := halone w (List.mem_of_find?_eq_some hw) hkey.left
  rcases h.origin hlast with ⟨c', hc', _, hmem'⟩
  rw [hnumber, hshare.share] at hc'
  cases hc'
  rw [h.field, fieldValue, hlast]
  exact value_of_mem_published hmem' hmem

theorem Inv.film_eq (h : Inv start s) {n : Nat} {c : MovieDetailController}
    (hshare : s.Uninterrupted n c) :
    film c.imdbID ((pelis s.db).child c.imdbID) = sharedMovie c := by
  have htitle := h.storedField_eq hshare (title_mem_published c)
  have hyear := h.storedField_eq hshare (year_mem_published c)
  have hposter := h.storedField_eq hshare (poster_mem_published c)
  unfold storedField at htitle hyear hposter
  rw [film, htitle, hyear, hposter]
  rfl

theorem Inv.mem_keys (h : Inv start s) {n : Nat} {c : MovieDetailController}
    (hshare : s.Uninterrupted n c) (hpublishes : Publishes c) :
    c.imdbID ∈ (pelis s.db).keys := by
  rcases hpublishes with ⟨field, value, hmem⟩
  have hstored := h.storedField_eq hshare hmem
  rw [KeyedTree.mem_keys_iff (pelis_wellFormed s.db)]
  apply KeyedTree.isEmpty_eq_false_of_child (k := field)
  cases hchild : (((pelis s.db).child c.imdbID).child field).isEmpty with
  | false => rfl
  | true =>
      rw [storedField, KeyedTree.isEmpty_iff.mp hchild] at hstored
      cases hstored

end Snapshot

theorem snapshots_show_last_writes (start : Database) (es : List SharedEvent)
    (s : SharedDatabase) (hlegal : forall e, e ∈ es -> LegalEvent e)
    (h : Runs.run step (initial start) es = some s) : ShowsLastWrites start s := by
  have hinv := inv_run hlegal h
  refine ⟨fun m hm => hinv.entry hm, fun imdbID field w hw => hinv.origin hw, ?_, ?_⟩
  · intro n c hshare m hm himdb
    rw [list, list_eq] at hm
    rcases mem_filmsOf_iff.mp hm with ⟨_, k, _, rfl⟩
    cases himdb
    exact hinv.film_eq hshare
  · intro n c hshare hpublishes hlist
    rw [list, list_eq]
    exact mem_filmsOf_iff.mpr
      ⟨hlist, c.imdbID, hinv.mem_keys hshare hpublishes, (hinv.film_eq hshare).symm⟩

def overlappingShares : List SharedEvent :=
  let remastered := loadedScreen "tt0133093"
    [⟨"Title", .string "Matrix"⟩, ⟨"Year", .string "2003"⟩, ⟨"Poster", .string "r.jpg"⟩]
  [.shareTapped 0 matrixScreen, .shareTapped 1 remastered, .apply 0, .apply 1, .apply 1, .apply 1,
    .apply 0, .apply 0]

theorem snapshots_show_last_writes_overlappingShares :
    exists s, Runs.run step (initial Database.empty) overlappingShares = some s ∧
      ShowsLastWrites Database.empty s := by
  have hlegal : forall e, e ∈ overlappingShares -> LegalEvent e := by
    intro e he
    simp only [overlappingShares, List.mem_cons, List.not_mem_nil, or_false] at he
    rcases he with rfl | rfl | rfl | rfl | rfl | rfl | rfl | rfl
    · exact (by decide : isValidKey matrixScreen.imdbID = true)
    · exact (by decide : isValidKey "tt0133093" = true)
    all_goals trivial
  rcases Option.isSome_iff_exists.mp (by decide :
    (Runs.run step (initial Database.empty) overlappingShares).isSome = true) with ⟨s, hs⟩
  exact ⟨s, hs, snapshots_show_last_writes _ _ s hlegal hs⟩

/-- A list delivered during a share lacks fields, and overlapping shares stay mixed. -/
theorem shares_are_not_atomic :
    (exists s, Runs.run step (initial Database.empty)
        [.shareTapped 0 matrixScreen, .apply 0] = some s ∧ ¬ Atomic Database.empty s) ∧
    exists s, Runs.run step (initial Database.empty) overlappingShares = some s ∧
      s.pending 0 = [] ∧ s.pending 1 = [] ∧ ¬ Atomic Database.empty s := by
  constructor
  · have hrun : (Runs.run step (initial Database.empty)
        [.shareTapped 0 matrixScreen, .apply 0]).map (fun s =>
          decide (Atomic Database.empty s)) = some false := by
      decide
    rcases Option.map_eq_some_iff.mp hrun with ⟨s, hs, hatomic⟩
    exact ⟨s, hs, of_decide_eq_false hatomic⟩
  · have hrun : (Runs.run step (initial Database.empty) overlappingShares).map (fun s =>
        ((s.pending 0).isEmpty, (s.pending 1).isEmpty, decide (Atomic Database.empty s))) =
          some (true, true, false) := by
      decide
    rcases Option.map_eq_some_iff.mp hrun with ⟨s, hs, hobs⟩
    simp only [Prod.mk.injEq, List.isEmpty_iff] at hobs
    exact ⟨s, hs, hobs.left, hobs.right.left, of_decide_eq_false hobs.right.right⟩

end SharedDatabase

end Recommended
end MyMovies
