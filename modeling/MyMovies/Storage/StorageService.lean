import Mathlib.Data.List.Nodup
import MyMovies.Network.Pipeline

/-!
# The Core Data store of favourites

`StorageService` keeps one managed object context over one persistent store.
A fetch or a count either answers from the context or throws, and the caller's
event says which; saves succeed, `saveContext` aborts the process otherwise.

Records are never deleted.  The favourites are the records whose `isFavourite`
flag is set, so one flag for each `imdbID` describes the store as the queries of
the application see it.
-/

namespace MyMovies
namespace Storage

open Network

/-- The attributes of `MovieEntity` that the application reads or writes. -/
structure MovieEntity where
  objectID : Nat
  title : Option String
  year : Option String
  poster : Option String
  released : Option String
  runtime : Option String
  genre : Option String
  website : Option String
  plot : Option String
  imdbID : Option String
  isFavourite : Bool
deriving DecidableEq, Repr

/-- `setValue(flag, forKey: "isFavourite")` on one record. -/
def MovieEntity.withFlag (m : MovieEntity) (flag : Bool) : MovieEntity :=
  { m with isFavourite := flag }

inductive NSPredicate where
  | imdbIDEquals (imdbID : String)
  | isFavouriteEquals (flag : Bool)
  | and (left right : NSPredicate)
deriving DecidableEq, Repr

def NSPredicate.evaluate : NSPredicate -> MovieEntity -> Bool
  | .imdbIDEquals imdbID, m => m.imdbID == some imdbID
  | .isFavouriteEquals flag, m => m.isFavourite == flag
  | .and left right, m => left.evaluate m && right.evaluate m

structure NSFetchRequest where
  predicate : NSPredicate
  fetchLimit : Option Nat
deriving DecidableEq, Repr

inductive CoreDataReply where
  | answers
  | throws (error : String)
deriving DecidableEq, Repr

structure StorageService where
  viewContext : List MovieEntity
  persistentStore : List MovieEntity
  hasChanges : Bool
  nextObjectID : Nat
deriving DecidableEq, Repr

namespace StorageService

def empty : StorageService where
  viewContext := []
  persistentStore := []
  hasChanges := false
  nextObjectID := 0

/-- The records that match, cut off at the limit of the request. -/
def results (s : StorageService) (request : NSFetchRequest) : List MovieEntity :=
  let found := s.viewContext.filter request.predicate.evaluate
  match request.fetchLimit with
  | none => found
  | some limit => found.take limit

/-- `context.fetch`; no sort descriptor is set, so callers may not rely on the order. -/
def fetch (s : StorageService) (request : NSFetchRequest) :
    CoreDataReply -> Except String (List MovieEntity)
  | .answers => .ok (s.results request)
  | .throws error => .error error

/-- `context.count(for:)`, which respects the fetch limit. -/
def count (s : StorageService) (request : NSFetchRequest) : CoreDataReply -> Except String Nat
  | .answers => .ok (s.results request).length
  | .throws error => .error error

/-- `record?.setValue(flag, forKey: "isFavourite")`. -/
def setIsFavourite (s : StorageService) (record : Option MovieEntity) (flag : Bool) :
    StorageService :=
  match record with
  | none => s
  | some r =>
      { s with
        viewContext := s.viewContext.map fun m =>
          if m.objectID = r.objectID then m.withFlag flag else m
        hasChanges := true }

def insert (s : StorageService) (make : Nat -> MovieEntity) : StorageService :=
  { s with
    viewContext := s.viewContext ++ [make s.nextObjectID]
    hasChanges := true
    nextObjectID := s.nextObjectID + 1 }

def saveContext (s : StorageService) : StorageService :=
  if s.hasChanges then
    { s with persistentStore := s.viewContext, hasChanges := false }
  else
    s

end StorageService

def FavouritesModel.favRequest : NSFetchRequest where
  predicate := .isFavouriteEquals true
  fetchLimit := none

/-- `getFavourites`; the cast of the records to `MovieEntity` always succeeds. -/
def FavouritesModel.getFavourites (s : StorageService) (reply : CoreDataReply) :
    ModelCallback (List MovieEntity) :=
  match s.fetch favRequest reply with
  | .ok favourites => { isSuccessful := true, success := some favourites, fail := none }
  | .error _ => { isSuccessful := false, success := some [], fail := some "error" }

namespace StorageService

/-!
## The records of one movie
-/

def records (s : StorageService) (imdbID : String) : List MovieEntity :=
  s.viewContext.filter fun m => m.imdbID == some imdbID

/-- The stored `isFavourite` flag of a movie; `false` without a record. -/
def isFavourite (s : StorageService) (imdbID : String) : Bool :=
  (s.records imdbID).any MovieEntity.isFavourite

theorem mem_records {s : StorageService} {imdbID : String} {m : MovieEntity} :
    m ∈ s.records imdbID <-> m ∈ s.viewContext ∧ m.imdbID = some imdbID := by
  simp [records]

theorem isFavourite_iff {s : StorageService} {imdbID : String} :
    s.isFavourite imdbID = true <->
      exists m, m ∈ s.viewContext ∧ m.imdbID = some imdbID ∧ m.isFavourite = true := by
  simp [isFavourite, mem_records, and_assoc]

@[simp] theorem saveContext_viewContext (s : StorageService) :
    s.saveContext.viewContext = s.viewContext := by
  unfold saveContext
  split <;> rfl

@[simp] theorem saveContext_nextObjectID (s : StorageService) :
    s.saveContext.nextObjectID = s.nextObjectID := by
  unfold saveContext
  split <;> rfl

/-!
## The invariant of the store
-/

/-- The store between two operations: saved, and one record for each movie. -/
structure Inv (s : StorageService) : Prop where
  saved : s.persistentStore = s.viewContext
  noChanges : s.hasChanges = false
  fresh : forall m, m ∈ s.viewContext -> m.objectID < s.nextObjectID
  nodup_objectID : (s.viewContext.map MovieEntity.objectID).Nodup
  nodup_imdbID : (s.viewContext.map MovieEntity.imdbID).Nodup
  hasImdbID : forall m, m ∈ s.viewContext -> m.imdbID.isSome = true

theorem inv_empty : Inv empty := by
  constructor <;> simp [empty]

theorem Inv.eq_of_imdbID {s : StorageService} (h : Inv s) {m m' : MovieEntity}
    (hm : m ∈ s.viewContext) (hm' : m' ∈ s.viewContext) (heq : m.imdbID = m'.imdbID) :
    m = m' :=
  List.inj_on_of_nodup_map h.nodup_imdbID hm hm' heq

theorem Inv.records_cases {s : StorageService} (h : Inv s) (imdbID : String) :
    s.records imdbID = [] ∨ exists m, s.records imdbID = [m] := by
  have hnodup : (s.records imdbID).Nodup := (List.Nodup.of_map _ h.nodup_imdbID).filter _
  cases hrec : s.records imdbID with
  | nil => exact Or.inl rfl
  | cons m rest =>
      cases rest with
      | nil => exact Or.inr ⟨m, rfl⟩
      | cons m' rest =>
          have hm : m ∈ s.records imdbID := by simp [hrec]
          have hm' : m' ∈ s.records imdbID := by simp [hrec]
          rw [mem_records] at hm hm'
          have heq := h.eq_of_imdbID hm.left hm'.left (hm.right.trans hm'.right.symm)
          rw [hrec, heq] at hnodup
          simp at hnodup

theorem Inv.length_records_le {s : StorageService} (h : Inv s) (imdbID : String) :
    (s.records imdbID).length ≤ 1 := by
  rcases h.records_cases imdbID with hrec | ⟨m, hrec⟩ <;> simp [hrec]

/-!
## What the two writes do
-/

/-- Set the flag of a record found for `imdbID`, then save. -/
def reflag (s : StorageService) (imdbID : String) (flag : Bool) : StorageService :=
  (s.setIsFavourite (s.records imdbID).head? flag).saveContext

theorem reflag_nil {s : StorageService} {imdbID : String} (flag : Bool)
    (hs : Inv s) (hrec : s.records imdbID = []) : s.reflag imdbID flag = s := by
  simp [reflag, hrec, setIsFavourite, saveContext, hs.noChanges]

section Reflag

variable {s : StorageService} {imdbID : String} {r : MovieEntity} {flag : Bool}

theorem reflag_viewContext (flag : Bool) (hrec : s.records imdbID = [r]) :
    (s.reflag imdbID flag).viewContext = s.viewContext.map fun m =>
      if m.objectID = r.objectID then m.withFlag flag else m := by
  simp [reflag, hrec, setIsFavourite]

/-- Identities and `imdbID`s survive a change of flag. -/
theorem map_reflag {β : Type} (r : MovieEntity) (flag : Bool) (f : MovieEntity -> β)
    (ms : List MovieEntity)
    (hf : forall m, f (m.withFlag flag) = f m) :
    (ms.map fun m => if m.objectID = r.objectID then m.withFlag flag else m).map f
      = ms.map f := by
  rw [List.map_map]
  apply List.map_congr_left
  intro m _
  by_cases hm : m.objectID = r.objectID
  · simpa only [Function.comp_apply, hm, if_true] using hf m
  · simp only [Function.comp_apply, hm, if_false]

/-- A record after a change of flag is a record from before, but for its flag. -/
theorem mem_reflag (hs : Inv s) {m : MovieEntity}
    (hm : m ∈ (s.reflag imdbID flag).viewContext) :
    exists m', m' ∈ s.viewContext ∧ (m = m' ∨ m = m'.withFlag flag) := by
  rcases hs.records_cases imdbID with hrec | ⟨r, hrec⟩
  · rw [reflag_nil flag hs hrec] at hm
    exact ⟨m, hm, Or.inl rfl⟩
  · rw [reflag_viewContext flag hrec] at hm
    rcases List.mem_map.mp hm with ⟨m', hm', heq⟩
    refine ⟨m', hm', ?_⟩
    rw [← heq]
    split
    · exact Or.inr rfl
    · exact Or.inl rfl

theorem inv_reflag (hs : Inv s) (imdbID : String) (flag : Bool) :
    Inv (s.reflag imdbID flag) := by
  rcases hs.records_cases imdbID with hrec | ⟨r, hrec⟩
  · rw [reflag_nil flag hs hrec]
    exact hs
  · have hctx := reflag_viewContext flag hrec
    have hobj := map_reflag r flag MovieEntity.objectID s.viewContext fun _ => rfl
    have himdb := map_reflag r flag MovieEntity.imdbID s.viewContext fun _ => rfl
    rw [← hctx] at hobj himdb
    have hnext : (s.reflag imdbID flag).nextObjectID = s.nextObjectID := by
      simp [reflag, hrec, setIsFavourite]
    constructor
    case saved => simp [reflag, hrec, setIsFavourite, saveContext]
    case noChanges => simp [reflag, hrec, setIsFavourite, saveContext]
    case fresh =>
      intro m hm
      rw [hnext]
      rcases mem_reflag hs hm with ⟨m', hm', hsame | hflag⟩
      · rw [hsame]
        exact hs.fresh m' hm'
      · rw [hflag]
        exact hs.fresh m' hm'
    case nodup_objectID =>
      rw [hobj]
      exact hs.nodup_objectID
    case nodup_imdbID =>
      rw [himdb]
      exact hs.nodup_imdbID
    case hasImdbID =>
      intro m hm
      rcases mem_reflag hs hm with ⟨m', hm', hsame | hflag⟩
      · rw [hsame]
        exact hs.hasImdbID m' hm'
      · rw [hflag]
        exact hs.hasImdbID m' hm'

theorem records_reflag_self (hs : Inv s) (imdbID : String) (flag : Bool) :
    (s.reflag imdbID flag).records imdbID =
      (s.records imdbID).map fun m => m.withFlag flag := by
  rcases hs.records_cases imdbID with hrec | ⟨r, hrec⟩
  · rw [reflag_nil flag hs hrec, hrec]
    rfl
  · have hr : r ∈ s.viewContext ∧ r.imdbID = some imdbID := by
      rw [← mem_records, hrec]
      exact List.mem_singleton_self r
    rw [records, reflag_viewContext flag hrec, List.filter_map, records]
    have hsame : forall m, m ∈ s.viewContext ->
        (((fun m : MovieEntity => m.imdbID == some imdbID) ∘ fun m =>
          if m.objectID = r.objectID then m.withFlag flag else m) m) =
          (m.imdbID == some imdbID) := by
      intro m _
      by_cases hm : m.objectID = r.objectID <;> simp [hm, MovieEntity.withFlag]
    rw [List.filter_congr hsame]
    apply List.map_congr_left
    intro m hm
    have hmr : m ∈ s.records imdbID := hm
    rw [hrec, List.mem_singleton] at hmr
    simp [hmr]

theorem records_reflag_ne (hs : Inv s) {j : String} (hj : j ≠ imdbID) :
    (s.reflag imdbID flag).records j = s.records j := by
  rcases hs.records_cases imdbID with hrec | ⟨r, hrec⟩
  · rw [reflag_nil flag hs hrec]
  · have hr : r ∈ s.viewContext ∧ r.imdbID = some imdbID := by
      rw [← mem_records, hrec]
      exact List.mem_singleton_self r
    rw [records, reflag_viewContext flag hrec, List.filter_map, records]
    have hsame : forall m, m ∈ s.viewContext ->
        (((fun m : MovieEntity => m.imdbID == some j) ∘ fun m =>
          if m.objectID = r.objectID then m.withFlag flag else m) m) =
          (m.imdbID == some j) := by
      intro m _
      by_cases hm : m.objectID = r.objectID <;> simp [hm, MovieEntity.withFlag]
    rw [List.filter_congr hsame]
    -- the record of the other movie is not the one that was changed
    have hid : forall m, m ∈ s.viewContext.filter (fun m => m.imdbID == some j) ->
        (if m.objectID = r.objectID then m.withFlag flag else m) = m := by
      intro m hm
      have hmj : m ∈ s.viewContext ∧ m.imdbID = some j := mem_records.mp hm
      rw [if_neg]
      intro heq
      have hmr : m = r := List.inj_on_of_nodup_map hs.nodup_objectID hmj.left hr.left heq
      rw [hmr, hr.right] at hmj
      exact hj (Option.some.inj hmj.right).symm
    rw [List.map_congr_left hid, List.map_id']

end Reflag

section Insert

variable {s : StorageService} {imdbID : String} {make : Nat -> MovieEntity}

theorem insert_viewContext :
    (s.insert make).saveContext.viewContext = s.viewContext ++ [make s.nextObjectID] := by
  simp [insert]

theorem records_insert (j : String) :
    (s.insert make).saveContext.records j =
      s.records j ++ [make s.nextObjectID].filter fun m => m.imdbID == some j := by
  rw [records, insert_viewContext, List.filter_append, records]

theorem inv_insert (hs : Inv s) (hnew : s.records imdbID = [])
    (hobj : forall n, (make n).objectID = n) (himdb : forall n, (make n).imdbID = some imdbID) :
    Inv (s.insert make).saveContext := by
  constructor
  case saved => simp [insert, saveContext]
  case noChanges => simp [insert, saveContext]
  case fresh =>
    intro m hm
    rw [insert_viewContext, List.mem_append, List.mem_singleton] at hm
    rw [saveContext_nextObjectID]
    rcases hm with hm | rfl
    · exact Nat.lt_succ_of_lt (hs.fresh m hm)
    · rw [hobj]
      exact Nat.lt_succ_self _
  case nodup_objectID =>
    rw [insert_viewContext, List.map_append, List.map_singleton, hobj]
    apply List.nodup_append.mpr
    refine ⟨hs.nodup_objectID, List.nodup_singleton _, ?_⟩
    intro a ha b hb hab
    rcases List.mem_map.mp ha with ⟨m, hm, rfl⟩
    rw [List.mem_singleton.mp hb] at hab
    exact Nat.ne_of_lt (hs.fresh m hm) hab
  case nodup_imdbID =>
    rw [insert_viewContext, List.map_append, List.map_singleton, himdb]
    apply List.nodup_append.mpr
    refine ⟨hs.nodup_imdbID, List.nodup_singleton _, ?_⟩
    intro a ha b hb hab
    rcases List.mem_map.mp ha with ⟨m, hm, rfl⟩
    rw [List.mem_singleton.mp hb] at hab
    have hmem : m ∈ s.records imdbID := mem_records.mpr ⟨hm, hab⟩
    rw [hnew] at hmem
    cases hmem
  case hasImdbID =>
    intro m hm
    rw [insert_viewContext, List.mem_append, List.mem_singleton] at hm
    rcases hm with hm | rfl
    · exact hs.hasImdbID m hm
    · rw [himdb]
      rfl

end Insert

end StorageService
end Storage
end MyMovies
