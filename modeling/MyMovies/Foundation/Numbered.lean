import Mathlib.Data.List.Sort

/-!
# Numbered entries

A dictionary whose keys are given out in increasing order is a list of numbered
entries, in the order of their numbers.  An entry is added under a number that is
greater than those before, and taken out under its own.
-/

namespace MyMovies
namespace Foundation
namespace Numbered

variable {α β : Type*}

def lookup (entries : List (Nat × α)) (n : Nat) : Option α :=
  (entries.find? fun entry => entry.1 == n).map Prod.snd

def remove (entries : List (Nat × α)) (n : Nat) : List (Nat × α) :=
  entries.filter fun entry => entry.1 != n

/-- The numbers grow along the list. -/
def Increasing (entries : List (Nat × α)) : Prop :=
  (entries.map Prod.fst).Pairwise (· < ·)

def Below (entries : List (Nat × α)) (bound : Nat) : Prop :=
  forall n, n ∈ entries.map Prod.fst -> n < bound

theorem increasing_nil : Increasing ([] : List (Nat × α)) := List.Pairwise.nil

theorem below_nil (bound : Nat) : Below ([] : List (Nat × α)) bound :=
  fun _ h => absurd h List.not_mem_nil

/-- Only the numbers matter. -/
theorem Increasing.congr {entries : List (Nat × α)} {entries' : List (Nat × β)}
    (h : Increasing entries) (hkeys : entries'.map Prod.fst = entries.map Prod.fst) :
    Increasing entries' := by
  rw [Increasing, hkeys]
  exact h

theorem Below.congr {entries : List (Nat × α)} {entries' : List (Nat × β)} {bound : Nat}
    (h : Below entries bound) (hkeys : entries'.map Prod.fst = entries.map Prod.fst) :
    Below entries' bound := by
  rw [Below, hkeys]
  exact h

theorem Increasing.sublist {entries entries' : List (Nat × α)} (h : Increasing entries)
    (hsub : entries'.Sublist entries) : Increasing entries' :=
  List.Pairwise.sublist (hsub.map Prod.fst) h

theorem Below.sublist {entries entries' : List (Nat × α)} {bound : Nat} (h : Below entries bound)
    (hsub : entries'.Sublist entries) : Below entries' bound :=
  fun n hn => h n ((hsub.map Prod.fst).subset hn)

theorem remove_sublist (entries : List (Nat × α)) (n : Nat) :
    (remove entries n).Sublist entries :=
  List.filter_sublist

theorem Increasing.append_one {entries : List (Nat × α)} (h : Increasing entries) {n : Nat}
    (hn : Below entries n) (a : α) : Increasing (entries ++ [(n, a)]) := by
  rw [Increasing, List.map_append, List.pairwise_append]
  refine ⟨h, List.pairwise_singleton _ _, ?_⟩
  intro m hm m' hm'
  rw [List.mem_singleton.mp hm']
  exact hn m hm

theorem Below.append_one {entries : List (Nat × α)} {n : Nat} (h : Below entries n) (a : α) :
    Below (entries ++ [(n, a)]) (n + 1) := by
  intro m hm
  rw [List.map_append, List.mem_append] at hm
  rcases hm with hm | hm
  · exact (h m hm).trans (Nat.lt_succ_self n)
  · rw [List.mem_singleton.mp hm]
    exact Nat.lt_succ_self n

theorem lookup_eq_none_iff {entries : List (Nat × α)} {n : Nat} :
    lookup entries n = none <-> n ∉ entries.map Prod.fst := by
  rw [lookup, Option.map_eq_none_iff, List.find?_eq_none]
  constructor
  · intro h hmem
    rcases List.mem_map.mp hmem with ⟨entry, hentry, rfl⟩
    exact h entry hentry (beq_self_eq_true entry.1)
  · intro h entry hentry heq
    exact h (List.mem_map.mpr ⟨entry, hentry, beq_iff_eq.mp heq⟩)

theorem mem_of_lookup {entries : List (Nat × α)} {n : Nat} {a : α}
    (h : lookup entries n = some a) : (n, a) ∈ entries := by
  rcases Option.map_eq_some_iff.mp h with ⟨entry, hentry, rfl⟩
  have hn : entry.1 = n := by simpa using List.find?_some hentry
  rw [← hn]
  exact List.mem_of_find?_eq_some hentry

theorem lookup_of_mem {entries : List (Nat × α)} (hinc : Increasing entries) {n : Nat} {a : α}
    (h : (n, a) ∈ entries) : lookup entries n = some a := by
  induction entries with
  | nil => cases h
  | cons entry rest ih =>
      rcases List.pairwise_cons.mp hinc with ⟨hfirst, hrest⟩
      rcases List.mem_cons.mp h with rfl | hmem
      · simp [lookup]
      · have hlt : entry.1 < n := hfirst n (List.mem_map.mpr ⟨(n, a), hmem, rfl⟩)
        have hne : (entry.1 == n) = false := beq_false_of_ne hlt.ne
        rw [lookup, List.find?_cons, hne]
        exact ih hrest hmem

theorem lookup_map (f : α -> β) (entries : List (Nat × α)) (n : Nat) :
    lookup (entries.map fun entry => (entry.1, f entry.2)) n = (lookup entries n).map f := by
  simp [lookup, List.find?_map, Function.comp_def]

theorem lookup_of_sublist {entries entries' : List (Nat × α)} (hinc : Increasing entries)
    (hsub : entries'.Sublist entries) {n : Nat} {a : α} (h : lookup entries' n = some a) :
    lookup entries n = some a :=
  lookup_of_mem hinc (hsub.subset (mem_of_lookup h))

theorem lookup_append_one (entries : List (Nat × α)) {m n : Nat} (hne : n ≠ m) (a : α) :
    lookup (entries ++ [(m, a)]) n = lookup entries n := by
  have hlast : ([(m, a)] : List (Nat × α)).find? (fun entry => entry.1 == n) = none := by
    simpa using hne.symm
  rw [lookup, List.find?_append, hlast, Option.or_none, lookup]

/-- Looking up all numbers in turn finds all entries. -/
theorem filterMap_lookup {entries : List (Nat × α)} (hinc : Increasing entries)
    (f : Nat -> α -> β) :
    (entries.map Prod.fst).filterMap (fun n => (lookup entries n).map (f n)) =
      entries.map fun entry => f entry.1 entry.2 := by
  rw [List.filterMap_map, ← List.filterMap_eq_map]
  apply List.filterMap_congr
  intro entry hentry
  simp [lookup_of_mem hinc hentry]

/-- An entry that is found stands alone under its number. -/
theorem split_of_lookup {entries : List (Nat × α)} (hinc : Increasing entries) {n : Nat} {a : α}
    (h : lookup entries n = some a) :
    exists front back, entries = front ++ (n, a) :: back ∧ remove entries n = front ++ back := by
  rcases List.append_of_mem (mem_of_lookup h) with ⟨front, back, rfl⟩
  refine ⟨front, back, rfl, ?_⟩
  rw [Increasing, List.map_append, List.map_cons, List.pairwise_append, List.pairwise_cons] at hinc
  rcases hinc with ⟨_, ⟨hback, _⟩, hfront⟩
  have hkeepFront : front.filter (fun entry => entry.1 != n) = front := by
    apply List.filter_eq_self.mpr
    intro entry hentry
    have hlt := hfront entry.1 (List.mem_map_of_mem hentry) n List.mem_cons_self
    simpa using hlt.ne
  have hkeepBack : back.filter (fun entry => entry.1 != n) = back := by
    apply List.filter_eq_self.mpr
    intro entry hentry
    have hlt := hback entry.1 (List.mem_map_of_mem hentry)
    simpa using hlt.ne'
  rw [remove, List.filter_append, List.filter_cons_of_neg (by simp), hkeepFront, hkeepBack]

end Numbered
end Foundation
end MyMovies
