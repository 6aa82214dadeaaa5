import Mathlib.Data.List.Infix

/-!
# Writes at paths, and pending writes laid over values

Data at paths is a function from paths to optional values.  A write at a path
replaces everything at and below it, and clears what stands strictly above it,
unless nothing is written.  Pending writes form a partial map of the same kind:
a path is covered when some pending write decides what stands there.  Laying a
pending map over data gives the data as if the writes had been made; this
module says how that operation commutes with adding a pending write, with a
write to the data below, and with taking a pending write back.
-/

namespace MyMovies
namespace Foundation
namespace Overlay

variable {Key X V : Type}

/-!
## Two paths
-/

def Apart (p q : List Key) : Prop := ¬ p <+: q ∧ ¬ q <+: p

theorem relate (p q : List Key) :
    (exists r, q = p ++ r) ∨ (exists k r, p = q ++ k :: r) ∨ Apart p q := by
  by_cases hpq : p <+: q
  · rcases hpq with ⟨r, rfl⟩
    exact Or.inl ⟨r, rfl⟩
  · by_cases hqp : q <+: p
    · rcases hqp with ⟨r, rfl⟩
      cases r with
      | nil => exact absurd (by simp) hpq
      | cons k r => exact Or.inr (Or.inl ⟨k, r, rfl⟩)
    · exact Or.inr (Or.inr ⟨hpq, hqp⟩)

theorem Apart.append {p q : List Key} (h : Apart p q) (r : List Key) : Apart p (q ++ r) := by
  constructor
  · intro hpq
    rcases List.prefix_or_prefix_of_prefix hpq (List.prefix_append q r) with hp | hq
    · exact h.left hp
    · exact h.right hq
  · intro hqp
    exact h.right ((List.prefix_append q r).trans hqp)

theorem apart_key {j k : Key} {p : List Key} : Apart (j :: p) [k] <-> k ≠ j := by
  constructor
  · rintro h rfl
    exact h.right (List.cons_prefix_cons.mpr ⟨rfl, List.nil_prefix⟩)
  · intro hjk
    exact ⟨fun h => hjk (List.cons_prefix_cons.mp h).left.symm,
      fun h => hjk (List.cons_prefix_cons.mp h).left⟩

theorem not_apart_nil (q : List Key) : ¬ Apart [] q :=
  fun h => h.left List.nil_prefix

/-!
## Values at paths
-/

/-- Nothing stands at any path. -/
def Vacant (d : List Key -> Option V) : Prop := forall q, d q = none

/-- A value has nothing below it. -/
def Solid (d : List Key -> Option V) : Prop :=
  forall q r, r ≠ [] -> d q ≠ none -> d (q ++ r) = none

/-- No value stands strictly above the path. -/
def Clear (d : List Key -> Option V) (p : List Key) : Prop :=
  forall q k r, p = q ++ k :: r -> d q = none

theorem clear_iff [DecidableEq Key] {d : List Key -> Option V} {p : List Key} :
    (forall q, q ∈ p.inits -> q = p ∨ (d q).isNone = true) <-> Clear d p := by
  constructor
  · rintro h q k r rfl
    rcases h q ((List.mem_inits _ _).mpr (List.prefix_append q _)) with heq | hnone
    · have hlength := congrArg List.length heq
      simp at hlength
    · exact Option.isNone_iff_eq_none.mp hnone
  · intro h q hq
    rcases (List.mem_inits _ _).mp hq with ⟨r, rfl⟩
    cases r with
    | nil => exact Or.inl (List.append_nil q).symm
    | cons k r => exact Or.inr (Option.isNone_iff_eq_none.mpr (h q k r rfl))

instance Clear.decidable [DecidableEq Key] (d : List Key -> Option V) (p : List Key) :
    Decidable (Clear d p) :=
  decidable_of_iff _ clear_iff

open Classical in
/-- What a write of `new` below a value leaves of it. -/
noncomputable def clearedBy (new : List Key -> Option V) (v : Option V) : Option V :=
  if Vacant new then v else none

theorem clearedBy_vacant {new : List Key -> Option V} (h : Vacant new) (v : Option V) :
    clearedBy new v = v := by
  rw [clearedBy, if_pos h]

theorem clearedBy_of_ne {new : List Key -> Option V} {q : List Key} (h : new q ≠ none)
    (v : Option V) : clearedBy new v = none := by
  rw [clearedBy, if_neg]
  intro hvacant
  exact h (hvacant q)

@[simp] theorem clearedBy_none (new : List Key -> Option V) :
    clearedBy new none = none := by
  by_cases h : Vacant new
  · exact clearedBy_vacant h none
  · rw [clearedBy, if_neg h]

theorem exists_ne_of_not_vacant {d : List Key -> Option V} (h : ¬ Vacant d) :
    exists q, d q ≠ none := by
  by_contra hnone
  apply h
  intro q
  by_contra hq
  exact hnone ⟨q, hq⟩

/-!
## Pending writes

At a path that pending writes cover, the map holds what they leave there.
-/

abbrev Pending (Key V : Type) := List Key -> Option (Option V)

/-- Some pending write leaves a value at the path or below it. -/
def Raised (P : Pending Key V) (q : List Key) : Prop :=
  exists r v, P (q ++ r) = some (some v)

open Classical in
noncomputable def applied (P : Pending Key V) (d : List Key -> Option V) (q : List Key) :
    Option V :=
  match P q with
  | some x => x
  | none => if Raised P q then none else d q

/-- What covers a path covers all paths below it. -/
def Closed (P : Pending Key V) : Prop :=
  forall q r, P q ≠ none -> P (q ++ r) ≠ none

variable {P P' : Pending Key V} {d : List Key -> Option V}

theorem applied_some {q : List Key} {x : Option V} (h : P q = some x) :
    applied P d q = x := by
  rw [applied, h]

theorem applied_raised {q : List Key} (h : P q = none) (hraised : Raised P q) :
    applied P d q = none := by
  rw [applied, h]
  exact if_pos hraised

theorem applied_not_raised {q : List Key} (h : P q = none) (hraised : ¬ Raised P q) :
    applied P d q = d q := by
  rw [applied, h]
  exact if_neg hraised

theorem Raised.of_append {q r : List Key} (h : Raised P (q ++ r)) : Raised P q := by
  rcases h with ⟨s, v, hs⟩
  rw [List.append_assoc] at hs
  exact ⟨r ++ s, v, hs⟩

theorem applied_of_none {q : List Key} (h : P q = none) (hd : d q = none) :
    applied P d q = none := by
  by_cases hraised : Raised P q
  · exact applied_raised h hraised
  · rw [applied_not_raised h hraised, hd]

theorem applied_eq {e : List Key -> Option V} {q q' : List Key} (hP : P q = P' q')
    (hraised : Raised P q <-> Raised P' q') (hd : d q = e q') :
    applied P d q = applied P' e q' := by
  cases hP' : P' q' with
  | some x => rw [applied_some hP', applied_some (hP.trans hP')]
  | none =>
      by_cases hr : Raised P' q'
      · rw [applied_raised hP' hr, applied_raised (hP.trans hP') (hraised.mpr hr)]
      · rw [applied_not_raised hP' hr,
          applied_not_raised (hP.trans hP') (fun h => hr (hraised.mp h)), hd]

theorem applied_congr {e : List Key -> Option V} {q : List Key} (h : d q = e q) :
    applied P d q = applied P e q :=
  applied_eq rfl Iff.rfl h

/-- Two pending maps that agree at and below a path put the same there. -/
theorem applied_congr_pending {q : List Key} (h : forall r, P (q ++ r) = P' (q ++ r)) :
    applied P d q = applied P' d q := by
  apply applied_eq
  · simpa using h []
  · unfold Raised
    simp only [h]
  · rfl

theorem Closed.none_above (hP : Closed P) {q r : List Key} (h : P (q ++ r) = none) :
    P q = none := by
  by_contra hq
  exact hP q r hq h

theorem raised_shift (p q : List Key) :
    Raised (fun r => P (p ++ r)) q <-> Raised P (p ++ q) := by
  unfold Raised
  simp only [List.append_assoc]

theorem applied_shift (p q : List Key) :
    applied (fun r => P (p ++ r)) (fun r => d (p ++ r)) q = applied P d (p ++ q) :=
  applied_eq rfl (raised_shift p q) rfl

theorem applied_none (d : List Key -> Option V) :
    applied (fun _ => none : Pending Key V) d = d := by
  funext q
  apply applied_not_raised rfl
  rintro ⟨r, v, h⟩
  cases h

theorem closed_none : Closed (fun _ => none : Pending Key V) :=
  fun _ _ h => absurd rfl h

/-- Pending maps that cover no common path can be laid over one after the other. -/
theorem applied_applied {Q : Pending Key V} (hP : Closed P)
    (hdisjoint : forall q, P q = none ∨ Q q = none) :
    applied Q (applied P d) = applied (fun q => (P q).or (Q q)) d := by
  funext q
  have hraised : Raised (fun q => (P q).or (Q q)) q <-> Raised P q ∨ Raised Q q := by
    constructor
    · rintro ⟨r, v, h⟩
      rcases Option.or_eq_some_iff.mp h with h | ⟨_, h⟩
      · exact Or.inl ⟨r, v, h⟩
      · exact Or.inr ⟨r, v, h⟩
    · rintro (⟨r, v, h⟩ | ⟨r, v, h⟩)
      · exact ⟨r, v, by simp [h]⟩
      · have hnone : P (q ++ r) = none := by
          rcases hdisjoint (q ++ r) with hn | hn
          · exact hn
          · rw [hn] at h
            cases h
        exact ⟨r, v, by simp [hnone, h]⟩
  cases hPq : P q with
  | some x =>
      have hQq : Q q = none := by
        rcases hdisjoint q with hn | hn
        · rw [hn] at hPq
          cases hPq
        · exact hn
      have hQraised : ¬ Raised Q q := by
        rintro ⟨r, v, h⟩
        rcases hdisjoint (q ++ r) with hn | hn
        · exact hP q r (by simp [hPq]) hn
        · rw [hn] at h
          cases h
      rw [applied_not_raised hQq hQraised, applied_some hPq]
      exact (applied_some (by simp [hPq])).symm
  | none =>
      cases hQq : Q q with
      | some y =>
          rw [applied_some hQq]
          exact (applied_some (by simp [hPq, hQq])).symm
      | none =>
          have hor : (fun q => (P q).or (Q q)) q = none := by simp [hPq, hQq]
          by_cases hr : Raised P q ∨ Raised Q q
          · rw [applied_raised hor (hraised.mpr hr)]
            rcases hr with hr | hr
            · exact applied_of_none hQq (applied_raised hPq hr)
            · exact applied_raised hQq hr
          · rw [applied_not_raised hor (fun h => hr (hraised.mp h)),
              applied_not_raised hQq (fun h => hr (Or.inr h)),
              applied_not_raised hPq (fun h => hr (Or.inl h))]

/-!
## Pending maps that agree off a path
-/

/-- The two maps can differ only at and below the path. -/
def AgreeOff (p : List Key) (P P' : Pending Key V) : Prop :=
  forall q, ¬ p <+: q -> P q = P' q

theorem AgreeOff.applied_apart {p q : List Key} (h : AgreeOff p P P') (hapart : Apart p q) :
    applied P d q = applied P' d q :=
  applied_congr_pending fun r => h _ (hapart.append r).left

theorem not_prefix_above (q : List Key) (k : Key) (r : List Key) : ¬ q ++ k :: r <+: q := by
  intro h
  have hlen := h.length_le
  rw [List.length_append, List.length_cons] at hlen
  omega

theorem AgreeOff.none_above {p q : List Key} {k : Key} {r : List Key} (h : AgreeOff p P P')
    (hP' : Closed P') (hp : P' p = none) (hpq : p = q ++ k :: r) : P q = none ∧ P' q = none := by
  subst hpq
  have hq : P' q = none := hP'.none_above hp
  exact ⟨(h q (not_prefix_above q k r)).trans hq, hq⟩

/-- Above a value, pending values show wherever something stands below it. -/
theorem raised_iff_of_value {q : List Key} (hq : P q = none)
    (hd : forall s, s ≠ [] -> d (q ++ s) = none) :
    Raised P q <-> exists s, s ≠ [] ∧ applied P d (q ++ s) ≠ none := by
  constructor
  · rintro ⟨s, v, hs⟩
    refine ⟨s, ?_, ?_⟩
    · rintro rfl
      rw [List.append_nil, hq] at hs
      cases hs
    · rw [applied_some hs]
      simp
  · rintro ⟨s, hne, hs⟩
    cases hPs : P (q ++ s) with
    | none => exact absurd (applied_of_none hPs (hd s hne)) hs
    | some x =>
        rw [applied_some hPs] at hs
        rcases Option.ne_none_iff_exists'.mp hs with ⟨v, rfl⟩
        exact ⟨s, v, hPs⟩

/-- If the values at the path are the same before and after, all values are. -/
theorem AgreeOff.applied_of_below {p : List Key} (h : AgreeOff p P P') (hP' : Closed P')
    (hp : P' p = none) (hsolid : Solid d)
    (hbelow : forall r, applied P d (p ++ r) = applied P' d (p ++ r)) :
    applied P d = applied P' d := by
  funext q
  rcases relate p q with ⟨r, rfl⟩ | ⟨k, r, hpq⟩ | hapart
  · exact hbelow r
  · have hnone := h.none_above hP' hp hpq
    cases hd : d q with
    | none => rw [applied_of_none hnone.left hd, applied_of_none hnone.right hd]
    | some v =>
        have hempty : forall s, s ≠ [] -> d (q ++ s) = none :=
          fun s hs => hsolid q s hs (by simp [hd])
        have hsame : forall s, s ≠ [] -> applied P d (q ++ s) = applied P' d (q ++ s) := by
          intro s hs
          rcases relate p (q ++ s) with ⟨r', hr'⟩ | ⟨k', r', hr'⟩ | hapart
          · rw [hr']
            exact hbelow r'
          · have hnone' := h.none_above hP' hp hr'
            rw [applied_of_none hnone'.left (hempty s hs),
              applied_of_none hnone'.right (hempty s hs)]
          · exact h.applied_apart hapart
        have hraised : Raised P q <-> Raised P' q := by
          rw [raised_iff_of_value hnone.left hempty, raised_iff_of_value hnone.right hempty]
          constructor
          · rintro ⟨s, hne, hs⟩
            exact ⟨s, hne, by rwa [← hsame s hne]⟩
          · rintro ⟨s, hne, hs⟩
            exact ⟨s, hne, by rwa [hsame s hne]⟩
        exact applied_eq (hnone.left.trans hnone.right.symm) hraised rfl
  · exact h.applied_apart hapart

/-!
## Replacing what stands at and below a path
-/

variable [DecidableEq Key]

def overlay (above : X -> X) : (List Key -> X) -> List Key -> (List Key -> X) -> List Key -> X
  | _, [], new, q => new q
  | m, _ :: _, _, [] => above (m [])
  | m, k :: p, new, j :: q =>
      if j = k then overlay above (fun r => m (k :: r)) p new q else m (j :: q)

variable {above : X -> X} {m new : List Key -> X}

theorem overlay_below (p r : List Key) : overlay above m p new (p ++ r) = new r := by
  induction p generalizing m with
  | nil => rfl
  | cons k p ih =>
      rw [List.cons_append, overlay, if_pos rfl]
      exact ih

theorem overlay_above (q : List Key) (k : Key) (r : List Key) :
    overlay above m (q ++ k :: r) new q = above (m q) := by
  induction q generalizing m with
  | nil => rfl
  | cons j q ih =>
      rw [List.cons_append, overlay, if_pos rfl]
      exact ih

theorem overlay_apart {p q : List Key} (h : Apart p q) :
    overlay above m p new q = m q := by
  induction p generalizing m q with
  | nil => exact absurd List.nil_prefix h.left
  | cons k p ih =>
      cases q with
      | nil => exact absurd List.nil_prefix h.right
      | cons j q =>
          by_cases hjk : j = k
          · subst hjk
            rw [overlay, if_pos rfl]
            apply ih
            constructor
            · intro hp
              exact h.left (List.cons_prefix_cons.mpr ⟨rfl, hp⟩)
            · intro hq
              exact h.right (List.cons_prefix_cons.mpr ⟨rfl, hq⟩)
          · rw [overlay, if_neg hjk]

theorem overlay_cons_self (k : Key) (p q : List Key) :
    overlay above m (k :: p) new (k :: q) = overlay above (fun r => m (k :: r)) p new q := by
  rw [overlay, if_pos rfl]

theorem overlay_cons_ne {j k : Key} (hjk : j ≠ k) (p q : List Key) :
    overlay above m (k :: p) new (j :: q) = m (j :: q) := by
  rw [overlay, if_neg hjk]

/-!
## Writes
-/

noncomputable def write (d : List Key -> Option V) (p : List Key) (new : List Key -> Option V) :
    List Key -> Option V :=
  overlay (clearedBy new) d p new

theorem write_below (d : List Key -> Option V) (p : List Key) (new : List Key -> Option V)
    (r : List Key) : write d p new (p ++ r) = new r :=
  overlay_below p r

theorem write_above (d : List Key -> Option V) (q : List Key) (k : Key) (r : List Key)
    (new : List Key -> Option V) : write d (q ++ k :: r) new q = clearedBy new (d q) :=
  overlay_above q k r

theorem write_apart (d : List Key -> Option V) {p q : List Key} (h : Apart p q)
    (new : List Key -> Option V) : write d p new q = d q :=
  overlay_apart h

theorem write_root (d : List Key -> Option V) (k : Key) (p : List Key)
    (new : List Key -> Option V) : write d (k :: p) new [] = clearedBy new (d []) := rfl

theorem write_cons_self (d : List Key -> Option V) (k : Key) (p : List Key)
    (new : List Key -> Option V) (q : List Key) :
    write d (k :: p) new (k :: q) = write (fun r => d (k :: r)) p new q :=
  overlay_cons_self k p q

theorem write_cons_ne (d : List Key -> Option V) {j k : Key} (hjk : j ≠ k) (p : List Key)
    (new : List Key -> Option V) (q : List Key) :
    write d (k :: p) new (j :: q) = d (j :: q) :=
  overlay_cons_ne hjk p q

/-- Writing what already stands there changes nothing. -/
theorem write_self {d new : List Key -> Option V} {p : List Key} (hd : Solid d)
    (hnew : forall r, d (p ++ r) = new r) : write d p new = d := by
  funext q
  rcases relate p q with ⟨r, rfl⟩ | ⟨k, r, rfl⟩ | hapart
  · rw [write_below, hnew]
  · rw [write_above]
    by_cases hvacant : Vacant new
    · exact clearedBy_vacant hvacant _
    · rcases exists_ne_of_not_vacant hvacant with ⟨s, hs⟩
      rw [clearedBy_of_ne hs]
      have hbelow : d (q ++ (k :: r ++ s)) ≠ none := by
        rw [← List.append_assoc, hnew]
        exact hs
      cases hq : d q with
      | none => rfl
      | some v =>
          have hnone := hd q (k :: r ++ s) (by simp) (by simp [hq])
          exact absurd hnone hbelow
  · rw [write_apart _ hapart]

/-!
## Adding a pending write
-/

noncomputable def add (P : Pending Key V) (p : List Key) (new : List Key -> Option V) :
    Pending Key V :=
  overlay (Option.map (clearedBy new)) P p fun r => some (new r)

theorem add_below (P : Pending Key V) (p : List Key) (new : List Key -> Option V)
    (r : List Key) : add P p new (p ++ r) = some (new r) :=
  overlay_below p r

theorem add_above (P : Pending Key V) (q : List Key) (k : Key) (r : List Key)
    (new : List Key -> Option V) :
    add P (q ++ k :: r) new q = (P q).map (clearedBy new) :=
  overlay_above q k r

theorem add_apart (P : Pending Key V) {p q : List Key} (h : Apart p q)
    (new : List Key -> Option V) : add P p new q = P q :=
  overlay_apart h

/-!
Reading below a root: a write below it, at or above it, or apart from it.
-/

theorem add_append_append (P : Pending Key V) (root p : List Key)
    (new : List Key -> Option V) :
    (fun q => add P (root ++ p) new (root ++ q)) = add (fun q => P (root ++ q)) p new := by
  funext q
  induction root generalizing P with
  | nil => rfl
  | cons k root ih =>
      rw [List.cons_append, List.cons_append, add, overlay_cons_self]
      exact ih (fun r => P (k :: r))

theorem add_at_or_above (P : Pending Key V) (p rest : List Key) (new : List Key -> Option V) :
    (fun q => add P p new (p ++ rest ++ q)) =
      add (fun q => P (p ++ rest ++ q)) [] (fun q => new (rest ++ q)) := by
  funext q
  rw [List.append_assoc, add_below]
  exact (add_below _ [] (fun q => new (rest ++ q)) q).symm

theorem add_apart_root (P : Pending Key V) {root p : List Key} (h : Apart p root)
    (new : List Key -> Option V) :
    (fun q => add P p new (root ++ q)) = fun q => P (root ++ q) := by
  funext q
  exact add_apart P (h.append q) new

/-- What a write leaves below a root depends only on what was there below the root. -/
theorem add_congr_root {root : List Key} (h : forall q, P (root ++ q) = P' (root ++ q))
    (p : List Key) (new : List Key -> Option V) (q : List Key) :
    add P p new (root ++ q) = add P' p new (root ++ q) := by
  rcases relate p root with ⟨rest, rfl⟩ | ⟨k, rest, rfl⟩ | hapart
  · rw [List.append_assoc, add_below, add_below]
  · have hroot : (fun q => P (root ++ q)) = fun q => P' (root ++ q) := funext h
    have hP := congrFun (add_append_append P root (k :: rest) new) q
    have hP' := congrFun (add_append_append P' root (k :: rest) new) q
    rw [hP, hP', hroot]
  · rw [add_apart P (hapart.append q), add_apart P' (hapart.append q), h]

/-- A write below covered paths changes what the covering writes leave there. -/
theorem add_covered (e : List Key -> Option V) (p : List Key) (new : List Key -> Option V) :
    add (fun q => some (e q)) p new = fun q => some (write e p new q) := by
  funext q
  rcases relate p q with ⟨r, rfl⟩ | ⟨k, r, rfl⟩ | hapart
  · rw [add_below, write_below]
  · rw [add_above, write_above, Option.map_some]
  · rw [add_apart _ hapart, write_apart _ hapart]

theorem add_ne_none {p q : List Key} (new : List Key -> Option V) (h : P q ≠ none) :
    add P p new q ≠ none := by
  rcases relate p q with ⟨r, rfl⟩ | ⟨k, r, rfl⟩ | hapart
  · rw [add_below]
    simp
  · rw [add_above]
    simpa using h
  · rw [add_apart P hapart]
    exact h

theorem Closed.add (hP : Closed P) (p : List Key) (new : List Key -> Option V) :
    Closed (add P p new) := by
  intro q r hq
  rcases relate p q with ⟨s, rfl⟩ | ⟨k, s, rfl⟩ | hapart
  · rw [List.append_assoc, add_below]
    simp
  · rw [add_above] at hq
    exact add_ne_none new (hP q r (by simpa using hq))
  · rw [add_apart P hapart] at hq
    exact add_ne_none new (hP q r hq)

/-- A single pending write acts as the write. -/
theorem applied_add_none (d : List Key -> Option V) (p : List Key)
    (new : List Key -> Option V) :
    applied (add (fun _ => none) p new) d = write d p new := by
  funext q
  rcases relate p q with ⟨r, rfl⟩ | ⟨k, r, rfl⟩ | hapart
  · rw [applied_some (add_below _ p new r), write_below]
  · rw [write_above]
    have hnone := add_above (fun _ => none : Pending Key V) q k r new
    by_cases hvacant : Vacant new
    · rw [clearedBy_vacant hvacant, applied_not_raised hnone]
      rintro ⟨s, v, hs⟩
      rcases relate (q ++ k :: r) (q ++ s) with ⟨s', hs'⟩ | ⟨k', s', hs'⟩ | hapart
      · rw [hs', add_below, hvacant s'] at hs
        cases hs
      · rw [hs', add_above] at hs
        cases hs
      · rw [add_apart _ hapart] at hs
        cases hs
    · rcases exists_ne_of_not_vacant hvacant with ⟨s, hs⟩
      rw [clearedBy_of_ne hs]
      apply applied_raised hnone
      rcases Option.ne_none_iff_exists'.mp hs with ⟨v, hv⟩
      exact ⟨k :: r ++ s, v, by rw [← List.append_assoc, add_below, hv]⟩
  · have hnone : applied (add (fun _ => none) p new) d q = applied (fun _ => none) d q :=
      applied_congr_pending fun r => add_apart _ (hapart.append r) new
    rw [write_apart _ hapart, hnone, applied_none]

/--
Adding a pending write is the same as writing to the result, unless it erases
something below a value that no pending write covers.
-/
theorem applied_add {p : List Key} {new : List Key -> Option V}
    (h : Vacant new -> Clear d p) :
    applied (add P p new) d = write (applied P d) p new := by
  funext q
  rcases relate p q with ⟨r, rfl⟩ | ⟨k, r, rfl⟩ | hapart
  · rw [applied_some (add_below P p new r), write_below]
  · rw [write_above]
    cases hq : P q with
    | some x =>
        have hadd : add P (q ++ k :: r) new q = some (clearedBy new x) := by
          rw [add_above, hq, Option.map_some]
        rw [applied_some hadd, applied_some hq]
    | none =>
        have hadd : add P (q ++ k :: r) new q = none := by
          rw [add_above, hq, Option.map_none]
        by_cases hvacant : Vacant new
        · have hd := h hvacant q k r rfl
          rw [applied_of_none hadd hd, applied_of_none hq hd, clearedBy_none]
        · rcases exists_ne_of_not_vacant hvacant with ⟨s, hs⟩
          rcases Option.ne_none_iff_exists'.mp hs with ⟨v, hv⟩
          rw [clearedBy_of_ne hs]
          apply applied_raised hadd
          exact ⟨k :: r ++ s, v, by rw [← List.append_assoc, add_below, hv]⟩
  · rw [write_apart _ hapart]
    apply applied_congr_pending
    intro r
    exact add_apart P (hapart.append r) new

/-!
## Pending writes moved below a path
-/

def below (p : List Key) (P : Pending Key V) : Pending Key V :=
  overlay id (fun _ => none) p P

theorem below_append (p : List Key) (P : Pending Key V) (q : List Key) :
    below p P (p ++ q) = P q :=
  overlay_below p q

theorem below_eq_none {p q : List Key} (h : ¬ p <+: q) (P : Pending Key V) :
    below p P q = none := by
  rcases relate p q with ⟨r, rfl⟩ | ⟨k, r, rfl⟩ | hapart
  · exact absurd (List.prefix_append p r) h
  · exact overlay_above q k r
  · exact overlay_apart hapart

theorem below_nil (P : Pending Key V) : below [] P = P := by
  funext q
  exact below_append [] P q

theorem Closed.below (hP : Closed P) (p : List Key) : Closed (below p P) := by
  intro q r hq
  by_cases hpq : p <+: q
  · rcases hpq with ⟨s, rfl⟩
    rw [below_append] at hq
    rw [List.append_assoc, below_append]
    exact hP s r hq
  · exact absurd (below_eq_none hpq P) hq

theorem below_some (p : List Key) (new : List Key -> Option V) :
    below p (fun q => some (new q)) = add (fun _ => none) p new := by
  funext q
  rcases relate p q with ⟨r, rfl⟩ | ⟨k, r, rfl⟩ | hapart
  · rw [below_append, add_below]
  · rw [below_eq_none (not_prefix_above q k r), add_above]
    rfl
  · rw [below_eq_none hapart.left, add_apart _ hapart]

/-- Pending writes below a key, next to pending writes below other keys. -/
theorem below_or {Q : Pending Key V} {p : List Key} {k : Key}
    (hP : forall q, P (k :: q) = P' q) (hQ : forall q, Q (k :: q) = none)
    (hroot : P [] = Q []) (hne : forall j q, j ≠ k -> P (j :: q) = Q (j :: q)) :
    (fun q => (below (p ++ [k]) P' q).or (below p Q q)) = below p P := by
  funext q
  by_cases hpq : p <+: q
  · rcases hpq with ⟨r, rfl⟩
    rw [below_append, below_append]
    cases r with
    | nil =>
        rw [below_eq_none, hroot]
        · rfl
        · rw [List.append_nil]
          exact not_prefix_above p k []
    | cons j r =>
        by_cases hjk : j = k
        · subst hjk
          have hkey : below (p ++ [j]) P' (p ++ j :: r) = P' r := by
            rw [List.append_cons p j r]
            exact below_append (p ++ [j]) P' r
          rw [hkey, hQ, hP, Option.or_none]
        · rw [below_eq_none, hne j r hjk]
          · rfl
          · intro h
            have hcons := (List.prefix_append_right_inj p).mp h
            exact hjk (List.cons_prefix_cons.mp hcons).left.symm
  · rw [below_eq_none hpq, below_eq_none hpq, below_eq_none]
    · rfl
    · intro h
      exact hpq ((List.prefix_append p [k]).trans h)

/-!
## Writing to the data below
-/

/--
Where an uncovered value stands above a covered path, a pending value stands
below it too: no pending write only erases below a value.
-/
def Visible (P : Pending Key V) (d : List Key -> Option V) : Prop :=
  forall q r, P q = none -> P (q ++ r) ≠ none -> d q ≠ none -> Raised P q

/-- A write that no pending write covers shows through the pending writes below it. -/
theorem applied_write_of_none {p : List Key} {new : List Key -> Option V} (hP : Closed P)
    (hvisible : Visible P d) (hp : P p = none) :
    applied P (write d p new) =
      write (applied P d) p (fun r => applied P (write d p new) (p ++ r)) := by
  funext q
  rcases relate p q with ⟨r, rfl⟩ | ⟨k, r, rfl⟩ | hapart
  · rw [write_below]
  · have hq : P q = none := hP.none_above hp
    have habove : write d (q ++ k :: r) new q = clearedBy new (d q) := write_above d q k r new
    conv => rhs; rw [write_above]
    by_cases hraised : Raised P q
    · rw [applied_raised hq hraised, applied_raised hq hraised, clearedBy_none]
    · rw [applied_not_raised hq hraised, applied_not_raised hq hraised, habove]
      cases hd : d q with
      | none => rw [clearedBy_none, clearedBy_none]
      | some v =>
          -- nothing below `q` is covered, so the new values show unchanged
          have hbelow : forall s, P (q ++ s) = none := by
            intro s
            by_contra hs
            exact hraised (hvisible q s hq hs (by simp [hd]))
          congr 1
          funext s
          have hs : P (q ++ k :: r ++ s) = none := by
            rw [List.append_assoc]
            exact hbelow _
          have hraised' : ¬ Raised P (q ++ k :: r ++ s) := by
            intro h
            rw [List.append_assoc] at h
            exact hraised h.of_append
          rw [applied_not_raised hs hraised']
          exact (write_below d _ new s).symm
  · conv => rhs; rw [write_apart _ hapart]
    exact applied_congr (write_apart d hapart new)

/-- A write below a covered path does not show. -/
theorem applied_write_of_some {p : List Key} {new : List Key -> Option V} (hP : Closed P)
    (hvisible : Visible P d) (hp : P p ≠ none) :
    applied P (write d p new) = applied P d := by
  funext q
  rcases relate p q with ⟨r, rfl⟩ | ⟨k, r, rfl⟩ | hapart
  · rcases Option.ne_none_iff_exists'.mp (hP p r hp) with ⟨x, hx⟩
    rw [applied_some hx, applied_some hx]
  · have habove : write d (q ++ k :: r) new q = clearedBy new (d q) := write_above d q k r new
    cases hq : P q with
    | some x => rw [applied_some hq, applied_some hq]
    | none =>
        by_cases hraised : Raised P q
        · rw [applied_raised hq hraised, applied_raised hq hraised]
        · have hd : d q = none := by
            by_contra hd
            exact hraised (hvisible q (k :: r) hq hp hd)
          rw [applied_of_none hq hd, applied_of_none hq]
          rw [habove, hd, clearedBy_none]
  · exact applied_congr (write_apart d hapart new)

/-!
## Taking a pending write back
-/

/-- Once nothing stands above the path, taking a write back shows the data below it. -/
theorem AgreeOff.applied_of_clear {p : List Key} (h : AgreeOff p P P') (hP' : Closed P')
    (hp : P' p = none) (hclear : Clear d p) :
    applied P' d = write (applied P d) p (fun r => applied P' d (p ++ r)) := by
  funext q
  rcases relate p q with ⟨r, rfl⟩ | ⟨k, r, hpq⟩ | hapart
  · rw [write_below]
  · have hnone := h.none_above hP' hp hpq
    have hd := hclear q k r hpq
    subst hpq
    conv => rhs; rw [write_above]
    rw [applied_of_none hnone.right hd, applied_of_none hnone.left hd, clearedBy_none]
  · conv => rhs; rw [write_apart _ hapart]
    exact (h.applied_apart hapart).symm

/-- Off the root, recomputing one child gives the new values. -/
theorem AgreeOff.write_child {k : Key} {p : List Key} (h : AgreeOff (k :: p) P P')
    {child : List Key -> Option V} (hchild : forall r, child r = applied P' d (k :: r))
    {q : List Key} (hq : q ≠ []) : write (applied P d) [k] child q = applied P' d q := by
  rcases relate [k] q with ⟨r, rfl⟩ | ⟨j, r, hr⟩ | hapart
  · rw [write_below]
    exact hchild r
  · cases q with
    | nil => exact absurd rfl hq
    | cons i q => simp at hr
  · rw [write_apart _ hapart]
    apply h.applied_apart
    cases q with
    | nil => exact absurd rfl hq
    | cons j q =>
        have hjk : k ≠ j := by
          rintro rfl
          exact hapart.left (by simp)
        exact ⟨fun hpre => hjk (List.cons_prefix_cons.mp hpre).left,
          fun hpre => hjk (List.cons_prefix_cons.mp hpre).left.symm⟩

/-- A value at the root that comes back leaves nothing else. -/
theorem AgreeOff.vacant_child {k : Key} {p : List Key} (h : AgreeOff (k :: p) P P')
    (hP' : Closed P') (hp : P' (k :: p) = none) (hsolid : Solid d)
    {child : List Key -> Option V} (hchild : forall r, child r = applied P' d (k :: r))
    (hd : d [] ≠ none) (hraised : ¬ Raised P' [])
    (hroot : clearedBy child (applied P d []) ≠ d []) :
    Vacant (write (applied P d) [k] child) := by
  have hnone := h.none_above hP' hp (q := []) (k := k) (r := p) rfl
  have hempty : forall s, s ≠ [] -> d ([] ++ s) = none := fun s hs => hsolid [] s hs hd
  have hrest : forall s, s ≠ [] -> applied P' d ([] ++ s) = none := by
    intro s hs
    by_contra hcon
    exact hraised ((raised_iff_of_value hnone.right hempty).mpr ⟨s, hs, hcon⟩)
  have hvacant : Vacant child := by
    intro r
    rw [hchild r]
    exact hrest (k :: r) (by simp)
  intro q
  by_cases hq : q = []
  · rw [hq, write_root, clearedBy_vacant hvacant]
    rw [clearedBy_vacant hvacant] at hroot
    by_cases hr : Raised P []
    · exact applied_raised hnone.left hr
    · exact absurd (applied_not_raised hnone.left hr) hroot
  · rw [h.write_child hchild hq]
    exact hrest q hq

/--
Recomputing one child of the root after a write was taken back gives all values,
unless a value at the root comes back.
-/
theorem AgreeOff.applied_child {k : Key} {p : List Key} (h : AgreeOff (k :: p) P P')
    (hP' : Closed P') (hp : P' (k :: p) = none) (hsolid : Solid d)
    {child : List Key -> Option V} (hchild : forall r, child r = applied P' d (k :: r)) :
    write (applied P d) [k] child = applied P' d ∨
      (Vacant (write (applied P d) [k] child) ∧ applied P' d [] ≠ none) := by
  have hnone := h.none_above hP' hp (q := []) (k := k) (r := p) rfl
  have hroot := write_root (applied P d) k [] child
  by_cases heq : clearedBy child (applied P d []) = applied P' d []
  · left
    funext q
    by_cases hq : q = []
    · rw [hq]
      exact hroot.trans heq
    · exact h.write_child hchild hq
  · right
    have hd : d [] ≠ none := by
      intro hd
      rw [applied_of_none hnone.left hd, applied_of_none hnone.right hd, clearedBy_none] at heq
      exact heq rfl
    have hempty : forall s, s ≠ [] -> d ([] ++ s) = none := fun s hs => hsolid [] s hs hd
    have hraised : ¬ Raised P' [] := by
      intro hraised
      rw [applied_raised hnone.right hraised] at heq
      rcases (raised_iff_of_value hnone.right hempty).mp hraised with ⟨s, hne, hs⟩
      have hr : ¬ Raised P [] := by
        intro hr
        rw [applied_raised hnone.left hr, clearedBy_none] at heq
        exact heq rfl
      -- so the pending value lies under `k`, where the two maps may differ
      rcases relate [k] s with ⟨r, rfl⟩ | ⟨j, r, hr'⟩ | hapart
      · exact heq (clearedBy_of_ne (q := r) (by rw [hchild r]; exact hs) _)
      · cases s with
        | nil => exact absurd rfl hne
        | cons i s => simp at hr'
      · rw [List.nil_append, ← h.write_child hchild hne, write_apart _ hapart] at hs
        exact hr ((raised_iff_of_value hnone.left hempty).mpr ⟨s, hne, hs⟩)
    rw [applied_not_raised hnone.right hraised] at heq ⊢
    exact ⟨h.vacant_child hP' hp hsolid hchild hd hraised heq, hd⟩

/-!
## Lists of pending writes
-/

abbrev PathWrite (Key V : Type) := List Key × (List Key -> Option V)

noncomputable def addAll (P : Pending Key V) (ws : List (PathWrite Key V)) : Pending Key V :=
  ws.foldl (fun P w => add P w.1 w.2) P

noncomputable def writeAll (d : List Key -> Option V) (ws : List (PathWrite Key V)) :
    List Key -> Option V :=
  ws.foldl (fun d w => write d w.1 w.2) d

noncomputable def pendingOf (ws : List (PathWrite Key V)) : Pending Key V :=
  addAll (fun _ => none) ws

/-- No write of the list erases anything below a value. -/
def ClearOf (d : List Key -> Option V) (ws : List (PathWrite Key V)) : Prop :=
  forall w, w ∈ ws -> Vacant w.2 -> Clear d w.1

theorem addAll_append (P : Pending Key V) (front back : List (PathWrite Key V)) :
    addAll P (front ++ back) = addAll (addAll P front) back :=
  List.foldl_append

theorem addAll_cons (P : Pending Key V) (w : PathWrite Key V) (ws : List (PathWrite Key V)) :
    addAll P (w :: ws) = addAll (add P w.1 w.2) ws := rfl

theorem Closed.addAll (hP : Closed P) (ws : List (PathWrite Key V)) :
    Closed (addAll P ws) := by
  induction ws generalizing P with
  | nil => exact hP
  | cons w ws ih => exact ih (hP.add w.1 w.2)

theorem closed_pendingOf (ws : List (PathWrite Key V)) : Closed (pendingOf ws) :=
  closed_none.addAll ws

theorem addAll_ne_none {ws : List (PathWrite Key V)} {q : List Key}
    (h : addAll P ws q ≠ none) : P q ≠ none ∨ exists w, w ∈ ws ∧ w.1 <+: q := by
  induction ws generalizing P with
  | nil => exact Or.inl h
  | cons w ws ih =>
      rw [addAll_cons] at h
      rcases ih h with hadd | ⟨w', hw', hpre⟩
      · rcases relate w.1 q with ⟨r, rfl⟩ | ⟨k, r, hr⟩ | hapart
        · exact Or.inr ⟨w, List.mem_cons_self, List.prefix_append _ _⟩
        · rw [hr, add_above] at hadd
          exact Or.inl (by simpa using hadd)
        · rw [add_apart P hapart] at hadd
          exact Or.inl hadd
      · exact Or.inr ⟨w', List.mem_cons_of_mem w hw', hpre⟩

theorem addAll_covered {ws : List (PathWrite Key V)} {q : List Key} (h : P q ≠ none) :
    addAll P ws q ≠ none := by
  induction ws generalizing P with
  | nil => exact h
  | cons w ws ih => exact ih (add_ne_none w.2 h)

theorem pendingOf_eq_none_iff {ws : List (PathWrite Key V)} {q : List Key} :
    pendingOf ws q = none <-> forall w, w ∈ ws -> ¬ w.1 <+: q := by
  constructor
  · rintro h w hw ⟨r, rfl⟩
    rcases List.append_of_mem hw with ⟨front, back, rfl⟩
    rw [pendingOf, addAll_append, addAll_cons] at h
    refine addAll_covered ?_ h
    rw [add_below]
    simp
  · intro h
    by_contra hne
    rcases addAll_ne_none hne with hnone | ⟨w, hw, hpre⟩
    · exact hnone rfl
    · exact h w hw hpre

/-- Pending writes act as the writes made one after the other. -/
theorem applied_addAll {ws : List (PathWrite Key V)} (h : ClearOf d ws) :
    applied (addAll P ws) d = writeAll (applied P d) ws := by
  induction ws generalizing P with
  | nil => rfl
  | cons w ws ih =>
      have hstep := applied_add (P := P) (h w List.mem_cons_self)
      have hrest := ih (P := add P w.1 w.2) (fun w' hw' => h w' (List.mem_cons_of_mem w hw'))
      rw [hstep] at hrest
      exact hrest

theorem applied_pendingOf {ws : List (PathWrite Key V)} (h : ClearOf d ws) :
    applied (pendingOf ws) d = writeAll d ws := by
  rw [pendingOf, applied_addAll h, applied_none]

theorem Visible.add (hP : Visible P d) {p : List Key} {new : List Key -> Option V}
    (h : Vacant new -> Clear d p) : Visible (add P p new) d := by
  intro q r hq hr hd
  rcases relate p q with ⟨s, rfl⟩ | ⟨k, s, rfl⟩ | hapart
  · rw [add_below] at hq
    cases hq
  · by_cases hvacant : Vacant new
    · exact absurd (h hvacant q k s rfl) hd
    · rcases exists_ne_of_not_vacant hvacant with ⟨u, hu⟩
      rcases Option.ne_none_iff_exists'.mp hu with ⟨v, hv⟩
      exact ⟨k :: s ++ u, v, by rw [← List.append_assoc, add_below, hv]⟩
  · rw [add_apart P hapart] at hq
    rw [add_apart P (hapart.append r)] at hr
    rcases hP q r hq hr hd with ⟨u, v, hu⟩
    exact ⟨u, v, by rw [add_apart P (hapart.append u), hu]⟩

theorem Visible.addAll (hP : Visible P d) {ws : List (PathWrite Key V)} (h : ClearOf d ws) :
    Visible (addAll P ws) d := by
  induction ws generalizing P with
  | nil => exact hP
  | cons w ws ih =>
      exact ih (hP.add (h w List.mem_cons_self))
        (fun w' hw' => h w' (List.mem_cons_of_mem w hw'))

theorem visible_pendingOf {ws : List (PathWrite Key V)} (h : ClearOf d ws) :
    Visible (pendingOf ws) d := by
  apply Visible.addAll _ h
  intro q r hq hr hd
  exact absurd rfl hr

theorem AgreeOff.add {p : List Key} (h : AgreeOff p P P') (r : List Key)
    (new : List Key -> Option V) : AgreeOff p (Overlay.add P r new) (Overlay.add P' r new) := by
  intro q hq
  rcases relate r q with ⟨s, rfl⟩ | ⟨k, s, rfl⟩ | hapart
  · rw [add_below, add_below]
  · rw [add_above, add_above, h q hq]
  · rw [add_apart P hapart, add_apart P' hapart, h q hq]

theorem AgreeOff.addAll {p : List Key} (h : AgreeOff p P P') (ws : List (PathWrite Key V)) :
    AgreeOff p (Overlay.addAll P ws) (Overlay.addAll P' ws) := by
  induction ws generalizing P P' with
  | nil => exact h
  | cons w ws ih => exact ih (h.add w.1 w.2)

/-- A later write at or above the path hides the difference. -/
theorem AgreeOff.add_covering {p r : List Key} (h : AgreeOff p P P') (hrp : r <+: p)
    (new : List Key -> Option V) : Overlay.add P r new = Overlay.add P' r new := by
  funext q
  rcases relate r q with ⟨s, rfl⟩ | ⟨k, s, hr⟩ | hapart
  · rw [add_below, add_below]
  · have hq : ¬ p <+: q := by
      intro hpq
      rw [hr] at hrp
      exact not_prefix_above q k s (hrp.trans hpq)
    subst hr
    rw [add_above, add_above, h q hq]
  · have hq : ¬ p <+: q := fun hpq => hapart.left (hrp.trans hpq)
    rw [add_apart P hapart, add_apart P' hapart, h q hq]

/--
Taking back a write with no earlier write at or above its path changes nothing
off that path.
-/
theorem pendingOf_remove {front : List (PathWrite Key V)} (back : List (PathWrite Key V))
    {w : PathWrite Key V} (h : forall w', w' ∈ front -> ¬ w'.1 <+: w.1) :
    AgreeOff w.1 (pendingOf (front ++ w :: back)) (pendingOf (front ++ back)) := by
  unfold pendingOf
  rw [addAll_append, addAll_append, addAll_cons]
  apply AgreeOff.addAll
  intro q hq
  rcases relate w.1 q with ⟨r, rfl⟩ | ⟨k, r, hr⟩ | hapart
  · exact absurd (List.prefix_append _ _) hq
  · have hnone : addAll (fun _ => none) front q = none := by
      apply pendingOf_eq_none_iff.mpr
      intro w' hw' hpre
      apply h w' hw'
      rw [hr]
      exact hpre.trans (List.prefix_append _ _)
    rw [hr, add_above, hnone]
    rfl
  · exact add_apart _ hapart w.2

/-- Taking back a write that a later one hides changes nothing at all. -/
theorem pendingOf_remove_hidden {front back : List (PathWrite Key V)} {w : PathWrite Key V}
    (h : forall w', w' ∈ front -> ¬ w'.1 <+: w.1)
    (hback : exists w', w' ∈ back ∧ w'.1 <+: w.1) :
    pendingOf (front ++ w :: back) = pendingOf (front ++ back) := by
  rcases hback with ⟨w', hw', hpre⟩
  rcases List.append_of_mem hw' with ⟨mid, rest, rfl⟩
  have hagree := pendingOf_remove mid h
  have hsplit : forall ws, pendingOf (ws ++ (mid ++ w' :: rest)) =
      addAll (add (pendingOf (ws ++ mid)) w'.1 w'.2) rest := by
    intro ws
    rw [pendingOf, ← List.append_assoc, addAll_append, addAll_cons]
    rfl
  have hfirst := hsplit (front ++ [w])
  rw [List.append_assoc, List.append_assoc] at hfirst
  rw [hsplit front, ← AgreeOff.add_covering hagree hpre w'.2]
  exact hfirst

end Overlay
end Foundation
end MyMovies
