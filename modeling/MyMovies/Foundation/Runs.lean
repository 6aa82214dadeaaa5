import Mathlib.Logic.Basic
import Mathlib.Data.List.Basic

/-!
# Runs of event-driven systems

An event-driven program handles one event at a time.  Its handler is a partial
step function: `none` means that the handler trapped, after which the process
is gone and no later event is handled.  This module folds a step function over
a list of events and supplies the induction rules used for such runs: an
invariant of every step is an invariant of every run, and a property that each
guarded step keeps, and each unguarded step breaks, holds along a run exactly
when every step of the run is guarded.
-/

namespace MyMovies
namespace Foundation
namespace Runs

variable {State Event : Type*}

/-- State after a list of events; `none` as soon as one of them traps. -/
def run (step : State -> Event -> Option State) :
    State -> List Event -> Option State
  | s, [] => some s
  | s, e :: rest => (step s e).bind fun s' => run step s' rest

variable {step : State -> Event -> Option State}

@[simp] theorem run_nil (s : State) : run step s [] = some s := rfl

theorem run_cons (s : State) (e : Event) (rest : List Event) :
    run step s (e :: rest) = (step s e).bind fun s' => run step s' rest := rfl

theorem run_cons_some {s t : State} {e : Event} {rest : List Event}
    (h : run step s (e :: rest) = some t) :
    exists s', step s e = some s' ∧ run step s' rest = some t := by
  rw [run_cons] at h
  exact Option.bind_eq_some_iff.mp h

theorem run_append (s : State) (front back : List Event) :
    run step s (front ++ back) =
      (run step s front).bind fun s' => run step s' back := by
  induction front generalizing s with
  | nil => rfl
  | cons e rest ih =>
      rw [List.cons_append, run_cons, run_cons, Option.bind_assoc]
      congr 1
      funext s'
      exact ih s'

/-!
## Invariants
-/

/-- A property kept by every step holds in the last state of every run. -/
theorem run_invariant {I : State -> Prop}
    (hstep : forall s e s', I s -> step s e = some s' -> I s')
    {s t : State} {es : List Event}
    (hs : I s) (h : run step s es = some t) : I t := by
  induction es generalizing s with
  | nil =>
      cases h
      exact hs
  | cons e rest ih =>
      rcases run_cons_some h with ⟨s', hfirst, hrest⟩
      exact ih (hstep s e s' hs hfirst) hrest

/--
The rule for runs whose events are restricted: only the steps of the events
that satisfy `A` have to keep the invariant.
-/
theorem run_invariant_of_events {I : State -> Prop} {A : Event -> Prop}
    (hstep : forall s e s', A e -> I s -> step s e = some s' -> I s')
    {s t : State} {es : List Event}
    (hes : forall e, e ∈ es -> A e)
    (hs : I s) (h : run step s es = some t) : I t := by
  induction es generalizing s with
  | nil =>
      cases h
      exact hs
  | cons e rest ih =>
      rcases run_cons_some h with ⟨s', hfirst, hrest⟩
      exact ih (fun e' he' => hes e' (List.mem_cons_of_mem e he'))
        (hstep s e s' (hes e List.mem_cons_self) hs hfirst) hrest

/-!
## Properties along a run
-/

/-- No event of the run traps and every state it visits satisfies `P`. -/
def Along (step : State -> Event -> Option State) (P : State -> Prop) :
    State -> List Event -> Prop
  | s, [] => P s
  | s, e :: rest => P s ∧ exists s', step s e = some s' ∧ Along step P s' rest

/-- Every event of the run is handled in a state where `G` allows it. -/
def Guarded (step : State -> Event -> Option State)
    (G : State -> Event -> Prop) : State -> List Event -> Prop
  | _, [] => True
  | s, e :: rest =>
      G s e ∧ forall s', step s e = some s' -> Guarded step G s' rest

theorem along_head {P : State -> Prop} {s : State} {es : List Event}
    (h : Along step P s es) : P s := by
  cases es with
  | nil => exact h
  | cons e rest => exact h.left

theorem along_iff {P : State -> Prop} {s : State} {es : List Event} :
    Along step P s es <->
      (exists t, run step s es = some t) ∧
        forall front back t, es = front ++ back ->
          run step s front = some t -> P t := by
  induction es generalizing s with
  | nil =>
      constructor
      · intro h
        refine ⟨⟨s, rfl⟩, ?_⟩
        intro front back t hsplit hrun
        have hfront : front = [] := (List.append_eq_nil_iff.mp hsplit.symm).left
        rw [hfront] at hrun
        cases hrun
        exact h
      · intro h
        exact h.right [] [] s rfl rfl
  | cons e rest ih =>
      constructor
      · intro halong
        rcases halong with ⟨hP, s', hstep, hrest⟩
        rcases ih.mp hrest with ⟨⟨t, hrun⟩, hvisited⟩
        refine ⟨⟨t, by rw [run_cons, hstep]; exact hrun⟩, ?_⟩
        intro front back u hsplit hfront
        cases front with
        | nil =>
            cases hfront
            exact hP
        | cons e' front =>
            rw [List.cons_append, List.cons.injEq] at hsplit
            rcases hsplit with ⟨rfl, hsplit⟩
            rcases run_cons_some hfront with ⟨s'', hstep', hfront'⟩
            rw [hstep] at hstep'
            cases hstep'
            exact hvisited front back u hsplit hfront'
      · intro hvisits
        rcases hvisits with ⟨⟨t, hrun⟩, hvisited⟩
        rcases run_cons_some hrun with ⟨s', hstep, hrest⟩
        refine ⟨hvisited [] (e :: rest) s rfl rfl, s', hstep, ih.mpr ⟨⟨t, hrest⟩, ?_⟩⟩
        intro front back u hsplit hfront
        refine hvisited (e :: front) back u (by rw [hsplit]; rfl) ?_
        rw [run_cons, hstep]
        exact hfront

/--
A property holds along a run exactly when every step is guarded, provided the
guard is exact for single steps from the states that satisfy the property.
-/
theorem along_iff_guarded {I P : State -> Prop} {G : State -> Event -> Prop}
    (hinv : forall s e s', I s -> P s -> step s e = some s' -> I s')
    (hexact : forall s e, I s -> P s ->
      ((exists s', step s e = some s' ∧ P s') <-> G s e))
    {s : State} (hI : I s) (hP : P s) (es : List Event) :
    Along step P s es <-> Guarded step G s es := by
  induction es generalizing s with
  | nil => exact ⟨fun _ => trivial, fun _ => hP⟩
  | cons e rest ih =>
      constructor
      · intro halong
        rcases halong with ⟨_, s', hstep, hrest⟩
        have hP' : P s' := along_head hrest
        refine ⟨(hexact s e hI hP).mp ⟨s', hstep, hP'⟩, ?_⟩
        intro s'' hstep'
        rw [hstep] at hstep'
        cases hstep'
        exact (ih (hinv s e s' hI hP hstep) hP').mp hrest
      · intro hguarded
        rcases hguarded with ⟨hG, hrest⟩
        rcases (hexact s e hI hP).mpr hG with ⟨s', hstep, hP'⟩
        exact ⟨hP, s', hstep,
          (ih (hinv s e s' hI hP hstep) hP').mpr (hrest s' hstep)⟩

theorem along_of_step {P : State -> Prop}
    (hstep : forall s e, P s -> exists s', step s e = some s' ∧ P s')
    {s : State} (hs : P s) (es : List Event) : Along step P s es := by
  induction es generalizing s with
  | nil => exact hs
  | cons e rest ih =>
      rcases hstep s e hs with ⟨s', hfirst, hs'⟩
      exact ⟨hs, s', hfirst, ih hs'⟩

theorem Along.imp {P Q : State -> Prop} (hPQ : forall s, P s -> Q s) {s : State}
    {es : List Event} (h : Along step P s es) : Along step Q s es := by
  induction es generalizing s with
  | nil => exact hPQ s h
  | cons e rest ih =>
      rcases h with ⟨hP, s', hstep, hrest⟩
      exact ⟨hPQ s hP, s', hstep, ih hrest⟩

theorem Along.last {P : State -> Prop} {s t : State} {es : List Event}
    (h : Along step P s es) (hrun : run step s es = some t) : P t :=
  (along_iff.mp h).right es [] t (List.append_nil es).symm hrun

/-!
## Properties of every state visited
-/

/-- Every state that the run visits satisfies `P`; a trap ends the run. -/
def Always (step : State -> Event -> Option State) (P : State -> Prop) :
    State -> List Event -> Prop
  | s, [] => P s
  | s, e :: rest => P s ∧ forall s', step s e = some s' -> Always step P s' rest

theorem always_head {P : State -> Prop} {s : State} {es : List Event}
    (h : Always step P s es) : P s := by
  cases es with
  | nil => exact h
  | cons e rest => exact h.left

theorem always_iff {P : State -> Prop} {s : State} {es : List Event} :
    Always step P s es <->
      forall front back t, es = front ++ back -> run step s front = some t -> P t := by
  induction es generalizing s with
  | nil =>
      constructor
      · intro h front back t hsplit hrun
        have hfront : front = [] := (List.append_eq_nil_iff.mp hsplit.symm).left
        rw [hfront] at hrun
        cases hrun
        exact h
      · intro h
        exact h [] [] s rfl rfl
  | cons e rest ih =>
      constructor
      · intro halways front back t hsplit hrun
        rcases halways with ⟨hP, hrest⟩
        cases front with
        | nil =>
            cases hrun
            exact hP
        | cons e' front =>
            rw [List.cons_append, List.cons.injEq] at hsplit
            rcases hsplit with ⟨rfl, hsplit⟩
            rcases run_cons_some hrun with ⟨s', hstep, hfront⟩
            exact ih.mp (hrest s' hstep) front back t hsplit hfront
      · intro h
        refine ⟨h [] (e :: rest) s rfl rfl, ?_⟩
        intro s' hstep
        apply ih.mpr
        intro front back t hsplit hfront
        refine h (e :: front) back t (by rw [hsplit]; rfl) ?_
        rw [run_cons, hstep]
        exact hfront

theorem Always.last {P : State -> Prop} {s t : State} {es : List Event}
    (h : Always step P s es) (hrun : run step s es = some t) : P t :=
  always_iff.mp h es [] t (List.append_nil es).symm hrun

/-- The rule for `Always`: the guard says which steps keep the property. -/
theorem always_iff_guarded {I P : State -> Prop} {G : State -> Event -> Prop}
    (hinv : forall s e s', I s -> step s e = some s' -> I s')
    (hexact : forall s e, I s -> P s ->
      ((forall s', step s e = some s' -> P s') <-> G s e))
    {s : State} (hI : I s) (hP : P s) (es : List Event) :
    Always step P s es <-> Guarded step G s es := by
  induction es generalizing s with
  | nil => exact ⟨fun _ => trivial, fun _ => hP⟩
  | cons e rest ih =>
      constructor
      · intro halways
        rcases halways with ⟨_, hrest⟩
        have hnext : forall s', step s e = some s' -> P s' :=
          fun s' hstep => always_head (hrest s' hstep)
        refine ⟨(hexact s e hI hP).mp hnext, ?_⟩
        intro s' hstep
        exact (ih (hinv s e s' hI hstep) (hnext s' hstep)).mp (hrest s' hstep)
      · intro hguarded
        rcases hguarded with ⟨hG, hrest⟩
        have hnext := (hexact s e hI hP).mpr hG
        refine ⟨hP, ?_⟩
        intro s' hstep
        exact (ih (hinv s e s' hI hstep) (hnext s' hstep)).mpr (hrest s' hstep)

/-!
## Runs without a trap
-/

theorem run_iff_guarded {I : State -> Prop} {G : State -> Event -> Prop}
    (hinv : forall s e s', I s -> step s e = some s' -> I s')
    (hexact : forall s e, I s -> ((exists s', step s e = some s') <-> G s e))
    {s : State} (hI : I s) (es : List Event) :
    (exists t, run step s es = some t) <-> Guarded step G s es := by
  have hguarded := along_iff_guarded (P := fun _ => True) (fun s e s' hs _ h => hinv s e s' hs h)
    (fun s e hs _ => by simpa using hexact s e hs) hI trivial es
  rw [← hguarded, along_iff]
  simp

/-- The rule for `Along` under a guard, with an assumption on the states that are visited. -/
theorem along_of_guarded {I C : State -> Prop} {G : State -> Event -> Prop}
    (hstep : forall s e, I s -> C s -> G s e -> exists s', step s e = some s' ∧ (C s' -> I s'))
    {s : State} {es : List Event} (hI : I s) (hC : Always step C s es)
    (hG : Guarded step G s es) : Along step (fun s => I s ∧ C s) s es := by
  induction es generalizing s with
  | nil => exact ⟨hI, hC⟩
  | cons e rest ih =>
      rcases hstep s e hI hC.left hG.left with ⟨s', hfirst, hkeeps⟩
      have hrest := hC.right s' hfirst
      exact ⟨⟨hI, hC.left⟩, s', hfirst, ih (hkeeps (always_head hrest)) hrest (hG.right s' hfirst)⟩

/-- The rule for `Always` under a guard; a trap ends the run. -/
theorem always_of_guarded {I C : State -> Prop} {G : State -> Event -> Prop}
    (hstep : forall s e s', I s -> C s -> G s e -> step s e = some s' -> C s' -> I s')
    {s : State} {es : List Event} (hI : I s) (hC : Always step C s es)
    (hG : Guarded step G s es) : Always step (fun s => I s ∧ C s) s es := by
  induction es generalizing s with
  | nil => exact ⟨hI, hC⟩
  | cons e rest ih =>
      refine ⟨⟨hI, hC.left⟩, ?_⟩
      intro s' hfirst
      have hrest := hC.right s' hfirst
      exact ih (hstep s e s' hI hC.left hG.left hfirst (always_head hrest)) hrest
        (hG.right s' hfirst)

/-- A guard that is exact for the steps that another one lets through. -/
theorem along_iff_guarded_within {I P : State -> Prop} {G H : State -> Event -> Prop}
    (hstep : forall s e, I s -> H s e ->
      exists s', step s e = some s' ∧ I s' ∧ (P s -> (P s' <-> G s e)))
    {s : State} {es : List Event} (hI : I s) (hP : P s) (hH : Guarded step H s es) :
    Along step P s es <-> Guarded step G s es := by
  induction es generalizing s with
  | nil => exact ⟨fun _ => trivial, fun _ => hP⟩
  | cons e rest ih =>
      rcases hstep s e hI hH.left with ⟨s', hfirst, hI', hexact⟩
      have hnext : forall s'', step s e = some s'' -> s'' = s' := by
        intro s'' hstep'
        rw [hfirst] at hstep'
        exact (Option.some.inj hstep').symm
      constructor
      · intro halong
        rcases halong with ⟨_, s'', hstep', hrest⟩
        cases hnext s'' hstep'
        have hP' : P s' := along_head hrest
        refine ⟨(hexact hP).mp hP', ?_⟩
        intro s'' hstep''
        cases hnext s'' hstep''
        exact (ih hI' hP' (hH.right s' hfirst)).mp hrest
      · intro hguarded
        have hP' := (hexact hP).mpr hguarded.left
        exact ⟨hP, s', hfirst,
          (ih hI' hP' (hH.right s' hfirst)).mpr (hguarded.right s' hfirst)⟩

theorem Always.imp {P Q : State -> Prop} (hPQ : forall s, P s -> Q s) {s : State}
    {es : List Event} (h : Always step P s es) : Always step Q s es := by
  induction es generalizing s with
  | nil => exact hPQ s h
  | cons e rest ih => exact ⟨hPQ s h.left, fun s' hstep => ih (h.right s' hstep)⟩

theorem Guarded.and {G H : State -> Event -> Prop} {s : State} {es : List Event}
    (hG : Guarded step G s es) (hH : Guarded step H s es) :
    Guarded step (fun s e => G s e ∧ H s e) s es := by
  induction es generalizing s with
  | nil => trivial
  | cons e rest ih =>
      exact ⟨⟨hG.left, hH.left⟩, fun s' hstep => ih (hG.right s' hstep) (hH.right s' hstep)⟩

theorem guarded_append {G : State -> Event -> Prop} {s t : State} {front back : List Event}
    (hfront : Guarded step G s front) (hrun : run step s front = some t)
    (hback : Guarded step G t back) : Guarded step G s (front ++ back) := by
  induction front generalizing s with
  | nil =>
      cases hrun
      exact hback
  | cons e rest ih =>
      refine ⟨hfront.left, fun s' hstep => ?_⟩
      rcases run_cons_some hrun with ⟨s'', hstep', hrest⟩
      rw [hstep] at hstep'
      cases hstep'
      exact ih (hfront.right s' hstep) hrest

theorem always_append {P : State -> Prop} {s : State} {front back : List Event}
    (h : Always step P s (front ++ back)) :
    Always step P s front ∧ forall t, run step s front = some t -> Always step P t back := by
  induction front generalizing s with
  | nil =>
      have hs : P s := always_head h
      refine ⟨hs, ?_⟩
      intro t hrun
      cases hrun
      exact h
  | cons e rest ih =>
      refine ⟨⟨h.left, fun s' hstep => (ih (h.right s' hstep)).left⟩, ?_⟩
      intro t hrun
      rcases run_cons_some hrun with ⟨s', hstep, hrun⟩
      exact (ih (h.right s' hstep)).right t hrun

/-- What must hold after a step, decided by taking it. -/
def decidableStep (step : State -> Event -> Option State) {P : State -> Prop}
    (hP : forall s, Decidable (P s)) (s : State) (e : Event) :
    Decidable (forall s', step s e = some s' -> P s') :=
  match hstep : step s e with
  | none => isTrue fun s' h => by cases h
  | some s' =>
      match hP s' with
      | isTrue h => isTrue fun s'' heq => by
          cases heq
          exact h
      | isFalse h => isFalse fun hall => h (hall s' rfl)

instance Always.decidable {P : State -> Prop} [DecidablePred P] (s : State) :
    forall es : List Event, Decidable (Always step P s es)
  | [] => inferInstanceAs (Decidable (P s))
  | e :: rest =>
      @instDecidableAnd (P s) (forall s', step s e = some s' -> Always step P s' rest)
        inferInstance (decidableStep step (fun s' => Always.decidable s' rest) s e)

instance Guarded.decidable {G : State -> Event -> Prop} [DecidableRel G] (s : State) :
    forall es : List Event, Decidable (Guarded step G s es)
  | [] => inferInstanceAs (Decidable True)
  | e :: rest =>
      @instDecidableAnd (G s e) (forall s', step s e = some s' -> Guarded step G s' rest)
        inferInstance (decidableStep step (fun s' => Guarded.decidable s' rest) s e)

end Runs
end Foundation
end MyMovies
