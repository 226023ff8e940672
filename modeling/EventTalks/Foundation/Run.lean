import Mathlib.Data.List.Basic
import Mathlib.Tactic.Common

/-! # Runs of labelled systems

A system says which states an event may lead to. A run takes the events of a
list one after the other, and a predicate that no step leaves holds after every
run that starts in it (`Foundation.System.Run.preserves`). Restricting a system
to the events that a condition on the present state allows turns a statement
about all runs whose steps meet the condition into one about all runs of the
restricted system (`Foundation.System.restrict`); a run of the system restricted to
good steps is a run all of whose steps are good (`Foundation.System.every`).
-/

namespace Foundation

/-- A labelled transition system. -/
structure System (State Event : Type*) where
  step : State → Event → State → Prop

namespace System

variable {State Event : Type*}

/-- The steps of a system whose event a condition allows in the state before. -/
def restrict (system : System State Event) (allowed : State → Event → Prop) :
    System State Event where
  step before event after := allowed before event ∧ system.step before event after

/-- The steps of a system that meet a condition. -/
def every (system : System State Event) (good : State → Event → State → Prop) :
    System State Event where
  step before event after := good before event after ∧ system.step before event after

/-- The states a list of events leads through. -/
inductive Run (system : System State Event) : State → List Event → State → Prop
  | nil (state : State) : Run system state [] state
  | cons {before middle after : State} {event : Event} {events : List Event} :
      system.step before event middle → Run system middle events after →
      Run system before (event :: events) after

namespace Run

variable {system : System State Event} {before middle after : State} {events : List Event}

/-- A predicate that every step keeps holds after every run that starts in it. -/
theorem preserves (run : system.Run before events after) (invariant : State → Prop)
    (stable : ∀ state event next, invariant state → system.step state event next → invariant next)
    (initially : invariant before) : invariant after := by
  induction run with
  | nil state => exact initially
  | cons stepped _ ih => exact ih (stable _ _ _ initially stepped)

/-- What every step keeps of the state and of a value that the events are folded into holds
after every run. -/
theorem preserves_foldl {Value : Type*} {value : Value} (run : system.Run before events after)
    (write : Value → Event → Value) (invariant : State → Value → Prop)
    (stable : ∀ state value event next, invariant state value → system.step state event next →
      invariant next (write value event)) (initially : invariant before value) :
    invariant after (events.foldl write value) := by
  induction run generalizing value with
  | nil state => exact initially
  | cons stepped _ ih => exact ih (stable _ _ _ _ initially stepped)

/-- A run over a nonempty list splits off its first step. -/
theorem cons_inv {event : Event} (run : system.Run before (event :: events) after) :
    ∃ middle, system.step before event middle ∧ system.Run middle events after := by
  cases run with
  | cons stepped rest => exact ⟨_, stepped, rest⟩

theorem nil_inv (run : system.Run before [] after) : after = before := by
  cases run
  rfl

theorem append {events' : List Event} (run : system.Run before events middle)
    (rest : system.Run middle events' after) : system.Run before (events ++ events') after := by
  induction run with
  | nil state => exact rest
  | cons stepped _ ih => exact .cons stepped (ih rest)

/-- What every step says of its event holds of every event of a run. -/
theorem forall_events (run : system.Run before events after) (predicate : Event → Prop)
    (tells : ∀ state event next, system.step state event next → predicate event) :
    ∀ event ∈ events, predicate event := by
  induction run with
  | nil state => simp
  | cons stepped _ ih => exact List.forall_mem_cons.mpr ⟨tells _ _ _ stepped, ih⟩

/-- A run meets a condition at every step once an invariant carries it through the
steps whose events satisfy a predicate, and all its events do. -/
theorem every_of_invariant (run : system.Run before events after) (invariant : State → Prop)
    {predicate : Event → Prop} {good : State → Event → State → Prop}
    (stable : ∀ state event next, invariant state → predicate event →
      system.step state event next → good state event next ∧ invariant next)
    (initially : invariant before)
    (allowed : ∀ event ∈ events, predicate event) :
    (system.every good).Run before events after := by
  induction run with
  | nil state => exact .nil state
  | cons stepped _ ih =>
      obtain ⟨here, later⟩ := List.forall_mem_cons.mp allowed
      obtain ⟨met, kept⟩ := stable _ _ _ initially here stepped
      exact .cons ⟨met, stepped⟩ (ih kept later)

/-- A run of a system is one of every system that has its steps. -/
theorem mono {wider : System State Event} (run : system.Run before events after)
    (steps : ∀ state event next, system.step state event next → wider.step state event next) :
    wider.Run before events after := by
  induction run with
  | nil state => exact .nil state
  | cons stepped _ ih => exact .cons (steps _ _ _ stepped) ih

/-- A run of a restricted system is one of the system. -/
theorem of_restrict {allowed : State → Event → Prop}
    (run : (system.restrict allowed).Run before events after) : system.Run before events after :=
  run.mono fun _ _ _ step => step.2

/-- A run of a system is one of every system that has its steps along an invariant. -/
theorem mono_of_invariant {wider : System State Event} (run : system.Run before events after)
    (invariant : State → Prop)
    (steps : ∀ state event next, invariant state → system.step state event next →
      wider.step state event next ∧ invariant next)
    (initially : invariant before) : wider.Run before events after := by
  induction run with
  | nil state => exact .nil state
  | cons stepped _ ih =>
      obtain ⟨taken, kept⟩ := steps _ _ _ initially stepped
      exact .cons taken (ih kept)

/-- Two systems have the same runs when they have the same steps along an invariant. -/
theorem iff_of_invariant {other : System State Event} (invariant : State → Prop)
    (agree : ∀ state event next, invariant state →
      (system.step state event next ↔ other.step state event next))
    (stable : ∀ state event next, invariant state → system.step state event next → invariant next)
    (initially : invariant before) :
    system.Run before events after ↔ other.Run before events after := by
  constructor
  · intro run
    refine run.mono_of_invariant invariant (fun state event next holds step => ?_) initially
    exact ⟨(agree state event next holds).mp step, stable state event next holds step⟩
  · intro run
    refine run.mono_of_invariant invariant (fun state event next holds step => ?_) initially
    have taken := (agree state event next holds).mpr step
    exact ⟨taken, stable state event next holds taken⟩

/-- A run is carried over to another system, step by step, along an invariant. -/
theorem simulates {State' Event' : Type*} {other : System State' Event'}
    (run : system.Run before events after) (invariant : State → Prop) {abstract : State → State'}
    {label : Event → Event'}
    (simulated : ∀ state event next, invariant state → system.step state event next →
      other.step (abstract state) (label event) (abstract next) ∧ invariant next)
    (initially : invariant before) :
    other.Run (abstract before) (events.map label) (abstract after) := by
  induction run with
  | nil state => exact .nil _
  | cons stepped _ ih =>
      obtain ⟨moved, kept⟩ := simulated _ _ _ initially stepped
      exact .cons moved (ih kept)

/-- A run is carried over to another system in which some of its steps do nothing. -/
theorem simulates_some {State' Event' : Type*} {other : System State' Event'}
    (run : system.Run before events after) (invariant : State → Prop) {abstract : State → State'}
    {label : Event → Option Event'}
    (simulated : ∀ state event next, invariant state → system.step state event next →
      (match label event with
        | some seen => other.step (abstract state) seen (abstract next)
        | none => abstract next = abstract state) ∧ invariant next)
    (initially : invariant before) :
    other.Run (abstract before) (events.filterMap label) (abstract after) := by
  induction run with
  | nil state => exact .nil _
  | @cons before middle after event events stepped _ ih =>
      obtain ⟨moved, kept⟩ := simulated _ _ _ initially stepped
      have rest := ih kept
      cases labelled : label event with
      | none =>
          rw [labelled] at moved
          rw [List.filterMap_cons_none labelled, ← moved]
          exact rest
      | some seen =>
          rw [labelled] at moved
          rw [List.filterMap_cons_some labelled]
          exact .cons moved rest

end Run

end System

end Foundation
