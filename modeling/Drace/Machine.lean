/-
This file fixes what a run of a state machine with partial calls is.

A machine has start states and a call function that may be undefined: a call
outside its contract has no result. A run is the list of its steps, oldest
first, each step with the state before it, the event, the state after it and
what the call put out. The history is part of the statement of every property
that speaks about earlier events, and the induction over it is stated once.
-/

import Mathlib

namespace Machine

/-- One call of a run, with the states around it and its output. -/
structure Step (State Event Output : Type) where
  pre : State
  event : Event
  post : State
  output : Output

end Machine

/-- A state machine whose calls may be undefined. -/
structure Machine (State Event Output : Type) where
  start : State → Prop
  call : State → Event → Option (State × Output)

namespace Machine

variable {State Event Output : Type} (machine : Machine State Event Output)

/-- The runs of a machine: the steps made so far and the state they lead to. -/
inductive Reaches : List (Step State Event Output) → State → Prop
  | start {state : State} : machine.start state → Reaches [] state
  | call {past : List (Step State Event Output)} {state next : State} {event : Event}
      {output : Output} : Reaches past state → machine.call state event = some (next, output) →
      Reaches (past ++ [⟨state, event, next, output⟩]) next

/-- A condition on a step and the steps before it holds all along a history. -/
def Always (condition : List (Step State Event Output) → Step State Event Output → Prop)
    (past : List (Step State Event Output)) : Prop :=
  ∀ front step, front ++ [step] <+: past → condition front step

variable {machine}

/-! ### Conditions along a history -/

/-- What is said of each element of a list and those before it is said of each position. -/
theorem forall_initial_iff_forall_index {Element : Type} {elements : List Element}
    {condition : List Element → Element → Prop} :
    (∀ front last, front ++ [last] <+: elements → condition front last) ↔
      ∀ index : Fin elements.length, condition (elements.take index) elements[index] := by
  constructor
  · intro always index
    refine always _ _ ?_
    rw [Fin.getElem_fin, List.take_concat_get' elements index index.isLt]
    exact List.take_prefix _ _
  · rintro all front last ⟨rest, rfl⟩
    have here := all ⟨front.length, by simp⟩
    simpa using here

/-- One element more is observed last. -/
theorem filterMap_concat {Element Observation : Type} (observe : Element → Option Observation)
    (elements : List Element) (last : Element) :
    (elements ++ [last]).filterMap observe =
      elements.filterMap observe ++ (observe last).toList := by
  rw [List.filterMap_append]
  cases found : observe last <;> simp [found]

section Always

variable {condition other : List (Step State Event Output) → Step State Event Output → Prop}
  {past : List (Step State Event Output)} {step : Step State Event Output}

theorem always_nil : Always condition [] := by
  intro front step initial
  have length := initial.length_le
  simp at length

theorem always_append : Always condition (past ++ [step]) ↔ Always condition past ∧
    condition past step := by
  constructor
  · intro always
    exact ⟨fun front earlier initial =>
      always front earlier (initial.trans (List.prefix_append _ _)),
      always past step (List.prefix_refl _)⟩
  · rintro ⟨always, last⟩ front earlier initial
    rcases List.prefix_concat_iff.mp initial with same | shorter
    · obtain ⟨rfl, rfl⟩ : front = past ∧ earlier = step := by
        have parts := List.append_inj' same rfl
        exact ⟨parts.1, by simpa using parts.2⟩
      exact last
    · exact always front earlier shorter

theorem Always.imp (always : Always condition past)
    (weaker : ∀ front step, condition front step → other front step) : Always other past :=
  fun front step initial => weaker front step (always front step initial)

theorem Always.and (first : Always condition past) (second : Always other past) :
    Always (fun front step => condition front step ∧ other front step) past :=
  fun front step initial => ⟨first front step initial, second front step initial⟩

theorem Always.before {front : List (Step State Event Output)} (always : Always condition past)
    (initial : front <+: past) : Always condition front :=
  fun earlier step shorter => always earlier step (shorter.trans initial)

/-- Steps that meet a condition whatever comes before them can be added. -/
theorem Always.append {rest : List (Step State Event Output)} (always : Always condition past)
    (all : ∀ front, ∀ step ∈ rest, condition front step) : Always condition (past ++ rest) := by
  induction rest using List.reverseRecOn with
  | nil => rwa [List.append_nil]
  | append_singleton rest step inductionHypothesis =>
    rw [← List.append_assoc]
    refine always_append.mpr ⟨inductionHypothesis fun front early member => ?_, ?_⟩
    · exact all front early (List.mem_append_left _ member)
    · exact all _ step (List.mem_append_right _ (List.mem_singleton_self _))

/-- A condition on single steps holds along a history when it holds of each step. -/
theorem always_iff_forall_mem {condition : Step State Event Output → Prop} :
    Always (fun _ step => condition step) past ↔ ∀ step ∈ past, condition step := by
  constructor
  · intro always step member
    obtain ⟨front, rest, rfl⟩ := List.append_of_mem member
    exact always front step ⟨rest, by simp⟩
  · intro all front step initial
    exact all step (initial.subset (List.mem_append_right _ (List.mem_singleton_self _)))

/-- A condition holds along a history when it holds at each position. -/
theorem always_iff_forall_index :
    Always condition past ↔ ∀ index : Fin past.length, condition (past.take index) past[index] :=
  forall_initial_iff_forall_index

/-- Two conditions agree along a history if they agree on each step that comes after steps which
all meet the second one. -/
theorem always_iff_always
    (agree : ∀ front step, front ++ [step] <+: past → Always other front →
      (condition front step ↔ other front step)) : Always condition past ↔ Always other past := by
  induction past using List.reverseRecOn with
  | nil => exact ⟨fun _ => always_nil, fun _ => always_nil⟩
  | append_singleton past step inductionHypothesis =>
    have earlier := inductionHypothesis fun front early initial =>
      agree front early (initial.trans (List.prefix_append _ _))
    rw [always_append, always_append, earlier]
    exact and_congr_right fun before => agree past step (List.prefix_refl _) before

instance [∀ front step, Decidable (condition front step)] : Decidable (Always condition past) :=
  decidable_of_iff _ always_iff_forall_index.symm

end Always

/-! ### Induction over runs -/

/-- What holds at the start and is kept by every call holds after every run, where a call may
use the conditions its history is promised to meet. -/
theorem Reaches.induct {condition : List (Step State Event Output) → Step State Event Output → Prop}
    (invariant : List (Step State Event Output) → State → Prop)
    (start : ∀ state, machine.start state → invariant [] state)
    (call : ∀ past state event next output, machine.Reaches past state →
      machine.call state event = some (next, output) →
      condition past ⟨state, event, next, output⟩ → invariant past state →
      invariant (past ++ [⟨state, event, next, output⟩]) next)
    {past : List (Step State Event Output)} {state : State} (reaches : machine.Reaches past state)
    (always : Always condition past) : invariant past state := by
  induction reaches with
  | start begins => exact start _ begins
  | call earlier defined inductionHypothesis =>
    obtain ⟨before, last⟩ := always_append.mp always
    exact call _ _ _ _ _ earlier defined last (inductionHypothesis before)

/-- A run without steps is at a start. -/
theorem Reaches.start_of_nil {state : State} (reaches : machine.Reaches [] state) :
    machine.start state := by
  generalize none : [] = past at reaches
  cases reaches with
  | start begins => exact begins
  | call => exact absurd none (by simp)

/-- A run with steps is in the state its last step has left. -/
theorem Reaches.eq_post {past : List (Step State Event Output)} {step : Step State Event Output}
    {state : State} (reaches : machine.Reaches (past ++ [step]) state) : state = step.post := by
  generalize whole : past ++ [step] = steps at reaches
  cases reaches with
  | start => exact absurd whole (List.concat_ne_nil _ _)
  | call =>
    obtain ⟨-, last⟩ := List.append_inj' whole rfl
    rw [List.singleton_inj.mp last]

/-- Every step of a run is a call of the machine, made in a state the run had reached. -/
theorem Reaches.step {past front : List (Step State Event Output)}
    {step : Step State Event Output} {state : State} (reaches : machine.Reaches past state)
    (initial : front ++ [step] <+: past) :
    machine.Reaches front step.pre ∧ machine.call step.pre step.event =
      some (step.post, step.output) := by
  induction reaches with
  | start begins =>
    have length := initial.length_le
    simp at length
  | call earlier defined inductionHypothesis =>
    rcases List.prefix_concat_iff.mp initial with same | shorter
    · have parts := List.append_inj' same rfl
      obtain ⟨rfl⟩ : step = _ := by simpa using parts.2
      rw [parts.1]
      exact ⟨earlier, defined⟩
    · exact inductionHypothesis shorter

/-- The first steps of a run are a run. -/
theorem Reaches.initial {past front : List (Step State Event Output)} {state : State}
    (reaches : machine.Reaches past state) (initial : front <+: past) :
    ∃ earlier, machine.Reaches front earlier := by
  obtain ⟨rest, rfl⟩ := initial
  cases rest with
  | nil => exact ⟨state, by rwa [List.append_nil] at reaches⟩
  | cons step rest => exact ⟨step.pre, (reaches.step ⟨rest, by simp⟩).1⟩

/-- The next call is made in the state the last one has left. -/
theorem Reaches.chain {past : List (Step State Event Output)} {state : State}
    (reaches : machine.Reaches past state) {index : ℕ} {step later : Step State Event Output}
    (found : past[index]? = some step) (next : past[index + 1]? = some later) :
    later.pre = step.post := by
  induction reaches with
  | start => cases found
  | @call past before state event output earlier defined inductionHypothesis =>
    have bound : index + 1 < past.length + 1 := by
      simpa using (List.getElem?_eq_some_iff.mp next).1
    rw [List.getElem?_append_left (by omega)] at found
    by_cases inside : index + 1 < past.length
    · rw [List.getElem?_append_left inside] at next
      exact inductionHypothesis found next
    · have count : past.length = index + 1 := by omega
      have last : past.getLast? = some step := by
        rw [List.getLast?_eq_getElem?, count, Nat.add_sub_cancel]
        exact found
      obtain ⟨front, rfl⟩ := List.getLast?_eq_some_iff.mp last
      rw [← count, List.getElem?_concat_length] at next
      obtain ⟨rfl⟩ := Option.some.inj next
      exact earlier.eq_post

/-- Every step of a run comes after a run of the steps before it. -/
theorem Reaches.at {past : List (Step State Event Output)} {state : State}
    (reaches : machine.Reaches past state) {index : ℕ} {step : Step State Event Output}
    (found : past[index]? = some step) :
    machine.Reaches (past.take index) step.pre ∧
      machine.call step.pre step.event = some (step.post, step.output) := by
  obtain ⟨bound, rfl⟩ := List.getElem?_eq_some_iff.mp found
  refine reaches.step ?_
  rw [List.take_concat_get' past index bound]
  exact List.take_prefix _ _

/-! ### Replaying a list of events -/

variable (machine)

/-- Run the machine on a list of events, or fail at the first undefined call. -/
def replayFrom (past : List (Step State Event Output)) (state : State) :
    List Event → Option (List (Step State Event Output) × State)
  | [] => some (past, state)
  | event :: rest =>
    match machine.call state event with
    | none => none
    | some (next, output) => replayFrom (past ++ [⟨state, event, next, output⟩]) next rest

/-- Replay from a state without history. -/
def replay (state : State) (events : List Event) :
    Option (List (Step State Event Output) × State) :=
  machine.replayFrom [] state events

variable {machine}

/-- A replay that succeeds is a run. -/
theorem reaches_replayFrom {past : List (Step State Event Output)} {state : State}
    (reaches : machine.Reaches past state) (events : List Event)
    {result : List (Step State Event Output) × State}
    (replayed : machine.replayFrom past state events = some result) :
    machine.Reaches result.1 result.2 := by
  induction events generalizing past state with
  | nil =>
    obtain ⟨rfl⟩ := Option.some.inj replayed
    exact reaches
  | cons event rest inductionHypothesis =>
    rw [replayFrom] at replayed
    cases defined : machine.call state event with
    | none => rw [defined] at replayed; cases replayed
    | some result =>
      rw [defined] at replayed
      exact inductionHypothesis (reaches.call defined) replayed

variable (machine)

/-- The run of a list of events, or the run without steps if one of them has no result. -/
def ran (state : State) (events : List Event) : List (Step State Event Output) × State :=
  (machine.replay state events).getD ([], state)

variable {machine}

/-- Executing events from a start is a run. -/
theorem reaches_ran {state : State} (begins : machine.start state) (events : List Event) :
    machine.Reaches (machine.ran state events).1 (machine.ran state events).2 := by
  unfold ran
  cases replayed : machine.replay state events with
  | none => exact .start begins
  | some result => exact reaches_replayFrom (.start begins) events replayed

end Machine
