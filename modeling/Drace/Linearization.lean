/-
This file says what it means that a shared object behaves like a sequential one.

Threads call operations of the object and make one access after the other until they
return. A view reads off each step which thread makes it, and which moments of its
call it is: the call, the moment it takes effect with its result, and the return. The
object is linearizable if the effects, in their order, are a run of the sequential
object, and if each thread calls, takes effect once and returns just the result of
its effect, and only then calls again.
-/

import Drace.Forward

namespace Machine

/-- The moments of a call of a thread. -/
inductive Moment (Call Result : Type)
  | calls (call : Call)
  | acts (call : Call) (result : Result)
  | returns (result : Result)

/-- How far a thread is with its call. -/
inductive Phase (Call Result : Type)
  | idle
  | called (call : Call)
  | acted (result : Result)

variable {State Event Output Thread Call Result Model : Type}

/-- A moment that is due in a phase, and the phase after it. -/
inductive Phase.Goes : Phase Call Result → Moment Call Result → Phase Call Result → Prop
  | calls {call : Call} : Goes .idle (.calls call) (.called call)
  | acts {call : Call} {result : Result} : Goes (.called call) (.acts call result) (.acted result)
  | returns {result : Result} : Goes (.acted result) (.returns result) .idle

/-- Moments that are due one after the other. -/
inductive Phase.Passes : Phase Call Result → List (Moment Call Result) → Phase Call Result → Prop
  | nil {phase : Phase Call Result} : Passes phase [] phase
  | cons {phase next last : Phase Call Result} {moment : Moment Call Result}
      {rest : List (Moment Call Result)} : phase.Goes moment next → Passes next rest last →
      Passes phase (moment :: rest) last

namespace Phase.Passes

variable {phase next last : Phase Call Result} {moments rest : List (Moment Call Result)}

theorem single {moment : Moment Call Result} (goes : phase.Goes moment next) :
    phase.Passes [moment] next := .cons goes .nil

theorem append (passes : phase.Passes moments next) (further : next.Passes rest last) :
    phase.Passes (moments ++ rest) last := by
  induction passes with
  | nil => exact further
  | cons goes _ inductionHypothesis => exact .cons goes (inductionHypothesis further)

end Phase.Passes

/-- The thread that makes a step, and the moments of its call the step is. -/
structure View (State Event Output Thread Call Result : Type) where
  actor : Step State Event Output → Thread
  moments : Step State Event Output → List (Moment Call Result)

namespace View

variable [DecidableEq Thread] (view : View State Event Output Thread Call Result)

/-- The calls that take effect in a step, with their results. -/
def effects (step : Step State Event Output) : List ((Thread × Call) × Result) :=
  (view.moments step).filterMap fun
    | .acts call result => some ((view.actor step, call), result)
    | _ => none

/-- The moments of the calls of a thread. -/
def momentsOf (past : List (Step State Event Output)) (thread : Thread) :
    List (Moment Call Result) :=
  past.flatMap fun step => if view.actor step = thread then view.moments step else []

/-- The object behaves like a sequential one. -/
structure Linearizes (spec : Machine Model (Thread × Call) Result)
    (past : List (Step State Event Output)) : Prop where
  sequential : ∃ shadow copy, spec.Reaches shadow copy ∧
    shadow.map Step.visible = past.flatMap view.effects
  threads : ∀ thread, ∃ phase, Phase.idle.Passes (view.momentsOf past thread) phase

variable {view} {machine : Machine State Event Output} {spec : Machine Model (Thread × Call) Result}
  {past : List (Step State Event Output)} {state : State}

/-- An object behaves like a sequential one if every step makes the effects it shows on the
sequential object, goes on with the call of its thread, and leaves the calls of the other threads
where they are. -/
theorem linearizes_of_reaches (locate : State → Thread → Phase Call Result)
    (relation : State → Model → Prop)
    (start : ∀ state, machine.start state → (∀ thread, locate state thread = .idle) ∧
      ∃ copy, spec.start copy ∧ relation state copy)
    (call : ∀ state event next output copy, machine.call state event = some (next, output) →
      relation state copy →
      (∃ later, spec.Path copy (view.effects ⟨state, event, next, output⟩) later ∧
        relation next later) ∧
      (locate state (view.actor ⟨state, event, next, output⟩)).Passes
        (view.moments ⟨state, event, next, output⟩)
        (locate next (view.actor ⟨state, event, next, output⟩)) ∧
      ∀ other ≠ view.actor ⟨state, event, next, output⟩, locate next other = locate state other)
    (reaches : machine.Reaches past state) :
    view.Linearizes spec past ∧ ∃ shadow copy, spec.Reaches shadow copy ∧
      shadow.map Step.visible = past.flatMap view.effects ∧ relation state copy := by
  have always : Always (fun _ _ => True) past := fun _ _ _ => trivial
  obtain ⟨shadow, copy, follows, related, same⟩ := reaches.follow view.effects
    (fun _ => relation) (fun state begins => (start state begins).2)
    (fun _ state event next output copy _ defined _ related =>
      (call state event next output copy defined related).1) always
  have located : (∃ copy, relation state copy) ∧
      ∀ thread, Phase.idle.Passes (view.momentsOf past thread) (locate state thread) := by
    refine Reaches.induct (fun past state => (∃ copy, relation state copy) ∧
      ∀ thread, Phase.idle.Passes (view.momentsOf past thread) (locate state thread)) ?_ ?_ reaches
      always
    · intro state begins
      obtain ⟨idle, copy, -, related⟩ := start state begins
      refine ⟨⟨copy, related⟩, fun thread => ?_⟩
      rw [idle thread]
      exact .nil
    · rintro past state event next output - defined - ⟨⟨copy, related⟩, passes⟩
      obtain ⟨⟨later, -, nextRelated⟩, goes, others⟩ :=
        call state event next output copy defined related
      refine ⟨⟨later, nextRelated⟩, fun thread => ?_⟩
      rw [momentsOf, List.flatMap_append, List.flatMap_singleton]
      split
      · next own =>
        subst own
        exact (passes _).append goes
      · next differs =>
        rw [List.append_nil, others thread (Ne.symm differs)]
        exact passes thread
  exact ⟨⟨⟨shadow, copy, follows, same⟩, fun thread => ⟨_, located.2 thread⟩⟩,
    shadow, copy, follows, same, related⟩

end View

end Machine
