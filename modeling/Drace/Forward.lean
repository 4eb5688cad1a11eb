/-
This file compares a machine with one that makes other calls for the same purpose.

A party between a caller and a machine turns each call it gets into a list of calls
it makes, which may be empty. Its own state and the state of the machine are related
before and after. Then every run of the party has a run of the machine at its side
that makes just these lists one after the other, so what is proved of all runs of
the machine holds of the calls that come out of the party.
-/

import Drace.Simulation

namespace Machine

variable {State Event Output : Type} {machine : Machine State Event Output}

/-- The calls are made one after the other and put out what is beside them. -/
inductive Path (machine : Machine State Event Output) : State → List (Event × Output) → State → Prop
  | nil {state : State} : Path machine state [] state
  | cons {state next last : State} {event : Event} {output : Output}
      {rest : List (Event × Output)} : machine.call state event = some (next, output) →
      Path machine next rest last → Path machine state ((event, output) :: rest) last

namespace Path

variable {state next last : State} {event : Event} {output : Output}
  {calls others : List (Event × Output)}

theorem single (defined : machine.call state event = some (next, output)) :
    machine.Path state [(event, output)] next :=
  .cons defined .nil

theorem append (path : machine.Path state calls next) (further : machine.Path next others last) :
    machine.Path state (calls ++ others) last := by
  induction path with
  | nil => exact further
  | cons defined _ inductionHypothesis => exact .cons defined (inductionHypothesis further)

/-- The calls of a path that starts where a run ends are a run with it. -/
theorem reaches (path : machine.Path state calls last) {past : List (Step State Event Output)}
    (reaches : machine.Reaches past state) :
    ∃ more, machine.Reaches (past ++ more) last ∧ more.map Step.visible = calls := by
  induction path generalizing past with
  | nil => exact ⟨[], by rwa [List.append_nil], rfl⟩
  | @cons state next last event output rest defined _ inductionHypothesis =>
    obtain ⟨more, further, same⟩ := inductionHypothesis (reaches.call defined)
    refine ⟨⟨state, event, next, output⟩ :: more, ?_, ?_⟩
    · rwa [List.append_assoc, List.singleton_append] at further
    · rw [List.map_cons, same]
      rfl

end Path

/-- The calls are defined one after the other, whatever they put out. -/
def Accepts (machine : Machine State Event Output) (state : State) (events : List Event)
    (last : State) : Prop :=
  ∃ calls, machine.Path state calls last ∧ calls.map Prod.fst = events

namespace Accepts

variable {state next last : State} {event : Event} {output : Output} {events others : List Event}

theorem nil : machine.Accepts state [] state := ⟨[], .nil, rfl⟩

theorem single (defined : machine.call state event = some (next, output)) :
    machine.Accepts state [event] next := ⟨_, .single defined, rfl⟩

theorem append (accepts : machine.Accepts state events next)
    (further : machine.Accepts next others last) :
    machine.Accepts state (events ++ others) last := by
  obtain ⟨calls, path, rfl⟩ := accepts
  obtain ⟨more, onward, rfl⟩ := further
  exact ⟨calls ++ more, path.append onward, List.map_append⟩

/-- Accepted calls are a run from a start. -/
theorem reaches (accepts : machine.Accepts state events last) (begins : machine.start state) :
    ∃ past, machine.Reaches past last ∧ past.map Step.event = events := by
  obtain ⟨calls, path, rfl⟩ := accepts
  obtain ⟨past, reaches, rfl⟩ := path.reaches (.start begins)
  refine ⟨past, reaches, ?_⟩
  rw [List.map_map]
  rfl

/-- What one machine accepts another one accepts, if every call that is defined on the first one is
defined on the second one. -/
theorem follow {Model Result : Type} {model : Machine Model Event Result}
    (relation : Model → State → Prop)
    (call : ∀ state, ∀ event ∈ events, ∀ next output copy,
      machine.call state event = some (next, output) → relation copy state →
      ∃ later result, model.call copy event = some (later, result) ∧ relation later next)
    (accepts : machine.Accepts state events last) {copy : Model} (related : relation copy state) :
    ∃ later, model.Accepts copy events later ∧ relation later last := by
  obtain ⟨calls, path, rfl⟩ := accepts
  induction path generalizing copy with
  | nil => exact ⟨copy, .nil, related⟩
  | @cons state next last event output rest defined _ inductionHypothesis =>
    obtain ⟨later, result, same, relatedNext⟩ :=
      call state event List.mem_cons_self next output copy defined related
    obtain ⟨final, further, relatedLast⟩ := inductionHypothesis relatedNext
      fun state event member => call state event (List.mem_cons_of_mem _ member)
    exact ⟨final, (Accepts.single same).append further, relatedLast⟩

end Accepts

/-- Some elements of a list stand for one call, the others for none. -/
theorem flatMap_ite {Element Image : Type} (keeps : Element → Bool) (image : Element → Image)
    (elements : List Element) :
    (elements.flatMap fun element => if keeps element then [image element] else []) =
      (elements.filter keeps).map image := by
  induction elements with
  | nil => rfl
  | cons element rest inductionHypothesis =>
    rw [List.flatMap_cons, inductionHypothesis, List.filter_cons]
    split <;> rfl

variable {Model Call Result : Type} {model : Machine Model Call Result}
  {past : List (Step State Event Output)} {state : State}

/-- A call that is defined has its counterpart. -/
theorem exists_agreeing {relation : State → Model → Prop} {next : State} {output : Output}
    {answer : Option (Model × Output)}
    (both : Option.Rel (Agree relation) (some (next, output)) answer) :
    ∃ later, answer = some (later, output) ∧ relation next later := by
  cases both with
  | @some _ result agree =>
    obtain ⟨related, rfl⟩ := agree
    exact ⟨result.1, rfl, related⟩

/-- A run has a run of the other machine at its side that makes the calls each step stands for, if
the states are related at the start and stay related. -/
theorem Reaches.follow {condition : List (Step State Event Output) → Step State Event Output → Prop}
    (image : Step State Event Output → List (Call × Result))
    (relation : List (Step State Event Output) → State → Model → Prop)
    (start : ∀ state, machine.start state → ∃ copy, model.start copy ∧ relation [] state copy)
    (call : ∀ past state event next output copy, machine.Reaches past state →
      machine.call state event = some (next, output) →
      condition past ⟨state, event, next, output⟩ → relation past state copy →
      ∃ later, model.Path copy (image ⟨state, event, next, output⟩) later ∧
        relation (past ++ [⟨state, event, next, output⟩]) next later)
    (reaches : machine.Reaches past state) (always : Always condition past) :
    ∃ shadow copy, model.Reaches shadow copy ∧ relation past state copy ∧
      shadow.map Step.visible = past.flatMap image := by
  induction reaches with
  | start begins =>
    obtain ⟨copy, copyBegins, related⟩ := start _ begins
    exact ⟨[], copy, .start copyBegins, related, rfl⟩
  | @call past state next event output earlier defined inductionHypothesis =>
    obtain ⟨before, last⟩ := always_append.mp always
    obtain ⟨shadow, copy, follows, related, same⟩ := inductionHypothesis before
    obtain ⟨later, path, nextRelated⟩ :=
      call past state event next output copy earlier defined last related
    obtain ⟨more, further, made⟩ := path.reaches follows
    refine ⟨shadow ++ more, later, further, nextRelated, ?_⟩
    rw [List.map_append, same, made, List.flatMap_append, List.flatMap_singleton]

end Machine
