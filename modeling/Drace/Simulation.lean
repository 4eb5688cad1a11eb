/-
This file compares two machines that take the same calls.

Two machines are in lockstep if they start in related states and if, from related
states, a call is defined on both or on neither, puts out the same and leads to
related states. Then every run of the one has a run of the other that looks the
same from outside, so what is proved of the visible part of all runs of the one
holds of the other.
-/

import Drace.Machine

namespace Machine

variable {State Model Event Output : Type} {machine : Machine State Event Output}
  {model : Machine Model Event Output} {relation : State → Model → Prop}
  {past : List (Step State Event Output)} {state : State}

/-- What a caller sees of a step. -/
def Step.visible (step : Step State Event Output) : Event × Output := (step.event, step.output)

/-- The results of a call on both machines: the outputs agree and the states are related. -/
def Agree (relation : State → Model → Prop) (result : State × Output) (other : Model × Output) :
    Prop :=
  relation result.1 other.1 ∧ result.2 = other.2

/-- The machines do the same from related states. -/
structure Lockstep (machine : Machine State Event Output) (model : Machine Model Event Output)
    (relation : State → Model → Prop) : Prop where
  start : ∀ state, machine.start state → ∃ copy, model.start copy ∧ relation state copy
  call : ∀ state copy event, relation state copy →
    Option.Rel (Agree relation) (machine.call state event) (model.call copy event)

/-- A run has a run of the other machine at its side. -/
theorem Lockstep.reaches (lockstep : Lockstep machine model relation)
    (reaches : machine.Reaches past state) :
    ∃ shadow copy, model.Reaches shadow copy ∧ relation state copy ∧
      shadow.map Step.visible = past.map Step.visible := by
  induction reaches with
  | start begins =>
    obtain ⟨copy, copyBegins, related⟩ := lockstep.start _ begins
    exact ⟨[], copy, .start copyBegins, related, rfl⟩
  | @call past state next event output earlier defined inductionHypothesis =>
    obtain ⟨shadow, copy, follows, related, same⟩ := inductionHypothesis
    have both := lockstep.call state copy event related
    rw [defined] at both
    generalize result : model.call copy event = answer at both
    cases both with
    | @some _ other agree =>
      obtain ⟨nextRelated, sameOutput⟩ := agree
      refine ⟨_, _, follows.call result, nextRelated, ?_⟩
      rw [List.map_append, List.map_append, same]
      exact congrArg (fun output => past.map Step.visible ++ [(event, output)]) sameOutput.symm

/-- A condition on what is visible can be read off the visible part of the history. -/
theorem always_visible_iff {property : List (Event × Output) → Event × Output → Prop} :
    Always (fun front step => property (front.map Step.visible) step.visible) past ↔
      ∀ front last, front ++ [last] <+: past.map Step.visible → property front last := by
  constructor
  · rintro always front last ⟨rest, same⟩
    rw [List.append_assoc] at same
    obtain ⟨early, late, rfl, rfl, mapped⟩ := List.map_eq_append_iff.mp same.symm
    obtain ⟨step, others, rfl, rfl, -⟩ := List.map_eq_cons_iff.mp mapped
    exact always early step ⟨others, by simp⟩
  · intro all front step initial
    refine all _ _ ?_
    have mapped := initial.map Step.visible
    rwa [List.map_append] at mapped

/-- What holds of the visible part of all runs of a machine holds of one in lockstep with it. -/
theorem Lockstep.always (lockstep : Lockstep machine model relation)
    (property : List (Event × Output) → Event × Output → Prop)
    (holds : ∀ shadow copy, model.Reaches shadow copy →
      Always (fun front step => property (front.map Step.visible) step.visible) shadow)
    (reaches : machine.Reaches past state) :
    Always (fun front step => property (front.map Step.visible) step.visible) past := by
  obtain ⟨shadow, copy, follows, _, same⟩ := lockstep.reaches reaches
  have shadowed := always_visible_iff.mp (holds shadow copy follows)
  rw [same] at shadowed
  exact always_visible_iff.mpr shadowed

end Machine
