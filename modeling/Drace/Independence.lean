/-
This file says when two calls of a machine can change places.

A state is read as a value for each place. A call keeps to its places if it changes
no others and if what it does there, and what it shows, depends on the places it
reads only. Two calls that do not write what the other one reads or writes can be
made in either order: both orders are defined, show the same and lead to states
with the same values.
-/

import Drace.Machine

namespace Machine

variable {State Event Output Place Shown : Type} {Value : Place → Type}

/-- A call keeps to the places it writes and depends on the places it reads. -/
structure Local (machine : Machine State Event Output)
    (content : State → (place : Place) → Value place)
    (shows : Output → Shown) (event : Event) (reads writes : Place → Prop) : Prop where
  frame : ∀ {state next output}, machine.call state event = some (next, output) →
    ∀ place, ¬ writes place → content next place = content state place
  depends : ∀ {state other next output}, machine.call state event = some (next, output) →
    (∀ place, reads place → content other place = content state place) →
    ∃ later result, machine.call other event = some (later, result) ∧ shows result = shows output ∧
      ∀ place, writes place → content later place = content next place

variable {machine : Machine State Event Output} {content : State → (place : Place) → Value place}
  {shows : Output → Shown} {first second : Event}
  {reads writes otherReads otherWrites : Place → Prop}

/-- The second of two calls can be made without the first one if the first writes nothing that the
second one reads. -/
theorem Local.skip (firstLocal : Local machine content shows first reads writes)
    (secondLocal : Local machine content shows second otherReads otherWrites)
    (apart : ∀ place, writes place → ¬ otherReads place)
    {state middle last : State} {output result : Output}
    (called : machine.call state first = some (middle, output))
    (next : machine.call middle second = some (last, result)) :
    ∃ later shown, machine.call state second = some (later, shown) ∧ shows shown = shows result ∧
      ∀ place, otherWrites place → content later place = content last place :=
  secondLocal.depends next fun place read =>
    (firstLocal.frame called place fun written => apart place written read).symm

/-- Two calls that do not write what the other one reads or writes can be made in either order. -/
theorem Local.swap (firstLocal : Local machine content shows first reads writes)
    (secondLocal : Local machine content shows second otherReads otherWrites)
    (apart : ∀ place, writes place → ¬ otherReads place ∧ ¬ otherWrites place)
    (otherApart : ∀ place, otherWrites place → ¬ reads place)
    {state middle last : State} {output result : Output}
    (called : machine.call state first = some (middle, output))
    (next : machine.call middle second = some (last, result)) :
    ∃ middle' last' result' output', machine.call state second = some (middle', result') ∧
      machine.call middle' first = some (last', output') ∧ shows output' = shows output ∧
      shows result' = shows result ∧ ∀ place, content last' place = content last place := by
  obtain ⟨middle', result', calledSecond, sameResult, written⟩ :=
    firstLocal.skip secondLocal (fun place wrote => (apart place wrote).1) called next
  obtain ⟨last', output', calledFirst, sameOutput, writtenFirst⟩ :=
    firstLocal.depends called fun place read =>
      secondLocal.frame calledSecond place fun wrote => otherApart place wrote read
  refine ⟨middle', last', result', output', calledSecond, calledFirst, sameOutput, sameResult,
    fun place => ?_⟩
  by_cases byFirst : writes place
  · rw [writtenFirst place byFirst, secondLocal.frame next place (apart place byFirst).2]
  · rw [firstLocal.frame calledFirst place byFirst]
    by_cases bySecond : otherWrites place
    · exact written place bySecond
    · rw [secondLocal.frame calledSecond place bySecond, secondLocal.frame next place bySecond,
        firstLocal.frame called place byFirst]

end Machine
