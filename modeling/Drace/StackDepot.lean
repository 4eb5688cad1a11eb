/-
This file shows that a stack depot returns what a copying stack would.

A copying stack is a list, and remembers an access by a copy of the list with the
program counter at its end. The depot shares the stacks of all accesses in one
tree instead. The two take the same calls, are in lockstep, and so a trace that is
returned is the stack at the latest access to the address, whatever was pushed and
popped since.
-/

import Mathlib
import Drace.Simulation
import Drace.StackTrace

namespace Drace

open Machine

/-- The calls of a stack depot. -/
inductive DepotCall where
  | pushStackElement (element : ℕ)
  | popStackElement
  | setReadWrite (addr pc : ℕ)
  | returnStackTrace (address : ℕ)
  deriving DecidableEq

/-- A stack depot that is called in any order. Only a trace that is asked for is put out, and a pop
is not defined on the empty stack. -/
def stackDepot : Machine StackTrace DepotCall (Option (List ℕ)) where
  start depot := depot = {}
  call
    | depot, .pushStackElement element => some (depot.pushStackElement element, none)
    | depot, .popStackElement => depot.popStackElement.map fun popped => (popped, none)
    | depot, .setReadWrite addr pc => some (depot.setReadWrite addr pc, none)
    | depot, .returnStackTrace address => some (depot, some (depot.returnStackTrace address))

/-- A stack of which every access makes a copy. -/
structure CopyingStack where
  stack : List ℕ := []
  copies : ℕ → List ℕ := fun _ => []

/-- What the depot is for: the same calls on a copying stack. -/
def copyingStack : Machine CopyingStack DepotCall (Option (List ℕ)) where
  start copying := copying = {}
  call
    | copying, .pushStackElement element =>
      some ({ copying with stack := copying.stack ++ [element] }, none)
    | copying, .popStackElement =>
      if copying.stack = [] then none
      else some ({ copying with stack := copying.stack.dropLast }, none)
    | copying, .setReadWrite addr pc =>
      some ({ copying with
        copies := Function.update copying.copies addr (copying.stack ++ [pc]) }, none)
    | copying, .returnStackTrace address => some (copying, some (copying.copies address))

/-! ### What a history says -/

/-- The elements on the stack after a call, oldest first. -/
def DepotCall.stackAfter (stack : List ℕ) : DepotCall → List ℕ
  | .pushStackElement element => stack ++ [element]
  | .popStackElement => stack.dropLast
  | _ => stack

/-- The elements on the stack after a history, oldest first. -/
def stackOf (calls : List DepotCall) : List ℕ := calls.foldl DepotCall.stackAfter []

/-- A pop finds something on the stack. -/
def PopsNonempty (front : List DepotCall) (call : DepotCall) : Prop :=
  call = .popStackElement → stackOf front ≠ []

instance (front : List DepotCall) (call : DepotCall) : Decidable (PopsNonempty front call) :=
  inferInstanceAs (Decidable (_ → _))

/-- No access to the address is recorded. -/
def Unrecorded (address : ℕ) (calls : List DepotCall) : Prop :=
  ∀ call ∈ calls, ∀ pc, call ≠ .setReadWrite address pc

/-- The trace is what was on the stack at the latest access to the address and the program counter
of this access, or is empty if there was none. -/
inductive LatestTrace (address : ℕ) : List DepotCall → List ℕ → Prop
  | never {calls : List DepotCall} : Unrecorded address calls → LatestTrace address calls []
  | latest (earlier : List DepotCall) (pc : ℕ) {later : List DepotCall} :
    Unrecorded address later →
    LatestTrace address (earlier ++ .setReadWrite address pc :: later) (stackOf earlier ++ [pc])

variable {depot popped : StackTrace} {copying : CopyingStack} {calls : List DepotCall}
  {call : DepotCall} {address : ℕ} {trace : List ℕ}
  {past : List (Step StackTrace DepotCall (Option (List ℕ)))}

theorem stackOf_append : stackOf (calls ++ [call]) = call.stackAfter (stackOf calls) := by
  rw [stackOf, List.foldl_append]
  rfl

theorem Unrecorded.append (unrecorded : Unrecorded address calls)
    (other : ∀ pc, call ≠ .setReadWrite address pc) : Unrecorded address (calls ++ [call]) := by
  intro member found
  rcases List.mem_append.mp found with earlier | last
  · exact unrecorded member earlier
  · rw [List.mem_singleton.mp last]
    exact other

/-- Only an access to the address replaces its trace. -/
theorem LatestTrace.append (latestTrace : LatestTrace address calls trace)
    (other : ∀ pc, call ≠ .setReadWrite address pc) :
    LatestTrace address (calls ++ [call]) trace := by
  cases latestTrace with
  | never unrecorded => exact .never (unrecorded.append other)
  | latest earlier pc unrecorded =>
    rw [List.append_assoc, List.cons_append]
    exact .latest earlier pc (unrecorded.append other)

theorem latestTrace_access (calls : List DepotCall) (address pc : ℕ) :
    LatestTrace address (calls ++ [.setReadWrite address pc]) (stackOf calls ++ [pc]) :=
  .latest calls pc fun _ member => absurd member List.not_mem_nil

/-! ### The copying stack -/

/-- The copying stack holds the stack of its history and the trace of each address. -/
structure Copies (calls : List DepotCall) (copying : CopyingStack) : Prop where
  stack : copying.stack = stackOf calls
  trace : ∀ address, LatestTrace address calls (copying.copies address)

/-- A call that records no access only changes the stack. -/
theorem Copies.append (copies : Copies calls copying)
    (other : ∀ addr pc, call ≠ .setReadWrite addr pc) :
    Copies (calls ++ [call]) { copying with stack := call.stackAfter copying.stack } :=
  ⟨by rw [stackOf_append, copies.stack],
    fun address => (copies.trace address).append (other address)⟩

/-- An access only replaces the trace of its address. -/
theorem Copies.append_access (copies : Copies calls copying) (addr pc : ℕ) :
    Copies (calls ++ [.setReadWrite addr pc]) { copying with
      copies := Function.update copying.copies addr (copying.stack ++ [pc]) } := by
  refine ⟨by rw [stackOf_append, ← copies.stack]; rfl, fun address => ?_⟩
  change LatestTrace address _
    (Function.update copying.copies addr (copying.stack ++ [pc]) address)
  by_cases same : address = addr
  · rw [same, Function.update_self, copies.stack]
    exact latestTrace_access calls addr pc
  · rw [Function.update_of_ne same]
    refine (copies.trace address).append fun _ equal => same ?_
    obtain ⟨rfl, _⟩ := DepotCall.setReadWrite.inj equal
    rfl

theorem reaches_copies_stack {past : List (Step CopyingStack DepotCall (Option (List ℕ)))}
    (reaches : copyingStack.Reaches past copying) : Copies (past.map Step.event) copying := by
  induction reaches with
  | start begins =>
    obtain rfl : _ = ({} : CopyingStack) := begins
    exact ⟨rfl, fun address => .never fun _ member => absurd member List.not_mem_nil⟩
  | @call past copying next event output earlier defined inductionHypothesis =>
    rw [List.map_append, List.map_singleton]
    cases event with
    | setReadWrite addr pc =>
      obtain ⟨rfl, -⟩ := Prod.mk.inj (Option.some.inj defined)
      exact inductionHypothesis.append_access addr pc
    | popStackElement =>
      simp only [copyingStack, Option.ite_none_left_eq_some, Option.some.injEq,
        Prod.mk.injEq] at defined
      obtain ⟨-, rfl, -⟩ := defined
      exact inductionHypothesis.append fun _ _ => by simp
    | pushStackElement | returnStackTrace =>
      obtain ⟨rfl, -⟩ := Prod.mk.inj (Option.some.inj defined)
      exact inductionHypothesis.append fun _ _ => by simp

/-! ### The depot in lockstep -/

/-- The depot stands for the copying stack. -/
structure StandsFor (depot : StackTrace) (copying : CopyingStack) : Prop where
  stack : depot.callPath = copying.stack
  trace : ∀ address, depot.returnStackTrace address = copying.copies address

/-- A pop is defined just where there is something on the stack. -/
theorem StackTrace.popStackElement_eq_none_iff :
    depot.popStackElement = none ↔ depot.callPath = [] := by
  constructor
  · intro undefined
    unfold popStackElement at undefined
    split at undefined
    · next absent =>
      unfold callPath pathTo
      cases depot.vertices.length with
      | zero => rfl
      | succ fuel =>
        rw [climb, absent, ite_self]
    · cases undefined
  · intro empty
    cases defined : depot.popStackElement with
    | none => rfl
    | some popped =>
      obtain ⟨element, same⟩ := callPath_pop defined
      rw [empty] at same
      exact absurd same.symm (by simp)

theorem lockstep_stackDepot : Lockstep stackDepot copyingStack StandsFor where
  start := by
    rintro depot rfl
    exact ⟨{}, rfl, StackTrace.callPath_new, StackTrace.returnStackTrace_new⟩
  call := by
    rintro depot copying event ⟨stack, trace⟩
    cases event with
    | pushStackElement element =>
      refine .some ⟨⟨?_, fun address => ?_⟩, rfl⟩
      · rw [StackTrace.callPath_push, stack]
      · rw [StackTrace.returnStackTrace_push, trace]
    | popStackElement =>
      simp only [stackDepot, copyingStack]
      cases defined : depot.popStackElement with
      | none =>
        rw [if_pos (stack ▸ StackTrace.popStackElement_eq_none_iff.mp defined)]
        exact .none
      | some popped =>
        obtain ⟨element, same⟩ := StackTrace.callPath_pop defined
        rw [← stack, same, if_neg (by simp)]
        refine .some ⟨⟨?_, fun address => ?_⟩, rfl⟩
        · rw [List.dropLast_concat]
        · rw [StackTrace.returnStackTrace_pop defined, trace]
    | setReadWrite addr pc =>
      refine .some ⟨⟨stack, fun address => ?_⟩, rfl⟩
      rw [StackTrace.returnStackTrace_setReadWrite, stack, trace]
      exact (Function.update_apply _ _ _ _).symm
    | returnStackTrace address => exact .some ⟨⟨stack, trace⟩, congrArg some (trace address)⟩

/-- The depot's stack is the stack of the history. -/
theorem callPath_of_reaches (reaches : stackDepot.Reaches past depot) :
    depot.callPath = stackOf (past.map Step.event) := by
  obtain ⟨shadow, copying, follows, related, same⟩ := lockstep_stackDepot.reaches reaches
  have events := congrArg (List.map Prod.fst) same
  rw [List.map_map, List.map_map] at events
  rw [related.stack, (reaches_copies_stack follows).stack]
  exact congrArg stackOf events

/-- Calls that never pop the empty stack can be made. -/
theorem stackDepot_runs (calls : List DepotCall)
    (nonempty : ∀ front call, front ++ [call] <+: calls → PopsNonempty front call) :
    ∃ past depot, stackDepot.Reaches past depot ∧ past.map Step.event = calls := by
  induction calls using List.reverseRecOn with
  | nil => exact ⟨[], {}, .start rfl, rfl⟩
  | append_singleton calls call inductionHypothesis =>
    obtain ⟨past, depot, reaches, rfl⟩ := inductionHypothesis fun front call initial =>
      nonempty front call (initial.trans (List.prefix_append _ _))
    have goes : ∃ result, stackDepot.call depot call = some result := by
      cases call with
      | popStackElement =>
        have filled := nonempty _ _ (List.prefix_refl _) rfl
        rw [← callPath_of_reaches reaches] at filled
        obtain ⟨popped, defined⟩ :=
          Option.ne_none_iff_exists'.mp (mt StackTrace.popStackElement_eq_none_iff.mp filled)
        exact ⟨(popped, none), by simp only [stackDepot, defined, Option.map_some]⟩
      | _ => exact ⟨_, rfl⟩
    obtain ⟨result, defined⟩ := goes
    exact ⟨_, _, reaches.call defined, by rw [List.map_append, List.map_singleton]⟩

/-- On a copying stack, what is returned is the trace of the latest access. -/
theorem copyingStack_returns_latest
    {past : List (Step CopyingStack DepotCall (Option (List ℕ)))}
    (reaches : copyingStack.Reaches past copying) :
    Always (fun front step => ∀ address, step.event = .returnStackTrace address →
      ∃ trace, step.output = some trace ∧ LatestTrace address (front.map Step.event) trace)
      past := by
  intro front step initial address returns
  obtain ⟨before, defined⟩ := reaches.step initial
  rw [returns] at defined
  obtain ⟨-, output⟩ := Prod.mk.inj (Option.some.inj defined)
  exact ⟨_, output.symm, (reaches_copies_stack before).trace address⟩

/-- Calls that never pop the empty stack can be made, and every trace that is returned is the one
of the latest access to the address. -/
theorem depot_returns_latest (calls : List DepotCall)
    (nonempty : ∀ front call, front ++ [call] <+: calls → PopsNonempty front call) :
    (∃ past depot, stackDepot.Reaches past depot ∧ past.map Step.event = calls) ∧
      ∀ past depot, stackDepot.Reaches past depot → past.map Step.event = calls →
        Always (fun front step => ∀ address, step.event = .returnStackTrace address →
          ∃ trace, step.output = some trace ∧ LatestTrace address (front.map Step.event) trace)
          past := by
  refine ⟨stackDepot_runs calls nonempty, fun past depot reaches _ => ?_⟩
  have visible := lockstep_stackDepot.always (fun front last => ∀ address,
    last.1 = .returnStackTrace address → ∃ trace, last.2 = some trace ∧
      LatestTrace address (front.map Prod.fst) trace) ?_ reaches
  · intro front step initial address returns
    obtain ⟨trace, output, latestTrace⟩ := visible front step initial address returns
    rw [List.map_map] at latestTrace
    exact ⟨trace, output, latestTrace⟩
  · intro shadow copying follows front step initial address returns
    obtain ⟨trace, output, latestTrace⟩ :=
      copyingStack_returns_latest follows front step initial address returns
    exact ⟨trace, output, by rw [List.map_map]; exact latestTrace⟩

/-- Calls between which the stack returns to an earlier one and branches from it. -/
def branchingCalls : List DepotCall :=
  [.pushStackElement 1, .setReadWrite 100 1000, .pushStackElement 2, .setReadWrite 102 1002,
    .popStackElement, .pushStackElement 1, .pushStackElement 2, .setReadWrite 104 1004,
    .popStackElement, .popStackElement, .pushStackElement 2, .returnStackTrace 104]

theorem depot_returns_latest_branching :
    (∃ past depot, stackDepot.Reaches past depot ∧ past.map Step.event = branchingCalls) ∧
      ∀ past depot, stackDepot.Reaches past depot → past.map Step.event = branchingCalls →
        Always (fun front step => ∀ address, step.event = .returnStackTrace address →
          ∃ trace, step.output = some trace ∧ LatestTrace address (front.map Step.event) trace)
          past :=
  depot_returns_latest branchingCalls (forall_initial_iff_forall_index.mpr (by decide))

end Drace
