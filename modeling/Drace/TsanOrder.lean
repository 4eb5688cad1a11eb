/-
This file says that the detector that forwards to ThreadSanitizer loses no order.

At the interface a thread has heard of what it did before, of what its parent had done
when it was forked, of what a child did that its parent joined, of unlocks before its
locks, and of identifiers. The library draws edges between the calls of one thread
object, from unlocks to locks, and from the calls that announce an address to the ones
that wait for it. What happens before a call of the interface happens before it among
the calls of the library, where the edges of a fork and a join go through an address of
their own. The library may draw more edges than it is relied on for.
-/

import Drace.Translation
import Drace.Tsan

namespace Drace

open Causality Machine

/-- What carries a past from call to call: thread objects, the unlocks of writers or of readers, and
identifiers. -/
inductive TsanCarrier
  | thread (tls : ℕ)
  | mutex (mutex : ℕ) (write : Bool)
  | identifier (identifier : ℕ)
  deriving DecidableEq

/-! ### The order at the interface -/

/-- The mutex that a call unlocks, and if a writer does. -/
def Event.releasesAs? : Event → Option (ℕ × Bool)
  | .release _ mutex writer => some (mutex, writer)
  | _ => none

/-- The mutex that a call locks, and if a writer does. -/
def Event.acquiresAs? : Event → Option (ℕ × Bool)
  | .acquire _ mutex _ writer => some (mutex, writer)
  | _ => none

/-- A writer waits for all unlocks, and a reader for those of writers. -/
def Awaits (write held : Bool) : Prop := write = true ∨ held = true

instance (write held : Bool) : Decidable (Awaits write held) := inferInstanceAs (Decidable (_ ∨ _))

namespace Tsan

/-- The object of an active thread. -/
def activeObject (tsan : Tsan) (tid : ℕ) : Option ℕ :=
  (tsan.threadStates.lookup tid).bind fun state => if state.active then some state.tsan else none

/-- The thread object that a call of the interface belongs to. -/
def caller (tsan : Tsan) : Event → Option ℕ
  | .fork parent _ => tsan.activeObject parent
  | .join parent child => if parent = child then none else tsan.activeObject parent
  | call => call.tls?

/-- The thread object that starts with a call. -/
def starts (event : TsanEvent) : Option ℕ := event.call.forks?.map fun _ => event.created

/-- The thread object that a call waits for. -/
def joins (tsan : Tsan) : Event → Option ℕ
  | .join _ child => (tsan.threadStates.lookup child).map TsanThread.tsan
  | _ => none

/-- Where a call of the interface leaves its past. -/
def Puts (tsan : Tsan) (event : TsanEvent) : TsanCarrier → Prop
  | .thread tls => tsan.caller event.call = some tls ∨ starts event = some tls
  | .mutex mutex write => event.call.releasesAs? = some (mutex, write)
  | .identifier identifier => event.call.announces? = some identifier

/-- Where a call of the interface takes a past from. -/
def Takes (tsan : Tsan) (event : TsanEvent) : TsanCarrier → Prop
  | .thread tls => tsan.caller event.call = some tls ∨ tsan.joins event.call = some tls
  | .mutex mutex held => ∃ lock ∈ event.call.acquiresAs?, lock.1 = mutex ∧ Awaits lock.2 held
  | .identifier identifier => event.call.awaits? = some identifier

instance (tsan : Tsan) (event : TsanEvent) :
    (carrier : TsanCarrier) → Decidable (tsan.Puts event carrier)
  | .thread _ => inferInstanceAs (Decidable (_ ∨ _))
  | .mutex .. | .identifier _ => inferInstanceAs (Decidable (_ = _))

instance (tsan : Tsan) (event : TsanEvent) :
    (carrier : TsanCarrier) → Decidable (tsan.Takes event carrier)
  | .thread _ => inferInstanceAs (Decidable (_ ∨ _))
  | .mutex .. => inferInstanceAs (Decidable (∃ _ ∈ _, _))
  | .identifier _ => inferInstanceAs (Decidable (_ = _))

/-- The flow of the calls of the interface. -/
def flow : Flow TsanStep TsanCarrier where
  puts step := step.pre.Puts step.event
  takes step := step.pre.Takes step.event

instance (step : TsanStep) (carrier : TsanCarrier) : Decidable (flow.puts step carrier) :=
  inferInstanceAs (Decidable (step.pre.Puts step.event carrier))

instance (step : TsanStep) (carrier : TsanCarrier) : Decidable (flow.takes step carrier) :=
  inferInstanceAs (Decidable (step.pre.Takes step.event carrier))

/-! ### The order in the library -/

/-- The edges that the library is relied on for. -/
structure Library (lower : Flow TsanCall TsanCarrier) : Prop where
  putsOwn : ∀ call thr, call.thr? = some thr → lower.puts call (.thread thr)
  takesOwn : ∀ call thr, call.thr? = some thr → lower.takes call (.thread thr)
  announces : ∀ thr addr, lower.puts (.happensBefore thr addr) (.identifier addr)
  awaits : ∀ thr addr, lower.takes (.happensAfter thr addr) (.identifier addr)
  unlocks : ∀ thr addr write, lower.puts (.mutexBeforeUnlock thr addr write) (.mutex addr write)
  locks : ∀ thr addr write held, Awaits write held →
    lower.takes (.mutexAfterLock thr addr write) (.mutex addr held)

/-- Where a carrier of the interface is in the library. -/
def image : TsanCarrier → TsanCarrier
  | .thread tls => .thread tls
  | .mutex mutex write => .mutex (mutexAddr mutex) write
  | .identifier identifier => .identifier (translate identifier)

/-- The call of the library that a call of a thread is forwarded as. -/
def toldAs? : Event → Option TsanCall
  | .read tls pc addr _ => some (.read tls (translate addr) pc)
  | .write tls pc addr _ => some (.write tls (translate addr) pc)
  | .funcEnter tls pc => some (.funcEnter tls pc)
  | .funcExit tls => some (.funcExit tls)
  | .acquire tls mutex _ write => some (.mutexAfterLock tls (mutexAddr mutex) write)
  | .release tls mutex write => some (.mutexBeforeUnlock tls (mutexAddr mutex) write)
  | .happensBefore tls identifier => some (.happensBefore tls (translate identifier))
  | .happensAfter tls identifier => some (.happensAfter tls (translate identifier))
  | _ => none

variable {order : ThreadOrder} {tsan later : Tsan} {event : TsanEvent} {made : List TsanCall}
  {call other : TsanCall} {lower : Flow TsanCall TsanCarrier} {past : List TsanStep}
  {first second : ℕ} {before after step : TsanStep} {thr tid : ℕ}

theorem eq_of_toldAs (told : toldAs? event.call = some call)
    (defined : tsan.call order event = some (later, made)) : made = [call] := by
  obtain ⟨event, created⟩ := event
  cases event with
  | acquire | release =>
    obtain ⟨-, same⟩ := Option.ite_none_left_eq_some.mp defined
    obtain ⟨-, rfl⟩ := Prod.mk.inj (Option.some.inj same)
    exact congrArg (fun call => [call]) (Option.some.inj told)
  | read | write | funcEnter | funcExit | happensBefore | happensAfter =>
    obtain ⟨-, rfl⟩ := Prod.mk.inj (Option.some.inj defined)
    exact congrArg (fun call => [call]) (Option.some.inj told)
  | _ => cases told

/-- A forwarded call belongs to the thread object that makes it, and has the same edges. -/
theorem edges_of_toldAs (library : Library lower) (told : toldAs? event.call = some call) :
    (∀ carrier, tsan.Puts event carrier → lower.puts call (image carrier)) ∧
      ∀ carrier, tsan.Takes event carrier → lower.takes call (image carrier) := by
  obtain ⟨event, created⟩ := event
  have own : tsan.caller event = call.thr? ∧ starts ⟨event, created⟩ = none ∧
      tsan.joins event = none := by
    cases event <;> cases told <;> exact ⟨rfl, rfl, rfl⟩
  refine ⟨fun carrier puts => ?_, fun carrier takes => ?_⟩
  · cases carrier with
    | thread tls =>
      rw [Puts, own.1, own.2.1] at puts
      exact library.putsOwn _ _ (puts.resolve_right (Option.not_mem_none tls))
    | mutex mutex write =>
      cases event <;> cases puts
      cases told
      exact library.unlocks _ _ _
    | identifier identifier =>
      cases event <;> cases puts
      cases told
      exact library.announces _ _
  · cases carrier with
    | thread tls =>
      rw [Takes, own.1, own.2.2] at takes
      exact library.takesOwn _ _ (takes.resolve_right (Option.not_mem_none tls))
    | mutex mutex held =>
      obtain ⟨lock, locks, rfl, awaits⟩ := takes
      cases event <;> cases locks
      cases told
      exact library.locks _ _ _ _ awaits
    | identifier identifier =>
      cases event <;> cases takes
      cases told
      exact library.awaits _ _

/-- The object of an active thread is among those that a loop visits. -/
theorem activeObject_mem (found : tsan.activeObject tid = some thr) :
    thr ∈ activeThreads order tsan.threadStates := by
  obtain ⟨⟨object, active⟩, listed, visited⟩ := Option.bind_eq_some_iff.mp found
  obtain ⟨rfl, same⟩ := Option.ite_none_right_eq_some.mp visited
  exact mem_activeThreads.mpr ⟨tid, Option.some.inj same ▸ listed⟩

/-- An announcement and a wait after it lead on from the one thread to the other one. -/
theorem leads_through (library : Library lower) {calls further : List TsanCall}
    {source target addr : ℕ}
    (announced : .happensBefore source addr ∈ calls)
    (awaited : .happensAfter target addr ∈ further) :
    lower.Leads (calls ++ further) (.thread source) (.thread target) :=
  .trans (.through announced (library.takesOwn _ _ rfl) (library.announces _ _))
    (.through awaited (library.awaits _ _) (library.putsOwn _ _ rfl))

/-- What the parent has heard of is led on to the child. -/
theorem leads_fork (library : Library lower) {parent child created : ℕ}
    (defined : tsan.fork order parent child created = some (later, made))
    (found : tsan.activeObject parent = some thr) :
    lower.Leads made (.thread thr) (.thread created) := by
  obtain ⟨-, same⟩ := Option.ite_none_left_eq_some.mp defined
  obtain ⟨-, rfl⟩ := Prod.mk.inj (Option.some.inj same)
  have announced : TsanCall.happensBefore thr (getEventId parent child) ∈
      (activeThreads order tsan.threadStates).map (.happensBefore · (getEventId parent child)) :=
    List.mem_map_of_mem (activeObject_mem found)
  exact leads_through library (List.mem_cons_of_mem _ announced) (List.mem_singleton_self _)

/-- What the child has heard of is led on to the parent. -/
theorem leads_join (library : Library lower) {parent child source : ℕ}
    (defined : tsan.join order parent child = some (later, made)) (differs : parent ≠ child)
    (found : tsan.activeObject parent = some thr)
    (ended : (tsan.threadStates.lookup child).map TsanThread.tsan = some source) :
    lower.Leads made (.thread source) (.thread thr) := by
  obtain ⟨-, same⟩ := Option.ite_none_left_eq_some.mp defined
  obtain ⟨-, rfl⟩ := Prod.mk.inj (Option.some.inj same)
  obtain ⟨state, listed, rfl⟩ := Option.map_eq_some_iff.mp ended
  rw [listed]
  let without : Tsan := { threadStates := deactivate tsan.threadStates child }
  have active : without.activeObject parent = some thr := by
    unfold activeObject
    rw [lookup_deactivate, if_neg differs]
    exact found
  let eventId := getEventId parent child
  let rest : List TsanCall := (activeThreads order without.threadStates).map
    (.happensAfter · eventId) ++ [.threadFinish state.tsan]
  have waits : .happensAfter thr eventId ∈ rest :=
    List.mem_append_left _ (List.mem_map_of_mem (activeObject_mem active))
  have announced : TsanCall.happensBefore state.tsan eventId ∈
      [TsanCall.happensBefore state.tsan eventId] := List.mem_singleton_self _
  have leads : lower.Leads ([.happensBefore state.tsan eventId] ++ rest) (.thread state.tsan)
      (.thread thr) := leads_through library announced waits
  exact leads

/-! ### Every step -/

/-- A call that is forwarded as one call is kept as this one. -/
theorem keptAs_of_toldAs (library : Library lower)
    (defined : step.pre.call order step.event = some (step.post, step.output))
    (told : toldAs? step.event.call = some call) :
    flow.KeptAs lower Step.output image step call := by
  obtain ⟨puts, takes⟩ := edges_of_toldAs library told
  exact ⟨eq_of_toldAs told defined, puts, takes⟩

/-- A call that is not forwarded as one call works on thread objects only. -/
theorem thread_of_untold (untold : toldAs? event.call = none) {carrier : TsanCarrier} :
    (tsan.Puts event carrier → ∃ tls, carrier = .thread tls ∧
      (tsan.caller event.call = some tls ∨ starts event = some tls)) ∧
    (tsan.Takes event carrier → ∃ tls, carrier = .thread tls ∧
      (tsan.caller event.call = some tls ∨ tsan.joins event.call = some tls)) := by
  obtain ⟨event, created⟩ := event
  refine ⟨fun puts => ?_, fun takes => ?_⟩
  · cases carrier with
    | thread tls => exact ⟨tls, rfl, puts⟩
    | _ => cases event <;> cases untold <;> cases puts
  · cases carrier with
    | thread tls => exact ⟨tls, rfl, takes⟩
    | mutex =>
      obtain ⟨lock, locks, -⟩ := takes
      cases event <;> cases untold <;> cases locks
    | identifier => cases event <;> cases untold <;> cases takes

/-- Every step leads what it takes on to where it puts it. -/
theorem translates (library : Library lower)
    (defined : step.pre.call order step.event = some (step.post, step.output)) :
    flow.Translates lower Step.output image step := by
  cases told : toldAs? step.event.call with
  | some call => exact (keptAs_of_toldAs library defined told).translates
  | none =>
    intro source target takes puts
    obtain ⟨tsan, ⟨event, created⟩, later, made⟩ := step
    obtain ⟨source, rfl, takes⟩ := (thread_of_untold told).2 takes
    obtain ⟨target, rfl, puts⟩ := (thread_of_untold told).1 puts
    rcases takes with own | waits
    · rcases puts with same | child
      · obtain rfl := Option.some.inj (own.symm.trans same)
        exact .refl
      · cases event <;> cases child
        exact leads_fork library defined own
    · rcases puts with own | child
      · cases event <;> try cases waits
        obtain ⟨differs, found⟩ := Option.ite_none_left_eq_some.mp own
        exact leads_join library defined differs found waits
      · cases event <;> cases child
        cases waits

/-- No order is lost: if one call of the interface happens before another one, the call of the
library it is forwarded as happens before the one of the other, in every run and whatever order the
threads are visited in. -/
theorem order_kept (library : Library lower) (reaches : (machine order).Reaches past tsan)
    (foundFirst : past[first]? = some before) (foundSecond : past[second]? = some after)
    (toldFirst : toldAs? before.event.call = some call)
    (toldSecond : toldAs? after.event.call = some other)
    (ordered : flow.HappensBefore past first second) :
    let calls := past.flatMap Step.output
    let position := Flow.offset Step.output past
    calls[position first]? = some call ∧ calls[position second]? = some other ∧
      lower.HappensBefore calls (position first) (position second) := by
  have defined : ∀ step ∈ past, step.pre.call order step.event = some (step.post, step.output) :=
    always_iff_forall_mem.mp fun _ _ initial => (reaches.step initial).2
  have keptFirst := keptAs_of_toldAs library
    (defined before (List.mem_of_getElem? foundFirst)) toldFirst
  have keptSecond := keptAs_of_toldAs library
    (defined after (List.mem_of_getElem? foundSecond)) toldSecond
  exact ⟨Flow.getElem?_translated foundFirst keptFirst.single,
    Flow.getElem?_translated foundSecond keptSecond.single,
    Flow.happensBefore_translated (fun step member => translates library (defined step member))
      foundFirst foundSecond keptFirst keptSecond ordered⟩

/-- A library that draws the edges it is relied on for. -/
def drawn : Flow TsanCall TsanCarrier where
  puts call
    | .thread thr => call.thr? = some thr
    | .mutex mutex write => ∃ thr, call = .mutexBeforeUnlock thr mutex write
    | .identifier identifier => ∃ thr, call = .happensBefore thr identifier
  takes call
    | .thread thr => call.thr? = some thr
    | .mutex mutex held => ∃ thr write, call = .mutexAfterLock thr mutex write ∧ Awaits write held
    | .identifier identifier => ∃ thr, call = .happensAfter thr identifier

/-- A thread writes, forks a child that reads, and writes after it has joined the child. -/
def forksAndJoins : List TsanEvent :=
  [⟨.fork 0 1, 16⟩, ⟨.write 16 0x40 0x100000100 4, 0⟩, ⟨.fork 1 2, 32⟩,
    ⟨.read 32 0x50 0x100000100 4, 0⟩, ⟨.join 1 2, 0⟩, ⟨.write 16 0x41 0x100000100 4, 0⟩]

theorem order_kept_forks_and_joins :
    let run := (machine .byEntries).ran {} forksAndJoins
    let calls := run.1.flatMap Step.output
    let position := Flow.offset Step.output run.1
    calls[position 1]? = some (.write 16 0xc000000100 0x40) ∧
      calls[position 5]? = some (.write 16 0xc000000100 0x41) ∧
      drawn.HappensBefore calls (position 1) (position 5) := by
  have library : Library drawn := {
    putsOwn := fun _ _ own => own
    takesOwn := fun _ _ own => own
    announces := fun thr _ => ⟨thr, rfl⟩
    awaits := fun thr _ => ⟨thr, rfl⟩
    unlocks := fun thr _ _ => ⟨thr, rfl⟩
    locks := fun thr _ write _ awaits => ⟨thr, write, rfl, awaits⟩ }
  let run := (machine .byEntries).ran {} forksAndJoins
  have forks : flow.Edge run.1 1 2 :=
    Flow.edge_of_carrier flow (.thread 16) (by decide) (by decide +kernel)
  have starts : flow.Edge run.1 2 3 :=
    Flow.edge_of_carrier flow (.thread 32) (by decide) (by decide +kernel)
  have reads : flow.Edge run.1 3 4 :=
    Flow.edge_of_carrier flow (.thread 32) (by decide) (by decide +kernel)
  have joins : flow.Edge run.1 4 5 :=
    Flow.edge_of_carrier flow (.thread 16) (by decide) (by decide +kernel)
  exact order_kept library (Machine.reaches_ran rfl forksAndJoins) rfl rfl rfl rfl
    (((Relation.TransGen.single forks).tail starts).tail reads |>.tail joins)

end Tsan

end Drace
