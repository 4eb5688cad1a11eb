/-
This file models the decoder that replays a trace on another detector.

The decoder keeps the handle of each thread in a cell of its own. The replayed
detector is any detector: all the decoder sees of it are the handles it writes, which
may depend on every call before. A thread without a cell has the null pointer
for its cell, so a call on it is undefined. Without the bytes of the entries in
between, the decoder is a function of the recorded calls, and the rest of the
development reads it this way.
-/

import Mathlib
import Drace.HappensBefore
import Drace.Table
import Drace.TraceBinary

namespace Drace

open Ipc

/-- The state of the decoder: what is in the cells of the threads, and the calls made on the
replayed detector so far. -/
structure DetectorOutput where
  tls : AList fun _ : ℕ => ℕ := ∅
  calls : List Event := []

namespace DetectorOutput

-- `handle` is what the replayed detector writes in the last of the calls made on it
variable (handle : List Event → ℕ) (layout : Layout)

/-- Call the replayed detector for a thread, with the handle in the cell of the thread. -/
def call (output : DetectorOutput) (threadId : ℕ) (method : ℕ → Event) : Option DetectorOutput :=
  (output.tls.lookup threadId).map fun tls => { output with calls := output.calls ++ [method tls] }

/-- The new cell is not entered if the thread has one already. -/
def fork (output : DetectorOutput) (tid parentTid : ℕ) : DetectorOutput :=
  let calls := output.calls ++ [.fork parentTid tid]
  { calls, tls := if tid ∈ output.tls then output.tls else output.tls.insert tid (handle calls) }

def makeOutput (output : DetectorOutput) (buf : BufferEntry) : Option DetectorOutput :=
  match buf.type with
  | .funcEnter =>
    let funcenter := FuncEnter.load layout buf.payload
    output.call funcenter.threadId fun tls => .funcEnter tls funcenter.pc
  | .funcExit => output.call (DetachFinish.load buf.payload).threadId fun tls => .funcExit tls
  | .memRead =>
    let memaccess := MemAccess.load layout buf.payload
    output.call memaccess.threadId fun tls => .read tls memaccess.pc memaccess.addr memaccess.size
  | .memWrite =>
    let memaccess := MemAccess.load layout buf.payload
    output.call memaccess.threadId fun tls => .write tls memaccess.pc memaccess.addr memaccess.size
  | .acquire =>
    let mutex := Mutex.load layout buf.payload
    output.call mutex.threadId fun tls => .acquire tls mutex.addr mutex.recursive mutex.write
  | .release =>
    let mutex := Mutex.load layout buf.payload
    output.call mutex.threadId fun tls => .release tls mutex.addr mutex.write
  | .happensBefore =>
    let happens := HappensRelation.load layout buf.payload
    output.call happens.threadId fun tls => .happensBefore tls happens.id
  | .happensAfter =>
    let happens := HappensRelation.load layout buf.payload
    output.call happens.threadId fun tls => .happensAfter tls happens.id
  | .allocation =>
    let allocation := MemAccess.load layout buf.payload
    output.call allocation.threadId fun tls =>
      .allocate tls allocation.pc allocation.addr allocation.size
  | .free =>
    let allocation := MemAccess.load layout buf.payload
    output.call allocation.threadId fun tls => .deallocate tls allocation.addr
  | .fork =>
    let forkjoin := ForkJoin.load buf.payload
    some (output.fork handle forkjoin.child forkjoin.parent)
  | .join =>
    let forkjoin := ForkJoin.load buf.payload
    some { tls := output.tls.erase forkjoin.child
           calls := output.calls ++ [.join forkjoin.parent forkjoin.child] }
  | .detach =>
    let detachfinish := DetachFinish.load buf.payload
    output.call detachfinish.threadId fun tls => .detach tls detachfinish.threadId
  | .finish =>
    let detachfinish := DetachFinish.load buf.payload
    -- the cell is looked up by the child of the record `forkjoin`, which is not the one written
    (output.call detachfinish.threadId fun tls =>
      .finish tls detachfinish.threadId).map fun called =>
      { called with tls := called.tls.erase (ForkJoin.load buf.payload).child }
  | .none => some output

/-- Write the calls down and feed the entries to the decoder. -/
def replay (calls : List Event) : Option DetectorOutput :=
  (TraceBinary.trace layout calls).foldlM (makeOutput handle layout) {}

end DetectorOutput

/-! ### Machine numbers in a call -/

namespace Event

/-- The thread ids a call comes with, a handle of the recording detector being one. -/
def tids : Event → List ℕ
  | .read tls .. | .write tls .. | .funcEnter tls _ | .funcExit tls => [tls]
  | .acquire tls .. | .release tls .. | .happensBefore tls _ | .happensAfter tls _ => [tls]
  | .allocate tls .. | .deallocate tls _ => [tls]
  | .detach tls threadId | .finish tls threadId => [tls, threadId]
  | .fork parent child | .join parent child => [parent, child]
  | .mapShadow .. | .finalize => []

/-- The addresses and sizes a call comes with. -/
def words : Event → List ℕ
  | .read _ pc addr size | .write _ pc addr size | .allocate _ pc addr size => [pc, addr, size]
  | .funcEnter _ pc => [pc]
  | .acquire _ mutex .. | .release _ mutex _ => [mutex]
  | .happensBefore _ identifier | .happensAfter _ identifier => [identifier]
  | .deallocate _ addr => [addr]
  | .mapShadow startaddr sizeInBytes => [startaddr, sizeInBytes]
  | _ => []

/-- The number of recursive locks a call comes with. -/
def recursive? : Event → Option ℤ
  | .acquire _ _ recursive _ => some recursive
  | _ => none

/-- The arguments of a call are values of their types, thread ids of 32 bits. -/
structure InRange (layout : Layout) (event : Event) : Prop where
  tids : ∀ tid ∈ event.tids, tid < 2 ^ 32
  words : ∀ word ∈ event.words, word < layout.sizeRange
  recursive : ∀ recursive ∈ event.recursive?, -2 ^ 31 ≤ recursive ∧ recursive < 2 ^ 31

/-- The same call with another handle. -/
def withTls (tls : ℕ) : Event → Event
  | .read _ pc addr size => .read tls pc addr size
  | .write _ pc addr size => .write tls pc addr size
  | .funcEnter _ pc => .funcEnter tls pc
  | .funcExit _ => .funcExit tls
  | .acquire _ mutex recursive exclusive => .acquire tls mutex recursive exclusive
  | .release _ mutex exclusive => .release tls mutex exclusive
  | .happensBefore _ identifier => .happensBefore tls identifier
  | .happensAfter _ identifier => .happensAfter tls identifier
  | .allocate _ pc addr size => .allocate tls pc addr size
  | .deallocate _ addr => .deallocate tls addr
  | .detach _ threadId => .detach tls threadId
  | .finish _ threadId => .finish tls threadId
  | event => event

end Event

namespace DetectorOutput

variable {handle : List Event → ℕ} {layout : Layout} {output : DetectorOutput} {event : Event}
  {calls : List Event}

/-- Record a call and decode what was written, if anything was. -/
def step (handle : List Event → ℕ) (layout : Layout) (output : DetectorOutput) (event : Event) :
    Option DetectorOutput :=
  match TraceBinary.record layout event with
  | some buf => output.makeOutput handle layout buf
  | none => some output

/-- What the decoder does for a recorded call, without the bytes in between. -/
def follow (handle : List Event → ℕ) (output : DetectorOutput) : Event → Option DetectorOutput
  | .fork parent child => some (output.fork handle child parent)
  | .join parent child =>
    some { tls := output.tls.erase child, calls := output.calls ++ [.join parent child] }
  | .detach threadId _ => output.call threadId fun tls => .detach tls threadId
  | .finish threadId _ =>
    (output.call threadId fun tls => .finish tls threadId).map fun called =>
      { called with tls := called.tls.erase 0 }
  | .mapShadow .. | .finalize => some output
  | event => event.tls?.elim none fun threadId => output.call threadId event.withTls

/-- The decoder reads the record that was written, with one exception: the key of the cell a
finishing thread gives up. -/
theorem step_eq_follow (fits : event.InRange layout) :
    output.step handle layout event = output.follow handle event := by
  have narrow := fits.tids
  have words := fits.words
  have count := fits.recursive
  have empty : 0 < layout.sizeRange := by cases layout <;> decide
  cases event <;>
    simp only [Event.tids, Event.words, Event.recursive?, List.forall_mem_cons, List.not_mem_nil,
      Option.mem_some_iff, forall_eq', IsEmpty.forall_iff, implies_true,
        and_true] at narrow words count
  case funcEnter tls pc =>
    simp only [step, TraceBinary.record, makeOutput, FuncEnter.load_store narrow words]
    rfl
  case funcExit tls =>
    simp only [step, TraceBinary.record, makeOutput, DetachFinish.load_store narrow]
    rfl
  case acquire tls mutex recursive write =>
    simp only [step, TraceBinary.record, makeOutput, Mutex.load_store narrow words count.1 count.2]
    rfl
  case release tls mutex write =>
    have least : -2 ^ 31 ≤ (0 : ℤ) := by decide
    simp only [step, TraceBinary.record, makeOutput,
      Mutex.load_store narrow words least (by decide)]
    rfl
  case happensBefore tls identifier =>
    simp only [step, TraceBinary.record, makeOutput, HappensRelation.load_store narrow words]
    rfl
  case happensAfter tls identifier =>
    simp only [step, TraceBinary.record, makeOutput, HappensRelation.load_store narrow words]
    rfl
  case read tls pc addr size =>
    simp only [step, TraceBinary.record, makeOutput,
      MemAccess.load_store narrow words.1 words.2.1 words.2.2]
    rfl
  case write tls pc addr size =>
    simp only [step, TraceBinary.record, makeOutput,
      MemAccess.load_store narrow words.1 words.2.1 words.2.2]
    rfl
  case allocate tls pc addr size =>
    simp only [step, TraceBinary.record, makeOutput,
      MemAccess.load_store narrow words.1 words.2.1 words.2.2]
    rfl
  case deallocate tls addr =>
    simp only [step, TraceBinary.record, makeOutput, MemAccess.load_store narrow empty words empty]
    rfl
  case fork parent child =>
    simp only [step, TraceBinary.record, makeOutput, ForkJoin.load_store narrow.1 narrow.2]
    rfl
  case join parent child =>
    simp only [step, TraceBinary.record, makeOutput, ForkJoin.load_store narrow.1 narrow.2]
    rfl
  case detach tls threadId =>
    simp only [step, TraceBinary.record, makeOutput, DetachFinish.load_store narrow.1]
    rfl
  case finish tls threadId =>
    simp only [step, TraceBinary.record, makeOutput, DetachFinish.load_store narrow.1,
      ForkJoin.child_load_store]
    rfl
  case mapShadow startaddr sizeInBytes => rfl
  case finalize => rfl

/-- Recording and decoding one call more. -/
theorem replay_append : replay handle layout (calls ++ [event]) =
    (replay handle layout calls).bind fun output => output.step handle layout event := by
  rw [replay, replay, TraceBinary.trace, List.filterMap_append, List.foldlM_append]
  refine congrArg (Option.bind _) (funext fun output => ?_)
  rw [step]
  cases written : TraceBinary.record layout event with
  | none => simp [written]
  | some buf => simp [written]

end DetectorOutput

end Drace
