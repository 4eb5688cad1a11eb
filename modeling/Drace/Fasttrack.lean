/-
This file models the Fasttrack detector: its tables, the two access checks and
the calls of the detector interface.

A thread object is owned by the `threads` table, so the tls handle of a thread is
the key its object is stored under, and a call that follows a handle without an
object is undefined. Each call is processed atomically. The callback of a call is
modelled by the list of races the call puts out, in order. The statistics are
kept as counters; printing them is left out, as are the locks.
-/

import Drace.Machine
import Drace.VarState

namespace Drace

/-- `Detector::max_stack_size`. -/
def maxStackSize : ℕ := 16

/-- A single memory access of a reported race. -/
structure AccessEntry where
  write : Bool
  onheap : Bool
  threadId : ℕ
  accessType : ℤ
  stackSize : ℕ
  accessSize : ℕ
  heapBlockSize : ℕ
  accessedMemory : ℕ
  heapBlockBegin : ℕ
  stackTrace : Vector ℕ maxStackSize
  deriving DecidableEq

/-- A data-race is a tuple of two accesses. -/
structure Race where
  first : AccessEntry
  second : AccessEntry
  deriving DecidableEq

/-- The loop that drops the outermost frames of a stack that does not fit an entry. -/
def trimStack : List ℕ → List ℕ
  | [] => []
  | frame :: rest =>
    if maxStackSize < (frame :: rest).length then trimStack rest else frame :: rest

/-- The entry `report_race` fills for one of the two threads. -/
def AccessEntry.fill (thread : ℕ) (write : Bool) (var : VarState) (address : ℕ)
    (stack : List ℕ) : AccessEntry where
  write := write
  onheap := false
  threadId := thread
  accessType := 0
  stackSize := (trimStack stack).length
  accessSize := var.size
  heapBlockSize := 0
  accessedMemory := address
  heapBlockBegin := 0
  stackTrace := Vector.ofFn fun index => (trimStack stack).getD index 0

/-- The way a read or write takes through its checks, named after the counter it raises. -/
inductive Rule
  | readExSameEpoch
  | readShSameEpoch
  | readShared
  | readExclusive
  | readShare
  | writeSameEpoch
  | writeExclusive
  | writeShared
  deriving DecidableEq

/-- The internal statistics, as `uint32_t` counters. -/
structure LogCounters where
  readExSameEpoch : ℕ := 0
  readShSameEpoch : ℕ := 0
  readShared : ℕ := 0
  readExclusive : ℕ := 0
  readShare : ℕ := 0
  writeSameEpoch : ℕ := 0
  writeExclusive : ℕ := 0
  writeShared : ℕ := 0
  deriving DecidableEq

/-- Raises the counter of a rule. -/
def LogCounters.count (counters : LogCounters) : Rule → LogCounters
  | .readExSameEpoch =>
    { counters with readExSameEpoch := (counters.readExSameEpoch + 1) % 0x100000000 }
  | .readShSameEpoch =>
    { counters with readShSameEpoch := (counters.readShSameEpoch + 1) % 0x100000000 }
  | .readShared => { counters with readShared := (counters.readShared + 1) % 0x100000000 }
  | .readExclusive => { counters with readExclusive := (counters.readExclusive + 1) % 0x100000000 }
  | .readShare => { counters with readShare := (counters.readShare + 1) % 0x100000000 }
  | .writeSameEpoch =>
    { counters with writeSameEpoch := (counters.writeSameEpoch + 1) % 0x100000000 }
  | .writeExclusive =>
    { counters with writeExclusive := (counters.writeExclusive + 1) % 0x100000000 }
  | .writeShared => { counters with writeShared := (counters.writeShared + 1) % 0x100000000 }

/-- The state of the detector. -/
structure Fasttrack where
  allocs : AList fun _ : ℕ => ℕ := ∅
  vars : AList fun _ : ℕ => VarState := ∅
  locks : AList fun _ : ℕ => VectorClock := ∅
  threads : AList fun _ : ℕ => ThreadState := ∅
  happensStates : AList fun _ : ℕ => VectorClock := ∅
  logFlag : Bool := false
  logCount : LogCounters := {}

/-- What a call puts out: the races it reports, and the handle `fork` returns. -/
structure Output where
  races : List Race := []
  tls : Option ℕ := none
  deriving DecidableEq

/-- The calls of the detector interface. -/
inductive Event
  | read (tls pc addr size : ℕ)
  | write (tls pc addr size : ℕ)
  | funcEnter (tls pc : ℕ)
  | funcExit (tls : ℕ)
  | fork (parent child : ℕ)
  | join (parent child : ℕ)
  | acquire (tls mutex : ℕ) (recursive : ℤ) (write : Bool)
  | release (tls mutex : ℕ) (write : Bool)
  | happensBefore (tls identifier : ℕ)
  | happensAfter (tls identifier : ℕ)
  | allocate (tls pc addr size : ℕ)
  | deallocate (tls addr : ℕ)
  | detach (tls threadId : ℕ)
  | finish (tls threadId : ℕ)
  | mapShadow (startaddr sizeInBytes : ℕ)
  | finalize
  deriving DecidableEq

namespace Fasttrack

variable (layout : Layout)

/-! ### Threads behind handles -/

/-- The thread object behind a handle after a call has changed it. -/
def setThread (ft : Fasttrack) (tls : ℕ) (thread : ThreadState) : Fasttrack :=
  { ft with threads := ft.threads.insert tls thread }

/-- Change the thread object behind a handle in place. -/
def modifyThread (ft : Fasttrack) (tls : ℕ) (change : ThreadState → ThreadState) : Fasttrack :=
  match ft.threads.lookup tls with
  | some thread => ft.setThread tls (change thread)
  | none => ft

/-! ### The access checks -/

/-- Report a data-race. Nothing is reported when one of the threads is, because of finishing,
not registered any more. -/
def reportRace (ft : Fasttrack) (thr1 thr2 : ℕ) (wr1 wr2 : Bool) (var : VarState)
    (address : ℕ) : List Race :=
  match ft.threads.lookup thr1, ft.threads.lookup thr2 with
  | some first, some second =>
    [{ first := .fill thr1 wr1 var address (first.traceDepot.returnStackTrace address)
       second := .fill thr2 wr2 var address (second.traceDepot.returnStackTrace address) }]
  | _, _ => []

/-- Takes care of a read access. -/
def readVar (ft : Fasttrack) (thread : ThreadState) (var : VarState) (addr : ℕ) :
    VarState × List Race × Rule :=
  if thread.returnOwnId = var.getReadId then (var, [], .readExSameEpoch)
  else
    let id := thread.returnOwnId
    let tid := thread.getTid layout
    if var.isReadShared ∧ var.getVcByThr layout tid = id then (var, [], .readShSameEpoch)
    else
      -- write-read race
      let races := if var.isWrRace layout thread
        then ft.reportRace (var.getWTid layout) tid true false var addr else []
      if ¬ var.isReadShared then
        if var.getReadId = VarState.varNotInit ∨ var.getRTid layout = tid then
          (var.update layout false id, races, .readExclusive)
        else (var.setReadShared id, races, .readShare)
      else (var.update layout false id, races, .readShared)

/-- Takes care of a write access. -/
def writeVar (ft : Fasttrack) (thread : ThreadState) (var : VarState) (addr : ℕ) :
    VarState × List Race × Rule :=
  if thread.returnOwnId = var.getWriteId then (var, [], .writeSameEpoch)
  -- initial write: the reads held so far are dropped without a check
  else if var.getWriteId = VarState.varNotInit then
    (var.update layout true thread.returnOwnId, [], .writeExclusive)
  else
    let tid := thread.getTid layout
    let writeRaces := if var.isWwRace layout thread
      then ft.reportRace (var.getWTid layout) tid true true var addr else []
    if ¬ var.isReadShared then
      let readRaces := if var.isRwExRace layout thread
        then ft.reportRace (var.getRTid layout) tid false true var addr else []
      (var.update layout true thread.returnOwnId, writeRaces ++ readRaces, .writeExclusive)
    else
      let actTid := var.isRwShRace layout thread
      let readRaces := if actTid ≠ 0
        then ft.reportRace actTid tid false true var addr else []
      (var.update layout true thread.returnOwnId, writeRaces ++ readRaces, .writeShared)

/-! ### The tables -/

/-- The state kept for an address, created when the address is accessed for the first time. -/
def createVar (ft : Fasttrack) (addr size : ℕ) : VarState :=
  match ft.vars.lookup addr with
  | some var => var
  | none => .new size

/-- Creates a new lock object, unless there is one. -/
def createLock (ft : Fasttrack) (mutex : ℕ) : Fasttrack :=
  if mutex ∈ ft.locks then ft else { ft with locks := ft.locks.insert mutex {} }

/-- Creates a new thread object, unless the tid has one, and returns its handle. The tid is
converted to `VectorClock::TID`. -/
def createThread (ft : Fasttrack) (tid : ℕ) (parent : Option ThreadState) : Fasttrack × ℕ :=
  let tid := tid % layout.tidRange
  if tid ∈ ft.threads then (ft, tid)
  else (ft.setThread tid (.new layout tid parent), tid)

/-- Creates a happens-before object, unless there is one. -/
def createHappens (ft : Fasttrack) (identifier : ℕ) : Fasttrack :=
  if identifier ∈ ft.happensStates then ft
  else { ft with happensStates := ft.happensStates.insert identifier {} }

/-- Deletes all data which is related to the tid, a `uint32_t`. -/
def cleanup (ft : Fasttrack) (tid : ℕ) : Fasttrack :=
  let tid := tid % 0x100000000 % layout.tidRange
  { ft with
    locks := ft.locks.mapValues fun clock => clock.deleteVc tid
    threads := ft.threads.mapValues fun thread => thread.dropEntry tid
    happensStates := ft.happensStates.mapValues fun clock => clock.deleteVc tid }

/-- The statistics after an access, kept only with `--stats`. -/
def countRule (ft : Fasttrack) (rule : Rule) : Fasttrack :=
  if ft.logFlag then { ft with logCount := ft.logCount.count rule } else ft

/-! ### The calls -/

/-- `parse_args` looks for `--stats` behind the program name. -/
def parseArgs : List String → Bool
  | [] => false
  | _ :: arguments => arguments.any fun argument => argument = "--stats"

def init (ft : Fasttrack) (argv : List String) : Fasttrack :=
  { ft with logFlag := ft.logFlag || parseArgs argv }

def finalize (ft : Fasttrack) : Fasttrack :=
  { ft with allocs := ∅, vars := ∅, locks := ∅, threads := ∅, happensStates := ∅ }

/-- The thread records the access in its stack depot before the variable is looked up. -/
def recordAccess (ft : Fasttrack) (tls : ℕ) (thread : ThreadState) (pc addr : ℕ) : Fasttrack :=
  ft.setThread tls { thread with traceDepot := thread.traceDepot.setReadWrite addr pc }

/-- The tables after an access check. -/
def storeAccess (ft : Fasttrack) (addr : ℕ) (result : VarState × List Race × Rule) :
    Fasttrack × List Race :=
  (countRule { ft with vars := ft.vars.insert addr result.1 } result.2.2, result.2.1)

def read (ft : Fasttrack) (tls pc addr size : ℕ) : Option (Fasttrack × List Race) :=
  (ft.threads.lookup tls).map fun thread =>
    let ft := ft.recordAccess tls thread pc addr
    ft.storeAccess addr (ft.readVar layout thread (ft.createVar addr size) addr)

def write (ft : Fasttrack) (tls pc addr size : ℕ) : Option (Fasttrack × List Race) :=
  (ft.threads.lookup tls).map fun thread =>
    let ft := ft.recordAccess tls thread pc addr
    ft.storeAccess addr (ft.writeVar layout thread (ft.createVar addr size) addr)

def funcEnter (ft : Fasttrack) (tls pc : ℕ) : Option Fasttrack :=
  (ft.threads.lookup tls).map fun thread =>
    ft.setThread tls { thread with traceDepot := thread.traceDepot.pushStackElement pc }

def funcExit (ft : Fasttrack) (tls : ℕ) : Option Fasttrack :=
  (ft.threads.lookup tls).bind fun thread =>
    thread.traceDepot.popStackElement.map fun depot =>
      ft.setThread tls { thread with traceDepot := depot }

/-- The parent counts its clock up before the child copies it. -/
def fork (ft : Fasttrack) (parent child : ℕ) : Fasttrack × ℕ :=
  match ft.threads.lookup parent with
  | some thread =>
    (ft.setThread parent (thread.incVc layout)).createThread layout child
      (some (thread.incVc layout))
  | none => ft.createThread layout child none

/-- Passes the incremented clock of the deleted thread to the parent. Both names can stand for
the same object. Invalid thread ids are ignored. -/
def join (ft : Fasttrack) (parent child : ℕ) : Fasttrack :=
  match ft.threads.lookup child, ft.threads.lookup parent with
  | some delThread, some _ =>
    let delThread := delThread.incVc layout
    let ft := ft.setThread child delThread
    let ft := ft.modifyThread parent fun thread => thread.mergeClock delThread.toVectorClock
    let ft := { ft with threads := ft.threads.erase child }
    ft.cleanup layout child
  | _, _ => ft

/-- Syncs the thread's clock to the lock's clock. A recursive acquire needs no action. -/
def acquire (ft : Fasttrack) (tls mutex : ℕ) (recursive : ℤ) : Option Fasttrack :=
  if 1 < recursive then some ft
  else
    let ft := ft.createLock mutex
    (ft.threads.lookup tls).map fun thread =>
      ft.setThread tls (thread.mergeClock ((ft.locks.lookup mutex).getD {}))

/-- Increases the thread's clock and propagates it to the lock. A lock that was never acquired
is created empty. -/
def release (ft : Fasttrack) (tls mutex : ℕ) : Option Fasttrack :=
  match ft.locks.lookup mutex with
  | none => some (ft.createLock mutex)
  | some lock =>
    (ft.threads.lookup tls).map fun thread =>
      let thread := thread.incVc layout
      { ft.setThread tls thread with
        locks := ft.locks.insert mutex (lock.update thread.toVectorClock) }

/-- Increments the clock of the thread and updates the happens state with the thread's id. -/
def happensBefore (ft : Fasttrack) (tls identifier : ℕ) : Option Fasttrack :=
  let ft := ft.createHappens identifier
  (ft.threads.lookup tls).map fun thread =>
    let thread := thread.incVc layout
    let state := (ft.happensStates.lookup identifier).getD {}
    { ft.setThread tls thread with
      happensStates := ft.happensStates.insert identifier
        (state.updateEntry (thread.getTid layout) thread.returnOwnId) }

/-- Updates the clock of the thread with the clocks that happened before, if there are any. -/
def happensAfter (ft : Fasttrack) (tls identifier : ℕ) : Option Fasttrack :=
  match ft.happensStates.lookup identifier with
  | none => some (ft.createHappens identifier)
  | some state =>
    (ft.threads.lookup tls).map fun thread => ft.setThread tls (thread.mergeClock state)

def allocate (ft : Fasttrack) (addr size : ℕ) : Fasttrack :=
  if addr ∈ ft.allocs then ft else { ft with allocs := ft.allocs.insert addr size }

/-- The loop of `deallocate`: erases the variables from an address on, and returns the cursor
as the loop leaves it. -/
def eraseVars (vars : AList fun _ : ℕ => VarState) (address : ℕ) :
    ℕ → (AList fun _ : ℕ => VarState) × ℕ
  | 0 => (vars, address)
  | count + 1 =>
    eraseVars (if address ∈ vars then vars.erase address else vars) (address + 1) count

/-- The loop erases the variables of its range, and leaves the cursor behind the range. -/
theorem eraseVars_spec (vars : AList fun _ : ℕ => VarState) (address count key : ℕ) :
    (eraseVars vars address count).2 = address + count ∧
      (eraseVars vars address count).1.lookup key =
        if address ≤ key ∧ key < address + count then none else vars.lookup key := by
  induction count generalizing vars address with
  | zero => exact ⟨rfl, by rw [if_neg (by omega)]; rfl⟩
  | succ count inductionHypothesis =>
    obtain ⟨cursor, found⟩ := inductionHypothesis
      (if address ∈ vars then vars.erase address else vars) (address + 1)
    have erased : (if address ∈ vars then vars.erase address else vars).lookup key =
        if key = address then none else vars.lookup key := by
      split
      · rw [AList.lookup_erase_eq_ite]
      · next absent =>
        split
        · next same => rw [same, AList.lookup_eq_none.mpr absent]
        · rfl
    rw [eraseVars, cursor, found, erased]
    refine ⟨by omega, ?_⟩
    by_cases same : key = address
    · rw [if_pos same, ite_self, if_pos (by omega)]
    · rw [if_neg same]
      exact if_congr (by omega) rfl rfl

/-- `allocs[address]` creates an entry of size 0 for an unknown address. The final erase uses
the cursor of the loop. -/
def deallocate (ft : Fasttrack) (addr : ℕ) : Fasttrack :=
  let allocs := if addr ∈ ft.allocs then ft.allocs else ft.allocs.insert addr 0
  let endAddr := (addr + (allocs.lookup addr).getD 0) % layout.sizeRange
  let erased := eraseVars ft.vars addr (endAddr - addr)
  { ft with vars := erased.1, allocs := allocs.erase erased.2 }

/-- The `end_addr` of `deallocate`, in `size_t`. -/
def endAddr (ft : Fasttrack) (addr : ℕ) : ℕ :=
  (addr + (ft.allocs.lookup addr).getD 0) % layout.sizeRange

/-- What the deallocation of an address does to the two tables. The entry that is erased from
`allocs` is the one behind the range. -/
theorem deallocate_spec (ft : Fasttrack) (addr key : ℕ) :
    (ft.deallocate layout addr).vars.lookup key =
        (if addr ≤ key ∧ key < ft.endAddr layout addr then none else ft.vars.lookup key) ∧
      (ft.deallocate layout addr).allocs.lookup key =
        if key = max addr (ft.endAddr layout addr) then none
        else if key = addr then some ((ft.allocs.lookup addr).getD 0)
          else ft.allocs.lookup key := by
  have entries : ∀ key, (if addr ∈ ft.allocs then ft.allocs
      else ft.allocs.insert addr 0).lookup key =
        if key = addr then some ((ft.allocs.lookup addr).getD 0) else ft.allocs.lookup key := by
    intro key
    split
    · next member =>
      obtain ⟨size, found⟩ := AList.exists_lookup member
      split
      · next same => rw [same, found, Option.getD_some]
      · rfl
    · next absent =>
      rw [AList.lookup_insert_eq_ite, AList.lookup_eq_none.mpr absent, Option.getD_none]
  have endEq : (addr + ((if addr ∈ ft.allocs then ft.allocs else ft.allocs.insert addr 0).lookup
      addr).getD 0) % layout.sizeRange = ft.endAddr layout addr := by
    rw [entries, if_pos rfl, Option.getD_some, endAddr]
  obtain ⟨cursor, erased⟩ := eraseVars_spec ft.vars addr (ft.endAddr layout addr - addr) key
  unfold deallocate
  simp only [endEq, cursor]
  constructor
  · rw [erased]
    exact if_congr (by omega) rfl rfl
  · rw [AList.lookup_erase_eq_ite, entries]
    exact if_congr (by omega) rfl rfl

/-- Just deletes the thread from the list; no backward sync is needed. -/
def finish (ft : Fasttrack) (threadId : ℕ) : Fasttrack :=
  { ft with threads := ft.threads.erase threadId }.cleanup layout threadId

/-- One call of the interface, undefined where the source would follow a dangling handle or pop
an empty stack. -/
def call (ft : Fasttrack) : Event → Option (Fasttrack × Output)
  | .read tls pc addr size =>
    (ft.read layout tls pc addr size).map fun result => (result.1, { races := result.2 })
  | .write tls pc addr size =>
    (ft.write layout tls pc addr size).map fun result => (result.1, { races := result.2 })
  | .funcEnter tls pc => (ft.funcEnter tls pc).map fun next => (next, {})
  | .funcExit tls => (ft.funcExit tls).map fun next => (next, {})
  | .fork parent child =>
    let result := ft.fork layout parent child
    some (result.1, { tls := some result.2 })
  | .join parent child => some (ft.join layout parent child, {})
  | .acquire tls mutex recursive _ => (ft.acquire tls mutex recursive).map fun next => (next, {})
  | .release tls mutex _ => (ft.release layout tls mutex).map fun next => (next, {})
  | .happensBefore tls identifier =>
    (ft.happensBefore layout tls identifier).map fun next => (next, {})
  | .happensAfter tls identifier => (ft.happensAfter tls identifier).map fun next => (next, {})
  | .allocate _ _ addr size => some (ft.allocate addr size, {})
  | .deallocate _ addr => some (ft.deallocate layout addr, {})
  | .detach _ _ => some (ft, {})
  | .finish _ threadId => some (ft.finish layout threadId, {})
  | .mapShadow _ _ => some (ft, {})
  | .finalize => some (ft.finalize, {})

/-- The detector as a machine: it starts initialized with some arguments. -/
def machine : Machine Fasttrack Event Output where
  start ft := ∃ argv, ft = ({} : Fasttrack).init argv
  call := call layout

end Fasttrack

end Drace
