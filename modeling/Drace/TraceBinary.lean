/-
This file models the trace a recording detector writes.

Every call of the detector interface that has an entry kind becomes one entry: the
kind and a record, which the kinds overlay in one union. A fresh entry is zero, and
a record that is assigned to the union covers the first bytes of it only. The casts
to 32 bit numbers are the widths of the fields. The recording detector hands the
thread id out as the handle of the thread.
-/

import Drace.Bytes
import Drace.ShadowState

namespace Drace

open Bytes

namespace Layout

theorem sizeRange_eq_pow (layout : Layout) : layout.sizeRange = 256 ^ layout.sizeofPtr := by
  cases layout <;> decide

end Layout

/-- `ipc::event::Type`. -/
inductive EntryType
  | none
  | memRead
  | memWrite
  | acquire
  | release
  | happensBefore
  | happensAfter
  | allocation
  | free
  | fork
  | join
  | detach
  | finish
  | funcEnter
  | funcExit
  deriving DecidableEq

/-! ### The records -/

namespace Ipc

/-- Every record starts with a 32 bit thread id. -/
def firstId : Field := ⟨0, 4⟩

variable (layout : Layout)

/-- A member of the size of an address. The first of them lies behind the thread id, at the
alignment of an address. -/
def word (index : ℕ) : Field := ⟨index * layout.sizeofPtr, layout.sizeofPtr⟩

/-- `MemAccess`, and `Allocation`, which has the same members. -/
structure MemAccess where
  threadId : ℕ
  pc : ℕ
  addr : ℕ
  size : ℕ

namespace MemAccess

def store (record : MemAccess) (payload : Memory) : Memory :=
  (word layout 3).put record.size ((word layout 2).put record.addr
    ((word layout 1).put record.pc (firstId.put record.threadId payload)))

def load (payload : Memory) : MemAccess where
  threadId := firstId.get payload
  pc := (word layout 1).get payload
  addr := (word layout 2).get payload
  size := (word layout 3).get payload

end MemAccess

structure Mutex where
  threadId : ℕ
  addr : ℕ
  recursive : ℤ
  write : Bool
  acquire : Bool

namespace Mutex

/-- The 32 bit integer behind the address. -/
def recursiveField : Field := ⟨2 * layout.sizeofPtr, 4⟩

def writeField : Field := ⟨2 * layout.sizeofPtr + 4, 1⟩

def acquireField : Field := ⟨2 * layout.sizeofPtr + 5, 1⟩

def store (record : Mutex) (payload : Memory) : Memory :=
  (acquireField layout).putBool record.acquire ((writeField layout).putBool record.write
    ((recursiveField layout).putInt record.recursive ((word layout 1).put record.addr
      (firstId.put record.threadId payload))))

def load (payload : Memory) : Mutex where
  threadId := firstId.get payload
  addr := (word layout 1).get payload
  recursive := (recursiveField layout).getInt payload
  write := (writeField layout).getBool payload
  acquire := (acquireField layout).getBool payload

end Mutex

structure HappensRelation where
  threadId : ℕ
  id : ℕ

namespace HappensRelation

def store (record : HappensRelation) (payload : Memory) : Memory :=
  (word layout 1).put record.id (firstId.put record.threadId payload)

def load (payload : Memory) : HappensRelation where
  threadId := firstId.get payload
  id := (word layout 1).get payload

end HappensRelation

structure FuncEnter where
  threadId : ℕ
  pc : ℕ

namespace FuncEnter

def store (record : FuncEnter) (payload : Memory) : Memory :=
  (word layout 1).put record.pc (firstId.put record.threadId payload)

def load (payload : Memory) : FuncEnter where
  threadId := firstId.get payload
  pc := (word layout 1).get payload

end FuncEnter

structure ForkJoin where
  parent : ℕ
  child : ℕ

namespace ForkJoin

def childField : Field := ⟨4, 4⟩

def store (record : ForkJoin) (payload : Memory) : Memory :=
  childField.put record.child (firstId.put record.parent payload)

def load (payload : Memory) : ForkJoin where
  parent := firstId.get payload
  child := childField.get payload

end ForkJoin

/-- `DetachFinish`, and `FuncExit`, which has the same member. -/
structure DetachFinish where
  threadId : ℕ

namespace DetachFinish

def store (record : DetachFinish) (payload : Memory) : Memory := firstId.put record.threadId payload

def load (payload : Memory) : DetachFinish where
  threadId := firstId.get payload

end DetachFinish

/-- An entry of the trace: its kind and the union of the records. -/
structure BufferEntry where
  type : EntryType := .none
  payload : Memory := blank

/-! ### Records read back -/

section ReadBack

variable {layout} {threadId id parent child addr pc size index : ℕ} {recursive : ℤ}
  {write acquire : Bool}
  {payload : Memory}

@[simp]
theorem get_put_firstId (narrow : threadId < 2 ^ 32) :
    firstId.get (firstId.put threadId payload) = threadId := Field.get_put_of_fits narrow

@[simp]
theorem get_put_word (fits : pc < layout.sizeRange) :
    (word layout index).get ((word layout index).put pc payload) = pc := by
  rw [layout.sizeRange_eq_pow] at fits
  exact Field.get_put_of_fits fits

theorem MemAccess.load_store (narrow : threadId < 2 ^ 32) (pcFits : pc < layout.sizeRange)
    (addrFits : addr < layout.sizeRange) (sizeFits : size < layout.sizeRange) :
    load layout (store layout ⟨threadId, pc, addr, size⟩ payload) = ⟨threadId, pc, addr, size⟩ := by
  cases layout <;> simp (disch := first | assumption | decide) [load, store]

theorem Mutex.load_store (narrow : threadId < 2 ^ 32) (addrFits : addr < layout.sizeRange)
    (least : -2 ^ 31 ≤ recursive) (greatest : recursive < 2 ^ 31) :
    load layout (store layout ⟨threadId, addr, recursive, write, acquire⟩ payload) =
      ⟨threadId, addr, recursive, write, acquire⟩ := by
  have counted (memory : Memory) :
      (recursiveField layout).getInt ((recursiveField layout).putInt recursive memory) =
        recursive := by
    refine Field.getInt_putInt_of_fits ?_ ?_
    · change -(4294967296 : ℤ) ≤ _
      omega
    · change _ < (4294967296 : ℤ)
      omega
  cases layout <;> simp (disch := first | assumption | decide) [load, store, counted]

theorem HappensRelation.load_store (narrow : threadId < 2 ^ 32) (idFits : id < layout.sizeRange) :
    load layout (store layout ⟨threadId, id⟩ payload) = ⟨threadId, id⟩ := by
  cases layout <;> simp (disch := first | assumption | decide) [load, store]

theorem FuncEnter.load_store (narrow : threadId < 2 ^ 32) (pcFits : pc < layout.sizeRange) :
    load layout (store layout ⟨threadId, pc⟩ payload) = ⟨threadId, pc⟩ := by
  cases layout <;> simp (disch := first | assumption | decide) [load, store]

theorem ForkJoin.load_store (parentNarrow : parent < 2 ^ 32) (childNarrow : child < 2 ^ 32) :
    load (store ⟨parent, child⟩ payload) = ⟨parent, child⟩ := by
  have stored (memory : Memory) : childField.get (childField.put child memory) = child :=
    Field.get_put_of_fits childNarrow
  simp (disch := first | assumption | decide) [load, store, stored]

theorem DetachFinish.load_store (narrow : threadId < 2 ^ 32) :
    load (store ⟨threadId⟩ payload) = ⟨threadId⟩ := by
  rw [load, store, get_put_firstId narrow]

/-- What the member `child` is in a union that holds a thread id alone. -/
theorem ForkJoin.child_load_store : (load (DetachFinish.store ⟨threadId⟩ blank)).child = 0 := by
  simp (disch := decide) [load, DetachFinish.store]

end ReadBack

end Ipc

/-! ### The recording detector -/

namespace TraceBinary

open Ipc

variable (layout : Layout)

/-- The handle `TraceBinary::fork` stores for the child. -/
def tls (child : ℕ) : ℕ := child

/-- The entry a call writes, if it writes one. A detaching or finishing thread is written down
by its handle, not by the thread id the call comes with. -/
def record : Event → Option BufferEntry
  | .funcEnter tls pc => some ⟨.funcEnter, FuncEnter.store layout ⟨tls, pc⟩ blank⟩
  | .funcExit tls => some ⟨.funcExit, DetachFinish.store ⟨tls⟩ blank⟩
  | .acquire tls mutex recursive write =>
    some ⟨.acquire, Mutex.store layout ⟨tls, mutex, recursive, write, true⟩ blank⟩
  | .release tls mutex write => some
    ⟨.release, Mutex.store layout ⟨tls, mutex, 0, write, false⟩ blank⟩
  | .happensBefore tls identifier =>
    some ⟨.happensBefore, HappensRelation.store layout ⟨tls, identifier⟩ blank⟩
  | .happensAfter tls identifier =>
    some ⟨.happensAfter, HappensRelation.store layout ⟨tls, identifier⟩ blank⟩
  | .read tls pc addr size => some ⟨.memRead, MemAccess.store layout ⟨tls, pc, addr, size⟩ blank⟩
  | .write tls pc addr size => some ⟨.memWrite, MemAccess.store layout ⟨tls, pc, addr, size⟩ blank⟩
  | .allocate tls pc addr size => some
    ⟨.allocation, MemAccess.store layout ⟨tls, pc, addr, size⟩ blank⟩
  | .deallocate tls addr => some ⟨.free, MemAccess.store layout ⟨tls, 0, addr, 0⟩ blank⟩
  | .fork parent child => some ⟨.fork, ForkJoin.store ⟨parent, child⟩ blank⟩
  | .join parent child => some ⟨.join, ForkJoin.store ⟨parent, child⟩ blank⟩
  | .detach tls _ => some ⟨.detach, DetachFinish.store ⟨tls⟩ blank⟩
  | .finish tls _ => some ⟨.finish, DetachFinish.store ⟨tls⟩ blank⟩
  | .mapShadow .. | .finalize => none

/-- The entries the calls write, in their order. -/
def trace (calls : List Event) : List BufferEntry := calls.filterMap (record layout)

end TraceBinary

end Drace
