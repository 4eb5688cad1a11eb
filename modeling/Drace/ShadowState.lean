/-
This file models the data the client keeps for one application thread.

The inline instrumentation appends memory references to a buffer of the thread.
Pointers into this buffer are addresses, with 0 for null, and a reference lies in
memory at the address of its first byte. The buffer is one the allocator has
handed out, so it has no null address and ends below the last address. The
shadow stack never holds more than its capacity. The statistics that are only
printed are left out.
-/

import Mathlib
import Drace.Access

namespace Drace

namespace Layout

/-- `sizeof(void *)`. -/
def sizeofPtr : Layout → ℕ
  | x86 => 4
  | x64 => 8

/-- `sizeof(mem_ref_t)`: two addresses and a 32 bit size, padded to the alignment of an address. -/
def sizeofMemRef : Layout → ℕ
  | x86 => 12
  | x64 => 24

/-- `MemoryTracker::PROC_ADDR_LIMIT`. -/
def procAddrLimit : Layout → ℕ
  | x86 => 0xBFFFFFFF
  | x64 => 0x00007FFFFFFFFFFF

/-- `MemoryTracker::MAX_NUM_MEM_REFS`. -/
def maxNumMemRefs : ℕ := 64

/-- `MemoryTracker::MEM_BUF_SIZE`. -/
def memBufSize (layout : Layout) : ℕ := layout.sizeofMemRef * maxNumMemRefs

/-- The highest bit of an `uintptr_t`, which flags a function that is not sampled. -/
def flagBit (layout : Layout) : ℕ := layout.sizeRange / 2

theorem sizeofMemRef_pos (layout : Layout) : 0 < layout.sizeofMemRef := by cases layout <;> decide

theorem sizeRange_eq_flagBit (layout : Layout) : layout.sizeRange = 2 * layout.flagBit := by
  cases layout <;> decide

theorem one_lt_flagBit (layout : Layout) : 1 < layout.flagBit := by cases layout <;> decide

end Layout

/-- `MemoryTracker::MEM_REF_WRITE_TAG`, added to the size of a write. -/
def memRefWriteTag : ℕ := 0x40000000

/-- A single memory reference. -/
structure MemRef where
  addr : ℕ
  pc : ℕ
  size : ℕ
  deriving DecidableEq

namespace MemRef

/-- The entry the inline instrumentation stores for a reference. -/
def ofAccess (addr pc size : ℕ) (write : Bool) : MemRef :=
  ⟨addr, pc, size ||| if write then memRefWriteTag else 0⟩

/-- True if the memory reference is a write access. -/
def isWrite (ref : MemRef) : Bool := ref.size &&& memRefWriteTag ≠ 0

/-- The access the detector is told of. -/
def access (ref : MemRef) (tls : ℕ) : Access := ⟨ref.isWrite, tls, ref.pc, ref.addr, ref.size⟩

end MemRef

/-- The detector call of an access. -/
def Access.event (access : Access) : Event :=
  if access.write then .write access.tls access.pc access.addr access.size
  else .read access.tls access.pc access.addr access.size

@[simp]
theorem Access.access?_event (access : Access) : access.event.access? = some access := by
  obtain ⟨_ | _, tls, pc, addr, size⟩ := access <;> rfl

/-- The memory buffer of a thread. -/
structure AlignedBuffer (layout : Layout) where
  data : ℕ
  data_pos : 0 < data
  data_fits : data + layout.memBufSize < layout.sizeRange

/-! ### The shadow stack -/

/-- The shadow stack, innermost frame first. -/
structure ShadowStack where
  frames : List ℕ := []
  bounded : frames.length ≤ maxStackSize - 1 := by decide
  deriving DecidableEq

namespace ShadowStack

/-- One less than in the detector, where the last element represents the racy pc. -/
def maxSize : ℕ := maxStackSize - 1

/-- Return true if the stack is empty. -/
def isEmpty (stack : ShadowStack) : Bool := stack.frames.isEmpty

/-- Push a pc on the stack. More pushes than the stack has room for are ignored. -/
def push (stack : ShadowStack) (addr : ℕ) : ShadowStack :=
  if room : stack.frames.length < maxSize then ⟨addr :: stack.frames, room⟩ else stack

/-- Pop the top element of the stack; the caller makes sure that there is one. -/
def pop : ShadowStack → Option (ℕ × ShadowStack)
  | ⟨[], _⟩ => none
  | ⟨top :: rest, bounded⟩ => some (top, ⟨rest, Nat.le_of_succ_le bounded⟩)

end ShadowStack

/-! ### The state of a thread -/

/-- What does not change while the client runs: the options its functions read, the platform, the
first thread, and the handles the detector's `fork` gives out. -/
structure RuntimeConfig where
  exclStack : Bool := false
  excludeMaster : Bool := false
  lossy : Bool := false
  lossyFlush : Bool := false
  extctrl : Bool := false
  windows : Bool := false
  /-- The driver of the external control, which exists on Windows only, is connected. -/
  shmdriver : Bool := false
  runtimeTid : ℕ
  forkHandle : ℕ → ℕ

/-- Per thread data. -/
structure ShadowThreadState (layout : Layout) where
  /-- The head of the memory buffer, or null while the detector is disabled. -/
  bufPtr : ℕ
  /-- The negative address of the end of the memory buffer. -/
  bufEnd : ℕ
  /-- Stores `bufPtr` while the detector is disabled. -/
  bufPtrStored : ℕ
  samplingPos : ℤ
  tid : ℕ
  /-- The number of disable calls without an enable call, and the sampling flag. -/
  eventCnt : ℕ := 0
  appstackBeg : ℕ := 0
  appstackEnd : ℕ := 0
  detectorData : ℕ := 0
  memBuf : AlignedBuffer layout
  /-- What lies at an address of the buffer. -/
  memory : ℕ → MemRef
  mutexBook : AList fun _ : ℕ => ℕ := ∅
  stack : ShadowStack := {}
  /-- `stats.flushes`. -/
  flushes : ℕ := 0
  /-- `stats.freq_pcs`. -/
  freqPcs : List ℕ := []

namespace ShadowThreadState

variable {layout : Layout}

/-! ### Enabling and disabling -/

/-- Enable the detector (does not affect sampling). -/
def enable (data : ShadowThreadState layout) : ShadowThreadState layout :=
  { data with bufPtr := data.bufPtrStored }

/-- Disable the detector (does not affect sampling). -/
def disable (data : ShadowThreadState layout) : ShadowThreadState layout :=
  { data with bufPtrStored := data.bufPtr, bufPtr := 0 }

/-- True if the detector is enabled. -/
def isEnabled (data : ShadowThreadState layout) : Bool := data.bufPtr ≠ 0

/-- Enable the detector during this scope. The counter is unsigned, so it is at most 0 when it is
0. -/
def enableScope (data : ShadowThreadState layout) : ShadowThreadState layout :=
  let data := { data with eventCnt := (data.eventCnt + (layout.sizeRange - 1)) % layout.sizeRange }
  if data.eventCnt = 0 then data.enable else data

/-- Disable the detector during this scope. -/
def disableScope (data : ShadowThreadState layout) : ShadowThreadState layout :=
  let data := data.disable
  { data with eventCnt := (data.eventCnt + 1) % layout.sizeRange }

/-! ### The buffer -/

/-- The address of an entry of the buffer. -/
def slot (data : ShadowThreadState layout) (index : ℕ) : ℕ :=
  data.memBuf.data + index * layout.sizeofMemRef

/-- The entries a loop from the start of the buffer up to a pointer reads. -/
def entries (data : ShadowThreadState layout) (pointer : ℕ) : List MemRef :=
  (List.range ((pointer - data.memBuf.data + (layout.sizeofMemRef - 1)) / layout.sizeofMemRef)).map
    fun index => data.memory (data.slot index)

/-- Checks if the memory reference is filtered; it should be processed if not. -/
def filteredMemref (params : RuntimeConfig) (data : ShadowThreadState layout)
    (ref : MemRef) : Bool :=
  params.exclStack && decide (data.appstackBeg < ref.addr) && decide
    (ref.addr < data.appstackEnd) ||
    decide (layout.procAddrLimit < ref.addr)

/-- The basic block is a frequent one. The source searches the sorted list. -/
def pcInFreq (data : ShadowThreadState layout) (bb : ℕ) : Bool := data.freqPcs.contains (bb / 1024)

variable {data : ShadowThreadState layout} {index : ℕ}

@[simp]
theorem slot_zero : data.slot 0 = data.memBuf.data := by simp [slot]

theorem slot_succ : data.slot (index + 1) = data.slot index + layout.sizeofMemRef := by
  rw [slot, slot, Nat.succ_mul, Nat.add_assoc]

theorem slot_pos : 0 < data.slot index := Nat.add_pos_left data.memBuf.data_pos _

theorem slot_injective : Function.Injective data.slot := by
  intro index other same
  exact Nat.eq_of_mul_eq_mul_right layout.sizeofMemRef_pos (Nat.add_left_cancel same)

/-- Up to an entry the loop reads all entries before. -/
theorem entries_slot :
    data.entries (data.slot index) = (List.range index).map fun index =>
      data.memory (data.slot index) := by
  have size := layout.sizeofMemRef_pos
  have count : (data.slot index - data.memBuf.data + (layout.sizeofMemRef - 1)) /
      layout.sizeofMemRef = index := by
    rw [slot, Nat.add_sub_cancel_left, Nat.mul_comm, Nat.mul_add_div size,
      Nat.div_eq_of_lt (Nat.sub_lt size Nat.one_pos), Nat.add_zero]
  rw [entries, count]

@[simp]
theorem entries_start : data.entries data.memBuf.data = [] := by
  rw [← slot_zero, entries_slot, List.range_zero, List.map_nil]

end ShadowThreadState

end Drace
