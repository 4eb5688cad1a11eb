/-
This file models the ring buffer between the client and an external detector.

The indices are never reset: they run freely through all values of the index type
and wrap around at its width, and a slot is chosen by masking. The element type,
the width of the index type and the power of two that is the size of the buffer
are parameters. The index type is at least as wide as an `int`: a narrower one
would be promoted before it is subtracted, and the differences would not wrap. The
loops of the bulk operations are written out as the source has them, with their
local indices; where the source calls back, the model is given what the callback
does to the ring.
-/

import Mathlib
import Drace.Machine

namespace Drace

/-- The template arguments: the width of the index type and the size of the buffer. -/
structure RingShape where
  width : ℕ
  /-- Differences of indices are taken modulo their width only if they are not promoted. -/
  wide : 32 ≤ width
  /-- The buffer size is a power of two. -/
  exponent : ℕ
  /-- `buffer_mask <= max >> 1` -/
  fits : exponent < width

namespace RingShape

variable (shape : RingShape)

/-- `index_t` -/
abbrev Index := BitVec shape.width

/-- The number of slots. -/
def slots : ℕ := 2 ^ shape.exponent

def bufferSize : shape.Index := BitVec.ofNat _ shape.slots

def bufferMask : shape.Index := shape.bufferSize - 1

theorem slots_pos : 0 < shape.slots := Nat.two_pow_pos _

theorem slots_lt : shape.slots < 2 ^ shape.width := Nat.pow_lt_pow_right (by decide) shape.fits

theorem toNat_bufferSize : shape.bufferSize.toNat = shape.slots := by
  rw [bufferSize, BitVec.toNat_ofNat, Nat.mod_eq_of_lt shape.slots_lt]

theorem toNat_one : (1 : shape.Index).toNat = 1 :=
  Nat.mod_eq_of_lt (Nat.one_lt_two_pow (Nat.ne_zero_of_lt shape.fits))

theorem toNat_bufferMask : shape.bufferMask.toNat = shape.slots - 1 := by
  have atLeastOne : (1 : shape.Index) ≤ shape.bufferSize := by
    rw [BitVec.le_def, toNat_bufferSize, toNat_one]
    exact shape.slots_pos
  rw [bufferMask, BitVec.toNat_sub_of_le atLeastOne, toNat_bufferSize, toNat_one]

/-- Masking takes the remainder by the buffer size. -/
theorem toNat_and_bufferMask (index : shape.Index) :
    (index &&& shape.bufferMask).toNat = index.toNat % shape.slots := by
  rw [BitVec.toNat_and, toNat_bufferMask, slots, Nat.and_two_pow_sub_one_eq_mod]

/-- The slot of an index. -/
def slot (index : shape.Index) : Fin shape.slots :=
  ⟨(index &&& shape.bufferMask).toNat, by
    rw [toNat_and_bufferMask]
    exact Nat.mod_lt _ shape.slots_pos⟩

end RingShape

/-- The ring buffer, with its memory and its two indices. -/
@[ext]
structure Ringbuffer (Element : Type) (shape : RingShape) where
  head : shape.Index
  tail : shape.Index
  dataBuff : Vector Element shape.slots

namespace Ringbuffer

variable {Element : Type} {shape : RingShape} (ring : Ringbuffer Element shape)

/-- Read the slot of an index. -/
def fetch (dataBuff : Vector Element shape.slots) (index : shape.Index) : Element :=
  dataBuff[shape.slot index]

/-- Write the slot of an index. -/
def put (dataBuff : Vector Element shape.slots) (index : shape.Index) (data : Element) :
    Vector Element shape.slots :=
  dataBuff.set (shape.slot index) data (shape.slot index).isLt

def readAvailable : shape.Index := ring.head - ring.tail

def writeAvailable : shape.Index := shape.bufferSize - (ring.head - ring.tail)

def isEmpty : Bool := ring.readAvailable == 0

def isFull : Bool := ring.writeAvailable == 0

/-- Insert an element unless the buffer is full. -/
def insert (data : Element) : Ringbuffer Element shape × Bool :=
  let tmpHead := ring.head
  if tmpHead - ring.tail = shape.bufferSize then (ring, false)
  else ({ ring with dataBuff := put ring.dataBuff tmpHead data, head := tmpHead + 1 }, true)

/-- Remove the oldest element, if any. -/
def remove : Ringbuffer Element shape × Option Element :=
  let tmpTail := ring.tail
  if tmpTail = ring.head then (ring, none)
  else ({ ring with tail := tmpTail + 1 }, some (fetch ring.dataBuff tmpTail))

/-- Write elements from an index on; the index behind them is returned too. -/
def store : List Element → shape.Index → Vector Element shape.slots →
    Vector Element shape.slots × shape.Index
  | [], tmpHead, dataBuff => (dataBuff, tmpHead)
  | data :: rest, tmpHead, dataBuff => store rest (tmpHead + 1) (put dataBuff tmpHead data)

/-- Read elements from an index on; the index behind them is returned too. -/
def load (dataBuff : Vector Element shape.slots) : ℕ → shape.Index → List Element × shape.Index
  | 0, tmpTail => ([], tmpTail)
  | count + 1, tmpTail =>
    let (rest, behind) := load dataBuff count (tmpTail + 1)
    (fetch dataBuff tmpTail :: rest, behind)

/-- Insert as many elements as there is room for. -/
def writeBuff (buff : List Element) : Ringbuffer Element shape × ℕ :=
  let available := shape.bufferSize - (ring.head - ring.tail)
  let toWrite := if available.toNat < buff.length then available.toNat else buff.length
  let stored := store (buff.take toWrite) ring.head ring.dataBuff
  ({ ring with dataBuff := stored.1, head := stored.2 }, toWrite)

/-- What a callback does: in which state it leaves the ring, and which elements have been moved by
the operations it has called. -/
abbrev Callback (Element : Type) (shape : RingShape) :=
  ℕ → Ringbuffer Element shape → Ringbuffer Element shape × List Element

/-- The loop that writes the rest of a buffer. It returns what the callbacks have moved. -/
def writeLoop (callback : Callback Element shape) (round : ℕ) (rest : List Element)
    (toWrite : ℕ) (tmpHead : shape.Index) (ring : Ringbuffer Element shape) :
    Ringbuffer Element shape × ℕ × List Element :=
  if rest.length = 0 then (ring, 0, [])
  else
    let available := (shape.bufferSize - (tmpHead - ring.tail)).toNat
    if available = 0 then (ring, 0, [])
    else
      let batch := if toWrite > available then available else toWrite
      let stored := store (rest.take batch) tmpHead ring.dataBuff
      let called := callback round { ring with dataBuff := stored.1, head := stored.2 }
      let later := writeLoop callback (round + 1) (rest.drop batch) (rest.drop batch).length
        stored.2 called.1
      (later.1, batch + later.2.1, called.2 ++ later.2.2)
termination_by 2 * rest.length + if toWrite = 0 then 1 else 0
decreasing_by
  rw [List.length_drop]
  split_ifs <;> omega

/-- The loop that reads what is left of a count. It returns what the callbacks have moved. -/
def readLoop (callback : Callback Element shape) (round remaining toRead : ℕ)
    (tmpTail : shape.Index) (ring : Ringbuffer Element shape) :
    Ringbuffer Element shape × ℕ × List Element × List Element :=
  if remaining = 0 then (ring, 0, [], [])
  else
    let available := (ring.head - tmpTail).toNat
    if available = 0 then (ring, 0, [], [])
    else
      let batch := if toRead > available then available else toRead
      let loaded := load ring.dataBuff batch tmpTail
      let called := callback round { ring with tail := loaded.2 }
      let later := readLoop callback (round + 1) (remaining - batch) (remaining - batch) loaded.2
        called.1
      (later.1, batch + later.2.1, loaded.1 ++ later.2.2.1, called.2 ++ later.2.2.2)
termination_by 2 * remaining + if toRead = 0 then 1 else 0
decreasing_by
  split_ifs <;> omega

/-- The number of elements to move before the first callback. -/
def untilCallback (count countToCallback : ℕ) : ℕ :=
  if countToCallback ≠ 0 ∧ countToCallback < count then countToCallback else count

/-- Insert elements until all are written or there is no more room, with a callback after each
round. -/
def writeBuffCallback (buff : List Element) (countToCallback : ℕ)
    (callback : Callback Element shape) : Ringbuffer Element shape × ℕ × List Element :=
  writeLoop callback 0 buff (untilCallback buff.length countToCallback) ring.head ring

/-- Read elements until the count is reached or there are none, with a callback after each round.
-/
def readBuffCallback (count countToCallback : ℕ) (callback : Callback Element shape) :
    Ringbuffer Element shape × ℕ × List Element × List Element :=
  readLoop callback 0 count (untilCallback count countToCallback) ring.tail ring

/-! ### Producer and consumer -/

/-- What a producer calls, also from a callback of the consumer. -/
inductive Produce (Element : Type) where
  | insert (data : Element)
  | writeBuff (buff : List Element)
  | writeBuffCallback (buff : List Element) (countToCallback : ℕ)

/-- What a consumer calls, also from a callback of the producer. -/
inductive Consume where
  | remove
  | readBuffCallback (count countToCallback : ℕ)

/-- The callback that does nothing to the ring. -/
def quiet : Callback Element shape := fun _ ring => (ring, [])

/-- A call of the producer, with the elements it has moved into the ring. -/
def produce : Produce Element → Ringbuffer Element shape × List Element
  | .insert data => ((ring.insert data).1, if (ring.insert data).2 then [data] else [])
  | .writeBuff buff => ((ring.writeBuff buff).1, buff.take (ring.writeBuff buff).2)
  | .writeBuffCallback buff countToCallback =>
    let written := ring.writeBuffCallback buff countToCallback quiet
    (written.1, buff.take written.2.1)

/-- A call of the consumer, with the elements it has moved out of the ring. -/
def consume : Consume → Ringbuffer Element shape × List Element
  | .remove => (ring.remove.1, ring.remove.2.toList)
  | .readBuffCallback count countToCallback =>
    let read := ring.readBuffCallback count countToCallback quiet
    (read.1, read.2.2.1)

/-- The calls of one side one after the other. -/
def callAll {Call : Type} (perform : Ringbuffer Element shape → Call →
    Ringbuffer Element shape × List Element) :
    List Call → Ringbuffer Element shape → Ringbuffer Element shape × List Element
  | [], ring => (ring, [])
  | call :: rest, ring =>
    let first := perform ring call
    let later := callAll perform rest first.1
    (later.1, first.2 ++ later.2)

/-- A callback that lets the other side call in each round. -/
def calling {Call : Type} (perform : Ringbuffer Element shape → Call →
    Ringbuffer Element shape × List Element) (calls : ℕ → List Call) : Callback Element shape :=
  fun round ring => callAll perform (calls round) ring

/-- An operation on the ring; where it calls back, the other side may call in each round. -/
inductive RingOperation (Element : Type) where
  | insert (data : Element)
  | writeBuff (buff : List Element)
  | writeBuffCallback (buff : List Element) (countToCallback : ℕ) (calls : ℕ → List Consume)
  | remove
  | readBuffCallback (count countToCallback : ℕ) (calls : ℕ → List (Produce Element))

/-- What an operation returns. -/
inductive RingReport where
  | done (moved : Bool)
  | moved (count : ℕ)
  deriving DecidableEq

/-- The number of elements a report claims. -/
def RingReport.count : RingReport → ℕ
  | done true => 1
  | done false => 0
  | moved count => count

/-- The ring with all elements accepted from the producer and returned to the consumer. -/
structure Traffic (Element : Type) (shape : RingShape) where
  ring : Ringbuffer Element shape
  accepted : List Element := []
  returned : List Element := []

/-- An operation with what it moves. -/
def Traffic.step (traffic : Traffic Element shape) :
    RingOperation Element → Traffic Element shape × RingReport
  | .insert data =>
    let inserted := traffic.ring.insert data
    ({ traffic with
      ring := inserted.1
      accepted := traffic.accepted ++ if inserted.2 then [data] else [] }, .done inserted.2)
  | .writeBuff buff =>
    let written := traffic.ring.writeBuff buff
    ({ traffic with
      ring := written.1
      accepted := traffic.accepted ++ buff.take written.2 }, .moved written.2)
  | .writeBuffCallback buff countToCallback calls =>
    let written := traffic.ring.writeBuffCallback buff countToCallback (calling consume calls)
    ({ ring := written.1
       accepted := traffic.accepted ++ buff.take written.2.1
       returned := traffic.returned ++ written.2.2 }, .moved written.2.1)
  | .remove =>
    let removed := traffic.ring.remove
    ({ traffic with
      ring := removed.1
      returned := traffic.returned ++ removed.2.toList }, .done removed.2.isSome)
  | .readBuffCallback count countToCallback calls =>
    let read := traffic.ring.readBuffCallback count countToCallback (calling produce calls)
    ({ ring := read.1
       accepted := traffic.accepted ++ read.2.2.2
       returned := traffic.returned ++ read.2.2.1 }, .moved read.2.1)

/-- The ring as a machine; it starts with both indices at the same value. -/
def machine (Element : Type) (shape : RingShape) :
    Machine (Traffic Element shape) (RingOperation Element) RingReport where
  start traffic := traffic.ring.head = traffic.ring.tail ∧ traffic.accepted = [] ∧
    traffic.returned = []
  call traffic operation := some (traffic.step operation)

end Ringbuffer

end Drace
