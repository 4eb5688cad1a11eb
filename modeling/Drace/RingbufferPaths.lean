/-
This file compares the other ways to write into and read from the ring buffer with
the plain ones.

A producer may ask for a slot, fill it in place and publish it. The slot it gets is
the one behind the slot that is published, so what is read later is what the published
slot held before. A consumer may read many elements at once. This read begins where
the elements end, so it finds none and leaves all of them behind.
-/

import Drace.RingbufferFifo

namespace Drace

namespace Ringbuffer

variable {Element : Type} {shape : RingShape} (ring : Ringbuffer Element shape)

/-! ### Writing in place -/

/-- The next insert location, if the buffer is not full. -/
def getNextWriteSlot : Option (Fin shape.slots) :=
  if ring.head - ring.tail = shape.bufferSize then none
  else some (shape.slot (ring.head + 1))

/-- Store an element through a pointer to a slot. -/
def storeThrough (slot : Fin shape.slots) (data : Element) : Ringbuffer Element shape :=
  { ring with dataBuff := ring.dataBuff.set slot data slot.isLt }

/-- Commit a write which was started with `getNextWriteSlot`. -/
def commitWrite : Ringbuffer Element shape := { ring with head := ring.head + 1 }

/-- A slot is found just where an insertion succeeds, and what is stored through it and committed
reads like what is inserted. -/
def WritesLikeInsert (data : Element) : Prop :=
  (ring.getNextWriteSlot = none ↔ (ring.insert data).2 = false) ∧
    ∀ slot, ring.getNextWriteSlot = some slot →
      (ring.storeThrough slot data).commitWrite.contents = (ring.insert data).1.contents

/-- If there is room, there is only one slot at all, or the slot at the head holds the element
already, and so does the one at the tail if the last free slot is taken. -/
def HeldAlready (data : Element) : Prop :=
  ring.occupied < shape.slots → shape.slots = 1 ∨
    fetch ring.dataBuff ring.head = data ∧
      (ring.occupied + 1 = shape.slots → fetch ring.dataBuff ring.tail = data)

/-- Store an element in the slot behind the head, and publish the slot at the head. -/
def pushBehind (data : Element) : Ringbuffer Element shape :=
  { ring with dataBuff := put ring.dataBuff (ring.head + 1) data, head := ring.head + 1 }

variable {ring} {data : Element}

/-- As many successive indices as there are slots come back to the same slots. -/
theorem slot_add_eq_iff (index : shape.Index) {first second : ℕ} (bound : second < shape.slots) :
    shape.slot (index + BitVec.ofNat _ first) = shape.slot (index + BitVec.ofNat _ second) ↔
      first % shape.slots = second := by
  rw [Fin.ext_iff, toNat_slot_add, toNat_slot_add]
  constructor
  · intro same
    have congruent : first ≡ second [MOD shape.slots] := Nat.ModEq.add_left_cancel' _ same
    rw [congruent, Nat.mod_eq_of_lt bound]
  · intro same
    rw [← same, Nat.add_mod_mod]

theorem slot_head_eq_iff {distance : ℕ} (room : ring.occupied < shape.slots)
    (inside : distance ≤ ring.occupied) :
    shape.slot ring.head = shape.slot (ring.tail + BitVec.ofNat _ distance) ↔
      distance = ring.occupied := by
  rw [← ring.tail_add_occupied, slot_add_eq_iff _ (by omega), Nat.mod_eq_of_lt room, eq_comm]

theorem slot_behind_eq_iff {distance : ℕ} (inside : distance < shape.slots) :
    shape.slot (ring.head + 1) = shape.slot (ring.tail + BitVec.ofNat _ distance) ↔
      (ring.occupied + 1) % shape.slots = distance := by
  have behind : ring.head + 1 = ring.tail + BitVec.ofNat _ (ring.occupied + 1) := by
    rw [BitVec.ofNat_add, ← BitVec.add_assoc, ring.tail_add_occupied]
    rfl
  rw [behind, slot_add_eq_iff _ inside]

/-- Storing behind the head reads like storing at the head just where nothing has to be stored. -/
theorem contents_pushBehind_iff (room : ring.occupied < shape.slots) :
    (ring.pushBehind data).contents = (ring.push data).contents ↔ ring.HeldAlready data := by
  have count : (ring.pushBehind data).occupied = ring.occupied + 1 := ring.occupied_push data room
  rw [contents, contents, count, ring.occupied_push data room, List.map_inj_left]
  have behind : ∀ distance, (ring.pushBehind data).peek distance =
      if shape.slot (ring.head + 1) = shape.slot (ring.tail + BitVec.ofNat _ distance) then data
      else ring.peek distance := fun distance => fetch_put _ _ _ _
  have atHead : ∀ distance, (ring.push data).peek distance =
      if shape.slot ring.head = shape.slot (ring.tail + BitVec.ofNat _ distance) then data
      else ring.peek distance := fun distance => fetch_put _ _ _ _
  have first : ring.peek 0 = fetch ring.dataBuff ring.tail := by rw [peek, BitVec.add_zero]
  have last : ring.peek ring.occupied = fetch ring.dataBuff ring.head := by
    rw [peek, ring.tail_add_occupied]
  constructor
  · intro same _
    by_cases single : shape.slots = 1
    · exact Or.inl single
    · refine Or.inr ⟨?_, fun full => ?_⟩
      · have here := same ring.occupied (List.mem_range.mpr (Nat.lt_succ_self _))
        rw [behind, atHead, if_pos ((slot_head_eq_iff room le_rfl).mpr rfl), if_neg, last] at here
        · exact here
        · rw [slot_behind_eq_iff room]
          rcases Nat.lt_or_eq_of_le (Nat.succ_le_of_lt room) with more | full
          · rw [Nat.mod_eq_of_lt more]
            omega
          · rw [← full, Nat.mod_self]
            omega
      · have here := same 0 (List.mem_range.mpr (Nat.succ_pos _))
        rw [behind, atHead, if_pos, if_neg, first] at here
        · exact here.symm
        · rw [slot_head_eq_iff room (Nat.zero_le _)]
          omega
        · rw [slot_behind_eq_iff shape.slots_pos, full, Nat.mod_self]
  · intro held distance inside
    have bound := List.mem_range.mp inside
    have within : distance ≤ ring.occupied := Nat.lt_succ_iff.mp bound
    rw [behind, atHead]
    simp only [slot_behind_eq_iff (Nat.lt_of_le_of_lt within room), slot_head_eq_iff room within]
    rcases held room with single | ⟨headHeld, tailHeld⟩
    · obtain rfl : distance = 0 := by omega
      rw [single, Nat.mod_one, if_pos rfl, if_pos (by omega)]
    · split
      · next reached =>
        -- Only the last free slot lies before the first element.
        split
        · rfl
        · next earlier =>
          have full : ring.occupied + 1 = shape.slots := by
            by_contra more
            rw [Nat.mod_eq_of_lt (by omega)] at reached
            omega
          rw [full, Nat.mod_self] at reached
          rw [← reached, first, tailHeld full]
      · split
        · next last' => rw [last', last, headHeld]
        · rfl

/-- Writing in place is as good as inserting just where nothing has to be stored: the buffer is
full, or what has to be stored is there already. -/
theorem writes_like_insert_iff (sound : ring.Sound) :
    ring.WritesLikeInsert data ↔ ring.HeldAlready data := by
  unfold WritesLikeInsert getNextWriteSlot insert
  by_cases full : ring.head - ring.tail = shape.bufferSize
  · have count := ring.available_eq_slots_iff.mp full
    simp only [if_pos full, true_and]
    refine iff_of_true (fun _ none => by cases none) fun room => ?_
    omega
  · have room : ring.occupied < shape.slots :=
      lt_of_le_of_ne sound (mt ring.available_eq_slots_iff.mpr full)
    simp only [if_neg full, Option.some.injEq, forall_eq', reduceCtorEq, Bool.true_eq_false,
      true_and]
    exact contents_pushBehind_iff room

/-- A ring with one element, near the wrap of its indices. -/
def oneInserted : Ringbuffer ℕ fourSlots := (nearWrap.ring.insert 1).1

theorem sound_oneInserted : oneInserted.Sound := show oneInserted.occupied ≤ _ by decide +kernel

theorem writes_like_insert_iff_inserted :
    oneInserted.WritesLikeInsert 2 ↔ oneInserted.HeldAlready 2 :=
  writes_like_insert_iff sound_oneInserted

/-- An element that is written in place is not read afterwards. -/
theorem written_in_place_lost :
    ¬ ∀ (Element : Type) (shape : RingShape) (ring : Ringbuffer Element shape) (data : Element),
      ring.Sound → ring.WritesLikeInsert data := by
  intro always
  have same := (always ℕ _ oneInserted 2 sound_oneInserted).2 _ rfl
  exact absurd same (by decide +kernel)

/-! ### Reading many elements -/

/-- Load as many elements as are asked for and available. -/
def readBuff (ring : Ringbuffer Element shape) (count : ℕ) :
    Ringbuffer Element shape × ℕ × List Element :=
  let tmpTail := ring.head
  let available := ring.head - tmpTail
  let toRead := if available.toNat < count then available.toNat else count
  let loaded := load ring.dataBuff toRead tmpTail
  ({ ring with tail := loaded.2 }, toRead, loaded.1)

/-- Remove an element a number of times, and keep those that are returned. -/
def removeTimes (ring : Ringbuffer Element shape) : ℕ → Ringbuffer Element shape × List Element
  | 0 => (ring, [])
  | count + 1 =>
    let first := ring.remove
    let later := removeTimes first.1 count
    (later.1, first.2.toList ++ later.2)

/-- A read returns how many elements it has read, which are as many as there are up to the count.
The elements and the ring after it are those of as many calls of `remove`. -/
def ReadsLikeRemove (ring : Ringbuffer Element shape) (count : ℕ) : Prop :=
  let available := min count ring.readAvailable.toNat
  (ring.readBuff count).2.1 = available ∧
    (ring.readBuff count).2.2 = (ring.removeTimes available).2 ∧
    (ring.readBuff count).1 = (ring.removeTimes available).1

/-- A read finds no element, and leaves none. -/
theorem readBuff_eq (ring : Ringbuffer Element shape) (count : ℕ) :
    ring.readBuff count = ({ ring with tail := ring.head }, 0, []) := by
  have none : (ring.head - ring.head).toNat = 0 := by rw [BitVec.sub_self, BitVec.toNat_zero]
  have nothing : (if (ring.head - ring.head).toNat < count then (ring.head - ring.head).toNat
      else count) = 0 := by
    rw [none]
    split <;> omega
  simp only [readBuff, nothing]
  rfl

/-- Reading many elements is as good as removing them one by one just where there are none. -/
theorem reads_like_remove_iff (count : ℕ) :
    ring.ReadsLikeRemove count ↔ ring.isEmpty = true := by
  have empty_iff : ring.isEmpty = true ↔ ring.head = ring.tail := by
    rw [isEmpty, beq_iff_eq, readAvailable]
    exact sub_eq_zero
  rw [empty_iff, ReadsLikeRemove, readBuff_eq]
  constructor
  · rintro ⟨number, -, same⟩
    rw [← number] at same
    exact congrArg Ringbuffer.tail same
  · intro empty
    have none : min count ring.readAvailable.toNat = 0 := by
      rw [readAvailable, empty, BitVec.sub_self, BitVec.toNat_zero, Nat.min_zero]
    rw [none]
    exact ⟨rfl, rfl, Ringbuffer.ext rfl empty rfl⟩

/-- Elements that are not read are discarded. -/
theorem unread_discarded :
    ¬ ∀ (Element : Type) (shape : RingShape) (ring : Ringbuffer Element shape) (count : ℕ),
      ring.Sound → ring.ReadsLikeRemove count := by
  intro always
  have reads := always ℕ _ oneInserted 1 sound_oneInserted
  exact absurd reads.1 (by decide +kernel)

end Ringbuffer

end Drace
