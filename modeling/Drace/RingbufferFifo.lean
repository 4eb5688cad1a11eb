/-
This file proves that the ring buffer is a queue.

The contents of a ring are what its slots hold from the tail to the head. As the
buffer size divides the number of index values, the slots of as many successive
indices as there are slots are distinct, also where the indices wrap around. So a
write at the head appends to the contents, and a read at the tail takes their
first element. The bulk operations repeat these two; where they call back, the
other side only takes what has been written, or only adds.
-/

import Mathlib
import Drace.Ringbuffer

namespace Drace

namespace Ringbuffer

open Machine

variable {Element : Type} {shape : RingShape} (ring : Ringbuffer Element shape)
  {next : Ringbuffer Element shape}

/-! ### Slots -/

theorem toNat_slot_add (index : shape.Index) (distance : ℕ) :
    (shape.slot (index + BitVec.ofNat _ distance)).val =
      (index.toNat + distance) % shape.slots := by
  have divides : shape.slots ∣ 2 ^ shape.width := Nat.pow_dvd_pow 2 shape.fits.le
  change ((index + BitVec.ofNat _ distance) &&& shape.bufferMask).toNat = _
  rw [shape.toNat_and_bufferMask, BitVec.toNat_add, BitVec.toNat_ofNat,
    Nat.mod_mod_of_dvd _ divides, Nat.add_mod, Nat.mod_mod_of_dvd _ divides, ← Nat.add_mod]

/-- As many successive indices as there are slots have different slots. -/
theorem slot_add_injective {index : shape.Index} {first second : ℕ}
    (firstBound : first < shape.slots) (secondBound : second < shape.slots)
    (same : shape.slot (index + BitVec.ofNat _ first) =
      shape.slot (index + BitVec.ofNat _ second)) : first = second := by
  have remainders := congrArg Fin.val same
  rw [toNat_slot_add, toNat_slot_add] at remainders
  have congruent : first ≡ second [MOD shape.slots] := Nat.ModEq.add_left_cancel' _ remainders
  exact Nat.ModEq.eq_of_lt_of_lt congruent firstBound secondBound

theorem fetch_put (dataBuff : Vector Element shape.slots) (index other : shape.Index)
    (data : Element) : fetch (put dataBuff index data) other =
      if shape.slot index = shape.slot other then data else fetch dataBuff other := by
  unfold fetch put
  rw [Fin.getElem_fin, Vector.getElem_set, Fin.getElem_fin]
  simp only [Fin.ext_iff]

/-! ### Contents -/

/-- The number of elements in the ring. -/
def occupied : ℕ := ring.readAvailable.toNat

/-- The element at a distance from the tail. -/
def peek (distance : ℕ) : Element :=
  fetch ring.dataBuff (ring.tail + BitVec.ofNat _ distance)

/-- The elements from the tail to the head. -/
def contents : List Element :=
  (List.range ring.occupied).map ring.peek

/-- There are no more elements than slots. -/
def Sound : Prop := ring.occupied ≤ shape.slots

theorem length_contents : ring.contents.length = ring.occupied := by
  rw [contents, List.length_map, List.length_range]

theorem tail_add_occupied : ring.tail + BitVec.ofNat _ ring.occupied = ring.head := by
  rw [occupied, readAvailable, BitVec.ofNat_toNat, BitVec.setWidth_eq, BitVec.add_comm,
    BitVec.sub_add_cancel]

/-- Write an element at the head. -/
def push (data : Element) : Ringbuffer Element shape :=
  { ring with dataBuff := put ring.dataBuff ring.head data, head := ring.head + 1 }

/-- Leave the element at the tail. -/
def pop : Ringbuffer Element shape :=
  { ring with tail := ring.tail + 1 }

theorem occupied_push (data : Element) (room : ring.occupied < shape.slots) :
    (ring.push data).occupied = ring.occupied + 1 := by
  have bound := shape.slots_lt
  have moved : (ring.push data).readAvailable = ring.readAvailable + 1 := by
    unfold readAvailable push
    ring
  rw [occupied, moved, BitVec.toNat_add, shape.toNat_one]
  exact Nat.mod_eq_of_lt (by unfold occupied at room; omega)

theorem contents_push (data : Element) (room : ring.occupied < shape.slots) :
    (ring.push data).contents = ring.contents ++ [data] := by
  rw [contents, ring.occupied_push data room, List.range_succ, List.map_append, contents,
    List.map_singleton]
  congr 1
  · refine List.map_congr_left fun distance inside => ?_
    have bound := List.mem_range.mp inside
    unfold peek push
    rw [fetch_put, if_neg]
    intro same
    rw [← ring.tail_add_occupied] at same
    exact absurd (slot_add_injective room (bound.trans room) same) (Nat.ne_of_gt bound)
  · unfold peek push
    rw [fetch_put, if_pos]
    rw [← ring.tail_add_occupied]

theorem occupied_pop (nonempty : 0 < ring.occupied) : ring.pop.occupied = ring.occupied - 1 := by
  have moved : ring.pop.readAvailable = ring.readAvailable - 1 := by
    unfold readAvailable pop
    ring
  have atLeastOne : (1 : shape.Index) ≤ ring.readAvailable := by
    rw [BitVec.le_def, shape.toNat_one]
    exact nonempty
  rw [occupied, moved, BitVec.toNat_sub_of_le atLeastOne, shape.toNat_one, occupied]

theorem contents_pop (nonempty : 0 < ring.occupied) :
    ring.contents = fetch ring.dataBuff ring.tail :: ring.pop.contents := by
  obtain ⟨rest, count⟩ := Nat.exists_eq_succ_of_ne_zero nonempty.ne'
  rw [contents, contents, ring.occupied_pop nonempty, count, List.range_succ_eq_map, List.map_cons,
    List.map_map]
  congr 1
  · unfold peek
    rw [BitVec.add_zero]
  · refine List.map_congr_left fun distance _ => ?_
    have shifted : ring.tail + BitVec.ofNat _ (distance + 1) =
        ring.tail + 1 + BitVec.ofNat _ distance := by
      rw [BitVec.ofNat_add, BitVec.add_assoc, BitVec.add_comm (1 : shape.Index)]
      rfl
    change fetch ring.dataBuff _ = fetch ring.dataBuff _
    rw [shifted]
    rfl

/-! ### Single and bulk operations -/

theorem available_eq_slots_iff :
    ring.head - ring.tail = shape.bufferSize ↔ ring.occupied = shape.slots := by
  rw [← BitVec.toNat_inj, shape.toNat_bufferSize]
  rfl

/-- The free slots are those that are not occupied. -/
theorem toNat_writeAvailable (sound : ring.Sound) :
    ring.writeAvailable.toNat = shape.slots - ring.occupied := by
  have atMost : ring.head - ring.tail ≤ shape.bufferSize := by
    rw [BitVec.le_def, shape.toNat_bufferSize]
    exact sound
  rw [writeAvailable, BitVec.toNat_sub_of_le atMost, shape.toNat_bufferSize]
  rfl

/-- Write elements at the head, one after the other. -/
def pushAll (elements : List Element) :
    Ringbuffer Element shape :=
  elements.foldl push ring

theorem store_eq_pushAll (elements : List Element) : store elements ring.head ring.dataBuff =
    ((ring.pushAll elements).dataBuff, (ring.pushAll elements).head) := by
  induction elements generalizing ring with
  | nil => rfl
  | cons data rest inductionHypothesis => exact inductionHypothesis (ring.push data)

theorem tail_pushAll (elements : List Element) : (ring.pushAll elements).tail = ring.tail := by
  induction elements generalizing ring with
  | nil => rfl
  | cons data rest inductionHypothesis => exact inductionHypothesis (ring.push data)

/-- Storing elements from the head on and publishing the new head writes them one by one. -/
theorem published_eq_pushAll (elements : List Element) :
    ({ ring with
        dataBuff := (store elements ring.head ring.dataBuff).1
        head := (store elements ring.head ring.dataBuff).2 } : Ringbuffer Element shape) =
      ring.pushAll elements := by
  rw [store_eq_pushAll]
  exact Ringbuffer.ext rfl (ring.tail_pushAll elements).symm rfl

theorem contents_pushAll (elements : List Element)
    (room : ring.occupied + elements.length ≤ shape.slots) :
    (ring.pushAll elements).contents = ring.contents ++ elements := by
  induction elements generalizing ring with
  | nil => exact (List.append_nil _).symm
  | cons data rest inductionHypothesis =>
    rw [List.length_cons] at room
    have grown := ring.occupied_push data (by omega)
    have later := inductionHypothesis (ring.push data) (by omega)
    rw [ring.contents_push data (by omega), List.append_assoc, List.singleton_append] at later
    exact later

/-- Reading from the tail yields the first elements. -/
theorem load_spec (count : ℕ) (enough : count ≤ ring.occupied) :
    (load ring.dataBuff count ring.tail).1 = ring.contents.take count ∧
      ({ ring with tail := (load ring.dataBuff count ring.tail).2 } :
        Ringbuffer Element shape).contents = ring.contents.drop count := by
  induction count generalizing ring with
  | zero => exact ⟨List.take_zero.symm, List.drop_zero.symm⟩
  | succ count inductionHypothesis =>
    have left := ring.occupied_pop (by omega)
    obtain ⟨taken, kept⟩ := inductionHypothesis ring.pop (by omega)
    rw [ring.contents_pop (by omega), List.take_succ_cons, List.drop_succ_cons]
    exact ⟨congrArg _ taken, kept⟩

/-! ### What one side does -/

variable {ring}

/-- The consumer has taken elements. -/
structure Taken (ring next : Ringbuffer Element shape) (elements : List Element) : Prop where
  sound : next.Sound
  head : next.head = ring.head
  contents : ring.contents = elements ++ next.contents

/-- The producer has added elements. -/
structure Given (ring next : Ringbuffer Element shape) (elements : List Element) : Prop where
  sound : next.Sound
  tail : next.tail = ring.tail
  contents : next.contents = ring.contents ++ elements

theorem Taken.refl (sound : ring.Sound) : Taken ring ring [] := ⟨sound, rfl, rfl⟩

theorem Given.refl (sound : ring.Sound) : Given ring ring [] :=
  ⟨sound, rfl, (List.append_nil _).symm⟩

theorem Taken.trans {last : Ringbuffer Element shape} {first second : List Element}
    (taken : Taken ring next first) (later : Taken next last second) :
    Taken ring last (first ++ second) :=
  ⟨later.sound, later.head.trans taken.head,
    by rw [taken.contents, later.contents, List.append_assoc]⟩

theorem Given.trans {last : Ringbuffer Element shape} {first second : List Element}
    (given : Given ring next first) (later : Given next last second) :
    Given ring last (first ++ second) :=
  ⟨later.sound, later.tail.trans given.tail,
    by rw [later.contents, given.contents, List.append_assoc]⟩

theorem sound_of_length (bound : ring.contents.length ≤ shape.slots) : ring.Sound := by
  rwa [length_contents] at bound

theorem given_pushAll (elements : List Element)
    (room : ring.occupied + elements.length ≤ shape.slots) :
    Given ring (ring.pushAll elements) elements := by
  have appended := ring.contents_pushAll elements room
  refine ⟨sound_of_length ?_, ring.tail_pushAll elements, appended⟩
  rw [appended, List.length_append, length_contents]
  exact room

theorem taken_load (sound : ring.Sound) (count : ℕ) (enough : count ≤ ring.occupied) :
    Taken ring { ring with tail := (load ring.dataBuff count ring.tail).2 }
      (load ring.dataBuff count ring.tail).1 := by
  obtain ⟨taken, kept⟩ := ring.load_spec count enough
  refine ⟨sound_of_length ?_, rfl, by rw [taken, kept, List.take_append_drop]⟩
  rw [kept, List.length_drop, length_contents]
  exact (Nat.sub_le _ _).trans sound

/-- An insertion adds its element just where the ring is not full. -/
theorem insert_spec (sound : ring.Sound) (data : Element) :
    Given ring (ring.insert data).1 (if (ring.insert data).2 then [data] else []) ∧
      ((ring.insert data).2 = true ↔ ring.occupied < shape.slots) := by
  unfold insert
  by_cases full : ring.head - ring.tail = shape.bufferSize
  · have count := ring.available_eq_slots_iff.mp full
    simp only [if_pos full, Bool.false_eq_true, if_false, false_iff]
    exact ⟨Given.refl sound, by omega⟩
  · have room : ring.occupied < shape.slots :=
      lt_of_le_of_ne sound fun same => full (ring.available_eq_slots_iff.mpr same)
    simp only [if_neg full, if_true, true_iff]
    exact ⟨given_pushAll [data] room, room⟩

/-- A removal takes the oldest element just where the ring is not empty. -/
theorem remove_spec (sound : ring.Sound) : Taken ring ring.remove.1 ring.remove.2.toList ∧
    (ring.remove.2.isSome = true ↔ 0 < ring.occupied) := by
  have empty : ring.tail = ring.head ↔ ring.occupied = 0 := by
    have zero : ring.head - ring.tail = 0 ↔ ring.occupied = 0 := BitVec.toNat_inj.symm
    rw [← zero, sub_eq_zero, eq_comm]
  unfold remove
  by_cases same : ring.tail = ring.head
  · have none := empty.mp same
    simp only [if_pos same, Option.toList_none, Option.isSome_none, Bool.false_eq_true, false_iff]
    exact ⟨Taken.refl sound, by omega⟩
  · have some : 0 < ring.occupied := Nat.pos_of_ne_zero fun zero => same (empty.mpr zero)
    simp only [if_neg same, Option.toList_some, Option.isSome_some, true_iff]
    exact ⟨taken_load sound 1 some, some⟩

/-- A bulk write adds as many elements as there is room for. -/
theorem writeBuff_spec (sound : ring.Sound) (buff : List Element) :
    (ring.writeBuff buff).2 = min (shape.slots - ring.occupied) buff.length ∧
      Given ring (ring.writeBuff buff).1 (buff.take (ring.writeBuff buff).2) := by
  have count : (ring.writeBuff buff).2 = min (shape.slots - ring.occupied) buff.length := by
    have available := ring.toNat_writeAvailable sound
    unfold writeAvailable at available
    simp only [writeBuff, available]
    split_ifs <;> omega
  refine ⟨count, ?_⟩
  have moved : (ring.writeBuff buff).1 = ring.pushAll (buff.take (ring.writeBuff buff).2) :=
    ring.published_eq_pushAll _
  rw [moved]
  refine given_pushAll _ ?_
  have bound := sound
  unfold Sound at bound
  rw [List.length_take, count]
  omega

theorem isEmpty_iff : ring.isEmpty = true ↔ ring.contents = [] := by
  have zero : ring.readAvailable = 0 ↔ ring.occupied = 0 := BitVec.toNat_inj.symm
  rw [isEmpty, beq_iff_eq, zero, ← length_contents, List.length_eq_zero_iff]

theorem isFull_iff (sound : ring.Sound) :
    ring.isFull = true ↔ ring.contents.length = shape.slots := by
  have zero : ring.writeAvailable = 0 ↔ ring.writeAvailable.toNat = 0 := BitVec.toNat_inj.symm
  have bound := sound
  unfold Sound at bound
  rw [isFull, beq_iff_eq, zero, ring.toNat_writeAvailable sound, length_contents]
  omega

/-! ### Loops with callbacks -/

variable {callback : Callback Element shape}

/-- The writing loop adds the elements it counts, while its callbacks take elements. -/
theorem writeLoop_spec (takes : ∀ round ring, ring.Sound →
    Taken ring (callback round ring).1 (callback round ring).2) (round : ℕ)
    (rest : List Element) (toWrite : ℕ) (tmpHead : shape.Index) (sound : ring.Sound)
    (start : tmpHead = ring.head) (fitting : toWrite ≤ rest.length) :
    let result := writeLoop callback round rest toWrite tmpHead ring
    result.1.Sound ∧ result.2.1 ≤ rest.length ∧
      ring.contents ++ rest.take result.2.1 = result.2.2 ++ result.1.contents := by
  induction round, rest, toWrite, tmpHead, ring using writeLoop.induct callback with
  | case1 round rest toWrite tmpHead ring done =>
    rw [writeLoop, if_pos done]
    exact ⟨sound, Nat.zero_le _, by simp⟩
  | case2 round rest toWrite tmpHead ring more available full =>
    rw [writeLoop, if_neg more, if_pos full]
    exact ⟨sound, Nat.zero_le _, by simp⟩
  | case3 round rest toWrite tmpHead ring more available room batch stored called
      inductionHypothesis =>
    subst start
    have free : available = shape.slots - ring.occupied := ring.toNat_writeAvailable sound
    have bound : batch ≤ available ∧ batch ≤ toWrite := by
      simp only [batch]
      split_ifs <;> omega
    have roomy : ring.occupied + (rest.take batch).length ≤ shape.slots := by
      rw [List.length_take]
      omega
    have given : Given ring _ (rest.take batch) := given_pushAll _ roomy
    rw [← ring.published_eq_pushAll] at given
    have taken := takes round _ given.sound
    obtain ⟨last, same⟩ : ∃ last, last = writeLoop callback (round + 1) (rest.drop batch)
      (rest.drop batch).length stored.2 called.1 := ⟨_, rfl⟩
    have whole : writeLoop callback round rest toWrite ring.head ring =
        (last.1, batch + last.2.1, called.2 ++ last.2.2) := by
      rw [writeLoop, if_neg more, if_neg room, same]
      rfl
    have later := inductionHypothesis taken.sound taken.head.symm le_rfl
    rw [← same] at later
    obtain ⟨laterSound, counted, moved⟩ := later
    rw [List.length_drop] at counted
    rw [whole]
    refine ⟨laterSound, (by omega : batch + last.2.1 ≤ rest.length), ?_⟩
    calc ring.contents ++ rest.take (batch + last.2.1)
        = ring.contents ++ rest.take batch ++ (rest.drop batch).take last.2.1 := by
          rw [List.take_add, List.append_assoc]
      _ = called.2 ++ called.1.contents ++ (rest.drop batch).take last.2.1 := by
          rw [← given.contents, taken.contents]
      _ = called.2 ++ last.2.2 ++ last.1.contents := by
          rw [List.append_assoc, moved, List.append_assoc]

/-- The reading loop takes the elements it counts, while its callbacks add elements. -/
theorem readLoop_spec (gives : ∀ round ring, ring.Sound →
    Given ring (callback round ring).1 (callback round ring).2) (round remaining toRead : ℕ)
    (tmpTail : shape.Index) (sound : ring.Sound) (start : tmpTail = ring.tail) :
    let result := readLoop callback round remaining toRead tmpTail ring
    result.1.Sound ∧ result.2.2.1.length = result.2.1 ∧
      ring.contents ++ result.2.2.2 = result.2.2.1 ++ result.1.contents := by
  induction round, remaining, toRead, tmpTail, ring using readLoop.induct callback with
  | case1 round toRead tmpTail ring =>
    rw [readLoop, if_pos rfl]
    exact ⟨sound, rfl, by simp⟩
  | case2 round remaining toRead tmpTail ring more available empty =>
    rw [readLoop, if_neg more, if_pos empty]
    exact ⟨sound, rfl, by simp⟩
  | case3 round remaining toRead tmpTail ring more available some batch loaded called
      inductionHypothesis =>
    subst start
    have bound : batch ≤ ring.occupied := by
      change batch ≤ available
      simp only [batch]
      split_ifs <;> omega
    have taken := taken_load sound batch bound
    have given := gives round _ taken.sound
    obtain ⟨last, same⟩ : ∃ last, last = readLoop callback (round + 1) (remaining - batch)
      (remaining - batch) loaded.2 called.1 := ⟨_, rfl⟩
    have whole : readLoop callback round remaining toRead ring.tail ring =
        (last.1, batch + last.2.1, loaded.1 ++ last.2.2.1, called.2 ++ last.2.2.2) := by
      rw [readLoop, if_neg more, if_neg some, same]
      rfl
    have later := inductionHypothesis given.sound given.tail.symm
    rw [← same] at later
    obtain ⟨laterSound, counted, moved⟩ := later
    rw [whole]
    refine ⟨laterSound, ?_, ?_⟩
    · have count : loaded.1.length = batch := by
        simp only [loaded, (ring.load_spec batch bound).1, List.length_take, length_contents]
        omega
      simp only [List.length_append, count, counted]
    · calc ring.contents ++ (called.2 ++ last.2.2.2)
          = loaded.1 ++ (called.1.contents ++ last.2.2.2) := by
            rw [taken.contents, given.contents, List.append_assoc, List.append_assoc]
        _ = loaded.1 ++ last.2.2.1 ++ last.1.contents := by
            rw [moved, List.append_assoc]

/-- Without callbacks, the writing loop leaves the tail alone. -/
theorem writeLoop_quiet (round : ℕ) (rest : List Element) (toWrite : ℕ) (tmpHead : shape.Index) :
    (writeLoop quiet round rest toWrite tmpHead ring).1.tail = ring.tail ∧
      (writeLoop quiet round rest toWrite tmpHead ring).2.2 = [] := by
  induction round, rest, toWrite, tmpHead, ring using writeLoop.induct quiet with
  | case1 round rest toWrite tmpHead ring done =>
    rw [writeLoop, if_pos done]
    exact ⟨rfl, rfl⟩
  | case2 round rest toWrite tmpHead ring more available full =>
    rw [writeLoop, if_neg more, if_pos full]
    exact ⟨rfl, rfl⟩
  | case3 round rest toWrite tmpHead ring more available room batch stored called
      inductionHypothesis =>
    rw [writeLoop, if_neg more, if_neg room]
    exact inductionHypothesis

/-- Without callbacks, the reading loop leaves the head alone. -/
theorem readLoop_quiet (round remaining toRead : ℕ) (tmpTail : shape.Index) :
    (readLoop quiet round remaining toRead tmpTail ring).1.head = ring.head ∧
      (readLoop quiet round remaining toRead tmpTail ring).2.2.2 = [] := by
  induction round, remaining, toRead, tmpTail, ring using readLoop.induct quiet with
  | case1 round toRead tmpTail ring =>
    rw [readLoop, if_pos rfl]
    exact ⟨rfl, rfl⟩
  | case2 round remaining toRead tmpTail ring more available empty =>
    rw [readLoop, if_neg more, if_pos empty]
    exact ⟨rfl, rfl⟩
  | case3 round remaining toRead tmpTail ring more available some batch loaded called
      inductionHypothesis =>
    rw [readLoop, if_neg more, if_neg some]
    exact inductionHypothesis

/-! ### The two sides -/

theorem untilCallback_le (count countToCallback : ℕ) :
    untilCallback count countToCallback ≤ count := by
  unfold untilCallback
  split_ifs <;> omega

theorem quiet_taken (round : ℕ) (ring : Ringbuffer Element shape) (sound : ring.Sound) :
    Taken ring (quiet round ring).1 (quiet round ring).2 :=
  Taken.refl sound

theorem quiet_given (round : ℕ) (ring : Ringbuffer Element shape) (sound : ring.Sound) :
    Given ring (quiet round ring).1 (quiet round ring).2 :=
  Given.refl sound

/-- A call of the producer adds what it says. -/
theorem produce_given (ring : Ringbuffer Element shape) (call : Produce Element)
    (sound : ring.Sound) : Given ring (ring.produce call).1 (ring.produce call).2 := by
  cases call with
  | insert data => exact (insert_spec sound data).1
  | writeBuff buff => exact (writeBuff_spec sound buff).2
  | writeBuffCallback buff countToCallback =>
    obtain ⟨kept, -, moved⟩ := writeLoop_spec quiet_taken 0 buff _ _ sound rfl
      (untilCallback_le buff.length countToCallback)
    obtain ⟨tail, silent⟩ := writeLoop_quiet 0 buff (untilCallback buff.length countToCallback)
      ring.head
    rw [silent] at moved
    exact ⟨kept, tail, moved.symm⟩

/-- A call of the consumer takes what it says. -/
theorem consume_taken (ring : Ringbuffer Element shape) (call : Consume) (sound : ring.Sound) :
    Taken ring (ring.consume call).1 (ring.consume call).2 := by
  cases call with
  | remove => exact (remove_spec sound).1
  | readBuffCallback count countToCallback =>
    obtain ⟨kept, -, moved⟩ := readLoop_spec quiet_given 0 count
      (untilCallback count countToCallback) _ sound rfl
    obtain ⟨head, silent⟩ := readLoop_quiet 0 count (untilCallback count countToCallback) ring.tail
    rw [silent, List.append_nil] at moved
    exact ⟨kept, head, moved⟩

section Calls

variable {Call : Type}
  {perform : Ringbuffer Element shape → Call → Ringbuffer Element shape × List Element}

theorem callAll_taken (each : ∀ ring call, ring.Sound →
    Taken ring (perform ring call).1 (perform ring call).2) (calls : List Call)
    (sound : ring.Sound) :
    Taken ring (callAll perform calls ring).1 (callAll perform calls ring).2 := by
  induction calls generalizing ring with
  | nil => exact Taken.refl sound
  | cons call rest inductionHypothesis =>
    have first := each ring call sound
    exact first.trans (inductionHypothesis first.sound)

theorem callAll_given (each : ∀ ring call, ring.Sound →
    Given ring (perform ring call).1 (perform ring call).2) (calls : List Call)
    (sound : ring.Sound) :
    Given ring (callAll perform calls ring).1 (callAll perform calls ring).2 := by
  induction calls generalizing ring with
  | nil => exact Given.refl sound
  | cons call rest inductionHypothesis =>
    have first := each ring call sound
    exact first.trans (inductionHypothesis first.sound)

end Calls

/-! ### Runs -/

abbrev RingStep (Element : Type) (shape : RingShape) :=
  Step (Traffic Element shape) (RingOperation Element) RingReport

variable {traffic : Traffic Element shape} {past : List (RingStep Element shape)}
  {step : RingStep Element shape}

/-- What the producer has got in is what the consumer has got out and what the ring holds. -/
structure Accounts (traffic : Traffic Element shape) : Prop where
  sound : traffic.ring.Sound
  balance : traffic.accepted = traffic.returned ++ traffic.ring.contents

/-- Elements of those offered have been moved in, and a callback has moved others out. -/
structure MovesIn (offered elements others : List Element) (pre post : Traffic Element shape) :
    Prop where
  offered : elements <+: offered
  accepted : post.accepted = pre.accepted ++ elements
  returned : post.returned = pre.returned ++ others
  contents : pre.ring.contents ++ elements = others ++ post.ring.contents

/-- Elements have been moved out, and a callback has moved others in. -/
structure MovesOut (elements others : List Element) (pre post : Traffic Element shape) : Prop where
  accepted : post.accepted = pre.accepted ++ others
  returned : post.returned = pre.returned ++ elements
  contents : pre.ring.contents ++ others = elements ++ post.ring.contents

/-- What an operation itself moves, apart from its callbacks. -/
def RingOperation.Moves (operation : RingOperation Element) (elements : List Element)
    (pre post : Traffic Element shape) : Prop :=
  match operation with
  | .insert data => MovesIn [data] elements [] pre post
  | .writeBuff buff => MovesIn buff elements [] pre post
  | .writeBuffCallback buff .. => ∃ others, MovesIn buff elements others pre post
  | .remove => MovesOut elements [] pre post
  | .readBuffCallback .. => ∃ others, MovesOut elements others pre post

/-- An operation reports the number of elements it moves. -/
def ReportsMoved (step : RingStep Element shape) : Prop :=
  ∃ elements, step.event.Moves elements step.pre step.post ∧ step.output.count = elements.length

theorem MovesIn.accounts {offered elements others : List Element}
    {pre post : Traffic Element shape} (moves : MovesIn offered elements others pre post)
    (sound : post.ring.Sound) (accounts : Accounts pre) : Accounts post where
  sound := sound
  balance := by
    rw [moves.accepted, moves.returned, accounts.balance, List.append_assoc, moves.contents,
      List.append_assoc]

theorem MovesOut.accounts {elements others : List Element} {pre post : Traffic Element shape}
    (moves : MovesOut elements others pre post) (sound : post.ring.Sound)
    (accounts : Accounts pre) : Accounts post where
  sound := sound
  balance := by
    rw [moves.accepted, moves.returned, accounts.balance, List.append_assoc, moves.contents,
      List.append_assoc]

/-- Every operation reports what it moves, and keeps the accounts. -/
theorem step_spec (accounts : Accounts traffic) (operation : RingOperation Element) :
    ReportsMoved ⟨traffic, operation, (traffic.step operation).1, (traffic.step operation).2⟩ ∧
      Accounts (traffic.step operation).1 := by
  have sound := accounts.sound
  cases operation with
  | insert data =>
    obtain ⟨given, -⟩ := insert_spec sound data
    have moves : MovesIn [data] (if (traffic.ring.insert data).2 then [data] else []) []
        traffic (traffic.step (.insert data)).1 := by
      refine ⟨?_, rfl, (List.append_nil _).symm, given.contents.symm⟩
      split
      · exact List.prefix_refl _
      · exact List.nil_prefix
    refine ⟨⟨_, moves, ?_⟩, moves.accounts given.sound accounts⟩
    cases inserted : (traffic.ring.insert data).2 <;>
      simp [Traffic.step, inserted, RingReport.count]
  | writeBuff buff =>
    obtain ⟨count, given⟩ := writeBuff_spec sound buff
    have moves : MovesIn buff (buff.take (traffic.ring.writeBuff buff).2) [] traffic
        (traffic.step (.writeBuff buff)).1 :=
      ⟨List.take_prefix _ _, rfl, (List.append_nil _).symm, given.contents.symm⟩
    refine ⟨⟨_, moves, ?_⟩, moves.accounts given.sound accounts⟩
    rw [List.length_take, min_eq_left]
    · rfl
    · rw [count]
      exact min_le_right _ _
  | writeBuffCallback buff countToCallback calls =>
    obtain ⟨kept, bound, moved⟩ := writeLoop_spec
      (fun round _ => callAll_taken consume_taken (calls round)) 0 buff _ _ sound rfl
      (untilCallback_le buff.length countToCallback)
    have moves : MovesIn buff _ _ traffic
        (traffic.step (.writeBuffCallback buff countToCallback calls)).1 :=
      ⟨List.take_prefix _ _, rfl, rfl, moved⟩
    refine ⟨⟨_, ⟨_, moves⟩, ?_⟩, moves.accounts kept accounts⟩
    rw [List.length_take]
    exact (min_eq_left bound).symm
  | remove =>
    obtain ⟨taken, -⟩ := remove_spec sound
    have moves : MovesOut traffic.ring.remove.2.toList [] traffic (traffic.step .remove).1 :=
      ⟨(List.append_nil _).symm, rfl, (List.append_nil _).trans taken.contents⟩
    refine ⟨⟨_, moves, ?_⟩, moves.accounts taken.sound accounts⟩
    cases removed : traffic.ring.remove.2 <;> simp [Traffic.step, removed, RingReport.count]
  | readBuffCallback count countToCallback calls =>
    obtain ⟨kept, counted, moved⟩ := readLoop_spec
      (fun round _ => callAll_given produce_given (calls round)) 0 count
      (untilCallback count countToCallback) _ sound rfl
    have moves : MovesOut _ _ traffic
        (traffic.step (.readBuffCallback count countToCallback calls)).1 :=
      ⟨rfl, rfl, moved⟩
    exact ⟨⟨_, ⟨_, moves⟩, counted.symm⟩, moves.accounts kept accounts⟩

theorem accounts_of_reaches (reaches : (machine Element shape).Reaches past traffic) :
    Accounts traffic := by
  induction reaches with
  | start begins =>
    obtain ⟨same, accepted, returned⟩ := begins
    have empty : ∀ ring : Ringbuffer Element shape, ring.head = ring.tail → ring.occupied = 0 := by
      intro ring same
      rw [occupied, readAvailable, same, BitVec.sub_self]
      rfl
    refine ⟨?_, ?_⟩
    · unfold Sound
      rw [empty _ same]
      exact Nat.zero_le _
    · rw [accepted, returned, contents, empty _ same]
      rfl
  | call earlier defined inductionHypothesis =>
    obtain ⟨rfl, rfl⟩ := Prod.mk.inj (Option.some.inj defined)
    exact (step_spec inductionHypothesis _).2

/-! ### First in, first out -/

/-- The consumer gets a prefix of what the producer has got in, in order; the rest lies in the ring.
The free and the occupied slots are all slots, and every operation reports what it moves. -/
theorem ring_fifo (reaches : (machine Element shape).Reaches past traffic) :
    traffic.accepted = traffic.returned ++ traffic.ring.contents ∧
      traffic.ring.readAvailable.toNat + traffic.ring.writeAvailable.toNat = shape.slots ∧
      Always (fun _ => ReportsMoved) past := by
  have accounts := accounts_of_reaches reaches
  refine ⟨accounts.balance, ?_, ?_⟩
  · have bound := accounts.sound
    rw [traffic.ring.toNat_writeAvailable bound]
    exact Nat.add_sub_cancel' bound
  · intro front step initial
    obtain ⟨before, defined⟩ := reaches.step initial
    obtain ⟨pre, operation, post, output⟩ := step
    have stepped : pre.step operation = (post, output) := Option.some.inj defined
    have reports := (step_spec (accounts_of_reaches before) operation).1
    rwa [stepped] at reports

/-- Four slots, with indices of 64 bit. -/
def fourSlots : RingShape where
  width := 64
  wide := by decide
  exponent := 2
  fits := by decide

/-- A ring whose indices start just below the wrap. -/
def nearWrap : Traffic ℕ fourSlots := { ring := ⟨-2, -2, #v[0, 0, 0, 0]⟩ }

theorem start_nearWrap : (machine ℕ fourSlots).start nearWrap := ⟨rfl, rfl, rfl⟩

theorem ring_fifo_near_wrap :
    let made := (machine ℕ fourSlots).ran nearWrap
      [.writeBuff [1, 2, 3], .remove, .insert 4, .insert 5, .insert 6]
    made.2.returned = [1] ∧ made.2.accepted = made.2.returned ++ made.2.ring.contents ∧
      made.2.ring.readAvailable.toNat + made.2.ring.writeAvailable.toNat = fourSlots.slots ∧
      Always (fun _ => ReportsMoved) made.1 :=
  ⟨by decide +kernel, ring_fifo (reaches_ran start_nearWrap _)⟩

end Ringbuffer

end Drace
