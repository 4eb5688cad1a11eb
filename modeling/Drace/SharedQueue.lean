/-
This file says that the queue of the external detector is a queue for threads that run
at the same time.

Any number of producers insert under the spinlock of the ring, and one consumer removes
without it. Every load and store of the flag, the indices and the slots is a step of
its own, so the consumer may read while a producer writes, and an insert that has found
room goes on while elements are removed. A producer publishes an element by the store
to the head, and the consumer frees a slot by the store to the tail: with these the
calls take effect, and they do to the elements what they do to a bounded queue.
-/

import Drace.RingbufferFifo
import Drace.Spinlock

namespace Drace

open Machine Ringbuffer

variable {Element : Type} {shape : RingShape}

/-! ### The model -/

/-- Where a producer is: it locks, and then makes the accesses of `insert`. -/
inductive Producer (Element : Type) (shape : RingShape)
  | idle
  | locking (data : Element)
  | entered (data : Element)
  | checking (data : Element) (tmpHead : shape.Index)
  | writing (data : Element) (tmpHead : shape.Index)
  | publishing (data : Element) (tmpHead : shape.Index)
  | leaving (inserted : Bool)

/-- Where the consumer is with the accesses of `remove`. -/
inductive Consumer (Element : Type) (shape : RingShape)
  | idle
  | entered
  | checking (tmpTail : shape.Index)
  | reading (tmpTail : shape.Index)
  | publishing (tmpTail : shape.Index) (data : Element)
  | leaving (removed : Option Element)

/-- What a call returns. -/
inductive QueueReply (Element : Type)
  | inserted (done : Bool)
  | removed (data : Option Element)

/-- A call begins, or the next access of one is made. -/
inductive QueueEvent (Element : Type)
  | insert (thread : ℕ) (data : Element)
  | produce (thread : ℕ)
  | remove
  | consume

/-- The ring with its spinlock, and where the threads are. -/
structure SharedQueue (Element : Type) (shape : RingShape) where
  mxspin : Spinlock := {}
  ring : Ringbuffer Element shape
  producers : ℕ → Producer Element shape := fun _ => .idle
  consumer : Consumer Element shape := .idle

namespace SharedQueue

/-- A producer goes on. -/
def goOn (queue : SharedQueue Element shape) (thread : ℕ) (producer : Producer Element shape) :
    SharedQueue Element shape :=
  { queue with producers := Function.update queue.producers thread producer }

/-- The next access of a producer. The lock guard locks before `insert` and unlocks behind it. -/
def produce (queue : SharedQueue Element shape) (thread : ℕ) :
    Option (SharedQueue Element shape × Option (QueueReply Element)) :=
  match queue.producers thread with
  | .idle => none
  | .locking data => (queue.mxspin.call (.access thread)).map fun result =>
    let queue := { queue with mxspin := result.1 }
    (if result.2 = some true then queue.goOn thread (.entered data) else queue, none)
  | .entered data => some (queue.goOn thread (.checking data queue.ring.head), none)
  | .checking data tmpHead =>
    some (queue.goOn thread (if tmpHead - queue.ring.tail = shape.bufferSize then .leaving false
      else .writing data tmpHead), none)
  | .writing data tmpHead =>
    let ring := { queue.ring with dataBuff := put queue.ring.dataBuff tmpHead data }
    some ({ queue with ring := ring }.goOn thread (.publishing data tmpHead), none)
  | .publishing _ tmpHead =>
    let ring := { queue.ring with head := tmpHead + 1 }
    some ({ queue with ring := ring }.goOn thread (.leaving true), none)
  | .leaving inserted => (queue.mxspin.call (.unlock thread)).map fun result =>
    ({ queue with mxspin := result.1 }.goOn thread .idle, some (.inserted inserted))

/-- The next access of the consumer. -/
def consume (queue : SharedQueue Element shape) :
    Option (SharedQueue Element shape × Option (QueueReply Element)) :=
  match queue.consumer with
  | .idle => none
  | .entered => some ({ queue with consumer := .checking queue.ring.tail }, none)
  | .checking tmpTail =>
    some ({ queue with
      consumer := if tmpTail = queue.ring.head then .leaving none else .reading tmpTail }, none)
  | .reading tmpTail =>
    some ({ queue with consumer := .publishing tmpTail (fetch queue.ring.dataBuff tmpTail) }, none)
  | .publishing tmpTail data =>
    some ({ queue with
      ring := { queue.ring with tail := tmpTail + 1 }, consumer := .leaving (some data) }, none)
  | .leaving removed => some ({ queue with consumer := .idle }, some (.removed removed))

/-- One event of the queue. A thread that is in a call makes no other one. -/
def call (queue : SharedQueue Element shape) : QueueEvent Element →
    Option (SharedQueue Element shape × Option (QueueReply Element))
  | .insert thread data => match queue.producers thread with
    | .idle => (queue.mxspin.call (.lock thread)).map fun result =>
      ({ queue with mxspin := result.1 }.goOn thread (.locking data), none)
    | _ => none
  | .produce thread => queue.produce thread
  | .remove => match queue.consumer with
    | .idle => some ({ queue with consumer := .entered }, none)
    | _ => none
  | .consume => queue.consume

/-- The queue as a machine. It starts empty, wherever its indices are, and nobody has called it. -/
def machine (Element : Type) (shape : RingShape) :
    Machine (SharedQueue Element shape) (QueueEvent Element) (Option (QueueReply Element)) where
  start queue := ∃ ring : Ringbuffer Element shape, ring.head = ring.tail ∧ queue = { ring := ring }
  call := call

end SharedQueue

/-! ### What the queue is for -/

/-- The calls of a queue. -/
inductive QueueCall (Element : Type)
  | insert (data : Element)
  | remove

/-- A queue that holds a number of elements at most. -/
def boundedQueue (Element : Type) (capacity : ℕ) :
    Machine (List Element) (Option ℕ × QueueCall Element) (QueueReply Element) where
  start elements := elements = []
  call elements call := match call.2 with
    | .insert data => some (if elements.length < capacity then (elements ++ [data], .inserted true)
      else (elements, .inserted false))
    | .remove => some (elements.tail, .removed elements.head?)

/-- How far a producer is with its call. -/
def Producer.phase : Producer Element shape → Phase (QueueCall Element) (QueueReply Element)
  | .idle => .idle
  | .locking data | .entered data | .checking data _ | .writing data _ | .publishing data _ =>
    .called (.insert data)
  | .leaving inserted => .acted (.inserted inserted)

/-- How far the consumer is with its call. -/
def Consumer.phase : Consumer Element shape → Phase (QueueCall Element) (QueueReply Element)
  | .idle => .idle
  | .entered | .checking _ | .reading _ | .publishing .. => .called .remove
  | .leaving removed => .acted (.removed removed)

namespace SharedQueue

/-- How far a thread is with its call; the consumer has no number. -/
def locate (queue : SharedQueue Element shape) :
    Option ℕ → Phase (QueueCall Element) (QueueReply Element)
  | some thread => (queue.producers thread).phase
  | none => queue.consumer.phase

/-- An insert takes effect when it finds the ring full, or when it stores the head. A remove takes
effect when it finds the ring empty, or when it stores the tail. -/
def view : View (SharedQueue Element shape) (QueueEvent Element) (Option (QueueReply Element))
    (Option ℕ) (QueueCall Element) (QueueReply Element) where
  actor step := match step.event with
    | .insert thread _ | .produce thread => some thread
    | .remove | .consume => none
  moments step := match step.event with
    | .insert _ data => [.calls (.insert data)]
    | .remove => [.calls .remove]
    | .produce thread => match step.pre.producers thread with
      | .checking data tmpHead => if tmpHead - step.pre.ring.tail = shape.bufferSize
        then [.acts (.insert data) (.inserted false)] else []
      | .publishing data _ => [.acts (.insert data) (.inserted true)]
      | _ => step.output.toList.map .returns
    | .consume => match step.pre.consumer with
      | .checking tmpTail => if tmpTail = step.pre.ring.head
        then [.acts .remove (.removed none)] else []
      | .publishing _ data => [.acts .remove (.removed (some data))]
      | _ => step.output.toList.map .returns

end SharedQueue

/-! ### The ring under single accesses -/

namespace Ringbuffer

variable {ring : Ringbuffer Element shape}

/-- The slot at the head is not the one at the tail, if there are elements and room for more. -/
theorem slot_head_ne_slot_tail (nonempty : 0 < ring.occupied)
    (room : ring.occupied < shape.slots) : shape.slot ring.head ≠ shape.slot ring.tail := by
  intro same
  rw [← ring.tail_add_occupied] at same
  have start : ring.tail = ring.tail + BitVec.ofNat _ 0 := (BitVec.add_zero _).symm
  rw [start, ← start] at same
  exact nonempty.ne' (slot_add_injective room shape.slots_pos
    (same.trans (congrArg shape.slot start)))

/-- A write to the slot at the head concerns no element. -/
theorem contents_put (data : Element) (room : ring.occupied < shape.slots) :
    ({ ring with dataBuff := put ring.dataBuff ring.head data } :
      Ringbuffer Element shape).contents = ring.contents := by
  refine List.map_congr_left fun distance inside => ?_
  have bound : distance < ring.occupied := List.mem_range.mp inside
  unfold peek
  rw [fetch_put, if_neg]
  intro same
  rw [← ring.tail_add_occupied] at same
  exact absurd (slot_add_injective room (bound.trans room) same) (Nat.ne_of_gt bound)

theorem put_fetch (dataBuff : Vector Element shape.slots) (index : shape.Index) :
    put dataBuff index (fetch dataBuff index) = dataBuff :=
  Vector.set_getElem_self _

/-- Equal indices mean that there are no elements. -/
theorem contents_eq_nil (empty : ring.head = ring.tail) : ring.contents = [] := by
  rw [← ring.isEmpty_iff, isEmpty, readAvailable, empty, BitVec.sub_self]
  rfl

/-- Indices apart mean that there are elements. -/
theorem occupied_pos (apart : ring.head ≠ ring.tail) : 0 < ring.occupied := by
  refine Nat.pos_of_ne_zero fun none => apart ?_
  rw [← ring.tail_add_occupied, none]
  exact BitVec.add_zero _

/-- The store to the head publishes what its slot holds. -/
theorem push_fetch : ring.push (fetch ring.dataBuff ring.head) =
    { ring with head := ring.head + 1 } := by
  rw [push, put_fetch]

end Ringbuffer

/-! ### What the threads rely on -/

/-- What a producer has found in the ring, and what it has written, is still so. -/
def Producer.Fits (ring : Ringbuffer Element shape) : Producer Element shape → Prop
  | .checking _ tmpHead => tmpHead = ring.head
  | .writing _ tmpHead => tmpHead = ring.head ∧ ring.occupied < shape.slots
  | .publishing data tmpHead => tmpHead = ring.head ∧ ring.occupied < shape.slots ∧
    fetch ring.dataBuff ring.head = data
  | _ => True

/-- Where a producer is with the lock. -/
def Producer.Places (place : LockPlace) : Producer Element shape → Prop
  | .idle => place = .outside
  | .locking _ => place = .loading false ∨ place = .exchanging false
  | _ => place = .inside

/-- What the consumer has found in the ring, and what it has read, is still so. -/
def Consumer.Fits (ring : Ringbuffer Element shape) : Consumer Element shape → Prop
  | .checking tmpTail => tmpTail = ring.tail
  | .reading tmpTail => tmpTail = ring.tail ∧ 0 < ring.occupied
  | .publishing tmpTail data => tmpTail = ring.tail ∧ 0 < ring.occupied ∧
    fetch ring.dataBuff ring.tail = data
  | _ => True

/-- A producer that is not inside relies on nothing. -/
theorem Producer.Places.fits {producer : Producer Element shape} {place : LockPlace}
    (places : producer.Places place) (away : place ≠ .inside) (ring : Ringbuffer Element shape) :
    producer.Fits ring := by
  cases producer with
  | idle | locking => trivial
  | _ => exact absurd places away

/-- Removing an element takes nothing away from a producer. -/
theorem Producer.Fits.pop {producer : Producer Element shape} {ring : Ringbuffer Element shape}
    (fits : producer.Fits ring) (nonempty : 0 < ring.occupied) : producer.Fits ring.pop := by
  have fewer : ring.occupied < shape.slots → ring.pop.occupied < shape.slots := by
    rw [ring.occupied_pop nonempty]
    omega
  cases producer with
  | checking => exact fits
  | writing => exact ⟨fits.1, fewer fits.2⟩
  | publishing => exact ⟨fits.1, fewer fits.2.1, fits.2.2⟩
  | _ => trivial

/-- A write to the slot at the head takes nothing away from the consumer. -/
theorem Consumer.Fits.put {consumer : Consumer Element shape} {ring : Ringbuffer Element shape}
    (fits : consumer.Fits ring) (data : Element) (room : ring.occupied < shape.slots) :
    consumer.Fits { ring with dataBuff := put ring.dataBuff ring.head data } := by
  cases consumer with
  | checking | reading => exact fits
  | publishing tmpTail read =>
    obtain ⟨atTail, nonempty, same⟩ := fits
    refine ⟨atTail, nonempty, ?_⟩
    rw [fetch_put, if_neg (slot_head_ne_slot_tail nonempty room)]
    exact same
  | _ => trivial

/-- The store to the head takes nothing away from the consumer. -/
theorem Consumer.Fits.publish {consumer : Consumer Element shape}
    {ring : Ringbuffer Element shape} (fits : consumer.Fits ring)
    (room : ring.occupied < shape.slots) :
    consumer.Fits { ring with head := ring.head + 1 } := by
  rw [← push_fetch]
  have more : 0 < (ring.push (fetch ring.dataBuff ring.head)).occupied := by
    rw [ring.occupied_push _ room]
    exact Nat.succ_pos _
  cases consumer with
  | checking => exact fits
  | reading => exact ⟨fits.1, more⟩
  | publishing =>
    refine ⟨fits.1, more, ?_⟩
    rw [push, put_fetch]
    exact fits.2.2
  | _ => trivial

/-! ### One step -/

namespace SharedQueue

variable {queue next : SharedQueue Element shape} {elements : List Element} {thread : ℕ}
  {producer : Producer Element shape}

/-- The ring holds these elements, one producer at most is inside the lock, and what the threads
rely on is so. -/
structure Stands (queue : SharedQueue Element shape) (elements : List Element) : Prop where
  sound : queue.ring.Sound
  contents : queue.ring.contents = elements
  held : ∃ holder, Spinlock.Held queue.mxspin holder
  places : ∀ thread, (queue.producers thread).Places (queue.mxspin.places thread)
  inserting : ∀ thread, (queue.producers thread).Fits queue.ring
  removing : queue.consumer.Fits queue.ring

/-- The step does to the elements what it shows, goes on with the call of its thread, and leaves the
calls of the others where they are. -/
structure Simulated (elements : List Element)
    (step : Machine.Step (SharedQueue Element shape) (QueueEvent Element)
      (Option (QueueReply Element))) : Prop where
  acts : ∃ later, (boundedQueue Element shape.slots).Path elements (view.effects step) later ∧
    Stands step.post later
  passes : (step.pre.locate (view.actor step)).Passes (view.moments step)
    (step.post.locate (view.actor step))
  others : ∀ other ≠ view.actor step, step.post.locate other = step.pre.locate other

/-- What holds of the producer that goes on and of all others holds of all producers. -/
theorem forall_goOn (property : ℕ → Producer Element shape → Prop) (one : property thread producer)
    (others : ∀ other ≠ thread, property other (queue.producers other)) (other : ℕ) :
    property other ((queue.goOn thread producer).producers other) := by
  show property other (Function.update queue.producers thread producer other)
  by_cases same : other = thread
  · subst same
    rwa [Function.update_self]
  · rw [Function.update_of_ne same]
    exact others other same

theorem locate_goOn_self :
    (queue.goOn thread producer).locate (some thread) = producer.phase :=
  congrArg Producer.phase (Function.update_self _ _ _)

theorem locate_goOn_of_ne {other : Option ℕ} (differs : other ≠ some thread) :
    (queue.goOn thread producer).locate other = queue.locate other := by
  cases other with
  | none => rfl
  | some other =>
    exact congrArg Producer.phase (Function.update_of_ne (fun same => differs (congrArg some same))
      _ _)

/-- One producer at most is inside. -/
theorem Stands.fits_other (stands : Stands queue elements)
    (inside : queue.mxspin.places thread = .inside) {other : ℕ} (differs : other ≠ thread)
    (ring : Ringbuffer Element shape) : (queue.producers other).Fits ring := by
  obtain ⟨holder, held⟩ := stands.held
  refine (stands.places other).fits (fun insideOther => differs ?_) ring
  rw [held.inside] at inside insideOther
  exact Option.some.inj (insideOther.symm.trans inside)

/-- The producer that is inside goes on, and may have changed the ring. -/
theorem Stands.inside (stands : Stands queue elements)
    (inside : queue.mxspin.places thread = .inside) (producer : Producer Element shape)
    (ring : Ringbuffer Element shape) (places : producer.Places .inside) (sound : ring.Sound)
    (fits : producer.Fits ring) (removing : queue.consumer.Fits ring) :
    Stands ({ queue with ring := ring }.goOn thread producer) ring.contents where
  sound := sound
  contents := rfl
  held := stands.held
  places := forall_goOn (fun other producer => producer.Places (queue.mxspin.places other))
    (inside ▸ places) fun other _ => stands.places other
  inserting := forall_goOn (fun _ producer => producer.Fits ring) fits
    fun _ differs => stands.fits_other inside differs ring
  removing := removing

/-- A producer makes accesses of the lock. -/
theorem Stands.lock (stands : Stands queue elements) {mxspin : Spinlock}
    (held : ∃ holder, Spinlock.Held mxspin holder)
    (others : ∀ other ≠ thread, mxspin.places other = queue.mxspin.places other)
    (places : producer.Places (mxspin.places thread)) (fits : producer.Fits queue.ring) :
    Stands ({ queue with mxspin := mxspin }.goOn thread producer) elements where
  sound := stands.sound
  contents := stands.contents
  held := held
  places := forall_goOn (fun other producer => producer.Places (mxspin.places other))
    places fun other differs => (others other differs).symm ▸ stands.places other
  inserting := forall_goOn (fun _ producer => producer.Fits queue.ring) fits
    fun other _ => stands.inserting other
  removing := stands.removing

/-- A producer that has room has room for one more element. -/
theorem Stands.publish (stands : Stands queue elements)
    (inside : queue.mxspin.places thread = .inside)
    (room : queue.ring.occupied < shape.slots) :
    Stands ({ queue with ring := { queue.ring with head := queue.ring.head + 1 } }.goOn thread
      (.leaving true)) (elements ++ [fetch queue.ring.dataBuff queue.ring.head]) := by
  have grown : (queue.ring.push (fetch queue.ring.dataBuff queue.ring.head)).Sound := by
    rw [Ringbuffer.Sound, queue.ring.occupied_push _ room]
    exact room
  have contents := queue.ring.contents_push (fetch queue.ring.dataBuff queue.ring.head) room
  rw [push_fetch] at grown contents
  have stood := stands.inside inside (.leaving true) _ rfl grown trivial
    (stands.removing.publish room)
  rw [contents, stands.contents] at stood
  exact stood

namespace Simulated

variable {step : Machine.Step (SharedQueue Element shape) (QueueEvent Element)
    (Option (QueueReply Element))}

/-- A step that shows nothing. -/
theorem silent (silent : view.moments step = []) (stands : Stands step.post elements)
    (stays : step.post.locate (view.actor step) = step.pre.locate (view.actor step))
    (others : ∀ other ≠ view.actor step, step.post.locate other = step.pre.locate other) :
    Simulated elements step := by
  refine ⟨⟨elements, ?_, stands⟩, ?_, others⟩
  · rw [View.effects, silent]
    exact .nil
  · rw [silent, stays]
    exact .nil

/-- A step with which a call takes effect. -/
theorem acting {call : QueueCall Element} {reply : QueueReply Element} {later : List Element}
    (acts : view.moments step = [.acts call reply])
    (defined : (boundedQueue Element shape.slots).call elements (view.actor step, call) =
      some (later, reply)) (stands : Stands step.post later)
    (before : step.pre.locate (view.actor step) = .called call)
    (after : step.post.locate (view.actor step) = .acted reply)
    (others : ∀ other ≠ view.actor step, step.post.locate other = step.pre.locate other) :
    Simulated elements step := by
  refine ⟨⟨later, ?_, stands⟩, ?_, others⟩
  · rw [View.effects, acts]
    exact .single defined
  · rw [acts, before, after]
    exact .single .acts

/-- A step that returns what the call has come to. -/
theorem returning {reply : QueueReply Element} (returns : view.moments step = [.returns reply])
    (stands : Stands step.post elements)
    (before : step.pre.locate (view.actor step) = .acted reply)
    (after : step.post.locate (view.actor step) = .idle)
    (others : ∀ other ≠ view.actor step, step.post.locate other = step.pre.locate other) :
    Simulated elements step := by
  refine ⟨⟨elements, ?_, stands⟩, ?_, others⟩
  · rw [View.effects, returns]
    exact .nil
  · rw [returns, before, after]
    exact .single .returns

/-- A step that begins a call. -/
theorem calling {call : QueueCall Element} (calls : view.moments step = [.calls call])
    (stands : Stands step.post elements)
    (before : step.pre.locate (view.actor step) = .idle)
    (after : step.post.locate (view.actor step) = .called call)
    (others : ∀ other ≠ view.actor step, step.post.locate other = step.pre.locate other) :
    Simulated elements step := by
  refine ⟨⟨elements, ?_, stands⟩, ?_, others⟩
  · rw [View.effects, calls]
    exact .nil
  · rw [calls, before, after]
    exact .single .calls

end Simulated

section Producing

variable {output : Option (QueueReply Element)} {data : Element} {tmpHead : BitVec shape.width}
  {inserted : Bool} (stands : Stands queue elements)
  (defined : queue.produce thread = some (next, output))

include stands defined

/-- A producer tries to enter, or waits. -/
theorem simulated_locking (here : queue.producers thread = .locking data) :
    Simulated elements ⟨queue, .produce thread, next, output⟩ := by
  have places := stands.places thread
  obtain ⟨holder, held⟩ := stands.held
  have before : queue.locate (some thread) = .called (.insert data) := congrArg Producer.phase here
  unfold produce at defined
  simp only [here] at defined places
  obtain ⟨⟨mxspin, answer⟩, accessed, same⟩ := Option.map_eq_some_iff.mp defined
  obtain ⟨others, once, tries, done⟩ := Spinlock.access_cases held accessed
  have single : once = false := by
    rcases places with place | place <;> rcases tries with other | other <;>
      simpa using other.symm.trans place
  subst single
  rcases done with ⟨rfl, heldNext, goesOn⟩ | ⟨-, impossible, -⟩ | ⟨rfl, rfl, heldNext, entered⟩
  · obtain ⟨rfl, rfl⟩ := Prod.mk.inj same
    refine .silent (by simp only [view, here]; rfl) ⟨stands.sound, stands.contents, ⟨_, heldNext⟩,
      fun other => ?_, stands.inserting, stands.removing⟩ rfl fun _ _ => rfl
    by_cases same : other = thread
    · rw [same]
      exact here ▸ goesOn
    · exact (others other same).symm ▸ stands.places other
  · cases impossible
  · obtain ⟨rfl, rfl⟩ := Prod.mk.inj same
    refine .silent (by simp only [view, here]; rfl)
      (stands.lock ⟨_, heldNext⟩ others entered trivial) ?_ fun other => locate_goOn_of_ne
    exact (locate_goOn_self).trans before.symm

/-- A producer loads the head. -/
theorem simulated_entered (here : queue.producers thread = .entered data) :
    Simulated elements ⟨queue, .produce thread, next, output⟩ := by
  have places := stands.places thread
  have before : queue.locate (some thread) = .called (.insert data) := congrArg Producer.phase here
  unfold produce at defined
  simp only [here] at defined places
  obtain ⟨rfl, rfl⟩ := Prod.mk.inj (Option.some.inj defined)
  have stood := stands.inside places (.checking data queue.ring.head) queue.ring rfl stands.sound
    rfl stands.removing
  exact .silent (by simp only [view, here]; rfl) (stands.contents ▸ stood)
    (locate_goOn_self.trans before.symm) fun other => locate_goOn_of_ne

/-- A producer loads the tail: it is refused if the queue is full at this moment. -/
theorem simulated_checking (here : queue.producers thread = .checking data tmpHead) :
    Simulated elements ⟨queue, .produce thread, next, output⟩ := by
  have places := stands.places thread
  have fits := stands.inserting thread
  have before : queue.locate (some thread) = .called (.insert data) := congrArg Producer.phase here
  unfold produce at defined
  simp only [here] at defined places fits
  obtain ⟨rfl, rfl⟩ := Prod.mk.inj (Option.some.inj defined)
  obtain rfl : tmpHead = queue.ring.head := fits
  by_cases full : queue.ring.head - queue.ring.tail = shape.bufferSize
  · have crowded : ¬ elements.length < shape.slots := by
      rw [← stands.contents, queue.ring.length_contents,
        queue.ring.available_eq_slots_iff.mp full]
      exact lt_irrefl _
    have stood := stands.inside places (.leaving false) queue.ring rfl stands.sound trivial
      stands.removing
    have refused : (boundedQueue Element shape.slots).call elements (some thread, .insert data) =
        some (elements, .inserted false) := congrArg some (if_neg crowded)
    rw [if_pos full]
    exact .acting (by simp only [view, here, if_pos full]) refused (stands.contents ▸ stood)
      before locate_goOn_self fun other => locate_goOn_of_ne
  · have room : queue.ring.occupied < shape.slots :=
      lt_of_le_of_ne stands.sound (mt queue.ring.available_eq_slots_iff.mpr full)
    have stood := stands.inside places (.writing data queue.ring.head) queue.ring rfl stands.sound
      ⟨rfl, room⟩ stands.removing
    rw [if_neg full]
    exact .silent (by simp only [view, here, if_neg full]) (stands.contents ▸ stood)
      (locate_goOn_self.trans before.symm) fun other => locate_goOn_of_ne

/-- A producer writes its element into a slot that is not read yet. -/
theorem simulated_writing (here : queue.producers thread = .writing data tmpHead) :
    Simulated elements ⟨queue, .produce thread, next, output⟩ := by
  have places := stands.places thread
  have fits := stands.inserting thread
  have before : queue.locate (some thread) = .called (.insert data) := congrArg Producer.phase here
  unfold produce at defined
  simp only [here] at defined places fits
  obtain ⟨rfl, rfl⟩ := Prod.mk.inj (Option.some.inj defined)
  obtain ⟨rfl, room⟩ := fits
  have stood := stands.inside places (.publishing data queue.ring.head)
    { queue.ring with dataBuff := put queue.ring.dataBuff queue.ring.head data } rfl stands.sound
    ⟨rfl, room, by rw [fetch_put, if_pos rfl]⟩ (stands.removing.put data room)
  rw [contents_put data room, stands.contents] at stood
  exact .silent (by simp only [view, here]; rfl) stood
    (locate_goOn_self.trans before.symm) fun other => locate_goOn_of_ne

/-- A producer stores the head, which inserts its element. -/
theorem simulated_publishing (here : queue.producers thread = .publishing data tmpHead) :
    Simulated elements ⟨queue, .produce thread, next, output⟩ := by
  have places := stands.places thread
  have fits := stands.inserting thread
  have before : queue.locate (some thread) = .called (.insert data) := congrArg Producer.phase here
  unfold produce at defined
  simp only [here] at defined places fits
  obtain ⟨rfl, rfl⟩ := Prod.mk.inj (Option.some.inj defined)
  obtain ⟨rfl, room, rfl⟩ := fits
  have space : elements.length < shape.slots := by
    rw [← stands.contents, queue.ring.length_contents]
    exact room
  have inserted : (boundedQueue Element shape.slots).call elements
      (some thread, .insert (fetch queue.ring.dataBuff queue.ring.head)) =
      some (elements ++ [fetch queue.ring.dataBuff queue.ring.head], .inserted true) :=
    congrArg some (if_pos space)
  exact .acting (by simp only [view, here]) inserted (stands.publish places room) before
    locate_goOn_self fun other => locate_goOn_of_ne

/-- A producer leaves. -/
theorem simulated_leaving (here : queue.producers thread = .leaving inserted) :
    Simulated elements ⟨queue, .produce thread, next, output⟩ := by
  have places := stands.places thread
  obtain ⟨holder, held⟩ := stands.held
  have before : queue.locate (some thread) = .acted (.inserted inserted) :=
    congrArg Producer.phase here
  unfold produce at defined
  simp only [here] at defined places
  obtain ⟨⟨mxspin, answer⟩, unlocked, same⟩ := Option.map_eq_some_iff.mp defined
  obtain ⟨rfl, rfl⟩ := Prod.mk.inj same
  obtain ⟨-, left⟩ := Option.ite_none_right_eq_some.mp unlocked
  obtain ⟨rfl, rfl⟩ := Prod.mk.inj (Option.some.inj left)
  obtain rfl := (held.inside thread).mp places
  exact .returning (by simp only [view, here]; rfl) (stands.lock ⟨none, held.leave⟩
    (fun other => Spinlock.places_go_of_ne) Spinlock.places_go_self trivial) before
    locate_goOn_self fun other => locate_goOn_of_ne

/-- The next access of a producer does to the elements what it shows. -/
theorem simulated_produce : Simulated elements ⟨queue, .produce thread, next, output⟩ := by
  cases here : queue.producers thread with
  | idle =>
    rw [produce, here] at defined
    cases defined
  | locking => exact simulated_locking stands defined here
  | entered => exact simulated_entered stands defined here
  | checking => exact simulated_checking stands defined here
  | writing => exact simulated_writing stands defined here
  | publishing => exact simulated_publishing stands defined here
  | leaving => exact simulated_leaving stands defined here

end Producing

/-- The consumer goes on with what it relies on. -/
theorem Stands.consumes (stands : Stands queue elements) {consumer : Consumer Element shape}
    (fits : consumer.Fits queue.ring) : Stands { queue with consumer := consumer } elements :=
  ⟨stands.sound, stands.contents, stands.held, stands.places, stands.inserting, fits⟩

/-- The access of the consumer leaves all producers where they are. -/
theorem locate_consumer_of_ne {ring : Ringbuffer Element shape} {consumer : Consumer Element shape}
    (other : Option ℕ) (differs : other ≠ none) :
    locate { queue with ring := ring, consumer := consumer } other = queue.locate other := by
  cases other with
  | none => exact absurd rfl differs
  | some other => rfl

section Consuming

variable {output : Option (QueueReply Element)} {tmpTail : BitVec shape.width} {data : Element}
  (stands : Stands queue elements) (defined : queue.consume = some (next, output))

include stands defined

/-- The consumer loads the head: there is nothing to remove if the queue is empty at this
moment. -/
theorem simulated_checkingEmpty (here : queue.consumer = .checking tmpTail) :
    Simulated elements ⟨queue, .consume, next, output⟩ := by
  have fits := stands.removing
  have before : queue.locate none = .called .remove := congrArg Consumer.phase here
  unfold consume at defined
  simp only [here] at defined fits
  obtain ⟨rfl, rfl⟩ := Prod.mk.inj (Option.some.inj defined)
  obtain rfl : tmpTail = queue.ring.tail := fits
  by_cases empty : queue.ring.tail = queue.ring.head
  · have drained : elements = [] := by
      rw [← stands.contents]
      exact queue.ring.contents_eq_nil empty.symm
    subst drained
    have refused : (boundedQueue Element shape.slots).call [] (none, .remove) =
        some ([], .removed none) := rfl
    rw [if_pos empty]
    exact .acting (by simp only [view, here, if_pos empty]) refused (stands.consumes trivial) before
      rfl locate_consumer_of_ne
  · rw [if_neg empty]
    exact .silent (by simp only [view, here, if_neg empty])
      (stands.consumes ⟨rfl, queue.ring.occupied_pos (Ne.symm empty)⟩) before.symm
      locate_consumer_of_ne

/-- The consumer stores the tail, which removes its element. -/
theorem simulated_publishingTail (here : queue.consumer = .publishing tmpTail data) :
    Simulated elements ⟨queue, .consume, next, output⟩ := by
  have fits := stands.removing
  have before : queue.locate none = .called .remove := congrArg Consumer.phase here
  unfold consume at defined
  simp only [here] at defined fits
  obtain ⟨rfl, rfl⟩ := Prod.mk.inj (Option.some.inj defined)
  obtain ⟨rfl, nonempty, rfl⟩ := fits
  have contents := stands.contents
  rw [queue.ring.contents_pop nonempty] at contents
  have removed : (boundedQueue Element shape.slots).call elements (none, .remove) =
      some (queue.ring.pop.contents,
        .removed (some (fetch queue.ring.dataBuff queue.ring.tail))) := by
    rw [← contents]
    rfl
  have sound : queue.ring.pop.Sound := by
    rw [Ringbuffer.Sound, queue.ring.occupied_pop nonempty]
    exact (Nat.pred_le _).trans stands.sound
  exact .acting (by simp only [view, here]) removed ⟨sound, rfl, stands.held, stands.places,
    fun other => (stands.inserting other).pop nonempty, trivial⟩ before rfl locate_consumer_of_ne

/-- The next access of the consumer does to the elements what it shows. -/
theorem simulated_consume : Simulated elements ⟨queue, .consume, next, output⟩ := by
  have fits := stands.removing
  cases here : queue.consumer with
  | idle =>
    rw [consume, here] at defined
    cases defined
  | entered =>
    have before : queue.locate none = .called .remove := congrArg Consumer.phase here
    rw [consume, here] at defined
    obtain ⟨rfl, rfl⟩ := Prod.mk.inj (Option.some.inj defined)
    exact .silent (by simp only [view, here]; rfl) (stands.consumes rfl) before.symm
      locate_consumer_of_ne
  | checking => exact simulated_checkingEmpty stands defined here
  | reading =>
    have before : queue.locate none = .called .remove := congrArg Consumer.phase here
    rw [consume, here] at defined
    rw [here] at fits
    obtain ⟨rfl, rfl⟩ := Prod.mk.inj (Option.some.inj defined)
    obtain ⟨rfl, nonempty⟩ := fits
    exact .silent (by simp only [view, here]; rfl) (stands.consumes ⟨rfl, nonempty, rfl⟩)
      before.symm locate_consumer_of_ne
  | publishing => exact simulated_publishingTail stands defined here
  | leaving =>
    have before : queue.locate none = .acted _ := congrArg Consumer.phase here
    rw [consume, here] at defined
    obtain ⟨rfl, rfl⟩ := Prod.mk.inj (Option.some.inj defined)
    exact .returning (by simp only [view, here]; rfl) (stands.consumes trivial) before rfl
      locate_consumer_of_ne

end Consuming

/-- Every event does to the elements what it shows. -/
theorem simulated_call {event : QueueEvent Element} {output : Option (QueueReply Element)}
    (stands : Stands queue elements) (defined : queue.call event = some (next, output)) :
    Simulated elements ⟨queue, event, next, output⟩ := by
  cases event with
  | insert thread data =>
    have places := stands.places thread
    obtain ⟨holder, held⟩ := stands.held
    cases here : queue.producers thread with
    | idle =>
      have before : queue.locate (some thread) = .idle := congrArg Producer.phase here
      simp only [call, here] at defined places
      obtain ⟨⟨mxspin, answer⟩, locks, same⟩ := Option.map_eq_some_iff.mp defined
      obtain ⟨rfl, rfl⟩ := Prod.mk.inj same
      obtain ⟨-, begun⟩ := Option.ite_none_right_eq_some.mp locks
      obtain ⟨rfl, rfl⟩ := Prod.mk.inj (Option.some.inj begun)
      exact .calling rfl (stands.lock ⟨holder, held.calls places⟩
        (fun other => Spinlock.places_go_of_ne) (Or.inl Spinlock.places_go_self) trivial) before
        locate_goOn_self fun other => locate_goOn_of_ne
    | _ =>
      simp only [call, here] at defined
      cases defined
  | produce thread => exact simulated_produce stands defined
  | remove =>
    cases here : queue.consumer with
    | idle =>
      have before : queue.locate none = .idle := congrArg Consumer.phase here
      simp only [call, here] at defined
      obtain ⟨rfl, rfl⟩ := Prod.mk.inj (Option.some.inj defined)
      refine .calling rfl ⟨stands.sound, stands.contents, stands.held, stands.places,
        stands.inserting, trivial⟩ before rfl fun other differs => ?_
      cases other with
      | none => exact absurd rfl differs
      | some other => rfl
    | _ =>
      simp only [call, here] at defined
      cases defined
  | consume => exact simulated_consume stands defined

/-- The queue is a queue for all interleavings of the accesses of its producers and its consumer:
its calls take effect at some point between call and return as those of a bounded queue do, and the
ring holds what that queue holds. -/
theorem shared_queue_is_queue
    {past : List (Machine.Step (SharedQueue Element shape) (QueueEvent Element)
      (Option (QueueReply Element)))} (reaches : (machine Element shape).Reaches past queue) :
    view.Linearizes (boundedQueue Element shape.slots) past ∧
      ∃ shadow elements, (boundedQueue Element shape.slots).Reaches shadow elements ∧
        shadow.map Step.visible = past.flatMap view.effects ∧ queue.ring.contents = elements := by
  have starts : ∀ queue, (machine Element shape).start queue →
      (∀ thread, queue.locate thread = .idle) ∧
      ∃ elements, (boundedQueue Element shape.slots).start elements ∧ Stands queue elements := by
    rintro _ ⟨ring, empty, rfl⟩
    have drained := ring.contents_eq_nil empty
    have sound : ring.Sound := by
      rw [Ringbuffer.Sound, ← ring.length_contents, drained]
      exact Nat.zero_le _
    have free : Spinlock.Held {} none :=
      ⟨rfl, fun _ => iff_of_false LockPlace.noConfusion (by simp)⟩
    refine ⟨fun thread => ?_, [], rfl, sound, drained, ⟨none, free⟩, fun _ => rfl,
      fun _ => trivial, trivial⟩
    cases thread <;> rfl
  obtain ⟨linearizes, shadow, elements, follows, same, stands⟩ := View.linearizes_of_reaches locate
    Stands starts (fun _ _ _ _ _ defined stands =>
      have simulated := simulated_call stands defined
      ⟨simulated.acts, simulated.passes, simulated.others⟩) reaches
  exact ⟨linearizes, shadow, elements, follows, same, stands.contents⟩

/-- A ring of four slots, short of the end of its indices. -/
def nearEnd : SharedQueue ℕ fourSlots := { ring := nearWrap.ring }

theorem start_nearEnd : (machine ℕ fourSlots).start nearEnd := ⟨_, rfl, rfl⟩

/-- Two producers contend for the lock while the consumer finds the ring empty, and it removes the
first element while the second one is inserted. -/
def interleaved : List (QueueEvent ℕ) :=
  [.insert 1 10, .insert 2 20, .produce 1, .produce 2, .remove, .produce 1, .consume, .produce 2,
    .produce 1, .consume, .produce 1, .produce 1, .consume, .remove, .produce 1, .consume,
    .produce 2, .consume, .produce 1, .produce 2, .consume, .produce 2, .produce 2, .consume,
    .produce 2, .produce 2, .consume, .produce 2, .produce 2]

theorem shared_queue_is_queue_interleaved :
    let run := (machine ℕ fourSlots).ran nearEnd interleaved
    view.Linearizes (boundedQueue ℕ fourSlots.slots) run.1 ∧
      ∃ shadow elements, (boundedQueue ℕ fourSlots.slots).Reaches shadow elements ∧
        shadow.map Step.visible = run.1.flatMap view.effects ∧ run.2.ring.contents = elements :=
  shared_queue_is_queue (Machine.reaches_ran start_nearEnd interleaved)

end SharedQueue

end Drace
