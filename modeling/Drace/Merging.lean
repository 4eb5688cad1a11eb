/-
This file says that merging vector clocks is a join.

A clock is an object of the program, and `update` reads one object while it writes
another one, or the same. Its loop follows the iterators of a hash map: their order
is not fixed, and an insertion into the map that is iterated makes them invalid. If
every stored id decodes to its own key, the loop comes to its end in every order and
for every two objects, the object that is read stays as it is, and the clock looked
up for a thread is the larger one of the two. So what can be looked up after a merge
is a join in the order of the functions from threads to clocks. The clocks of the
detector are such objects in every run.
-/

import Drace.HappensBefore
import Drace.WellFormed

namespace Drace

namespace Layout

variable {layout : Layout} {id other : ℕ}

/-- The larger one of two ids of a thread has the larger clock. -/
theorem makeClock_max (bound : id < layout.sizeRange) (otherBound : other < layout.sizeRange)
    (same : layout.makeTid id = layout.makeTid other) :
    layout.makeClock (max id other) = max (layout.makeClock id) (layout.makeClock other) := by
  rcases le_total id other with less | less
  · rw [max_eq_right less, max_eq_right ((makeClock_le_iff bound otherBound same).mpr less)]
  · rw [max_eq_left less, max_eq_left ((makeClock_le_iff otherBound bound same.symm).mpr less)]

end Layout

namespace VectorClock

/-- Every stored id is a machine word that decodes to its own key. -/
def Decodes (layout : Layout) (clock : VectorClock) : Prop :=
  ∀ entry ∈ clock.vc.entries, entry.2 < layout.sizeRange ∧ layout.makeTid entry.2 = entry.1

/-- What can be looked up in a clock: the clock known for each thread. -/
def observed (layout : Layout) (clock : VectorClock) : ℕ → ℕ := clock.getClockByTid layout

/-- The hash maps hold the same entries, in whatever order. -/
def Same (first second : VectorClock) : Prop :=
  ∀ key, first.vc.lookup key = second.vc.lookup key

variable {layout : Layout} {clock other first second : VectorClock} {key id : ℕ}

instance : Decidable (clock.Decodes layout) :=
  inferInstanceAs (Decidable (∀ entry ∈ clock.vc.entries, _))

theorem decodes_iff : clock.Decodes layout ↔
    ∀ key id, clock.vc.lookup key = some id → id < layout.sizeRange ∧ layout.makeTid id = key := by
  constructor
  · intro decodes key id found
    exact decodes ⟨key, id⟩ (AList.mem_lookup_iff.mp found)
  · rintro decodes ⟨key, id⟩ member
    exact decodes key id (AList.mem_lookup_iff.mpr member)

theorem Decodes.word (decodes : clock.Decodes layout) (found : clock.vc.lookup key = some id) :
    id < layout.sizeRange := (decodes_iff.mp decodes key id found).1

theorem Decodes.makeTid (decodes : clock.Decodes layout) (found : clock.vc.lookup key = some id) :
    layout.makeTid id = key := (decodes_iff.mp decodes key id found).2

/-- The keys are values of `TID`, although the hash map takes any `uint32_t`. -/
theorem Decodes.mod_tidRange (decodes : clock.Decodes layout)
    (found : clock.vc.lookup key = some id) : key % layout.tidRange = key := by
  rw [← decodes.makeTid found]
  exact Nat.mod_eq_of_lt Layout.makeTid_lt

theorem Same.getIdByTid (same : first.Same second) :
    first.getIdByTid key = second.getIdByTid key := by
  unfold VectorClock.getIdByTid
  rw [same key]

theorem Same.observed (same : first.Same second) :
    first.observed layout = second.observed layout := by
  funext key
  unfold VectorClock.observed getClockByTid
  rw [same key]

theorem Same.decodes (same : first.Same second) (decodes : second.Decodes layout) :
    first.Decodes layout :=
  decodes_iff.mpr fun key id found => decodes_iff.mp decodes key id ((same key).symm.trans found)

/-! ### The clocks after a merge -/

theorem Decodes.update (decodes : clock.Decodes layout) (otherDecodes : other.Decodes layout) :
    (clock.update other).Decodes layout := by
  refine decodes_iff.mpr fun key id found => ?_
  rw [lookup_update] at found
  rcases joinEntry_eq_some found with own | taken
  · exact decodes_iff.mp decodes key id own
  · exact decodes_iff.mp otherDecodes key id taken

theorem observed_eq : clock.observed layout key = layout.makeClock (clock.getIdByTid key) := by
  unfold observed getClockByTid getIdByTid
  cases clock.vc.lookup key with
  | none => exact Layout.makeClock_zero.symm
  | some id => rfl

/-- The packed words are compared, and the clocks come out as the larger ones. -/
theorem observed_update (decodes : clock.Decodes layout) (otherDecodes : other.Decodes layout) :
    (clock.update other).observed layout = clock.observed layout ⊔ other.observed layout := by
  funext key
  rw [Pi.sup_apply, observed_eq, observed_eq, observed_eq, getIdByTid_update]
  cases own : clock.vc.lookup key with
  | none =>
    rw [getIdByTid_of_absent own, Nat.zero_max, Layout.makeClock_zero]
    exact (Nat.zero_max _).symm
  | some id =>
    cases taken : other.vc.lookup key with
    | none =>
      rw [getIdByTid_of_absent taken, Nat.max_zero, Layout.makeClock_zero]
      exact (Nat.max_zero _).symm
    | some new =>
      rw [getIdByTid_of_lookup own, getIdByTid_of_lookup taken]
      exact Layout.makeClock_max (decodes.word own) (otherDecodes.word taken)
        ((decodes.makeTid own).trans (otherDecodes.makeTid taken).symm)

/-- The entry that an iterator at a key points to. -/
def entryAt (clock : VectorClock) (key : ℕ) : Sigma fun _ : ℕ => ℕ := ⟨key, clock.getIdByTid key⟩

/-- No entry is larger than itself. -/
theorem updateStep_entryAt : clock.updateStep (clock.entryAt key) = clock := if_neg (lt_irrefl _)

theorem entryAt_of_lookup (found : clock.vc.lookup key = some id) : clock.entryAt key = ⟨key, id⟩ :=
  congrArg (Sigma.mk key) (getIdByTid_of_lookup found)

theorem map_entryAt_keys : clock.vc.keys.map clock.entryAt = clock.vc.entries := by
  unfold AList.keys List.keys
  rw [List.map_map]
  refine (List.map_congr_left ?_).trans (List.map_id _)
  rintro ⟨key, id⟩ member
  exact entryAt_of_lookup (AList.mem_lookup_iff.mpr member)

/-- An order of the keys is an order of the entries. -/
theorem perm_entries {order : List ℕ} (perm : order.Perm clock.vc.keys) :
    (order.map clock.entryAt).Perm clock.vc.entries :=
  map_entryAt_keys ▸ perm.map clock.entryAt

/-- The loop leaves the same entries in every order. -/
theorem same_update {order : List ℕ} (perm : order.Perm other.vc.keys) :
    Same ((order.map other.entryAt).foldl updateStep clock) (clock.update other) := by
  intro key
  have entries := perm_entries perm
  have nodup := (List.perm_nodupKeys entries).mpr other.vc.nodupKeys
  rw [lookup_foldl_updateStep _ nodup, lookup_update, List.perm_dlookup key nodup entries]
  rfl

end VectorClock

/-- The clocks of the program, by the place of the object. -/
abbrev ClockHeap (Place : Type) := Place → VectorClock

namespace ClockHeap

open VectorClock

variable {Place : Type} [DecidableEq Place]

/-- One round of the loop in `update`, with the iterator at a key. The key is handed on as a
`TID`. -/
def updateRound (layout : Layout) (this other : Place) (heap : ClockHeap Place) (key : ℕ) :
    Option (ClockHeap Place) :=
  match (heap other).vc.lookup key with
  | none => none
  | some id =>
    let next := Function.update heap this ((heap this).updateStep ⟨key % layout.tidRange, id⟩)
    -- An insertion into the map that is iterated invalidates the iterator.
    if (next other).vc.keys.length = (heap other).vc.keys.length then some next else none

/-- `update(VectorClock* other)` and `update(const VectorClock& other)`, called on `this`. The
order is that of the iterators of the other clock's map. -/
def update (layout : Layout) (heap : ClockHeap Place) (this other : Place) (order : List ℕ) :
    Option (ClockHeap Place) :=
  order.foldlM (updateRound layout this other) heap

/-- What a call of `update` may leave behind: a map is iterated in any order. -/
def Updates (layout : Layout) (heap : ClockHeap Place) (this other : Place)
    (next : ClockHeap Place) : Prop :=
  ∃ order : List ℕ, order.Perm (heap other).vc.keys ∧
    heap.update layout this other order = some next

variable {layout : Layout} {heap next : ClockHeap Place} {this other : Place} {key id : ℕ}

/-- A round leaves the clock alone whose map is iterated, also when it writes to the same
object. -/
theorem update_updateStep_other (heap : ClockHeap Place) (this other : Place) (key : ℕ) :
    Function.update heap this ((heap this).updateStep ((heap other).entryAt key)) other =
      heap other := by
  by_cases same : other = this
  · subst same
    rw [Function.update_self, updateStep_entryAt]
  · exact Function.update_of_ne same _ _

theorem updateRound_eq (decodes : (heap other).Decodes layout) (member : key ∈ (heap other).vc) :
    updateRound layout this other heap key =
      some (Function.update heap this ((heap this).updateStep ((heap other).entryAt key))) := by
  obtain ⟨id, found⟩ := AList.exists_lookup member
  unfold updateRound
  simp only [found, decodes.mod_tidRange found, ← entryAt_of_lookup found, update_updateStep_other,
    if_true]

/-- The loop comes to its end. Each round finds the entry as it was before the call. -/
theorem foldlM_updateRound (this : Place) (decodes : (heap other).Decodes layout) (order : List ℕ)
    (members : ∀ key ∈ order, key ∈ (heap other).vc) :
    ∃ next, order.foldlM (updateRound layout this other) heap = some next ∧
      next other = heap other ∧
      next = Function.update heap this
        ((order.map (heap other).entryAt).foldl updateStep (heap this)) := by
  induction order generalizing heap with
  | nil => exact ⟨heap, rfl, rfl, (Function.update_eq_self this heap).symm⟩
  | cons key rest inductionHypothesis =>
    have kept := update_updateStep_other heap this other key
    obtain ⟨next, ended, unchanged, same⟩ :=
      @inductionHypothesis (Function.update heap this _) (kept ▸ decodes)
        (by rw [kept]; exact fun key later => members key (List.mem_cons_of_mem _ later))
    refine ⟨next, ?_, unchanged.trans kept, ?_⟩
    · rw [List.foldlM_cons, updateRound_eq decodes (members key (List.mem_cons_self ..))]
      exact ended
    · rw [same, kept, Function.update_self, Function.update_idem, List.map_cons, List.foldl_cons]

theorem exists_update (decodes : (heap other).Decodes layout) {order : List ℕ}
    (perm : order.Perm (heap other).vc.keys) :
    ∃ next, heap.update layout this other order = some next := by
  obtain ⟨next, ended, _⟩ := foldlM_updateRound this decodes order
    fun key member => AList.mem_keys.mpr (perm.subset member)
  exact ⟨next, ended⟩

/-- What a call of `update` does: the clock of `this` becomes the merged one, and all others
stay. -/
theorem Updates.spec (updates : heap.Updates layout this other next)
    (decodes : (heap other).Decodes layout) :
    (∀ place, place ≠ this → next place = heap place) ∧ next other = heap other ∧
      (next this).Same ((heap this).update (heap other)) := by
  obtain ⟨order, perm, ended⟩ := updates
  obtain ⟨left, endedLeft, unchanged, same⟩ := foldlM_updateRound this decodes order
    fun key member => AList.mem_keys.mpr (perm.subset member)
  obtain rfl := Option.some.inj (ended.symm.trans endedLeft)
  refine ⟨fun place differs => ?_, unchanged, ?_⟩
  · rw [same, Function.update_of_ne differs]
  · rw [same, Function.update_self]
    exact same_update perm

/-- In the order of the table, the loop is the merge of the detector's model. -/
theorem update_keys (decodes : (heap other).Decodes layout) :
    heap.update layout this other (heap other).vc.keys =
      some (Function.update heap this ((heap this).update (heap other))) := by
  obtain ⟨next, ended, _, same⟩ := foldlM_updateRound this decodes (heap other).vc.keys
    fun key member => AList.mem_keys.mpr member
  rw [map_entryAt_keys] at same
  exact ended.trans (congrArg some same)

/-! ### Merging as a join -/

theorem Updates.observed (updates : heap.Updates layout this other next)
    (decodes : (heap this).Decodes layout) (otherDecodes : (heap other).Decodes layout) :
    (next this).observed layout = (heap this).observed layout ⊔ (heap other).observed layout :=
  (updates.spec otherDecodes).2.2.observed.trans (observed_update decodes otherDecodes)

theorem Updates.decodes (updates : heap.Updates layout this other next)
    (decodes : (heap this).Decodes layout) (otherDecodes : (heap other).Decodes layout) :
    (next this).Decodes layout :=
  (updates.spec otherDecodes).2.2.decodes (decodes.update otherDecodes)

theorem Updates.decodes_at (updates : heap.Updates layout this other next)
    (decodes : (heap this).Decodes layout) (otherDecodes : (heap other).Decodes layout)
    {place : Place} (placeDecodes : (heap place).Decodes layout) : (next place).Decodes layout := by
  by_cases same : place = this
  · exact same ▸ updates.decodes decodes otherDecodes
  · exact (updates.spec otherDecodes).1 place same ▸ placeDecodes

/-- A clock merged with itself does not change. -/
theorem Updates.self (updates : heap.Updates layout this this next)
    (decodes : (heap this).Decodes layout) : next = heap := by
  obtain ⟨frame, unchanged, _⟩ := updates.spec decodes
  funext place
  by_cases same : place = this
  · exact same ▸ unchanged
  · exact frame place same

/-- What can be looked up at any place after a merge. -/
theorem Updates.observed_at (updates : heap.Updates layout this other next)
    (decodes : (heap this).Decodes layout) (otherDecodes : (heap other).Decodes layout)
    (place : Place) :
    (next place).observed layout = if place = this
      then (heap this).observed layout ⊔ (heap other).observed layout
      else (heap place).observed layout := by
  split
  · next same => exact same ▸ updates.observed decodes otherDecodes
  · next differs => rw [(updates.spec otherDecodes).1 place differs]

/-- Merging a second clock into the result of a merge, also if it is the same object. -/
theorem Updates.observed_left {third : Place} {left : ClockHeap Place}
    (updates : heap.Updates layout this other next) (later : next.Updates layout this third left)
    (decodes : (heap this).Decodes layout) (otherDecodes : (heap other).Decodes layout)
    (thirdDecodes : (heap third).Decodes layout) :
    (left this).observed layout = (heap this).observed layout ⊔ (heap other).observed layout ⊔
      (heap third).observed layout := by
  rw [later.observed (updates.decodes decodes otherDecodes)
    (updates.decodes_at decodes otherDecodes thirdDecodes),
    updates.observed decodes otherDecodes, updates.observed_at decodes otherDecodes]
  split
  · next same => rw [same, sup_idem, sup_right_comm, sup_idem]
  · rfl

/-- Merging the result of a merge, also into one of its objects. -/
theorem Updates.observed_right {third : Place} {right : ClockHeap Place}
    (updates : heap.Updates layout other third next) (later : next.Updates layout this other right)
    (decodes : (heap this).Decodes layout) (otherDecodes : (heap other).Decodes layout)
    (thirdDecodes : (heap third).Decodes layout) :
    (right this).observed layout = (heap this).observed layout ⊔ ((heap other).observed layout ⊔
      (heap third).observed layout) := by
  rw [later.observed (updates.decodes_at otherDecodes thirdDecodes decodes)
    (updates.decodes otherDecodes thirdDecodes),
    updates.observed otherDecodes thirdDecodes, updates.observed_at otherDecodes thirdDecodes]
  split
  · next same => rw [same, sup_idem, ← sup_assoc, sup_idem]
  · rfl

/-- If every stored id decodes to its own key, then `update` merges two clocks in every order in
which the map can be iterated, and also if two of the objects are one. It comes to its end; the ids
and the clocks looked up are the larger ones; the ids still decode; the object that is read and all
others stay as they are; and the result is the least clock above both. So merging is commutative,
associative and idempotent on the clocks that can be looked up. -/
theorem merging_is_join {a b c : Place} (decodesA : (heap a).Decodes layout)
    (decodesB : (heap b).Decodes layout) (decodesC : (heap c).Decodes layout) :
    (∀ order : List ℕ, order.Perm (heap b).vc.keys →
      ∃ next, heap.update layout a b order = some next) ∧
    (∀ next, heap.Updates layout a b next →
      (∀ key, (next a).getIdByTid key =
        max ((heap a).getIdByTid key) ((heap b).getIdByTid key)) ∧
      (∀ key, (next a).getClockByTid layout key =
        max ((heap a).getClockByTid layout key) ((heap b).getClockByTid layout key)) ∧
      (next a).Decodes layout ∧ next b = heap b ∧ (∀ place, place ≠ a → next place = heap place) ∧
      IsLUB {(heap a).observed layout, (heap b).observed layout} ((next a).observed layout)) ∧
    (∀ next mirror, heap.Updates layout a b next → heap.Updates layout b a mirror →
      (next a).observed layout = (mirror b).observed layout) ∧
    (∀ first left second right, heap.Updates layout a b first → first.Updates layout a c left →
      heap.Updates layout b c second → second.Updates layout a b right →
      (left a).observed layout = (right a).observed layout) ∧
    (∀ next, heap.Updates layout a a next → next = heap) ∧
    ∀ next again, heap.Updates layout a b next → next.Updates layout a b again →
      (again a).observed layout = (next a).observed layout := by
  refine ⟨fun order perm => exists_update decodesB perm, fun next updates => ?_,
    fun next mirror forth back => ?_, fun first left second right toA thenC toB thenB => ?_,
    fun next updates => updates.self decodesA, fun next again once twice => ?_⟩
  · obtain ⟨frame, unchanged, same⟩ := updates.spec decodesB
    have joined := updates.observed decodesA decodesB
    refine ⟨fun key => same.getIdByTid.trans getIdByTid_update, fun key => congrFun joined key,
      updates.decodes decodesA decodesB, unchanged, frame, ?_⟩
    rw [joined]
    exact isLUB_pair
  · rw [forth.observed decodesA decodesB, back.observed decodesB decodesA, sup_comm]
  · rw [toA.observed_left thenC decodesA decodesB decodesC,
      toB.observed_right thenB decodesA decodesB decodesC, sup_assoc]
  · rw [once.observed_left twice decodesA decodesB decodesB, once.observed decodesA decodesB,
      sup_assoc, sup_idem]

theorem merging_is_join_read :
    let heap : ClockHeap (Fin 3) := ![⟨(∅ : AList fun _ : ℕ => ℕ).insert 1 0x100000005⟩,
      ⟨((∅ : AList fun _ : ℕ => ℕ).insert 1 0x100000002).insert 2 0x200000001⟩, {}]
    ∃ next, heap.update .x64 0 1 [1, 2] = some next ∧ (next 0).getClockByTid .x64 1 = 5 ∧
      (next 0).getClockByTid .x64 2 = 1 ∧ next 1 = heap 1 := by
  intro heap
  have perm : [1, 2].Perm (heap 1).vc.keys := by decide
  obtain ⟨ends, joins, -⟩ :=
    @merging_is_join (Fin 3) _ .x64 heap 0 1 2 (by decide) (by decide) (by decide)
  obtain ⟨next, ended⟩ := ends [1, 2] perm
  obtain ⟨-, clocks, -, unchanged, -⟩ := joins next ⟨[1, 2], perm, ended⟩
  exact ⟨next, ended, (clocks 1).trans (by decide), (clocks 2).trans (by decide), unchanged⟩

end ClockHeap

/-! ### The clocks of the detector -/

open Clocks

variable {layout : Layout} {past : List Step} {ft next : Fasttrack} {event : Event}
  {output : Output} {clocks : Clocks} {clock : VectorClock} {carrier : Carrier} {tid tls id : ℕ}

theorem Clocks.Known.decodes (known : clocks.Known layout clock)
    (wellFormed : clocks.WellFormed layout) : clock.Decodes layout := by
  refine VectorClock.decodes_iff.mpr fun key id found => ?_
  obtain ⟨current, _, currentId, decodes, below, _⟩ := known key id found
  exact ⟨below.trans_lt (wellFormed.encodes key current currentId).1, decodes⟩

/-- In every run, the ids in the clocks of the detector decode to their keys. -/
theorem Reaches.decodes (reaches : Reaches layout past ft) (room : RoomAlong layout past)
    (carrier : Carrier) : (ft.clocks.clockOrNew carrier).Decodes layout :=
  ((reaches.wellFormed room).clockOrNew carrier).decodes (reaches.wellFormed room)

/-- A thread that takes over a clock makes a call of `update` on the objects of the detector. -/
theorem Clocks.updates_setThread (decodes : (clocks.clockOrNew carrier).Decodes layout)
    (holds : clocks.Holds tid clock id) :
    ClockHeap.Updates layout clocks.clockOrNew (.thread tid) carrier
      (clocks.setThread tid (clock.update (clocks.clockOrNew carrier)) id).clockOrNew := by
  have own := clockOrNew_of_holds holds
  refine ⟨_, List.Perm.refl _, (ClockHeap.update_keys decodes).trans (congrArg some ?_)⟩
  funext other
  by_cases same : other = .thread tid
  · rw [same, Function.update_self, own, clockOrNew_setThread_self]
  · rw [Function.update_of_ne same, clockOrNew_setThread_of_ne same]

/-- Creating a mutex or identifier changes no clock. -/
theorem Clocks.clockOrNew_setClock_same (clocks : Clocks) (carrier : Carrier) :
    (clocks.setClock carrier (clocks.clockOrNew carrier)).clockOrNew = clocks.clockOrNew := by
  funext other
  by_cases same : other = carrier
  · rw [same, clockOrNew_setClock_self]
  · exact clockOrNew_setClock_of_ne same

/-- The thread of an event that takes over a clock, and where that clock is kept. -/
def Event.merges? : Event → Option (ℕ × Carrier)
  | .acquire tls mutex recursive _ => if 1 < recursive then none else some (tls, .mutex mutex)
  | .happensAfter tls identifier => some (tls, .identifier identifier)
  | _ => none

theorem Event.not_keepsClocks (merges : event.merges? = some (tls, carrier)) :
    ¬ event.keepsClocks := by
  cases event with
  | acquire | happensAfter => exact Bool.false_ne_true
  | _ => cases merges

theorem ClockStep.updates {before after : Clocks} (step : ClockStep layout before event after)
    (wellFormed : before.WellFormed layout) (merges : event.merges? = some (tls, carrier)) :
    ClockHeap.Updates layout before.clockOrNew (.thread tls) carrier after.clockOrNew := by
  have decodes := fun carrier => (wellFormed.clockOrNew carrier).decodes wellFormed
  cases step with
  | keep keeps => exact absurd keeps (Event.not_keepsClocks merges)
  | acquireRecursive inner => simp [Event.merges?, inner] at merges
  | @acquire tls mutex id recursive write clock outer holds =>
    simp only [Event.merges?, outer, if_false, Option.some.injEq, Prod.mk.injEq] at merges
    obtain ⟨rfl, rfl⟩ := merges
    have same := clockOrNew_setClock_same before (.mutex mutex)
    have updates := updates_setThread (same ▸ decodes (.mutex mutex)) (holds.setClock (by simp))
    rwa [same] at updates
  | @happensAfterUnknown tls identifier unknown =>
    obtain ⟨rfl, rfl⟩ := Prod.mk.inj (Option.some.inj merges)
    have empty := clockOrNew_of_none unknown
    refine ⟨[], by rw [empty]; exact List.Perm.refl _, ?_⟩
    rw [← empty, clockOrNew_setClock_same]
    rfl
  | @happensAfter tls identifier id clock state known holds =>
    obtain ⟨rfl, rfl⟩ := Prod.mk.inj (Option.some.inj merges)
    exact clockOrNew_of_some known ▸ updates_setThread (decodes (.identifier identifier)) holds
  | _ => cases merges

/-- In every run, a thread that acquires a mutex or waits for an identifier knows afterwards the
join of what both have known, and all other clocks stay as they are. -/
theorem Reaches.merge_joins (reaches : Reaches layout past ft) (room : RoomAlong layout past)
    (now : ft.clocks.Room layout) (defined : ft.call layout event = some (next, output))
    (merges : event.merges? = some (tls, carrier)) :
    IsLUB {(ft.clocks.clockOrNew (.thread tls)).observed layout,
        (ft.clocks.clockOrNew carrier).observed layout}
      ((next.clocks.clockOrNew (.thread tls)).observed layout) ∧
    ∀ other, other ≠ .thread tls → next.clocks.clockOrNew other = ft.clocks.clockOrNew other := by
  have wellFormed := reaches.wellFormed room
  have updates := (Fasttrack.call_clockStep wellFormed now defined).updates wellFormed merges
  refine ⟨?_, (updates.spec (reaches.decodes room carrier)).1⟩
  rw [updates.observed (reaches.decodes room _) (reaches.decodes room carrier)]
  exact isLUB_pair

end Drace
