/-
This file models the vector clocks of the Fasttrack detector.

A clock entry is an id: one machine word with the thread id in its upper half
and the clock value in its lower half. The word sizes depend on the platform the
detector is compiled for, so every conversion takes the layout. The hash map of
a clock is an association table whose order of entries is the iteration order,
and merging is the source's loop over it.
-/

import Mathlib
import Drace.Table

namespace Drace

/-- The platform the detector is compiled for: `COMPILE_X86` or a 64 bit target. -/
inductive Layout
  | x86
  | x64
  deriving DecidableEq

namespace Layout

/-- `VectorClock::multplier`. -/
def multplier : Layout → ℕ
  | x86 => 0x10000
  | x64 => 0x100000000

/-- The number of values of `VectorClock::TID`. -/
def tidRange : Layout → ℕ
  | x86 => 0x10000
  | x64 => 0x100000000

/-- The number of values of `VectorClock::Clock`. -/
def clockRange : Layout → ℕ
  | x86 => 0x10000
  | x64 => 0x100000000

/-- The number of values of `size_t`, which is also `VectorClock::VC_ID`. -/
def sizeRange : Layout → ℕ
  | x86 => 0x100000000
  | x64 => 0x10000000000000000

variable (layout : Layout)

theorem multplier_pos : 0 < layout.multplier := by cases layout <;> decide

theorem tidRange_eq : layout.tidRange = layout.multplier := by cases layout <;> rfl

theorem clockRange_eq : layout.clockRange = layout.multplier := by cases layout <;> rfl

theorem sizeRange_eq : layout.sizeRange = layout.multplier * layout.multplier := by
  cases layout <;> rfl

/-- Every thread id fits the `uint32_t` that `cleanup` and `report_race` take. -/
theorem tidRange_dvd : layout.tidRange ∣ 0x100000000 := by cases layout <;> decide

/-- Returns the tid of the id. -/
def makeTid (id : ℕ) : ℕ := id / layout.multplier % layout.tidRange

/-- Returns the clock of the id. -/
def makeClock (id : ℕ) : ℕ := id % layout.multplier % layout.clockRange

/-- Creates an id with clock 0 from a tid. -/
def makeId (tid : ℕ) : ℕ := tid * layout.multplier % layout.sizeRange

variable {layout} {tid id other : ℕ}

theorem makeClock_eq : layout.makeClock id = id % layout.multplier := by
  rw [makeClock, clockRange_eq, Nat.mod_mod]

theorem makeTid_lt : layout.makeTid id < layout.tidRange :=
  Nat.mod_lt _ (by rw [tidRange_eq]; exact layout.multplier_pos)

theorem makeTid_eq (bound : id < layout.sizeRange) : layout.makeTid id = id / layout.multplier := by
  rw [makeTid, tidRange_eq]
  rw [sizeRange_eq] at bound
  exact Nat.mod_eq_of_lt (Nat.div_lt_of_lt_mul bound)

theorem makeId_eq (bound : tid < layout.tidRange) :
    layout.makeId tid = tid * layout.multplier := by
  rw [tidRange_eq] at bound
  rw [makeId, sizeRange_eq]
  exact Nat.mod_eq_of_lt ((Nat.mul_lt_mul_right layout.multplier_pos).mpr bound)

@[simp]
theorem makeTid_zero : layout.makeTid 0 = 0 := by simp [makeTid]

@[simp]
theorem makeClock_zero : layout.makeClock 0 = 0 := by simp [makeClock]

/-- An id is its tid and its clock. -/
theorem id_eq (bound : id < layout.sizeRange) :
    id = layout.makeTid id * layout.multplier + layout.makeClock id := by
  rw [makeTid_eq bound, makeClock_eq, Nat.div_add_mod']

theorem makeTid_makeId (bound : tid < layout.tidRange) :
    layout.makeTid (layout.makeId tid) = tid := by
  rw [makeId_eq bound, makeTid, Nat.mul_div_cancel _ layout.multplier_pos, Nat.mod_eq_of_lt bound]

theorem makeId_lt : layout.makeId tid < layout.sizeRange :=
  Nat.mod_lt _ (by rw [sizeRange_eq]; exact Nat.mul_pos layout.multplier_pos layout.multplier_pos)

/-- Below the clock maximum, counting an id up leaves its tid and counts its clock up. -/
theorem succ_id (bound : id < layout.sizeRange)
    (room : layout.makeClock id + 1 < layout.clockRange) :
    (id + 1) % layout.sizeRange = id + 1 ∧ id + 1 < layout.sizeRange ∧
      layout.makeTid (id + 1) = layout.makeTid id ∧
      layout.makeClock (id + 1) = layout.makeClock id + 1 := by
  have positive := layout.multplier_pos
  rw [clockRange_eq, makeClock_eq] at room
  have quotient : (id + 1) / layout.multplier = id / layout.multplier := by
    rw [Nat.succ_div, if_neg, Nat.add_zero]
    intro divides
    have zero := Nat.mod_eq_zero_of_dvd divides
    rw [Nat.add_mod, Nat.mod_eq_of_lt (show 1 < layout.multplier by omega),
      Nat.mod_eq_of_lt room] at zero
    omega
  have remainder : (id + 1) % layout.multplier = id % layout.multplier + 1 := by
    rw [Nat.add_mod, Nat.mod_eq_of_lt (show 1 < layout.multplier by omega), Nat.mod_eq_of_lt room]
  have next : id + 1 < layout.sizeRange := by
    rw [sizeRange_eq] at bound ⊢
    rw [← Nat.div_lt_iff_lt_mul positive] at bound ⊢
    rwa [quotient]
  refine ⟨Nat.mod_eq_of_lt next, next, ?_, ?_⟩
  · rw [makeTid, makeTid, quotient]
  · rw [makeClock_eq, makeClock_eq, remainder]

/-- Ids of one thread are ordered as their clocks. -/
theorem makeClock_le_iff (bound : id < layout.sizeRange) (otherBound : other < layout.sizeRange)
    (same : layout.makeTid id = layout.makeTid other) :
    layout.makeClock id ≤ layout.makeClock other ↔ id ≤ other := by
  have idParts := id_eq bound
  have otherParts := id_eq otherBound
  rw [same] at idParts
  constructor <;> intro ordered <;> omega

end Layout

/-- A vector clock: the id known for each thread. -/
structure VectorClock where
  vc : AList fun _ : ℕ => ℕ := ∅

namespace VectorClock

/-- Returns the whole id known for the tid, 0 if the clock does not hold the tid. -/
def getIdByTid (clock : VectorClock) (tid : ℕ) : ℕ :=
  match clock.vc.lookup tid with
  | some id => id
  | none => 0

/-- Returns the clock known for the tid, 0 if the clock does not hold the tid. -/
def getClockByTid (layout : Layout) (clock : VectorClock) (tid : ℕ) : ℕ :=
  match clock.vc.lookup tid with
  | some id => layout.makeClock id
  | none => 0

/-- `update(TID tid, VC_ID id)`: raises the entry of the tid, or creates it. -/
def updateEntry (clock : VectorClock) (tid id : ℕ) : VectorClock :=
  match clock.vc.lookup tid with
  | none => ⟨clock.vc.insert tid id⟩
  | some old => if old < id then ⟨clock.vc.insert tid id⟩ else clock

/-- One round of the loop in `update`. -/
def updateStep (clock : VectorClock) (entry : Sigma fun _ : ℕ => ℕ) : VectorClock :=
  if clock.getIdByTid entry.1 < entry.2 then clock.updateEntry entry.1 entry.2 else clock

/-- `update(const VectorClock& other)`: takes over the larger values of the other clock. -/
def update (clock other : VectorClock) : VectorClock :=
  other.vc.entries.foldl updateStep clock

/-- Deletes the entry of the tid. -/
def deleteVc (clock : VectorClock) (tid : ℕ) : VectorClock := ⟨clock.vc.erase tid⟩

variable {layout : Layout} {clock other : VectorClock} {tid key id : ℕ}

theorem getIdByTid_of_lookup (found : clock.vc.lookup tid = some id) :
    clock.getIdByTid tid = id := by simp [getIdByTid, found]

theorem getIdByTid_of_absent (absent : clock.vc.lookup tid = none) :
    clock.getIdByTid tid = 0 := by simp [getIdByTid, absent]

@[simp]
theorem getIdByTid_empty : ({} : VectorClock).getIdByTid tid = 0 := rfl

/-! ### Merging is the pointwise maximum -/

/-- The value of one key after merging: the larger entry, and no new entry for the value 0. -/
def joinEntry : Option ℕ → Option ℕ → Option ℕ
  | some first, some second => some (max first second)
  | some first, none => some first
  | none, some second => if 0 < second then some second else none
  | none, none => none

theorem joinEntry_none (entry : Option ℕ) : joinEntry entry none = entry := by
  cases entry <;> rfl

theorem joinEntry_eq_some {first second : Option ℕ} (joined : joinEntry first second = some id) :
    first = some id ∨ second = some id := by
  cases first <;> cases second <;> simp only [joinEntry, reduceCtorEq,
    Option.some.injEq] at joined ⊢
  · split at joined <;> simp_all
  · simp [joined]
  · omega

theorem lookup_updateEntry :
    (clock.updateEntry tid id).vc.lookup key =
      if key = tid then some (max (clock.getIdByTid tid) id) else clock.vc.lookup key := by
  unfold updateEntry
  cases found : clock.vc.lookup tid with
  | none =>
    rw [AList.lookup_insert_eq_ite]
    simp [getIdByTid, found]
  | some old =>
    rw [getIdByTid_of_lookup found]
    by_cases less : old < id
    · simp only [if_pos less]
      rw [AList.lookup_insert_eq_ite, max_eq_right less.le]
    · simp only [if_neg less]
      rw [max_eq_left (not_lt.mp less)]
      split
      · next same => rw [same, found]
      · rfl

theorem lookup_updateStep (entry : Sigma fun _ : ℕ => ℕ) :
    (clock.updateStep entry).vc.lookup key =
      if key = entry.1 then joinEntry (clock.vc.lookup key) (some entry.2)
      else clock.vc.lookup key := by
  unfold updateStep
  by_cases same : key = entry.1
  · subst same
    rw [if_pos rfl]
    cases found : clock.vc.lookup entry.1 with
    | none =>
      have unknown := getIdByTid_of_absent found
      rw [unknown]
      split
      · next positive => simp [lookup_updateEntry, unknown, joinEntry, positive]
      · next zero => simp [found, joinEntry, zero]
    | some old =>
      rw [getIdByTid_of_lookup found]
      split
      · next less =>
        rw [lookup_updateEntry, if_pos rfl, getIdByTid_of_lookup found]
        rfl
      · next notLess => rw [found, joinEntry, max_eq_left (not_lt.mp notLess)]
  · rw [if_neg same]
    split
    · rw [lookup_updateEntry, if_neg same]
    · rfl

/-- The loop over the entries, in whatever order they come, joins them key by key. -/
theorem lookup_foldl_updateStep (entries : List (Sigma fun _ : ℕ => ℕ)) (nodup : entries.NodupKeys)
    (clock : VectorClock) :
    (entries.foldl updateStep clock).vc.lookup key =
      joinEntry (clock.vc.lookup key) (entries.dlookup key) := by
  induction entries generalizing clock with
  | nil => rw [List.foldl_nil, List.dlookup_nil, joinEntry_none]
  | cons entry rest inductionHypothesis =>
    obtain ⟨fresh, nodupRest⟩ := List.nodupKeys_cons.mp nodup
    rw [List.foldl_cons, inductionHypothesis nodupRest, lookup_updateStep]
    by_cases same : key = entry.1
    · subst same
      rw [if_pos rfl, List.dlookup_eq_none.mpr fresh, joinEntry_none]
      exact congrArg _ (List.dlookup_cons_eq rest entry.1 entry.2).symm
    · rw [if_neg same, List.dlookup_cons_ne rest entry same]

theorem lookup_update :
    (clock.update other).vc.lookup key = joinEntry (clock.vc.lookup key) (other.vc.lookup key) :=
  lookup_foldl_updateStep other.vc.entries other.vc.nodupKeys clock

@[simp]
theorem getIdByTid_update :
    (clock.update other).getIdByTid key = max (clock.getIdByTid key) (other.getIdByTid key) := by
  unfold getIdByTid
  rw [lookup_update]
  cases clock.vc.lookup key <;> cases other.vc.lookup key <;> simp only [joinEntry]
  · rfl
  · split <;> simp_all
  · simp

theorem getIdByTid_le_update : clock.getIdByTid key ≤ (clock.update other).getIdByTid key :=
  getIdByTid_update ▸ le_max_left _ _

theorem getIdByTid_other_le_update :
    other.getIdByTid key ≤ (clock.update other).getIdByTid key :=
  getIdByTid_update ▸ le_max_right _ _

theorem getIdByTid_updateEntry :
    (clock.updateEntry tid id).getIdByTid key =
      if key = tid then max (clock.getIdByTid tid) id else clock.getIdByTid key := by
  by_cases same : key = tid
  · rw [if_pos same, getIdByTid_of_lookup (by rw [lookup_updateEntry, if_pos same])]
  · simp only [getIdByTid, lookup_updateEntry, if_neg same]

theorem getIdByTid_insert :
    (VectorClock.mk (clock.vc.insert tid id)).getIdByTid key =
      if key = tid then id else clock.getIdByTid key := by
  by_cases same : key = tid
  · rw [if_pos same, getIdByTid_of_lookup (by rw [AList.lookup_insert_eq_ite, if_pos same])]
  · simp only [getIdByTid, AList.lookup_insert_eq_ite, if_neg same]

theorem getIdByTid_deleteVc :
    (clock.deleteVc tid).getIdByTid key = if key = tid then 0 else clock.getIdByTid key := by
  by_cases same : key = tid
  · simp only [getIdByTid, deleteVc, AList.lookup_erase_eq_ite, if_pos same]
  · simp only [getIdByTid, deleteVc, AList.lookup_erase_eq_ite, if_neg same]

end VectorClock

end Drace
