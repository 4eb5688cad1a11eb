/-
This file shows that two reads of an address by different threads can be made in
either order.

The two orders take different branches: who reads first is recorded as the
exclusive reader, and the second reader makes the read shared. They leave the same
epochs, in the shared list in another order, and neither read changes whether the
other one is of an epoch that is recorded already. All this needs that no id of a
reader is 0 while the read is exclusive, unless it is the other thread that has
read. Where this fails, the two orders always leave different states: the test for
a recorded epoch takes the id 0 for the value of no read, which the race checks
rule out.
-/

import Drace.Access

namespace Drace

/-- Two states of an address that are the same up to the order of the shared list. -/
structure VarState.Similar (first second : VarState) : Prop where
  wId : first.wId = second.wId
  rId : first.rId = second.rId
  size : first.size = second.size
  shared : Option.Rel List.Perm first.sharedVc second.sharedVc

/-- The ids of two reading threads can be told from the value 0: an id that is 0 is not confused
with a recorded read, since the read is shared or of the other thread. -/
def VarState.TellsApart (layout : Layout) (var : VarState) (first second : ThreadState) : Prop :=
  (first.id = varNotInit → var.isReadShared ∨ var.getRTid layout = second.getTid layout) ∧
    (second.id = varNotInit → var.isReadShared ∨ var.getRTid layout = first.getTid layout)

instance (layout : Layout) (var : VarState) (first second : ThreadState) :
    Decidable (var.TellsApart layout first second) :=
      inferInstanceAs (Decidable ((_ → _) ∧ (_ → _)))

namespace VarState

variable {layout : Layout} {var : VarState} {thread first second : ThreadState} {vec : List ℕ}

theorem Similar.refl (var : VarState) : var.Similar var := by
  refine ⟨rfl, rfl, rfl, ?_⟩
  cases var.sharedVc with
  | none => exact .none
  | some vec => exact .some (List.Perm.refl vec)

theorem Similar.refl_option (var : Option VarState) : Option.Rel Similar var var := by
  cases var with
  | none => exact .none
  | some var => exact .some (.refl var)

theorem Similar.symm {other : VarState} (similar : var.Similar other) : other.Similar var := by
  have flip : ∀ {vecs others : Option (List ℕ)}, Option.Rel List.Perm vecs others →
      Option.Rel List.Perm others vecs := by
    rintro _ _ (same | _)
    · exact .some same.symm
    · exact .none
  exact ⟨similar.wId.symm, similar.rId.symm, similar.size.symm, flip similar.shared⟩

theorem Similar.isReadShared_eq {var other : Option VarState}
    (similar : Option.Rel Similar var other) : var.map isReadShared = other.map isReadShared := by
  rcases similar with same | _
  · have shared : ∀ {vecs others : Option (List ℕ)}, Option.Rel List.Perm vecs others →
        vecs.isSome = others.isSome := by
      rintro _ _ (_ | _) <;> rfl
    exact congrArg some (shared same.shared)
  · rfl

theorem Similar.length_sharedIds {other : VarState} (similar : var.Similar other) :
    var.sharedIds.length = other.sharedIds.length := by
  have lengths : ∀ {vecs others : Option (List ℕ)}, Option.Rel List.Perm vecs others →
      (vecs.getD []).length = (others.getD []).length := by
    rintro _ _ (same | _)
    · exact same.length_eq
    · rfl
  exact lengths similar.shared

theorem Similar.ofShared {vec other : List ℕ} (same : vec.Perm other) (var : VarState) :
    ({ var with sharedVc := some vec } : VarState).Similar { var with sharedVc := some other } :=
  ⟨rfl, rfl, rfl, .some same⟩

/-! ### The branches of a read -/

theorem sameEpoch_exclusive (exclusive : var.sharedVc = none) :
    var.SameEpoch layout false thread ↔ thread.id = var.rId := by
  simp [SameEpoch, isReadShared, exclusive]

theorem sameEpoch_shared (tidy : var.Tidy layout) (shared : var.sharedVc = some vec) :
    var.SameEpoch layout false thread ↔ thread.id = varNotInit ∨
      (vec.find? fun id => layout.makeTid id = thread.getTid layout).getD 0 = thread.id := by
  have isShared : var.isReadShared := by simp [isReadShared, shared]
  rw [SameEpoch, tidy.exclusive isShared, getVcByThr, findInVec, sharedIds, shared]
  exact or_congr_right (and_iff_right isShared)

/-- The first read of an exclusively read address by another thread. -/
theorem after_becomes (becomes : var.BecomesShared layout thread) (differs : thread.id ≠ var.rId) :
    var.after layout false thread =
      { var with sharedVc := some [var.rId, thread.id], rId := varNotInit } := by
  have exclusive : var.sharedVc = none := by simpa [isReadShared] using becomes.1
  rw [after, if_neg (mt (sameEpoch_exclusive exclusive).mp differs)]
  exact if_pos becomes

/-- A read of an address that nobody or the same thread has read. -/
theorem after_stays (exclusive : var.sharedVc = none) (stays : ¬ var.BecomesShared layout thread)
    (differs : thread.id ≠ var.rId) :
    var.after layout false thread = { var with rId := thread.id } := by
  rw [after, if_neg (mt (sameEpoch_exclusive exclusive).mp differs)]
  simp only [if_neg stays, update, exclusive, Bool.false_eq_true, if_false]

theorem after_shared (shared : var.sharedVc = some vec)
    (differs : ¬ var.SameEpoch layout false thread) :
    var.after layout false thread = { var with
      sharedVc := some ((vec.eraseP fun id => layout.makeTid id = thread.getTid layout) ++
        [thread.id]) } := by
  have stays : ¬ var.BecomesShared layout thread :=
    fun becomes => becomes.1 (by simp [isReadShared, shared])
  rw [after, if_neg differs]
  simp only [if_neg stays, update, shared, Bool.false_eq_true, if_false]
  rfl

theorem after_same (same : var.SameEpoch layout false thread) :
    var.after layout false thread = var :=
  if_pos same

theorem TellsApart.symm (apart : var.TellsApart layout first second) :
    var.TellsApart layout second first := ⟨apart.2, apart.1⟩

/-! ### Reads of different threads -/

theorem find?_eraseP_of_disjoint {p q : ℕ → Bool} (disjoint : ∀ id, p id → ¬ q id) (ids : List ℕ) :
    (ids.eraseP p).find? q = ids.find? q := by
  induction ids with
  | nil => rfl
  | cons id rest inductionHypothesis =>
    by_cases erased : p id
    · rw [List.eraseP_cons_of_pos erased, List.find?_cons_of_neg (disjoint id erased)]
    · rw [List.eraseP_cons_of_neg erased]
      by_cases found : q id
      · rw [List.find?_cons_of_pos found, List.find?_cons_of_pos found]
      · rw [List.find?_cons_of_neg found, List.find?_cons_of_neg found, inductionHypothesis]

theorem eraseP_concat_of_neg {p : ℕ → Bool} {ids : List ℕ} {id : ℕ} (kept : ¬ p id) :
    (ids ++ [id]).eraseP p = ids.eraseP p ++ [id] := by
  by_cases any : ∃ other ∈ ids, p other
  · obtain ⟨other, member, erased⟩ := any
    exact List.eraseP_append_left erased _ member
  · have none : ∀ other ∈ ids, ¬ p other := fun other member erased => any ⟨other, member, erased⟩
    rw [List.eraseP_append_right _ none, List.eraseP_cons_of_neg kept, List.eraseP_nil,
      List.eraseP_of_forall_not none]

/-- Nothing is replaced if neither of two entries is of the thread. -/
theorem eraseP_pair_of_neg {id other tid : ℕ} (differs : layout.makeTid id ≠ tid)
    (otherDiffers : layout.makeTid other ≠ tid) :
    [id, other].eraseP (fun entry => layout.makeTid entry = tid) = [id, other] := by
  rw [List.eraseP_cons_of_neg (by simpa using differs),
    List.eraseP_cons_of_neg (by simpa using otherDiffers), List.eraseP_nil]

section Reads

variable (tidy : var.Tidy layout) (differs : first.getTid layout ≠ second.getTid layout)
  (apart : var.TellsApart layout first second)

include differs apart

/-- An id is not 0 if nobody has read the address, or the reader itself. -/
theorem TellsApart.id_ne_varNotInit (exclusive : var.sharedVc = none)
    (own : var.rId = varNotInit ∨ var.getRTid layout = first.getTid layout) :
    first.id ≠ varNotInit := by
  intro zero
  have notShared : ¬ var.isReadShared := by simp [isReadShared, exclusive]
  have other := (apart.1 zero).resolve_left notShared
  rcases own with none | same
  · refine differs ?_
    rw [← other, getRTid, none, ThreadState.getTid, zero]
  · exact differs (same.symm.trans other)

include tidy

/-- The read of one thread does not change whether that of another is of a recorded epoch. -/
theorem sameEpoch_after : (var.after layout false first).SameEpoch layout false second ↔
    var.SameEpoch layout false second := by
  by_cases same : var.SameEpoch layout false first
  · rw [after_same same]
  have notOwn : layout.makeTid first.id ≠ second.getTid layout := differs
  cases shared : var.sharedVc with
  | some vec =>
    have after := after_shared shared same
    have tidyAfter : (var.after layout false first).Tidy layout := tidy.after
    rw [after] at tidyAfter ⊢
    rw [sameEpoch_shared tidyAfter rfl, sameEpoch_shared tidy shared, List.find?_append,
      find?_eraseP_of_disjoint (fun id own other => ?_),
        List.find?_cons_of_neg (by simpa using notOwn)]
    · simp
    · simp only [decide_eq_true_eq] at own other
      exact differs (own.symm.trans other)
  | none =>
    have differsId : first.id ≠ var.rId := mt (sameEpoch_exclusive shared).mpr same
    rw [sameEpoch_exclusive shared]
    by_cases becomes : var.BecomesShared layout first
    · have after := after_becomes becomes differsId
      have tidyAfter : (var.after layout false first).Tidy layout := tidy.after
      rw [after] at tidyAfter ⊢
      have notZero : second.id ≠ varNotInit := fun zero =>
        (apart.2 zero).elim becomes.1 becomes.2.2
      rw [sameEpoch_shared tidyAfter rfl, or_iff_right notZero]
      by_cases recorded : layout.makeTid var.rId = second.getTid layout
      · rw [List.find?_cons_of_pos (by simpa using recorded)]
        exact eq_comm
      · rw [List.find?_cons_of_neg (by simpa using recorded),
          List.find?_cons_of_neg (by simpa using notOwn)]
        exact iff_of_false (Ne.symm notZero) fun same =>
          recorded (congrArg layout.makeTid same.symm)
    · have still : ({ var with rId := first.id } : VarState).sharedVc = none := shared
      rw [after_stays shared becomes differsId, sameEpoch_exclusive still]
      refine iff_of_false (fun same => differs (congrArg layout.makeTid same.symm)) fun same => ?_
      have sameTid : second.getTid layout = var.getRTid layout := congrArg layout.makeTid same
      have notShared : ¬ var.isReadShared := by simp [isReadShared, shared]
      by_cases none : var.rId = varNotInit
      · exact differs ((sameTid.trans ((apart.2 (same.trans none)).resolve_left notShared)).symm)
      · refine becomes ⟨notShared, none, fun own => differs ?_⟩
        exact own.symm.trans sameTid.symm

/-- When the thread that has read the address reads it again, and another thread reads it too, both
orders leave one epoch of each. -/
theorem similar_of_own (exclusive : var.sharedVc = none) (own : ¬ var.BecomesShared layout first)
    (becomes : var.BecomesShared layout second) (firstDiffers : first.id ≠ var.rId)
    (secondDiffers : second.id ≠ var.rId) :
    ((var.after layout false first).after layout false second).Similar
      ((var.after layout false second).after layout false first) := by
  have ownTid : var.getRTid layout = first.getTid layout := by
    by_contra other
    exact own ⟨becomes.1, becomes.2.1, other⟩
  have notZero := apart.id_ne_varNotInit differs exclusive (Or.inr ownTid)
  have later : ({ var with rId := first.id } : VarState).BecomesShared layout second :=
    ⟨becomes.1, notZero, differs⟩
  have still := (sameEpoch_after tidy differs.symm apart.symm).not.mpr
    (mt (sameEpoch_exclusive exclusive).mp firstDiffers)
  have named : layout.makeTid var.rId = first.getTid layout := ownTid
  rw [after_becomes becomes secondDiffers] at still ⊢
  rw [after_stays exclusive own firstDiffers,
    after_becomes later fun same => differs (congrArg layout.makeTid same.symm),
      after_shared rfl still, List.eraseP_cons_of_pos (by simpa using named)]
  exact ⟨rfl, rfl, rfl, .some (List.Perm.swap _ _ _)⟩

/-- Two reads of different threads leave the same epochs in either order. -/
theorem similar_after : ((var.after layout false first).after layout false second).Similar
    ((var.after layout false second).after layout false first) := by
  have notOwn : layout.makeTid first.id ≠ second.getTid layout := differs
  have otherNotOwn : layout.makeTid second.id ≠ first.getTid layout := differs.symm
  have firstKept := sameEpoch_after tidy differs apart
  have secondKept := sameEpoch_after tidy differs.symm apart.symm
  by_cases same : var.SameEpoch layout false first
  · rw [after_same same, after_same (secondKept.mpr same)]
    exact .refl _
  by_cases otherSame : var.SameEpoch layout false second
  · rw [after_same otherSame, after_same (firstKept.mpr otherSame)]
    exact .refl _
  have later := firstKept.not.mpr otherSame
  have otherLater := secondKept.not.mpr same
  cases shared : var.sharedVc with
  | some vec =>
    rw [after_shared shared same] at later ⊢
    rw [after_shared shared otherSame] at otherLater ⊢
    rw [after_shared rfl later, after_shared rfl otherLater,
      eraseP_concat_of_neg (by simpa using notOwn),
        eraseP_concat_of_neg (by simpa using otherNotOwn),
      List.eraseP_comm fun id _ => ?_, List.append_assoc, List.append_assoc]
    · exact .ofShared (List.Perm.append_left _ (List.Perm.swap _ _ _)) var
    · simp only [decide_eq_true_eq]
      exact not_and_or.mp fun both => differs (both.1.symm.trans both.2)
  | none =>
    have firstDiffers : first.id ≠ var.rId := mt (sameEpoch_exclusive shared).mpr same
    have secondDiffers : second.id ≠ var.rId := mt (sameEpoch_exclusive shared).mpr otherSame
    by_cases becomes : var.BecomesShared layout first
    · by_cases otherBecomes : var.BecomesShared layout second
      · -- a third thread has read the address
        rw [after_becomes becomes firstDiffers] at later ⊢
        rw [after_becomes otherBecomes secondDiffers] at otherLater ⊢
        rw [after_shared rfl later, after_shared rfl otherLater,
          eraseP_pair_of_neg otherBecomes.2.2 notOwn, eraseP_pair_of_neg becomes.2.2 otherNotOwn]
        exact ⟨rfl, rfl, rfl, .some (List.Perm.cons _ (List.Perm.swap _ _ _))⟩
      · exact (similar_of_own tidy differs.symm apart.symm shared otherBecomes becomes secondDiffers
          firstDiffers).symm
    · by_cases otherBecomes : var.BecomesShared layout second
      · exact similar_of_own tidy differs apart shared becomes otherBecomes firstDiffers
          secondDiffers
      · -- nobody has read the address
        have none : var.rId = varNotInit := by
          by_contra read
          have own := not_not.mp fun other => becomes ⟨by simp [isReadShared, shared], read, other⟩
          have otherOwn := not_not.mp fun other =>
            otherBecomes ⟨by simp [isReadShared, shared], read, other⟩
          exact differs (own.symm.trans otherOwn)
        have notZero := apart.id_ne_varNotInit differs shared (Or.inl none)
        have otherNotZero := apart.symm.id_ne_varNotInit differs.symm shared (Or.inl none)
        have makesShared : ({ var with rId := first.id } : VarState).BecomesShared layout second :=
          ⟨by simp [isReadShared, shared], notZero, differs⟩
        have otherMakesShared : ({ var with rId := second.id } :
          VarState).BecomesShared layout first :=
          ⟨by simp [isReadShared, shared], otherNotZero, differs.symm⟩
        have differsId : second.id ≠ first.id :=
          fun same => differs (congrArg layout.makeTid same.symm)
        rw [after_stays shared becomes firstDiffers, after_stays shared otherBecomes secondDiffers,
          after_becomes makesShared differsId, after_becomes otherMakesShared differsId.symm]
        exact ⟨rfl, rfl, rfl, .some (List.Perm.swap _ _ _)⟩

end Reads

/-! ### Reads by a thread with the id 0 -/

section Mistaken

variable (differs : first.getTid layout ≠ second.getTid layout)
  (exclusive : var.sharedVc = none) (zero : first.id = varNotInit)
  (other : var.getRTid layout ≠ second.getTid layout)

include differs zero

/-- Threads with the id 0 have one tid. -/
theorem id_ne_varNotInit_of_differs : second.id ≠ varNotInit := fun otherZero =>
  differs (congrArg layout.makeTid (zero.trans otherZero.symm))

include exclusive

/-- Nobody has read the address: a first read by the thread with the id 0 is not recorded. -/
theorem shares_after_of_unread (unread : var.rId = varNotInit) :
    ((var.after layout false first).after layout false second).isReadShared = false ∧
      ((var.after layout false second).after layout false first).isReadShared = true := by
  have notZero := id_ne_varNotInit_of_differs differs zero
  have same : var.SameEpoch layout false first :=
    (sameEpoch_exclusive exclusive).mpr (zero.trans unread.symm)
  have stays : ¬ var.BecomesShared layout second := fun becomes => becomes.2.1 unread
  have left := after_stays exclusive stays (unread ▸ notZero)
  have becomes : ({ var with rId := second.id } : VarState).BecomesShared layout first :=
    ⟨by simp [isReadShared, exclusive], notZero, differs.symm⟩
  constructor
  · rw [after_same same, left]
    exact congrArg Option.isSome exclusive
  · rw [left, after_becomes becomes (zero ▸ notZero.symm)]
    rfl

include other

/-- The thread with the id 0 has read the address: its new read takes the recorded one away, and the
other thread is the only reader. -/
theorem shares_after_of_own (read : var.rId ≠ varNotInit)
    (own : var.getRTid layout = first.getTid layout) :
    ((var.after layout false first).after layout false second).isReadShared = false ∧
      ((var.after layout false second).after layout false first).isReadShared = true := by
  have notZero := id_ne_varNotInit_of_differs differs zero
  have stays : ¬ var.BecomesShared layout first := fun becomes => becomes.2.2 own
  have becomes : var.BecomesShared layout second :=
    ⟨by simp [isReadShared, exclusive], read, other⟩
  have secondDiffers : second.id ≠ var.rId := fun same => other (congrArg layout.makeTid same.symm)
  constructor
  · have still : ({ var with rId := first.id } : VarState).sharedVc = none := exclusive
    have left : ¬ ({ var with rId := first.id } : VarState).BecomesShared layout second :=
      fun becomes => becomes.2.1 zero
    rw [after_stays exclusive stays (zero ▸ read.symm), after_stays still left (zero ▸ notZero)]
    exact congrArg Option.isSome exclusive
  · rw [after_becomes becomes secondDiffers, after_same (Or.inl zero)]
    rfl

/-- A third thread has read the address: the thread with the id 0 is recorded only if it is first to
read. -/
theorem sharedIds_after_of_third (tidy : var.Tidy layout) (read : var.rId ≠ varNotInit)
    (third : var.getRTid layout ≠ first.getTid layout) :
    ((var.after layout false first).after layout false second).sharedIds =
        [var.rId, first.id, second.id] ∧
      ((var.after layout false second).after layout false first).sharedIds =
        [var.rId, second.id] := by
  have notZero := id_ne_varNotInit_of_differs differs zero
  have notShared : ¬ var.isReadShared := by simp [isReadShared, exclusive]
  have secondDiffers : second.id ≠ var.rId := fun same => other (congrArg layout.makeTid same.symm)
  have notOwn : layout.makeTid first.id ≠ second.getTid layout := differs
  have notRead : layout.makeTid var.rId ≠ second.getTid layout := other
  constructor
  · have after := after_becomes ⟨notShared, read, third⟩ (zero ▸ read.symm)
    have tidyAfter : (var.after layout false first).Tidy layout := tidy.after
    rw [after] at tidyAfter ⊢
    have later : ¬ ({ var with sharedVc := some [var.rId, first.id], rId := varNotInit } :
        VarState).SameEpoch layout false second := by
      rw [sameEpoch_shared tidyAfter rfl, or_iff_right notZero,
        List.find?_cons_of_neg (by simpa using notRead),
        List.find?_cons_of_neg (by simpa using notOwn)]
      exact Ne.symm notZero
    rw [after_shared rfl later, eraseP_pair_of_neg notRead notOwn]
    rfl
  · rw [after_becomes ⟨notShared, read, other⟩ secondDiffers, after_same (Or.inl zero)]
    rfl

/-- If the id 0 of a reader is confused with no read, the two orders leave different states. -/
theorem not_similar_of_zero (tidy : var.Tidy layout) :
    ¬ ((var.after layout false first).after layout false second).Similar
      ((var.after layout false second).after layout false first) := by
  intro similar
  have shared := Option.some.inj (Similar.isReadShared_eq (.some similar))
  by_cases unread : var.rId = varNotInit
  · obtain ⟨alone, both⟩ := shares_after_of_unread differs exclusive zero unread
    exact absurd (alone.symm.trans (shared.trans both)) (by decide)
  by_cases own : var.getRTid layout = first.getTid layout
  · obtain ⟨alone, both⟩ := shares_after_of_own differs exclusive zero other unread own
    exact absurd (alone.symm.trans (shared.trans both)) (by decide)
  · obtain ⟨three, two⟩ := sharedIds_after_of_third differs exclusive zero other tidy unread own
    have lengths := similar.length_sharedIds
    rw [three, two] at lengths
    exact absurd lengths (by simp)

end Mistaken

/-- Two reads of different threads leave the same epochs in either order exactly if no id of theirs
is confused with no read. -/
theorem similar_after_iff (tidy : var.Tidy layout)
    (differs : first.getTid layout ≠ second.getTid layout) :
    ((var.after layout false first).after layout false second).Similar
      ((var.after layout false second).after layout false first) ↔
        var.TellsApart layout first second := by
  refine ⟨fun similar => ?_, similar_after tidy differs⟩
  by_contra confused
  rcases not_and_or.mp confused with mistaken | mistaken
  · obtain ⟨zero, other⟩ := Classical.not_imp.mp mistaken
    obtain ⟨notShared, other⟩ := not_or.mp other
    exact not_similar_of_zero differs (by simpa [isReadShared] using notShared) zero other tidy
      similar
  · obtain ⟨zero, other⟩ := Classical.not_imp.mp mistaken
    obtain ⟨notShared, other⟩ := not_or.mp other
    exact not_similar_of_zero differs.symm (by simpa [isReadShared] using notShared) zero other tidy
      similar.symm

end VarState

end Drace
