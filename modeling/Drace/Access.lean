/-
This file says what a read or write does, in terms of the one state kept for its
address.

An access of the recorded epoch changes nothing. Any other access is compared
with some of the recorded accesses, which gives its verdicts: the kind and the
thread of each recorded access it races with. A verdict becomes a report when
both threads are registered. Afterwards the access is recorded.
-/

import Drace.Run

namespace Drace

/-- A read or write call. -/
structure Access where
  write : Bool
  tls : ℕ
  pc : ℕ
  addr : ℕ
  size : ℕ
  deriving DecidableEq

/-- The access an event makes. -/
def Event.access? : Event → Option Access
  | .read tls pc addr size => some ⟨false, tls, pc, addr, size⟩
  | .write tls pc addr size => some ⟨true, tls, pc, addr, size⟩
  | _ => none

/-- The calls that erase variables. -/
def Event.erases : Event → Bool
  | .deallocate .. | .finalize => true
  | _ => false

namespace VarState

variable (layout : Layout)

/-- The recorded ids of one kind of access. -/
def recorded (var : VarState) : Bool → List ℕ
  | true => if var.wId = varNotInit then [] else [var.wId]
  | false => var.readIds

/-- The access is of the epoch that is recorded for its kind and thread. -/
def SameEpoch (var : VarState) : Bool → ThreadState → Prop
  | true, thread => thread.id = var.wId
  | false, thread => thread.id = var.rId ∨
    var.isReadShared ∧ var.getVcByThr layout (thread.getTid layout) = thread.id

instance (var : VarState) : (write : Bool) → (thread : ThreadState) →
    Decidable (var.SameEpoch layout write thread)
  | true, thread => inferInstanceAs (Decidable (thread.id = var.wId))
  | false, thread => inferInstanceAs (Decidable (thread.id = var.rId ∨
    var.isReadShared ∧ var.getVcByThr layout (thread.getTid layout) = thread.id))

/-- The verdict on the recorded write: the kind of the recorded access and its thread. -/
def writeVerdict (var : VarState) (thread : ThreadState) : List (Bool × ℕ) :=
  if racesWith layout var.wId thread then [(true, layout.makeTid var.wId)] else []

/-- The verdict on the recorded reads, which names one thread at most. -/
def readVerdict (var : VarState) (thread : ThreadState) : List (Bool × ℕ) :=
  if var.isReadShared then
    if var.isRwShRace layout thread = 0 then [] else [(false, var.isRwShRace layout thread)]
  else if racesWith layout var.rId thread then [(false, layout.makeTid var.rId)] else []

/-- The races an access finds, before it is asked who is registered. -/
def verdicts (var : VarState) (write : Bool) (thread : ThreadState) : List (Bool × ℕ) :=
  if var.SameEpoch layout write thread then []
  else match write with
    | true => if var.wId = varNotInit then []
      else var.writeVerdict layout thread ++ var.readVerdict layout thread
    | false => var.writeVerdict layout thread

/-- Another thread than the one that has read so far reads. -/
def BecomesShared (var : VarState) (thread : ThreadState) : Prop :=
  ¬ var.isReadShared ∧ var.rId ≠ varNotInit ∧ layout.makeTid var.rId ≠ thread.getTid layout

instance (var : VarState) (thread : ThreadState) : Decidable (var.BecomesShared layout thread) :=
  inferInstanceAs (Decidable (_ ∧ _ ∧ _))

/-- The state after an access. -/
def after (var : VarState) (write : Bool) (thread : ThreadState) : VarState :=
  if var.SameEpoch layout write thread then var
  else match write with
    | true => var.update layout true thread.id
    | false => if var.BecomesShared layout thread then var.setReadShared thread.id
      else var.update layout false thread.id

variable {layout} {var : VarState} {write kind : Bool} {thread : ThreadState} {id tid size : ℕ}

@[simp]
theorem recorded_new : (new size).recorded kind = [] := by cases kind <;> rfl

theorem mem_recorded_write : id ∈ var.recorded true ↔ id = var.wId ∧ id ≠ varNotInit := by
  by_cases none : var.wId = varNotInit
  · simp [recorded, none]
  · simpa [recorded, none] using fun same => same ▸ none

/-- An access adds its own epoch to what is recorded of its kind, and nothing else. -/
theorem mem_recorded_after (member : id ∈ (var.after layout write thread).recorded kind) :
    id ∈ var.recorded kind ∨ kind = write ∧ id = thread.id := by
  unfold after at member
  split at member
  · exact Or.inl member
  cases write with
  | true =>
    cases kind with
    | true => exact Or.inr ⟨rfl, (mem_recorded_write.mp member).1⟩
    | false => simp [recorded, readIds] at member
  | false =>
    simp only at member
    cases kind with
    | true =>
      refine Or.inl ?_
      rw [mem_recorded_write] at member ⊢
      split at member
      · exact member
      · rwa [wId_update_read] at member
    | false =>
      simp only [true_and]
      split at member
      · next becomes =>
        have reads : var.sharedVc = none := by simpa [isReadShared] using becomes.1
        simp only [recorded, readIds, setReadShared, reads, if_neg becomes.2.1] at member ⊢
        simpa using member
      · unfold recorded readIds update at member
        cases reads : var.sharedVc with
        | none =>
          simp only [Bool.false_eq_true, if_false, reads] at member
          split at member
          · cases member
          · exact Or.inr (List.mem_singleton.mp member)
        | some vec =>
          simp only [Bool.false_eq_true, if_false, reads] at member
          simp only [recorded, readIds, reads]
          rcases List.mem_append.mp member with old | new
          · exact Or.inl (List.mem_of_mem_eraseP old)
          · exact Or.inr (List.mem_singleton.mp new)

/-- Every verdict is about a recorded access that the accessing thread does not know of. -/
theorem mem_verdicts (member : (kind, tid) ∈ var.verdicts layout write thread) :
    ∃ id ∈ var.recorded kind, racesWith layout id thread ∧ layout.makeTid id = tid ∧
      (kind = true ∨ write = true) := by
  have ofWrite : (kind, tid) ∈ var.writeVerdict layout thread →
      ∃ id ∈ var.recorded kind, racesWith layout id thread ∧ layout.makeTid id = tid ∧
        (kind = true ∨ write = true) := by
    intro member
    unfold writeVerdict at member
    split at member
    · next races =>
      obtain ⟨rfl, rfl⟩ := Prod.mk.inj (List.mem_singleton.mp member)
      exact ⟨var.wId, mem_recorded_write.mpr ⟨rfl, races.1⟩, races, rfl, Or.inl rfl⟩
    · cases member
  unfold verdicts at member
  split at member
  · cases member
  cases write with
  | false => exact ofWrite member
  | true =>
    simp only at member
    split at member
    · cases member
    rcases List.mem_append.mp member with first | second
    · exact ofWrite first
    unfold readVerdict at second
    split at second
    · split at second
      · cases second
      · next shared races =>
        obtain ⟨rfl, rfl⟩ := Prod.mk.inj (List.mem_singleton.mp second)
        obtain ⟨id, found, racing, same⟩ := isRwShRace_ne_zero races
        refine ⟨id, ?_, racing, same, Or.inr rfl⟩
        obtain ⟨vec, reads⟩ := Option.isSome_iff_exists.mp shared
        simpa [recorded, readIds, sharedIds, reads] using found
    · next exclusive =>
      split at second
      · next races =>
        obtain ⟨rfl, rfl⟩ := Prod.mk.inj (List.mem_singleton.mp second)
        have reads : var.sharedVc = none := by simpa [isReadShared] using exclusive
        exact ⟨var.rId, by simp [recorded, readIds, reads, races.1], races, rfl, Or.inr rfl⟩
      · cases second

/-- What every state of an address keeps: a shared read leaves no exclusive one behind, and the
shared list has one entry for each thread. -/
structure Tidy (layout : Layout) (var : VarState) : Prop where
  exclusive : var.isReadShared → var.rId = varNotInit
  distinct : (var.sharedIds.map layout.makeTid).Nodup

theorem tidy_new : (new size).Tidy layout := ⟨fun _ => rfl, List.nodup_nil⟩

/-- Taking out the entry of a thread leaves none of that thread. -/
theorem map_eraseP_nodup {ids : List ℕ} (distinct : (ids.map layout.makeTid).Nodup) (tid : ℕ) :
    ((ids.eraseP fun id => layout.makeTid id = tid).map layout.makeTid).Nodup ∧
      tid ∉ (ids.eraseP fun id => layout.makeTid id = tid).map layout.makeTid := by
  induction ids with
  | nil => exact ⟨List.nodup_nil, List.not_mem_nil⟩
  | cons id rest inductionHypothesis =>
    rw [List.map_cons, List.nodup_cons] at distinct
    by_cases same : layout.makeTid id = tid
    · rw [List.eraseP_cons_of_pos (by simpa using same)]
      exact ⟨distinct.2, same ▸ distinct.1⟩
    · rw [List.eraseP_cons_of_neg (by simpa using same), List.map_cons, List.nodup_cons,
        List.mem_cons]
      obtain ⟨nodup, absent⟩ := inductionHypothesis distinct.2
      refine ⟨⟨fun member => ?_, nodup⟩, not_or.mpr ⟨Ne.symm same, absent⟩⟩
      obtain ⟨other, inRest, sameTid⟩ := List.mem_map.mp member
      exact distinct.1 (List.mem_map.mpr ⟨other, List.mem_of_mem_eraseP inRest, sameTid⟩)

theorem Tidy.after (tidy : var.Tidy layout) : (var.after layout write thread).Tidy layout := by
  unfold VarState.after
  split
  · exact tidy
  cases write with
  | true => exact ⟨fun shared => (nomatch shared), List.nodup_nil⟩
  | false =>
    simp only
    split
    · next becomes =>
      refine ⟨fun _ => rfl, ?_⟩
      simpa [setReadShared, sharedIds, ThreadState.getTid] using becomes.2.2
    · unfold update
      cases reads : var.sharedVc with
      | none => exact ⟨fun shared => by simp [isReadShared] at shared, by simp [sharedIds]⟩
      | some vec =>
        have distinct := tidy.distinct
        simp only [sharedIds, reads, Option.getD_some] at distinct
        obtain ⟨nodup, absent⟩ := map_eraseP_nodup distinct (layout.makeTid thread.id)
        refine ⟨fun _ => tidy.exclusive (by simp [isReadShared, reads]), ?_⟩
        simp only [Bool.false_eq_true, if_false, sharedIds, Option.getD_some, List.map_append,
          List.map_singleton]
        exact List.Nodup.append nodup (List.nodup_singleton _) (List.disjoint_singleton.mpr absent)

/-- A thread has one recorded epoch of each kind at most. -/
theorem Tidy.unique (tidy : var.Tidy layout) {other : ℕ} (member : id ∈ var.recorded kind)
    (otherMember : other ∈ var.recorded kind) (same : layout.makeTid id = layout.makeTid other) :
    id = other := by
  cases kind with
  | true => exact (mem_recorded_write.mp member).1.trans (mem_recorded_write.mp otherMember).1.symm
  | false =>
    simp only [recorded, readIds] at member otherMember
    cases reads : var.sharedVc with
    | none =>
      simp only [reads] at member otherMember
      split at member
      · cases member
      · next set =>
        simp only [if_neg set, List.mem_singleton] at member otherMember
        exact member.trans otherMember.symm
    | some vec =>
      have distinct := tidy.distinct
      simp only [sharedIds, reads, Option.getD_some] at distinct
      simp only [reads] at member otherMember
      exact List.inj_on_of_nodup_map distinct member otherMember same

/-- A read keeps the recorded write. -/
theorem wId_after_read (var : VarState) (thread : ThreadState) :
    (var.after layout false thread).wId = var.wId := by
  unfold VarState.after
  split
  · rfl
  · simp only
    split
    · rfl
    · exact wId_update_read

/-- Between the reads that a read of the same epoch finds is its own. -/
theorem mem_readIds_of_sameEpoch (tidy : var.Tidy layout) (set : thread.id ≠ varNotInit)
    (same : var.SameEpoch layout false thread) : thread.id ∈ var.readIds := by
  unfold readIds
  cases reads : var.sharedVc with
  | none =>
    rcases same with exclusive | ⟨shared, _⟩
    · simp [← exclusive, set]
    · simp [isReadShared, reads] at shared
  | some vec =>
    rcases same with exclusive | ⟨_, shared⟩
    · exact absurd (exclusive.trans (tidy.exclusive (by simp [isReadShared, reads]))) set
    · unfold getVcByThr findInVec at shared
      cases found : var.sharedIds.find? fun id => layout.makeTid id = thread.getTid layout with
      | none =>
        rw [found] at shared
        exact absurd shared.symm set
      | some id =>
        rw [found] at shared
        obtain ⟨rfl⟩ := shared
        simpa [sharedIds, reads] using List.mem_of_find?_eq_some found

/-- After a read its epoch is recorded, and every recorded read is still there or was replaced by a
later one of its thread. -/
theorem readIds_after_read (tidy : var.Tidy layout) (set : thread.id ≠ varNotInit)
    (older : ∀ id ∈ var.readIds, layout.makeTid id = thread.getTid layout → id ≤ thread.id) :
    thread.id ∈ (var.after layout false thread).readIds ∧
      ∀ id ∈ var.readIds, ∃ later ∈ (var.after layout false thread).readIds,
        layout.makeTid later = layout.makeTid id ∧ id ≤ later := by
  unfold VarState.after
  split
  · next same => exact ⟨mem_readIds_of_sameEpoch tidy set same,
      fun id member => ⟨id, member, rfl, le_rfl⟩⟩
  simp only
  split
  · next becomes =>
    have reads : var.sharedVc = none := by simpa [isReadShared] using becomes.1
    refine ⟨by simp [readIds, setReadShared], fun id member => ⟨id, ?_, rfl, le_rfl⟩⟩
    simp only [readIds, reads, if_neg becomes.2.1, List.mem_singleton] at member
    simp [readIds, setReadShared, member]
  · next stays =>
    unfold update
    cases reads : var.sharedVc with
    | none =>
      have only : ∀ state : VarState, state.sharedVc = none → state.rId = thread.id →
          state.readIds = [thread.id] := by
        intro state exclusive own
        simp [readIds, exclusive, own, set]
      simp only [Bool.false_eq_true, if_false]
      rw [only _ rfl rfl]
      refine ⟨List.mem_singleton_self _, fun id member => ⟨_, List.mem_singleton_self _, ?_⟩⟩
      have sameId : id = var.rId ∧ var.rId ≠ varNotInit := by
        simp only [readIds, reads] at member
        split at member
        · cases member
        · next written => exact ⟨List.mem_singleton.mp member, written⟩
      have sameTid : layout.makeTid id = thread.getTid layout := by
        by_contra differs
        exact stays ⟨by simp [isReadShared, reads], sameId.2, sameId.1 ▸ differs⟩
      exact ⟨sameTid.symm, older id member sameTid⟩
    | some vec =>
      simp only [Bool.false_eq_true, if_false, readIds]
      refine ⟨List.mem_append_right _ (List.mem_singleton_self _), fun id member => ?_⟩
      simp only [readIds, reads] at member older
      by_cases sameTid : layout.makeTid id = layout.makeTid thread.id
      · exact ⟨thread.id, List.mem_append_right _ (List.mem_singleton_self _), sameTid.symm,
          older id member sameTid⟩
      · refine ⟨id, List.mem_append_left _ ?_, rfl, le_rfl⟩
        exact (List.mem_eraseP_of_neg (by simpa using sameTid)).mpr member

/-- If a write that is not of the recorded epoch finds nothing, no recorded access races with it. -/
theorem verdicts_write_eq_nil (written : var.wId ≠ varNotInit)
    (nonzero : ∀ id ∈ var.readIds, layout.makeTid id ≠ 0)
    (differs : ¬ var.SameEpoch layout true thread) (silent : var.verdicts layout true thread = []) :
    ∀ kind, ∀ id ∈ var.recorded kind, ¬ racesWith layout id thread := by
  rw [verdicts, if_neg differs] at silent
  simp only [if_neg written, List.append_eq_nil_iff] at silent
  obtain ⟨writes, reads⟩ := silent
  intro kind id member races
  cases kind with
  | true =>
    obtain ⟨rfl, _⟩ := mem_recorded_write.mp member
    rw [writeVerdict, if_pos races] at writes
    cases writes
  | false =>
    have inReads : id ∈ var.readIds := member
    unfold readIds at inReads
    cases shared : var.sharedVc with
    | none =>
      simp only [shared] at inReads
      split at inReads
      · cases inReads
      · obtain ⟨rfl⟩ := List.mem_singleton.mp inReads
        rw [readVerdict, if_neg (by simp [isReadShared, shared]), if_pos races] at reads
        cases reads
    | some vec =>
      simp only [shared] at inReads
      have shareds : var.sharedIds = vec := by simp [sharedIds, shared]
      obtain ⟨first, found⟩ := exists_firstShRace (shareds ▸ inReads) races
      have firstMember : first ∈ var.readIds := by
        have inShared := List.mem_of_find?_eq_some found
        simpa [readIds, shared, shareds] using inShared
      rw [readVerdict, if_pos (by simp [isReadShared, shared])] at reads
      have tid : var.isRwShRace layout thread = layout.makeTid first := by
        rw [isRwShRace, found]
      rw [tid, if_neg (nonzero first firstMember)] at reads
      cases reads

/-- If a read that is not of the recorded epoch finds nothing, the recorded write does not race
with it. -/
theorem verdicts_read_eq_nil (differs : ¬ var.SameEpoch layout false thread)
    (silent : var.verdicts layout false thread = []) : ¬ racesWith layout var.wId thread := by
  intro races
  rw [verdicts, if_neg differs] at silent
  simp only [writeVerdict, if_pos races] at silent
  cases silent

end VarState

namespace Fasttrack

variable (layout : Layout)

/-- The check of either kind of access. -/
def accessVar (ft : Fasttrack) : Bool → ThreadState → VarState → ℕ → VarState × List Race × Rule
  | true => ft.writeVar layout
  | false => ft.readVar layout

variable {layout} {ft next : Fasttrack} {write : Bool} {thread : ThreadState} {var : VarState}
  {addr : ℕ} {event : Event} {access : Access} {output : Output}

theorem reportVerdict {races : Prop} [Decidable races] (kind : Bool) (tid : ℕ)
    (report : Bool × ℕ → List Race) :
    (if races then [(kind, tid)] else []).flatMap report = if races then report (kind, tid)
      else [] := by
  split <;> simp

/-- The check of a write leaves what a write leaves and reports its verdicts. -/
theorem writeVar_spec (ft : Fasttrack) (thread : ThreadState) (var : VarState) (addr : ℕ) :
    (ft.writeVar layout thread var addr).1 = var.after layout true thread ∧
      (ft.writeVar layout thread var addr).2.1 = (var.verdicts layout true thread).flatMap
        fun verdict => ft.reportRace verdict.2 (thread.getTid layout) verdict.1 true var addr := by
  unfold writeVar VarState.after VarState.verdicts
  by_cases same : thread.returnOwnId = var.getWriteId
  · rw [if_pos same, if_pos (show var.SameEpoch layout true thread from same),
      if_pos (show var.SameEpoch layout true thread from same)]
    exact ⟨rfl, rfl⟩
  rw [if_neg same, if_neg (show ¬ var.SameEpoch layout true thread from same),
    if_neg (show ¬ var.SameEpoch layout true thread from same)]
  by_cases initial : var.getWriteId = VarState.varNotInit
  · rw [if_pos initial]
    simp only
    rw [if_pos (show var.wId = VarState.varNotInit from initial)]
    exact ⟨rfl, rfl⟩
  rw [if_neg initial]
  simp only
  rw [if_neg (show ¬ var.wId = VarState.varNotInit from initial), List.flatMap_append,
    VarState.writeVerdict, reportVerdict, VarState.readVerdict]
  by_cases shared : var.isReadShared
  · rw [if_neg (not_not.mpr shared), if_pos shared]
    refine ⟨rfl, congrArg₂ _ rfl ?_⟩
    by_cases silent : var.isRwShRace layout thread = 0
    · rw [if_pos silent, if_neg (not_not.mpr silent)]
      rfl
    · rw [if_neg silent, if_pos silent, List.flatMap_singleton]
  · rw [if_pos shared, if_neg shared, reportVerdict]
    exact ⟨rfl, rfl⟩

/-- The check of a read leaves what a read leaves and reports its verdicts. -/
theorem readVar_spec (ft : Fasttrack) (thread : ThreadState) (var : VarState) (addr : ℕ) :
    (ft.readVar layout thread var addr).1 = var.after layout false thread ∧
      (ft.readVar layout thread var addr).2.1 = (var.verdicts layout false thread).flatMap
        fun verdict => ft.reportRace verdict.2 (thread.getTid layout) verdict.1 false var addr := by
  unfold readVar VarState.after VarState.verdicts
  by_cases sameEx : thread.returnOwnId = var.getReadId
  · have same : var.SameEpoch layout false thread := Or.inl sameEx
    rw [if_pos sameEx, if_pos same, if_pos same]
    exact ⟨rfl, rfl⟩
  rw [if_neg sameEx]
  simp only
  by_cases sameSh : var.isReadShared ∧
    var.getVcByThr layout (thread.getTid layout) = thread.returnOwnId
  · have same : var.SameEpoch layout false thread := Or.inr sameSh
    rw [if_pos sameSh, if_pos same, if_pos same]
    exact ⟨rfl, rfl⟩
  have differs : ¬ var.SameEpoch layout false thread := not_or.mpr ⟨sameEx, sameSh⟩
  rw [if_neg sameSh, if_neg differs, if_neg differs, VarState.writeVerdict, reportVerdict]
  by_cases shared : var.isReadShared
  · have stays : ¬ var.BecomesShared layout thread := fun becomes => becomes.1 shared
    rw [if_neg (not_not.mpr shared), if_neg stays]
    exact ⟨rfl, rfl⟩
  rw [if_pos shared]
  by_cases exclusive : var.getReadId = VarState.varNotInit ∨
    var.getRTid layout = thread.getTid layout
  · have stays : ¬ var.BecomesShared layout thread :=
      fun becomes => exclusive.elim becomes.2.1 becomes.2.2
    rw [if_pos exclusive, if_neg stays]
    exact ⟨rfl, rfl⟩
  · have becomes : var.BecomesShared layout thread := ⟨shared, not_or.mp exclusive⟩
    rw [if_neg exclusive, if_pos becomes]
    exact ⟨rfl, rfl⟩

theorem accessVar_spec (ft : Fasttrack) (write : Bool) (thread : ThreadState) (var : VarState)
    (addr : ℕ) :
    (ft.accessVar layout write thread var addr).1 = var.after layout write thread ∧
      (ft.accessVar layout write thread var addr).2.1 = (var.verdicts layout write thread).flatMap
        fun verdict => ft.reportRace verdict.2 (thread.getTid layout) verdict.1 write var addr := by
  cases write with
  | true => exact writeVar_spec ft thread var addr
  | false => exact readVar_spec ft thread var addr

/-! ### The calls seen as accesses -/

/-- What a read or write call does. -/
theorem call_access (accesses : event.access? = some access)
    (defined : ft.call layout event = some (next, output)) :
    ∃ thread, ft.threads.lookup access.tls = some thread ∧
      next.threads = (ft.recordAccess access.tls thread access.pc access.addr).threads ∧
      next.allocs = ft.allocs ∧
      next.vars = ft.vars.insert access.addr
        ((ft.createVar access.addr access.size).after layout access.write thread) ∧
      output.races = ((ft.createVar access.addr access.size).verdicts layout access.write
        thread).flatMap fun verdict =>
          (ft.recordAccess access.tls thread access.pc access.addr).reportRace verdict.2
          (thread.getTid layout) verdict.1 access.write (ft.createVar access.addr access.size)
          access.addr := by
  have spec : ∀ (ft : Fasttrack) (write : Bool) (thread : ThreadState) (var : VarState) (addr : ℕ),
      let stored := ft.storeAccess addr (ft.accessVar layout write thread var addr)
      stored.1.threads = ft.threads ∧ stored.1.allocs = ft.allocs ∧
        stored.1.vars = ft.vars.insert addr (var.after layout write thread) ∧
        stored.2 = (var.verdicts layout write thread).flatMap
          fun verdict => ft.reportRace verdict.2
            (thread.getTid layout) verdict.1 write var addr := by
    intro ft write thread var addr
    obtain ⟨state, races⟩ := accessVar_spec ft write thread var addr
    rw [← state, ← races]
    unfold storeAccess countRule
    split <;> exact ⟨rfl, rfl, rfl, rfl⟩
  cases event with
  | read tls pc addr size =>
    obtain ⟨rfl⟩ := Option.some.inj accesses
    obtain ⟨result, read, same⟩ := Option.map_eq_some_iff.mp defined
    obtain ⟨thread, found, rfl⟩ := Option.map_eq_some_iff.mp read
    obtain ⟨rfl, rfl⟩ := Prod.mk.inj same
    exact ⟨thread, found, spec _ false thread _ addr⟩
  | write tls pc addr size =>
    obtain ⟨rfl⟩ := Option.some.inj accesses
    obtain ⟨result, write, same⟩ := Option.map_eq_some_iff.mp defined
    obtain ⟨thread, found, rfl⟩ := Option.map_eq_some_iff.mp write
    obtain ⟨rfl, rfl⟩ := Prod.mk.inj same
    exact ⟨thread, found, spec _ true thread _ addr⟩
  | _ => cases accesses

/-! ### The other calls -/

/-- The tables indexed by addresses. -/
def memory (ft : Fasttrack) : (AList fun _ : ℕ => VarState) × AList fun _ : ℕ => ℕ :=
  (ft.vars, ft.allocs)

theorem memory_createThread (ft : Fasttrack) (tid : ℕ) (parent : Option ThreadState) :
    (ft.createThread layout tid parent).1.memory = ft.memory := by
  unfold createThread
  simp only
  split <;> rfl

theorem memory_fork (ft : Fasttrack) (parent child : ℕ) :
    (ft.fork layout parent child).1.memory = ft.memory := by
  unfold fork
  split <;> exact memory_createThread _ _ _

theorem memory_join (ft : Fasttrack) (parent child : ℕ) :
    (ft.join layout parent child).memory = ft.memory := by
  unfold join modifyThread
  split
  · simp only
    split <;> rfl
  · rfl

theorem memory_createLock (ft : Fasttrack) (mutex : ℕ) :
    (ft.createLock mutex).memory = ft.memory := by
  unfold createLock
  split <;> rfl

theorem memory_createHappens (ft : Fasttrack) (identifier : ℕ) :
    (ft.createHappens identifier).memory = ft.memory := by
  unfold createHappens
  split <;> rfl

theorem memory_acquire {tls mutex : ℕ} {recursive : ℤ}
    (defined : ft.acquire tls mutex recursive = some next) : next.memory = ft.memory := by
  unfold acquire at defined
  split at defined
  · obtain ⟨rfl⟩ := Option.some.inj defined
    rfl
  · obtain ⟨thread, _, rfl⟩ := Option.map_eq_some_iff.mp defined
    exact memory_createLock ft mutex

theorem memory_release {tls mutex : ℕ} (defined : ft.release layout tls mutex = some next) :
    next.memory = ft.memory := by
  unfold release at defined
  split at defined
  · obtain ⟨rfl⟩ := Option.some.inj defined
    exact memory_createLock ft mutex
  · obtain ⟨thread, _, rfl⟩ := Option.map_eq_some_iff.mp defined
    rfl

theorem memory_happensBefore {tls identifier : ℕ}
    (defined : ft.happensBefore layout tls identifier = some next) : next.memory = ft.memory := by
  obtain ⟨thread, _, rfl⟩ := Option.map_eq_some_iff.mp defined
  exact memory_createHappens ft identifier

theorem memory_happensAfter {tls identifier : ℕ}
    (defined : ft.happensAfter tls identifier = some next) : next.memory = ft.memory := by
  unfold happensAfter at defined
  split at defined
  · obtain ⟨rfl⟩ := Option.some.inj defined
    exact memory_createHappens ft identifier
  · obtain ⟨thread, _, rfl⟩ := Option.map_eq_some_iff.mp defined
    rfl

/-- What a call that is no access does to the tables indexed by addresses. -/
def memoryAfter (layout : Layout) (ft : Fasttrack) :
    Event → (AList fun _ : ℕ => VarState) × AList fun _ : ℕ => ℕ
  | .allocate _ _ addr size => (ft.allocate addr size).memory
  | .deallocate _ addr => (ft.deallocate layout addr).memory
  | .finalize => (∅, ∅)
  | _ => ft.memory

/-- A call that is no access reports nothing, and only the calls about allocations and the end
change the tables indexed by addresses. -/
theorem call_quiet (quiet : event.access? = none)
    (defined : ft.call layout event = some (next, output)) :
    output.races = [] ∧ next.memory = memoryAfter layout ft event := by
  cases event with
  | read | write => cases quiet
  | funcEnter tls pc =>
    obtain ⟨entered, enter, same⟩ := Option.map_eq_some_iff.mp defined
    obtain ⟨thread, _, rfl⟩ := Option.map_eq_some_iff.mp enter
    obtain ⟨rfl, rfl⟩ := Prod.mk.inj same
    exact ⟨rfl, rfl⟩
  | funcExit tls =>
    obtain ⟨left, exit, same⟩ := Option.map_eq_some_iff.mp defined
    obtain ⟨thread, _, popped⟩ := Option.bind_eq_some_iff.mp exit
    obtain ⟨depot, _, rfl⟩ := Option.map_eq_some_iff.mp popped
    obtain ⟨rfl, rfl⟩ := Prod.mk.inj same
    exact ⟨rfl, rfl⟩
  | fork parent child =>
    obtain ⟨rfl, rfl⟩ := Prod.mk.inj (Option.some.inj defined)
    exact ⟨rfl, memory_fork ft parent child⟩
  | join parent child =>
    obtain ⟨rfl, rfl⟩ := Prod.mk.inj (Option.some.inj defined)
    exact ⟨rfl, memory_join ft parent child⟩
  | acquire tls mutex recursive write =>
    obtain ⟨after, acquired, same⟩ := Option.map_eq_some_iff.mp defined
    obtain ⟨rfl, rfl⟩ := Prod.mk.inj same
    exact ⟨rfl, memory_acquire acquired⟩
  | release tls mutex write =>
    obtain ⟨after, released, same⟩ := Option.map_eq_some_iff.mp defined
    obtain ⟨rfl, rfl⟩ := Prod.mk.inj same
    exact ⟨rfl, memory_release released⟩
  | happensBefore tls identifier =>
    obtain ⟨after, happens, same⟩ := Option.map_eq_some_iff.mp defined
    obtain ⟨rfl, rfl⟩ := Prod.mk.inj same
    exact ⟨rfl, memory_happensBefore happens⟩
  | happensAfter tls identifier =>
    obtain ⟨after, happens, same⟩ := Option.map_eq_some_iff.mp defined
    obtain ⟨rfl, rfl⟩ := Prod.mk.inj same
    exact ⟨rfl, memory_happensAfter happens⟩
  | allocate | deallocate | detach | finish | mapShadow | finalize =>
    obtain ⟨rfl, rfl⟩ := Prod.mk.inj (Option.some.inj defined)
    exact ⟨rfl, rfl⟩

theorem vars_allocate (ft : Fasttrack) (start size : ℕ) :
    (ft.allocate start size).vars = ft.vars := by
  unfold allocate
  split <;> rfl

/-- A call that is no access forgets variables at most. -/
theorem call_forgets (quiet : event.access? = none)
    (defined : ft.call layout event = some (next, output)) {var : VarState}
    (found : next.vars.lookup addr = some var) : ft.vars.lookup addr = some var := by
  have same : next.vars = (memoryAfter layout ft event).1 :=
    congrArg Prod.fst (call_quiet quiet defined).2
  rw [same] at found
  cases event with
  | deallocate tls start =>
    have gone := found.symm.trans (deallocate_spec layout ft start addr).1
    split at gone
    · cases gone
    · exact gone.symm
  | finalize => simp [memoryAfter] at found
  | allocate tls pc start size => exact vars_allocate ft start size ▸ found
  | _ => exact found

/-- Every other call that is no access keeps the variables. -/
theorem call_keepsVars (quiet : event.access? = none) (keeps : event.erases = false)
    (defined : ft.call layout event = some (next, output)) : next.vars = ft.vars := by
  refine (congrArg Prod.fst (call_quiet quiet defined).2).trans ?_
  cases event with
  | deallocate | finalize => cases keeps
  | allocate tls pc start size => exact vars_allocate ft start size
  | _ => rfl

end Fasttrack

end Drace
