/-
This file shows that the state of a variable stands for the last write and for the
last read of each thread since. What it stands for is a table from threads to ids,
which a read extends and a write empties. The state has three forms of the table:
nothing, one id, and a list of ids with one entry for each thread.
-/

import Drace.Access
import Drace.Machine

namespace Drace

open VarState

/-! ### The calls on one variable -/

/-- A call of the internal read or write, by a detector in any state. -/
structure VarCall where
  ft : Fasttrack
  write : Bool
  thread : ThreadState
  addr : ℕ

/-- A variable as a machine. A call puts out the races it reports and the rule it has applied. -/
def varMachine (layout : Layout) : Machine VarState VarCall (List Race × Rule) where
  start var := ∃ size, var = VarState.new size
  call var call := some (call.ft.accessVar layout call.write call.thread var call.addr)

abbrev VarStep := Machine.Step VarState VarCall (List Race × Rule)

variable (layout : Layout)

/-- The table of last reads after one more call. A write that does not leave through the same-epoch
return starts it anew. -/
def readsAfter (reads : AList fun _ : ℕ => ℕ) (step : VarStep) : AList fun _ : ℕ => ℕ :=
  if step.event.write then
    if step.output.2 = .writeSameEpoch then reads else ∅
  else reads.insert (step.event.thread.getTid layout) step.event.thread.returnOwnId

/-- The last read of each thread since the last write that did not leave through the same-epoch
return. -/
def lastReads (past : List VarStep) : AList fun _ : ℕ => ℕ := past.foldl (readsAfter layout) ∅

/-- The id of the last write, if there was one. -/
def lastWrite (past : List VarStep) : Option ℕ :=
  past.foldl (fun last step =>
    if step.event.write then some step.event.thread.returnOwnId else last) none

/-- The state of a variable stands for a table of last reads. -/
structure Represents (layout : Layout) (var : VarState) (reads : AList fun _ : ℕ => ℕ) : Prop where
  none : var.sharedVc = none ∧ var.rId = varNotInit ↔ reads = ∅
  one : ∀ tid, reads.keys = [tid] → var.sharedVc = Option.none ∧ reads.lookup tid = some var.rId
  more : 2 ≤ reads.keys.length → ∃ ids, var.sharedVc = some ids ∧ var.rId = varNotInit ∧
    ids.Perm (reads.entries.map Sigma.snd) ∧ (ids.map layout.makeTid).Nodup

variable {layout} {var : VarState} {thread : ThreadState} {reads : AList fun _ : ℕ => ℕ} {id : ℕ}

/-! ### The rule of a write -/

/-- A write leaves through the same-epoch return if and only if its id is that of the last write. -/
theorem writeVar_sameEpoch_iff (ft : Fasttrack) (addr : ℕ) :
    (ft.writeVar layout thread var addr).2.2 = .writeSameEpoch ↔
      var.SameEpoch layout true thread := by
  unfold Fasttrack.writeVar
  split
  · next same => exact iff_of_true rfl same
  · next differs =>
    refine iff_of_false ?_ differs
    split
    · exact Rule.noConfusion
    · simp only
      split <;> exact Rule.noConfusion

/-! ### One read -/

theorem update_exclusive (reads : var.sharedVc = none) :
    var.update layout false id = { var with rId := id } := by
  rw [update, reads]
  rfl

theorem update_shared {vec : List ℕ} (reads : var.sharedVc = some vec) :
    var.update layout false id = { var with
      sharedVc := some (vec.eraseP (fun other => layout.makeTid other = layout.makeTid id) ++
        [id]) } := by
  rw [update, reads]
  rfl

theorem readIds_exclusive (reads : var.sharedVc = none) :
    id ∈ var.readIds ↔ id = var.rId ∧ var.rId ≠ varNotInit := by
  rw [readIds, reads]
  by_cases unset : var.rId = varNotInit
  · simp [unset]
  · simp [unset]

theorem readIds_shared {vec : List ℕ} (reads : var.sharedVc = some vec) : var.readIds = vec := by
  rw [readIds, reads]

/-- After a read, the recorded reads are the own one and those of the other threads. -/
theorem mem_readIds_after_read (tidy : var.Tidy layout) (set : thread.id ≠ varNotInit) :
    id ∈ (var.after layout false thread).readIds ↔
      id = thread.id ∨ id ∈ var.readIds ∧ layout.makeTid id ≠ thread.getTid layout := by
  unfold VarState.after
  split
  · next same =>
    have own := mem_readIds_of_sameEpoch tidy set same
    constructor
    · intro member
      by_cases sameTid : layout.makeTid id = thread.getTid layout
      · exact .inl (tidy.unique (show id ∈ var.recorded false from member) own sameTid)
      · exact .inr ⟨member, sameTid⟩
    · rintro (rfl | ⟨member, -⟩)
      · exact own
      · exact member
  simp only
  split
  · next becomes =>
    have reads : var.sharedVc = none := by simpa [isReadShared] using becomes.1
    have both : (var.setReadShared thread.id).readIds = [var.rId, thread.id] := rfl
    rw [both, readIds_exclusive reads, List.mem_pair]
    constructor
    · rintro (rfl | rfl)
      · exact .inr ⟨⟨rfl, becomes.2.1⟩, becomes.2.2⟩
      · exact .inl rfl
    · rintro (rfl | ⟨⟨rfl, -⟩, -⟩)
      · exact .inr rfl
      · exact .inl rfl
  · next stays =>
    cases reads : var.sharedVc with
    | none =>
      have exclusive : ({ var with rId := thread.id } : VarState).sharedVc = none := reads
      rw [update_exclusive reads, readIds_exclusive exclusive, readIds_exclusive reads]
      constructor
      · exact fun own => .inl own.1
      · rintro (rfl | ⟨⟨rfl, written⟩, differs⟩)
        · exact ⟨rfl, set⟩
        · exact absurd ⟨by simp [isReadShared, reads], written, differs⟩ stays
    | some vec =>
      have distinct := tidy.distinct
      simp only [sharedIds, reads, Option.getD_some] at distinct
      obtain ⟨-, absent⟩ := map_eraseP_nodup distinct (thread.getTid layout)
      rw [update_shared reads, readIds_shared reads, readIds_shared rfl, List.mem_append,
        List.mem_singleton, or_comm]
      refine or_congr_right ?_
      by_cases sameTid : layout.makeTid id = thread.getTid layout
      · refine iff_of_false (fun member => absent ?_) fun both => both.2 sameTid
        exact List.mem_map.mpr ⟨id, member, sameTid⟩
      · rw [and_iff_left sameTid]
        exact List.mem_eraseP_of_neg fun same => sameTid (of_decide_eq_true same)

/-- A shared list never has less than two entries. -/
def Several (var : VarState) : Prop := ∀ ids, var.sharedVc = some ids → 2 ≤ ids.length

theorem Several.after {write : Bool} (several : Several var) :
    Several (var.after layout write thread) := by
  unfold VarState.after
  split
  · exact several
  cases write with
  | true =>
    intro ids shared
    cases shared
  | false =>
    simp only
    split
    · intro ids shared
      cases shared
      exact le_rfl
    · cases reads : var.sharedVc with
      | none =>
        rw [update_exclusive reads]
        exact several
      | some vec =>
        rw [update_shared reads]
        intro ids shared
        cases shared
        have long := several vec reads
        have most : vec.length - 1 ≤ (vec.eraseP fun other =>
          layout.makeTid other = layout.makeTid thread.id).length := List.le_length_eraseP
        rw [List.length_append, List.length_singleton]
        omega

/-! ### The table of last reads -/

/-- The recorded reads are the ids of the table, which belong to their threads. -/
structure Matches (layout : Layout) (var : VarState) (reads : AList fun _ : ℕ => ℕ) : Prop where
  tidy : var.Tidy layout
  several : Several var
  exact : ∀ id, id ∈ var.readIds ↔ reads.lookup (layout.makeTid id) = some id
  keyed : ∀ tid id, reads.lookup tid = some id → layout.makeTid id = tid

theorem matches_new (size : ℕ) : Matches layout (VarState.new size) ∅ where
  tidy := tidy_new
  several _ shared := by cases shared
  exact id := by
    rw [AList.lookup_empty]
    exact iff_of_false List.not_mem_nil (Option.some_ne_none id).symm
  keyed tid id found := by cases found

/-- A read replaces the entry of its thread. -/
theorem Matches.read (holds : Matches layout var reads) (set : thread.id ≠ varNotInit) :
    Matches layout (var.after layout false thread)
      (reads.insert (thread.getTid layout) thread.id) where
  tidy := holds.tidy.after
  several := holds.several.after
  exact id := by
    rw [mem_readIds_after_read holds.tidy set, AList.lookup_insert_eq_ite]
    split
    · next sameTid =>
      rw [Option.some_inj]
      constructor
      · rintro (rfl | ⟨-, differs⟩)
        · rfl
        · exact absurd sameTid differs
      · exact fun same => .inl same.symm
    · next differs =>
      rw [← holds.exact id]
      constructor
      · rintro (rfl | ⟨member, -⟩)
        · exact absurd rfl differs
        · exact member
      · exact fun member => .inr ⟨member, differs⟩
  keyed tid id found := by
    rw [AList.lookup_insert_eq_ite] at found
    split at found
    · next same =>
      cases found
      exact same.symm
    · exact holds.keyed tid id found

/-- A write of a new epoch leaves no reads. -/
theorem Matches.write (holds : Matches layout var reads)
    (differs : ¬ var.SameEpoch layout true thread) :
    Matches layout (var.after layout true thread) ∅ where
  tidy := holds.tidy.after
  several := holds.several.after
  exact id := by
    have empty : (var.after layout true thread).readIds = [] := by
      rw [VarState.after, if_neg differs]
      rfl
    rw [empty, AList.lookup_empty]
    exact iff_of_false List.not_mem_nil (Option.some_ne_none id).symm
  keyed tid id found := by cases found

theorem readIds_nodup (tidy : var.Tidy layout) : var.readIds.Nodup := by
  cases shared : var.sharedVc with
  | none =>
    rw [readIds, shared]
    by_cases unset : var.rId = varNotInit
    · simp [unset]
    · simp [unset]
  | some vec =>
    have distinct := tidy.distinct
    rw [sharedIds, shared] at distinct
    rw [readIds_shared shared]
    exact distinct.of_map

/-- The recorded reads are the ids of the table in some order. -/
theorem Matches.perm (holds : Matches layout var reads) :
    var.readIds.Perm (reads.entries.map Sigma.snd) := by
  have tids : (reads.entries.map Sigma.snd).map layout.makeTid = reads.keys := by
    rw [List.map_map]
    refine List.map_congr_left fun entry member => ?_
    exact holds.keyed entry.1 entry.2 (AList.mem_lookup_iff.mpr member)
  have distinct : (reads.entries.map Sigma.snd).Nodup :=
    (tids.symm ▸ reads.keys_nodup : ((reads.entries.map Sigma.snd).map layout.makeTid).Nodup).of_map
  refine (List.perm_ext_iff_of_nodup (readIds_nodup holds.tidy) distinct).mpr fun id => ?_
  rw [holds.exact, List.mem_map]
  constructor
  · exact fun found => ⟨⟨layout.makeTid id, id⟩, AList.mem_lookup_iff.mp found, rfl⟩
  · rintro ⟨⟨tid, id⟩, member, rfl⟩
    have found := AList.mem_lookup_iff.mpr member
    rwa [holds.keyed tid id found]

/-- There are as many recorded reads as threads in the table. -/
theorem Matches.length (holds : Matches layout var reads) :
    var.readIds.length = reads.keys.length := by
  rw [holds.perm.length_eq, List.length_map, AList.keys, List.keys, List.length_map]

/-- The three forms of the recorded reads. -/
theorem readIds_forms (tidy : var.Tidy layout) (several : Several var) :
    (var.sharedVc = none ∧ var.rId = varNotInit ∧ var.readIds = []) ∨
    (var.sharedVc = none ∧ var.rId ≠ varNotInit ∧ var.readIds = [var.rId]) ∨
    ∃ vec, var.sharedVc = some vec ∧ var.rId = varNotInit ∧ var.readIds = vec ∧
      2 ≤ vec.length := by
  cases shared : var.sharedVc with
  | none =>
    by_cases unset : var.rId = varNotInit
    · exact .inl ⟨rfl, unset, by rw [readIds, shared]; exact if_pos unset⟩
    · exact .inr (.inl ⟨rfl, unset, by rw [readIds, shared]; exact if_neg unset⟩)
  | some vec =>
    have exclusive := tidy.exclusive (by rw [isReadShared, shared]; rfl)
    exact .inr (.inr ⟨vec, rfl, exclusive, readIds_shared shared, several vec shared⟩)

theorem eq_empty_iff_keys : reads = ∅ ↔ reads.keys.length = 0 := by
  rw [List.length_eq_zero_iff]
  constructor
  · rintro rfl
    rfl
  · intro none
    exact AList.ext (List.map_eq_nil_iff.mp none)

/-- A state that matches a table stands for it, in the form its number of threads asks for. -/
theorem Matches.represents (holds : Matches layout var reads) : Represents layout var reads := by
  have length := holds.length
  rcases readIds_forms holds.tidy holds.several with
    ⟨exclusive, unset, form⟩ | ⟨exclusive, set, form⟩ | ⟨vec, shared, unset, form, long⟩
  · rw [form, List.length_nil] at length
    refine ⟨iff_of_true ⟨exclusive, unset⟩ (eq_empty_iff_keys.mpr length.symm), ?_, ?_⟩
    · intro tid only
      rw [only] at length
      cases length
    · intro two
      omega
  · rw [form, List.length_singleton] at length
    refine ⟨iff_of_false (fun none => set none.2) fun none => ?_, ?_, ?_⟩
    · rw [eq_empty_iff_keys.mp none] at length
      cases length
    · intro tid only
      have found := (holds.exact var.rId).mp (form ▸ List.mem_singleton_self _)
      have member : layout.makeTid var.rId ∈ reads.keys :=
        AList.mem_keys.mp (AList.lookup_isSome.mp (Option.isSome_of_eq_some found))
      rw [only, List.mem_singleton] at member
      exact ⟨exclusive, member ▸ found⟩
    · intro two
      omega
  · rw [form] at length
    refine ⟨iff_of_false (fun none => ?_) fun none => ?_, ?_, fun _ => ⟨vec, shared, unset, ?_, ?_⟩⟩
    · cases shared.symm.trans none.1
    · rw [eq_empty_iff_keys.mp none] at length
      omega
    · intro tid only
      rw [only, List.length_singleton] at length
      omega
    · exact form ▸ holds.perm
    · have distinct := holds.tidy.distinct
      rwa [sharedIds, shared] at distinct

/-! ### Runs -/

/-- After a write, its id is the one of the last write, also where it was so before. -/
theorem wId_after_own_write : (var.after layout true thread).wId = thread.id := by
  unfold VarState.after
  split
  · next same => exact Eq.symm same
  · rfl

variable {past : List VarStep} {step : VarStep}

theorem lastReads_append : lastReads layout (past ++ [step]) =
    readsAfter layout (lastReads layout past) step := by
  rw [lastReads, List.foldl_append]
  rfl

theorem lastWrite_append : lastWrite (past ++ [step]) =
    if step.event.write then some step.event.thread.returnOwnId else lastWrite past := by
  rw [lastWrite, List.foldl_append]
  rfl

/-- Every call keeps the match between the state and the table. -/
theorem Matches.call (step : VarStep) (holds : Matches layout step.pre reads)
    (defined : (varMachine layout).call step.pre step.event = some (step.post, step.output))
    (set : step.event.thread.id ≠ varNotInit) :
    Matches layout step.post (readsAfter layout reads step) := by
  obtain ⟨before, ⟨ft, write, thread, addr⟩, after, output⟩ := step
  have result := Option.some.inj defined
  have state : after = before.after layout write thread := by
    rw [← (Fasttrack.accessVar_spec ft write thread before addr).1, result]
  cases write with
  | false =>
    rw [readsAfter, if_neg Bool.false_ne_true]
    exact state ▸ holds.read set
  | true =>
    have rule : output.2 = .writeSameEpoch ↔ before.SameEpoch layout true thread := by
      rw [← writeVar_sameEpoch_iff ft addr]
      exact Eq.congr_left (congrArg (fun pair => pair.2.2) result).symm
    rw [readsAfter, if_pos rfl]
    by_cases same : before.SameEpoch layout true thread
    · have unchanged : before.after layout true thread = before := if_pos same
      rw [if_pos (rule.mpr same), state.trans unchanged]
      exact holds
    · rw [if_neg (mt rule.mp same)]
      exact state ▸ holds.write same

/-- The recorded write is that of the last write call. -/
theorem wId_call (step : VarStep) {last : Option ℕ}
    (holds : step.pre.wId = last.getD varNotInit)
    (defined : (varMachine layout).call step.pre step.event = some (step.post, step.output)) :
    step.post.wId =
      (if step.event.write then some step.event.thread.returnOwnId else last).getD varNotInit := by
  obtain ⟨before, ⟨ft, write, thread, addr⟩, after, output⟩ := step
  have result := Option.some.inj defined
  have state : after = before.after layout write thread := by
    rw [← (Fasttrack.accessVar_spec ft write thread before addr).1, result]
  rw [state]
  cases write with
  | false => exact (wId_after_read before thread).trans holds
  | true => exact wId_after_own_write

theorem matches_of_reaches (reaches : (varMachine layout).Reaches past var)
    (set : ∀ step ∈ past, step.event.thread.id ≠ varNotInit) :
    Matches layout var (lastReads layout past) ∧ var.wId = (lastWrite past).getD varNotInit := by
  refine reaches.induct (fun past var => Matches layout var (lastReads layout past) ∧
    var.wId = (lastWrite past).getD varNotInit) ?_ ?_ (Machine.always_iff_forall_mem.mpr set)
  · rintro _ ⟨size, rfl⟩
    exact ⟨matches_new size, rfl⟩
  · intro past before event after output _ defined own holds
    rw [lastReads_append, lastWrite_append]
    let step : VarStep := ⟨before, event, after, output⟩
    exact ⟨Matches.call step holds.1 defined own, wId_call step holds.2 defined⟩

/-- After any calls by threads whose ids are set, the state of a variable stands for the last read
of each thread since the last write of a new epoch, and records the last write. -/
theorem varState_represents (reaches : (varMachine layout).Reaches past var)
    (set : ∀ step ∈ past, step.event.thread.id ≠ varNotInit) :
    Represents layout var (lastReads layout past) ∧ var.wId = (lastWrite past).getD varNotInit :=
  ⟨(matches_of_reaches reaches set).1.represents, (matches_of_reaches reaches set).2⟩

/-- Two threads read, the first one reads again later on, and the second one writes and reads. -/
def sharedCalls : List VarCall :=
  let first := ThreadState.new .x64 1 none
  let second := ThreadState.new .x64 2 none
  [⟨{}, false, first, 0⟩, ⟨{}, false, second, 0⟩, ⟨{}, false, first.incVc .x64, 0⟩,
    ⟨{}, true, second, 0⟩, ⟨{}, false, second, 0⟩]

theorem varState_represents_shared :
    let run := (varMachine .x64).ran (VarState.new 4) sharedCalls
    Represents .x64 run.2 (lastReads .x64 run.1) ∧
      run.2.wId = (lastWrite run.1).getD varNotInit :=
  have start : (varMachine .x64).start (VarState.new 4) := ⟨4, rfl⟩
  varState_represents (Machine.reaches_ran start sharedCalls) (by decide)

end Drace
