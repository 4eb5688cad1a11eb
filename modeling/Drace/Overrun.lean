/-
This file says when no buffer is overrun.

The fullness test is an equality, so a head that has passed the end of the buffer
runs away. No head does in a run of the client in which no flush of a full buffer
notices that the controller has switched recording off.
-/

import Drace.Bounds

namespace Drace

open Session Machine

variable {layout : Layout} {params : RuntimeConfig} {session : Session layout}
  {client : Client layout}
  {past : List (ClientStep layout)} {event : ThreadEvent} {tid : ℕ}

/-! ### One thread -/

theorem kept_bounded : Kept params fun session : Session layout => session.data.Bounded where
  flush _ bounded := bounded_processBuffer bounded
  book _ _ bounded := bounded.move rfl rfl bounded.head bounded.stored
  detector _ _ _ bounded := bounded

theorem bounded_pushStack (bounded : session.data.Bounded) (addr : ℕ) :
    (session.pushStack addr).data.Bounded := by
  unfold pushStack
  split
  · exact bounded.move rfl rfl bounded.head bounded.stored
  · exact bounded

theorem bounded_onFuncCall (bounded : session.data.Bounded) (callIns draw : ℕ) :
    (session.onFuncCall params callIns draw).data.Bounded := by
  have analyzed : (session.analyzeAccess params).data.Bounded := bounded_analyzeAccess bounded
  have decided := bounded_switchSampling analyzed draw
  refine bounded_pushStack ?_ callIns
  split
  · exact decided.move rfl rfl (Or.inl rfl) decided.head
  · exact decided

/-- Every event of a thread keeps the pointers in the buffer, unless it is a recording whose flush
notices that recording is switched off. -/
theorem bounded_step (bounded : session.data.Bounded)
    (off : (∃ addr pc size write, event = .record addr pc size write) →
      ¬ session.SwitchesOffFull params) : (session.step params event).data.Bounded := by
  cases event with
  | record addr pc size write =>
    exact bounded_instrumentMemFast bounded _ (off ⟨addr, pc, size, write, rfl⟩)
  | processBuffer => exact bounded_processBuffer bounded
  | analyzeAccess => exact bounded_analyzeAccess bounded
  | switchSampling draw => exact bounded_switchSampling bounded draw
  | handleExtState => exact bounded_handleExtState bounded
  | disableScope => exact bounded.disableScope
  | enableScope => exact bounded.enableScope
  | funcCall callIns draw => exact bounded_onFuncCall bounded callIns draw
  | funcRet target =>
    have analyzed : (session.analyzeAccess params).data.Bounded := bounded_analyzeAccess bounded
    exact analyzed.move rfl rfl analyzed.head analyzed.stored
  | _ => exact kept_bounded.callback rfl bounded

theorem bounded_eventThreadInit (tracker : MemoryTracker) (memBuf : AlignedBuffer layout)
    (memory : ℕ → MemRef) (appstack : ℕ × ℕ) :
    (eventThreadInit params tracker tid memBuf memory appstack).data.Bounded := by
  unfold eventThreadInit
  by_cases excluded : params.excludeMaster = true ∧ tid = params.runtimeTid
  · simp only [if_pos excluded]
    split <;>
      exact ⟨rfl, Or.inl rfl, ShadowThreadState.inBuffer_start⟩
  · simp only [if_neg excluded]
    split <;>
      exact ⟨rfl, ShadowThreadState.inBuffer_start, ShadowThreadState.inBuffer_start⟩

/-! ### All threads -/

/-- The step records into the last free entry of a buffer, and the flush notices that recording is
switched off. -/
def switchesOffFull (params : RuntimeConfig) (step : ClientStep layout) : Bool :=
  match step.event with
  | .thread tid (.record ..) =>
    (step.pre.threads.lookup tid).any fun data => (step.pre.session data).SwitchesOffFull params
  | _ => false

/-- The pointers of all threads lie in their buffers. -/
def Client.Bounded (client : Client layout) : Prop :=
  ∀ tid, ∀ data ∈ client.threads.lookup tid, data.Bounded

namespace Client.Bounded

theorem insert {next : Client layout} {data : ShadowThreadState layout} (bounded : client.Bounded)
    (one : data.Bounded) (same : next.threads = client.threads.insert tid data) : next.Bounded := by
  unfold Client.Bounded
  rw [same]
  exact Client.forall_insert (fun other _ => bounded other) one

theorem call {next : Client layout} {event : ClientEvent layout} {output : Unit}
    (bounded : client.Bounded) (defined : client.call params event = some (next, output))
    (off : switchesOffFull params ⟨client, event, next, output⟩ = false) : next.Bounded := by
  cases event with
  | threadInit tid memBuf memory appstack =>
    obtain ⟨rfl⟩ := Prod.mk.inj (Option.some.inj defined)
    exact bounded.insert (bounded_eventThreadInit client.tracker memBuf memory appstack) rfl
  | threadExit tid =>
    obtain ⟨data, _, ended⟩ := Option.map_eq_some_iff.mp defined
    obtain ⟨rfl⟩ := Prod.mk.inj ended
    intro other found member
    have erased : found ∈ (client.threads.erase tid).lookup other := member
    by_cases here : other = tid
    · subst here
      rw [AList.lookup_erase] at erased
      cases erased
    · rw [AList.lookup_erase_ne here] at erased
      exact bounded other found erased
  | thread tid event =>
    obtain ⟨data, found, made⟩ := Option.map_eq_some_iff.mp defined
    obtain ⟨rfl⟩ := Prod.mk.inj made
    refine bounded.insert (bounded_step (bounded tid data found) ?_) rfl
    rintro ⟨addr, pc, size, write, rfl⟩ full
    simp only [switchesOffFull, found, Option.any_some, decide_eq_false_iff_not] at off
    exact off full
  | enableDetector enabled =>
    obtain ⟨rfl⟩ := Prod.mk.inj (Option.some.inj defined)
    exact bounded
  | setSamplingrate rate =>
    obtain ⟨rfl⟩ := Prod.mk.inj (Option.some.inj defined)
    exact bounded

end Client.Bounded

/-- No buffer is overrun in a run in which no flush of a full buffer notices that recording is
switched off: at any time each head is null or an entry that ends within its buffer, and the sum
that is tested behind it is zero for the last entry only. -/
theorem buffer_never_overrun {data : ShadowThreadState layout}
    (reaches : (Client.machine params Client.Fresh).Reaches past client)
    (off : ∀ step ∈ past, switchesOffFull params step = false)
    (found : client.threads.lookup tid = some data) :
    data.bufPtr = 0 ∨ ∃ index < Layout.maxNumMemRefs, data.bufPtr = data.slot index ∧
      data.bufPtr + layout.sizeofMemRef ≤ data.memBuf.data + layout.memBufSize ∧
      ((data.bufPtr + layout.sizeofMemRef + data.bufEnd) % layout.sizeRange = 0 ↔
        index + 1 = Layout.maxNumMemRefs) := by
  have bounded : client.Bounded := by
    clear found
    induction reaches with
    | @start client fresh =>
      intro tid data member
      rw [show client.threads = ∅ from fresh] at member
      cases member
    | call earlier defined inductionHypothesis =>
      simp only [List.forall_mem_append, List.forall_mem_singleton] at off
      exact (inductionHypothesis off.1).call defined off.2
  obtain ⟨ends, head, -⟩ := bounded tid data found
  refine head.imp_right ?_
  rintro ⟨index, bound, head⟩
  refine ⟨index, bound, head, ?_, ?_⟩
  · rw [head, ← ShadowThreadState.slot_succ, ← ShadowThreadState.slot_end]
    exact Nat.add_le_add_left (Nat.mul_le_mul_right _ bound) _
  · rw [head, ← ShadowThreadState.slot_succ]
    exact ShadowThreadState.sum_eq_zero_iff ends bound

/-- A thread starts with a buffer at a fixed address. -/
def threadStarted (tid : ℕ) : ClientEvent .x64 :=
  .threadInit tid Session.fixedBuffer (fun _ => ⟨0, 0, 0⟩) (0, 0)

/-- A thread records within and outside a scope. -/
def recordsInScope : List (ClientEvent .x64) :=
  [threadStarted 2, .thread 2 (.record 8 1 4 true), .thread 2 .disableScope, .enableDetector false,
    .thread 2 (.record 16 2 4 true), .thread 2 .enableScope, .thread 2 (.record 24 3 4 false)]

theorem buffer_never_overrun_scope :
    let data := ((Client.ran controlled Client.Fresh {} recordsInScope).2.threads.lookup 2).get
      (by decide)
    data.bufPtr = 0 ∨ ∃ index < Layout.maxNumMemRefs, data.bufPtr = data.slot index ∧
      data.bufPtr + Layout.x64.sizeofMemRef ≤ data.memBuf.data + Layout.x64.memBufSize ∧
      ((data.bufPtr + Layout.x64.sizeofMemRef + data.bufEnd) % Layout.x64.sizeRange = 0 ↔
        index + 1 = Layout.maxNumMemRefs) :=
  buffer_never_overrun (Client.reaches_ran controlled (Client.fresh_mk {}) recordsInScope)
    (by decide)
    (Option.some_get _).symm

/-- Under external control a thread is initialized and flushes until a check is due. Then recording
is switched off, and the flush of the full buffer makes the check. -/
def fillSwitchedOff : List (ClientEvent .x64) :=
  [threadStarted 2, .thread 2 .analyzeAccess] ++ List.replicate 13 (.thread 2 .processBuffer) ++
    [.enableDetector false] ++ List.replicate 64 (.thread 2 (.record 8 1 4 true))

/-- The end of the buffer is saved then. Recording is switched on again, and the next call restores
it. -/
theorem full_buffer_overrun :
    ¬ ∀ (layout : Layout) (params : RuntimeConfig) (past : List (ClientStep layout))
      (client : Client layout) (tid : ℕ) (data : ShadowThreadState layout),
        (Client.machine params Client.Fresh).Reaches past client →
          client.threads.lookup tid = some data →
            data.bufPtr = 0 ∨ ∃ index < Layout.maxNumMemRefs, data.bufPtr = data.slot index := by
  intro always
  let events := fillSwitchedOff ++ [.enableDetector true, .thread 2 (.funcRet 0),
    .thread 2 (.funcCall 100 0)]
  have found : ((Client.ran controlled Client.Fresh {} events).2.threads.lookup 2).isSome =
      true := by decide +kernel
  obtain ⟨data, member⟩ := Option.isSome_iff_exists.mp found
  have inside := always .x64 controlled _ _ 2 data
    (Client.reaches_ran controlled (Client.fresh_mk {}) events) member
  have past : ((Client.ran controlled Client.Fresh {} events).2.threads.lookup 2).all fun data =>
      decide (data.bufPtr ≠ 0 ∧ ∀ index < Layout.maxNumMemRefs, data.bufPtr ≠ data.slot index) := by
    decide +kernel
  rw [member, Option.all_some, decide_eq_true_iff] at past
  rcases inside with null | ⟨index, bound, head⟩
  · exact past.1 null
  · exact past.2 index bound head

end Drace
