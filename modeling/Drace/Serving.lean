/-
This file runs the client on the Fasttrack detector.

The handle of a thread is the tid as the ids have room for it, and the detector drops
the object of a thread at the earliest when the thread is joined. So whatever keeps to
the contract is defined on the detector: no call follows a dangling handle, and none
leaves a function on an empty path. The client keeps to the contract, and so its calls
are a run of the detector.
-/

import Drace.Contract
import Drace.ThreadTable

namespace Drace

open Session Machine

variable {layout : Layout} {params : RuntimeConfig} {ft later : Fasttrack}
  {contract next : Contract} {call : Event} {tid : ℕ} {path : List ℕ}

/-! ### Defined calls -/

/-- A call with the handle of a registered thread is defined, unless it leaves a function. -/
theorem defined_of_registered (layout : Layout)
    (registered : ∀ tls ∈ call.tls?, tls ∈ ft.threads)
    (stays : ∀ tls, call ≠ .funcExit tls) :
    ∃ next output, ft.call layout call = some (next, output) := by
  have found : ∀ tls ∈ call.tls?, ∃ thread, ft.threads.lookup tls = some thread :=
    fun tls member => AList.exists_lookup (registered tls member)
  cases call with
  | read tls | write tls | funcEnter tls | happensBefore tls =>
    obtain ⟨thread, found⟩ := found tls rfl
    simp only [Fasttrack.call, Fasttrack.read, Fasttrack.write, Fasttrack.funcEnter,
      Fasttrack.happensBefore, Fasttrack.threads_createHappens, found, Option.map_some]
    exact ⟨_, _, rfl⟩
  | acquire tls =>
    obtain ⟨thread, found⟩ := found tls rfl
    simp only [Fasttrack.call, Fasttrack.acquire, Fasttrack.threads_createLock, found,
      Option.map_some]
    split <;> exact ⟨_, _, rfl⟩
  | release tls mutex =>
    obtain ⟨thread, found⟩ := found tls rfl
    simp only [Fasttrack.call, Fasttrack.release, found, Option.map_some]
    split <;> exact ⟨_, _, rfl⟩
  | happensAfter tls identifier =>
    obtain ⟨thread, found⟩ := found tls rfl
    simp only [Fasttrack.call, Fasttrack.happensAfter, found, Option.map_some]
    split <;> exact ⟨_, _, rfl⟩
  | funcExit tls => exact absurd rfl (stays tls)
  | _ => exact ⟨_, _, rfl⟩

/-- The handle a fork returns is the key of the thread. -/
theorem fork_handle (ft : Fasttrack) (parent tid : ℕ) :
    (ft.fork layout parent tid).2 = tid % layout.tidRange := by
  have created : ∀ (ft : Fasttrack) parent,
      (ft.createThread layout tid parent).2 = tid % layout.tidRange := by
    intro ft parent
    unfold Fasttrack.createThread
    simp only
    split <;> rfl
  unfold Fasttrack.fork
  split
  · exact created _ _
  · exact created _ _

/-- A thread inside a function can leave it. -/
theorem defined_of_inside (layout : Layout) {depot : StackTrace}
    (found : ft.depotOf tid = some depot)
    (inside : depot.callPath ≠ []) :
    ∃ next output, ft.call layout (.funcExit tid) = some (next, output) := by
  obtain ⟨thread, registered, rfl⟩ := Option.map_eq_some_iff.mp found
  obtain ⟨popped, pops⟩ := Option.ne_none_iff_exists'.mp
    (mt StackTrace.popStackElement_eq_none_iff.mp inside)
  simp only [Fasttrack.call, Fasttrack.funcExit, registered, Option.bind_some, pops,
    Option.map_some]
  exact ⟨_, _, rfl⟩

/-- A registered thread stays registered, and the call does to its depot what it should. -/
theorem depotOf_of_lasting (lasting : call.lasting = true) {output : Output}
    (defined : ft.call layout call = some (later, output)) {old : StackTrace}
    (found : ft.depotOf tid = some old) :
    ∃ depot, later.depotOf tid = some depot ∧ call.depotAfter tid old = some depot := by
  have registered : tid ∈ later.threads := by
    refine (Fasttrack.mem_threads_call defined).mpr ?_
    have was : tid ∈ ft.threads := mem_threads_iff_depotOf.mpr ⟨old, found⟩
    cases call with
    | join | finish | finalize => cases lasting
    | fork => exact Or.inr was
    | _ => exact was
  obtain ⟨depot, now⟩ := mem_threads_iff_depotOf.mp registered
  refine ⟨depot, now, ?_⟩
  rcases depot_call defined now with ⟨before, was, after⟩ | ⟨none, -⟩
  · obtain rfl := Option.some.inj (found.symm.trans was)
    exact after
  · rw [none] at found
    cases found

/-! ### Keeping to the contract -/

/-- The thread is registered, and the functions it is in end with this path. -/
def Fasttrack.Inside (ft : Fasttrack) (tid : ℕ) (path : List ℕ) : Prop :=
  ∃ depot, ft.depotOf tid = some depot ∧ path <:+ depot.callPath

namespace Fasttrack.Inside

theorem mem (inside : ft.Inside tid path) : tid ∈ ft.threads := by
  obtain ⟨depot, found, -⟩ := inside
  exact mem_threads_iff_depotOf.mpr ⟨depot, found⟩

/-- A call that neither enters nor leaves a function, or does so in another thread, keeps where a
thread is. -/
theorem keep (inside : ft.Inside tid path) (lasting : call.lasting = true)
    {output : Output} (defined : ft.call layout call = some (later, output))
    (apart : call.still = true ∨ ∀ tls ∈ call.tls?, tls ≠ tid) : later.Inside tid path := by
  obtain ⟨old, found, ends⟩ := inside
  obtain ⟨depot, now, after⟩ := depotOf_of_lasting lasting defined found
  refine ⟨depot, now, ?_⟩
  suffices depot.callPath = old.callPath by rwa [this]
  cases call with
  | read tls pc addr | write tls pc addr =>
    obtain rfl := Option.some.inj after
    split
    · exact StackTrace.callPath_setReadWrite addr pc
    · rfl
  | funcEnter tls pc =>
    have differs : tls ≠ tid := apart.resolve_left Bool.false_ne_true tls rfl
    rw [Event.depotAfter, if_neg differs] at after
    rw [Option.some.inj after]
  | funcExit tls =>
    have differs : tls ≠ tid := apart.resolve_left Bool.false_ne_true tls rfl
    rw [Event.depotAfter, if_neg differs] at after
    rw [Option.some.inj after]
  | _ => rw [Option.some.inj after]

/-- A call that ends another thread keeps where a thread is. -/
theorem keep_ending (inside : ft.Inside tid path) (ending : call.lasting = false)
    {output : Output} (defined : ft.call layout call = some (later, output))
    (stays : tid ∈ later.threads) : later.Inside tid path := by
  obtain ⟨old, found, ends⟩ := inside
  obtain ⟨depot, now⟩ := mem_threads_iff_depotOf.mp stays
  rcases depot_call defined now with ⟨before, was, after⟩ | ⟨none, -⟩
  · obtain rfl := Option.some.inj (found.symm.trans was)
    cases call with
    | join | finish | finalize => exact ⟨depot, now, Option.some.inj after ▸ ends⟩
    | _ => cases ending
  · rw [none] at found
    cases found

/-- A function is entered. -/
theorem enter (inside : ft.Inside tid path) {pc : ℕ} {output : Output}
    (defined : ft.call layout (.funcEnter tid pc) = some (later, output)) :
    later.Inside tid (path ++ [pc]) := by
  obtain ⟨old, found, older, ends⟩ := inside
  obtain ⟨depot, now, after⟩ := depotOf_of_lasting rfl defined found
  rw [Event.depotAfter, if_pos rfl] at after
  obtain rfl := Option.some.inj after
  refine ⟨_, now, older, ?_⟩
  rw [StackTrace.callPath_push, ← ends, List.append_assoc]

/-- A function is left. -/
theorem leave (inside : ft.Inside tid path) (nonempty : path ≠ []) {output : Output}
    (defined : ft.call layout (.funcExit tid) = some (later, output)) :
    later.Inside tid path.dropLast := by
  obtain ⟨old, found, older, ends⟩ := inside
  obtain ⟨depot, now, after⟩ := depotOf_of_lasting rfl defined found
  rw [Event.depotAfter, if_pos rfl] at after
  obtain ⟨element, popped⟩ := StackTrace.callPath_pop after
  refine ⟨depot, now, older, ?_⟩
  rw [← List.dropLast_append_of_ne_nil nonempty, ends, popped, List.dropLast_concat]

end Fasttrack.Inside

/-- The detector knows every announced thread, and the functions it is in. -/
def Fasttrack.Meets (layout : Layout) (ft : Fasttrack) (contract : Contract) : Prop :=
  ∀ tls, ∀ path ∈ contract.paths tls, tls < layout.tidRange ∧ ft.Inside tls path

namespace Fasttrack.Meets

variable {tls : ℕ} {paths : Option (List ℕ)}

/-- What is so for a thread and stays so for the others is so for all threads. -/
theorem set (one : ∀ path ∈ paths, tls < layout.tidRange ∧ later.Inside tls path)
    (others : ∀ other ≠ tls, ∀ path ∈ contract.paths other,
      other < layout.tidRange ∧ later.Inside other path) :
    later.Meets layout (contract.set tls paths) := by
  intro other path member
  by_cases same : other = tls
  · subst same
    rw [Contract.paths_set_self] at member
    exact one path member
  · rw [Contract.paths_set_of_ne same] at member
    exact others other same path member

/-- A call that is neither an end of a thread nor a step into or out of a function. -/
theorem keep (meets : ft.Meets layout contract) (lasting : call.lasting = true)
    (still : call.still = true) {output : Output}
    (defined : ft.call layout call = some (later, output)) : later.Meets layout contract :=
  fun tls path member =>
    ⟨(meets tls path member).1, (meets tls path member).2.keep lasting defined (Or.inl still)⟩

/-- A call of an announced thread is defined. -/
theorem defined (meets : ft.Meets layout contract) (announced : contract.paths tls ≠ none)
    (own : call.tls? = some tls) (stays : ∀ tls, call ≠ .funcExit tls) :
    ∃ later output, ft.call layout call = some (later, output) := by
  obtain ⟨path, found⟩ := Option.ne_none_iff_exists'.mp announced
  refine defined_of_registered layout (fun other member => ?_) stays
  obtain rfl := Option.some.inj (own.symm.trans member)
  exact (meets tls path found).2.mem

/-- A call of an announced thread that does not end it, and neither enters nor leaves a function. -/
theorem told (meets : ft.Meets layout contract) (announced : contract.paths tls ≠ none)
    (own : call.tls? = some tls) (lasting : call.lasting = true) (still : call.still = true) :
    ∃ later output, ft.call layout call = some (later, output) ∧ later.Meets layout contract := by
  obtain ⟨later, output, defined⟩ := meets.defined announced own (by
    rintro tls rfl
    cases still)
  exact ⟨later, output, defined, meets.keep lasting still defined⟩

/-- A call that ends a thread. -/
theorem ending (meets : ft.Meets layout contract) (ending : call.lasting = false)
    {output : Output} (defined : ft.call layout call = some (later, output))
    (stays : ∀ other ≠ tls, other < layout.tidRange → other ∈ ft.threads →
      other ∈ later.threads) : later.Meets layout (contract.set tls none) := by
  refine set (fun path member => absurd member (Option.not_mem_none path))
    fun other differs path member => ?_
  obtain ⟨fits, inside⟩ := meets other path member
  exact ⟨fits, inside.keep_ending ending defined (stays other differs fits inside.mem)⟩

/-- What keeps to the contract is defined on the detector. -/
theorem follow (meets : ft.Meets layout contract)
    (kept : contract.call (· % layout.tidRange) call = some (next, ())) :
    ∃ later output, ft.call layout call = some (later, output) ∧ later.Meets layout next := by
  cases call with
  | fork parent child =>
    obtain ⟨later, output, forks⟩ : ∃ later output,
        ft.call layout (.fork parent child) = some (later, output) := ⟨_, _, rfl⟩
    obtain ⟨-, same⟩ := Option.ite_none_right_eq_some.mp kept
    obtain ⟨rfl, -⟩ := Prod.mk.inj (Option.some.inj same)
    refine ⟨later, output, forks, set (fun path member => ?_) fun other _ path member =>
      meets.keep rfl rfl forks other path member⟩
    obtain rfl := Option.some.inj member
    obtain ⟨depot, found⟩ :=
      mem_threads_iff_depotOf.mp ((mem_threads_call forks).mpr (Or.inl rfl))
    have fits : child % layout.tidRange < layout.tidRange :=
      Nat.mod_lt _ (by rw [layout.tidRange_eq]; exact layout.multplier_pos)
    exact ⟨fits, depot, found, List.nil_suffix⟩
  | join parent child =>
    obtain ⟨later, output, joins⟩ : ∃ later output,
        ft.call layout (.join parent child) = some (later, output) := ⟨_, _, rfl⟩
    obtain ⟨-, same⟩ := Option.ite_none_left_eq_some.mp kept
    obtain ⟨rfl, -⟩ := Prod.mk.inj (Option.some.inj same)
    refine ⟨later, output, joins, meets.ending rfl joins fun other differs fits member =>
      (mem_threads_call joins).mpr ⟨member, fun joined => differs ?_⟩⟩
    exact (Nat.mod_eq_of_lt fits).symm.trans (congrArg (· % layout.tidRange) joined.1)
  | finish tls threadId =>
    obtain ⟨later, output, ends⟩ : ∃ later output,
        ft.call layout (.finish tls threadId) = some (later, output) := ⟨_, _, rfl⟩
    obtain ⟨⟨own, -⟩, same⟩ := Option.ite_none_right_eq_some.mp kept
    obtain ⟨rfl, -⟩ := Prod.mk.inj (Option.some.inj same)
    refine ⟨later, output, ends, meets.ending rfl ends fun other differs fits member =>
      (mem_threads_call ends).mpr ⟨member, fun ended => differs ?_⟩⟩
    exact (Nat.mod_eq_of_lt fits).symm.trans ((congrArg (· % layout.tidRange) ended).trans own.symm)
  | funcEnter tls pc =>
    obtain ⟨path, found, same⟩ := Option.map_eq_some_iff.mp kept
    obtain ⟨rfl, -⟩ := Prod.mk.inj same
    have announced : contract.paths tls ≠ none := found ▸ Option.some_ne_none path
    obtain ⟨later, output, enters⟩ : ∃ later output,
        ft.call layout (.funcEnter tls pc) = some (later, output) :=
      meets.defined announced rfl fun _ => Event.noConfusion
    obtain ⟨fits, inside⟩ := meets tls path found
    refine ⟨later, output, enters, set (fun _ member => ?_) fun other differs _ member =>
      ⟨(meets other _ member).1, (meets other _ member).2.keep rfl enters (Or.inr ?_)⟩⟩
    · obtain rfl := Option.some.inj member
      exact ⟨fits, inside.enter enters⟩
    · exact fun own same => Option.some.inj same ▸ Ne.symm differs
  | funcExit tls =>
    obtain ⟨path, found, leaves⟩ := Option.bind_eq_some_iff.mp kept
    obtain ⟨nonempty, same⟩ := Option.ite_none_left_eq_some.mp leaves
    obtain ⟨rfl, -⟩ := Prod.mk.inj (Option.some.inj same)
    obtain ⟨fits, inside⟩ := meets tls path found
    obtain ⟨later, output, exits⟩ : ∃ later output,
        ft.call layout (.funcExit tls) = some (later, output) := by
      obtain ⟨depot, kept, ends⟩ := inside
      exact defined_of_inside layout kept fun empty =>
        nonempty (List.suffix_nil.mp (empty ▸ ends))
    refine ⟨later, output, exits, set (fun _ member => ?_) fun other differs _ member =>
      ⟨(meets other _ member).1, (meets other _ member).2.keep rfl exits (Or.inr ?_)⟩⟩
    · obtain rfl := Option.some.inj member
      exact ⟨fits, inside.leave nonempty exits⟩
    · exact fun own same => Option.some.inj same ▸ Ne.symm differs
  | mapShadow startaddr sizeInBytes =>
    obtain ⟨rfl, -⟩ := Prod.mk.inj (Option.some.inj kept)
    exact ⟨ft, {}, rfl, meets⟩
  | finalize =>
    obtain ⟨rfl, -⟩ := Prod.mk.inj (Option.some.inj kept)
    exact ⟨_, _, rfl, fun _ path member => absurd member (Option.not_mem_none path)⟩
  | _ =>
    obtain ⟨announced, same⟩ := Option.ite_none_left_eq_some.mp kept
    obtain ⟨rfl, -⟩ := Prod.mk.inj (Option.some.inj same)
    exact meets.told announced rfl rfl rfl

end Fasttrack.Meets

/-- Calls that keep to the contract are a run of the detector, if the handles are those that it
returns. -/
theorem Fasttrack.reaches_of_accepts {handle : ℕ → ℕ} {calls : List Event}
    (returned : ∀ call ∈ calls, ∀ contract : Contract,
      contract.call handle call = contract.call (· % layout.tidRange) call)
    (accepts : (Contract.machine handle).Accepts {} calls contract) :
    ∃ past ft, Drace.Reaches layout past ft ∧ past.map Step.event = calls ∧
      ft.Meets layout contract := by
  have starts : (Fasttrack.machine layout).start {} := ⟨[], rfl⟩
  have nothing : ({} : Fasttrack).Meets layout {} :=
    fun _ path member => absurd member (Option.not_mem_none path)
  have follows : ∀ contract, ∀ call ∈ calls, ∀ next (output : Unit) (ft : Fasttrack),
      contract.call handle call = some (next, output) → ft.Meets layout contract →
      ∃ later result, (Fasttrack.machine layout).call ft call = some (later, result) ∧
        later.Meets layout next :=
    fun contract call member next _ ft kept meets =>
      meets.follow ((returned call member contract).symm.trans kept)
  obtain ⟨ft, accepted, meets⟩ := accepts.follow (Fasttrack.Meets layout) follows nothing
  obtain ⟨past, run, events⟩ := accepted.reaches starts
  exact ⟨past, ft, run, events, meets⟩

/-! ### The client on the detector -/

namespace Client

variable {steps : List (ClientStep layout)} {client : Client layout}

/-- The tids that the ids of the detector have room for. -/
def HasId (layout : Layout) (tid : ℕ) : Prop := tid ≠ 0 ∧ tid < layout.tidRange

instance : DecidablePred (HasId layout) := fun _ => inferInstanceAs (Decidable (_ ∧ _))

/-- The handle of a tid that there is room for is the tid. -/
theorem forkHandle_eq (handles : params.forkHandle = (· % layout.tidRange))
    (hasId : HasId layout tid) : params.forkHandle tid = tid :=
  (congrFun handles tid).trans (Nat.mod_eq_of_lt hasId.2)

/-- What the detector returns for a fork are handles. -/
theorem handles_of_returned
    (returned : ∀ (ft : Fasttrack) parent tid,
      (ft.fork layout parent tid).2 = params.forkHandle tid) :
    params.forkHandle = (· % layout.tidRange) ∧ Handles params (HasId layout) := by
  have handles : params.forkHandle = (· % layout.tidRange) :=
    funext fun tid => (returned {} 0 tid).symm.trans (fork_handle {} 0 tid)
  refine ⟨handles, fun tid hasId => (forkHandle_eq handles hasId).trans_ne hasId.1,
    fun first second firstId secondId same => ?_⟩
  rwa [forkHandle_eq handles firstId, forkHandle_eq handles secondId] at same

/-- If the client keeps the handles that the detector returns, and every thread has a tid with an id
and is announced before its first callback that does not flush, every call the client makes is
defined, however its threads are interleaved: all of its calls, in their order, are a run of the
detector. And in the detector every announced thread is in functions that end with the frames of
its shadow stack. -/
theorem client_calls_defined
    (returned : ∀ (ft : Fasttrack) parent tid,
      (ft.fork layout parent tid).2 = params.forkHandle tid)
    (reaches : (machine params Launched).Reaches steps client)
    (prompt : Always (fun _ step => Prompt (HasId layout) step) steps) :
    ∃ past ft, Drace.Reaches layout past ft ∧ past.map Step.event = client.calls ∧
      ∀ tid, ∀ data ∈ client.threads.lookup tid, data.detectorData ≠ 0 →
        ∃ thread, ft.threads.lookup tid = some thread ∧
          data.stack.frames.reverse <:+ thread.traceDepot.callPath := by
  obtain ⟨handles, proper⟩ := handles_of_returned returned
  obtain ⟨contract, served⟩ := served_of_reaches proper reaches prompt
  obtain ⟨past, ft, run, events, meets⟩ :=
    Fasttrack.reaches_of_accepts (fun _ _ _ => by rw [handles]) served.accepts
  refine ⟨past, ft, run, events, fun tid data member announced => ?_⟩
  obtain ⟨hasId, -, known⟩ := served.threads tid data member
  obtain ⟨-, path, found, frames⟩ := known.resolve_left fun unknown => announced unknown.1.1
  rw [forkHandle_eq handles hasId] at found
  obtain ⟨-, depot, registered, ends⟩ := meets tid path found
  obtain ⟨thread, lookup, rfl⟩ := Option.map_eq_some_iff.mp registered
  exact ⟨thread, lookup, frames.trans ends⟩

/-- The detector returns the tid as it fits. -/
def wrapping : RuntimeConfig := { Session.plain with forkHandle := fun tid => tid % 0x100000000 }

/-- Two threads write under a mutex, one of them in a function, and the other one ends. -/
def handsOver : List (ClientEvent .x64) :=
  [.threadInit 1 fixedBuffer (fun _ => ⟨0, 0, 0⟩) (0, 0), .thread 1 (.funcCall 0x40 0),
    .threadInit 2 fixedBuffer (fun _ => ⟨0, 0, 0⟩) (0, 0), .thread 1 (.record 0x100 0x41 4 true),
    .thread 1 (.mutexLock (some 0) 7 true false), .thread 2 .processBuffer,
    .thread 1 (.record 0x100 0x42 4 true), .thread 1 (.mutexUnlock (some 7) true),
    .thread 2 (.funcCall 0x50 0), .thread 2 (.mutexLock (some 0) 7 true false),
    .thread 2 (.record 0x100 0x51 4 true), .thread 2 (.mutexUnlock (some 7) true),
    .thread 2 (.funcRet 0x50), .threadExit 2]

theorem client_calls_defined_hands_over :
    let client := (ran wrapping Launched {} handsOver).2
    ∃ past ft, Drace.Reaches .x64 past ft ∧ past.map Step.event = client.calls ∧
      ∀ tid, ∀ data ∈ client.threads.lookup tid, data.detectorData ≠ 0 →
        ∃ thread, ft.threads.lookup tid = some thread ∧
          data.stack.frames.reverse <:+ thread.traceDepot.callPath :=
  client_calls_defined fork_handle (reaches_ran wrapping ⟨rfl, rfl⟩ handsOver)
    (by decide +kernel)

end Client

end Drace
