/-
This file says that offline analysis is online analysis, for all that a client does.

A client that records has its calls written to a file instead of analyzed. The file may
end with any entry, as it does when the application is killed. The decoder loads what
there is and replays it on the detector. What the client calls keeps to the contract of
the interface, so the decoder has a cell for every thread it is asked for, and the
detector gets the calls of the client up to there, with the handles the client used. So
it reports what it would have reported online.
-/

import Drace.Replay
import Drace.Serving
import Drace.TraceDecoder

namespace Drace

open DetectorOutput Machine

variable {layout : Layout} {params : RuntimeConfig} {handle : List Event → ℕ}
  {calls front : List Event} {call event : Event} {contract next : Contract} {valid : ℕ → Prop}
  {tid : ℕ}

/-! ### What the client calls -/

/-- A call that the client may make: it announces and ends threads with a valid tid only, and
detaches and finishes none. -/
def Event.Made (valid : ℕ → Prop) : Event → Prop
  | .fork _ child | .join _ child => valid child
  | .detach .. | .finish .. | .mapShadow .. | .finalize => False
  | _ => True

namespace Event

theorem Gentle.made {own : ℕ → ℕ} (gentle : call.Gentle own tid) (fits : valid tid) :
    call.Made valid := by
  cases call with
  | fork parent child => exact (show child = tid from gentle) ▸ fits
  | join | detach | finish | mapShadow | finalize => exact gentle.elim
  | _ => trivial

namespace Made

theorem readBack (made : call.Made valid) : call.ReadBack := by
  cases call with
  | detach | finish | mapShadow | finalize => exact made.elim
  | _ => trivial

theorem ne_finalize (made : call.Made valid) : call ≠ .finalize := by
  rintro rfl
  exact made

theorem record_isSome (made : call.Made valid) : (TraceBinary.record layout call).isSome := by
  cases call with
  | mapShadow | finalize => exact made.elim
  | _ => rfl

end Made

/-- A call with the handle that it has. -/
theorem withTls_self {tls : ℕ} (own : event.tls? = some tls) : event.withTls tls = event := by
  cases event with
  | fork | join | mapShadow | finalize => cases own
  | _ => exact Option.some.inj own ▸ rfl

end Event

namespace Client

variable {steps : List (ClientStep layout)} {client later : Client layout}

/-- One event of the client adds calls that it may make. -/
theorem made_call (handles : Handles params valid) {event : ClientEvent layout} {output : Unit}
    (defined : client.call params event = some (later, output))
    (prompt : Prompt valid (⟨client, event, later, output⟩ : ClientStep layout))
    (served : Served params valid client contract)
    (made : ∀ call ∈ client.calls, call.Made valid) : ∀ call ∈ later.calls, call.Made valid := by
  cases event with
  | threadInit tid memBuf memory appstack =>
    obtain ⟨rfl, -⟩ := Prod.mk.inj (Option.some.inj defined)
    exact made
  | threadExit tid =>
    obtain ⟨data, found, same⟩ := Option.map_eq_some_iff.mp defined
    obtain ⟨rfl, -⟩ := Prod.mk.inj same
    obtain ⟨fits, own, -⟩ := served.threads tid data found
    obtain ⟨-, new, added, gentle⟩ :=
      feeds_processBuffer (handles.nonzero tid fits) contract (served.fed found)
    show ∀ call ∈ ((client.session data).processBuffer params).calls ++ _, call.Made valid
    rw [added, List.append_assoc]
    refine List.forall_mem_append.mpr ⟨made, List.forall_mem_append.mpr
      ⟨fun call member => (gentle call member).made fits, List.forall_mem_singleton.mpr ?_⟩⟩
    exact own ▸ fits
  | thread tid event =>
    obtain ⟨data, found, same⟩ := Option.map_eq_some_iff.mp defined
    obtain ⟨rfl, -⟩ := Prod.mk.inj same
    obtain ⟨fits, -, -⟩ := served.threads tid data found
    obtain ⟨-, new, added, gentle⟩ := feeds_step (handles.nonzero tid fits) event
      (fun direct => prompt direct data found) contract (served.fed found)
    show ∀ call ∈ ((client.session data).step params event).calls, call.Made valid
    rw [added]
    exact List.forall_mem_append.mpr ⟨made, fun call member => (gentle call member).made fits⟩
  | enableDetector enabled =>
    obtain ⟨rfl, -⟩ := Prod.mk.inj (Option.some.inj defined)
    exact made
  | setSamplingrate rate =>
    obtain ⟨rfl, -⟩ := Prod.mk.inj (Option.some.inj defined)
    exact made

/-- The client makes only calls that it may make, and keeps to the contract. -/
theorem made_of_reaches (handles : Handles params valid)
    (reaches : (machine params Launched).Reaches steps client)
    (prompt : Always (fun _ step => Prompt valid step) steps) :
    (∃ contract, Served params valid client contract) ∧ ∀ call ∈ client.calls, call.Made valid := by
  refine Machine.Reaches.induct (fun _ client => (∃ contract, Served params valid client contract) ∧
    ∀ call ∈ client.calls, call.Made valid) ?_ ?_ reaches prompt
  · intro client launched
    refine ⟨⟨{}, served_of_launched launched⟩, fun call member => ?_⟩
    rw [launched.2] at member
    exact absurd member List.not_mem_nil
  · rintro past before event next output - defined prompt ⟨⟨contract, served⟩, made⟩
    exact ⟨served_call handles defined prompt served,
      made_call handles defined prompt served made⟩

end Client

/-! ### Recording -/

/-- The threads with a cell are those that are announced. -/
theorem alive_of_call (made : call.Made valid)
    (kept : contract.call TraceBinary.tls call = some (next, ()))
    (lives : ∀ tid, tid ∈ alive front ↔ contract.paths tid ≠ none) (tid : ℕ) :
    tid ∈ alive (front ++ [call]) ↔ next.paths tid ≠ none := by
  rw [alive_append]
  cases call with
  | fork parent child =>
    obtain ⟨-, same⟩ := Option.ite_none_right_eq_some.mp kept
    obtain ⟨rfl, -⟩ := Prod.mk.inj (Option.some.inj same)
    show tid ∈ insert child (alive front) ↔ _
    rw [Finset.mem_insert, lives]
    by_cases same : tid = child
    · subst same
      exact iff_of_true (Or.inl rfl) (Contract.paths_set_self ▸ Option.some_ne_none _)
    · rw [Contract.paths_set_of_ne (show tid ≠ TraceBinary.tls child from same)]
      exact or_iff_right same
  | join parent child =>
    obtain ⟨-, same⟩ := Option.ite_none_left_eq_some.mp kept
    obtain ⟨rfl, -⟩ := Prod.mk.inj (Option.some.inj same)
    show tid ∈ (alive front).erase child ↔ _
    rw [Finset.mem_erase, lives]
    by_cases same : tid = child
    · subst same
      exact iff_of_false (fun both => both.1 rfl) fun announced =>
        announced Contract.paths_set_self
    · rw [Contract.paths_set_of_ne (show tid ≠ TraceBinary.tls child from same)]
      exact and_iff_right same
  | detach | finish | mapShadow | finalize => exact made.elim
  | funcEnter tls pc =>
    obtain ⟨path, found, same⟩ := Option.map_eq_some_iff.mp kept
    obtain ⟨rfl, -⟩ := Prod.mk.inj same
    exact (lives tid).trans
      (contract.set_some_iff (found ▸ Option.some_ne_none path) tid).symm
  | funcExit tls =>
    obtain ⟨path, found, leaves⟩ := Option.bind_eq_some_iff.mp kept
    obtain ⟨-, same⟩ := Option.ite_none_left_eq_some.mp leaves
    obtain ⟨rfl, -⟩ := Prod.mk.inj (Option.some.inj same)
    exact (lives tid).trans
      (contract.set_some_iff (found ▸ Option.some_ne_none path) tid).symm
  | _ =>
    obtain ⟨-, same⟩ := Option.ite_none_left_eq_some.mp kept
    obtain ⟨rfl, -⟩ := Prod.mk.inj (Option.some.inj same)
    exact lives tid

/-- Only a free thread is forked. -/
theorem free_of_call (kept : contract.call TraceBinary.tls call = some (next, ())) {child : ℕ}
    (forks : call.forks? = some child) : contract.paths child = none := by
  cases call with
  | fork =>
    obtain rfl := Option.some.inj forks
    exact (Option.ite_none_right_eq_some.mp kept).1
  | _ => cases forks

/-- A call with a handle comes from an announced thread. -/
theorem announced_of_call (made : call.Made valid)
    (kept : contract.call TraceBinary.tls call = some (next, ())) {tls : ℕ}
    (own : call.tls? = some tls) : contract.paths tls ≠ none := by
  cases call with
  | fork | join | mapShadow | finalize => cases own
  | detach | finish => exact made.elim
  | funcEnter =>
    obtain rfl := Option.some.inj own
    obtain ⟨path, found, -⟩ := Option.map_eq_some_iff.mp kept
    exact found ▸ Option.some_ne_none path
  | funcExit =>
    obtain rfl := Option.some.inj own
    obtain ⟨path, found, -⟩ := Option.bind_eq_some_iff.mp kept
    exact found ▸ Option.some_ne_none path
  | _ =>
    obtain rfl := Option.some.inj own
    exact (Option.ite_none_left_eq_some.mp kept).1

/-- A condition holds along calls with one more if the last one meets it. -/
theorem Along.concat {condition : List Event → Event → Prop} (along : Along condition calls)
    (last : condition calls call) : Along condition (calls ++ [call]) := by
  intro front event initial
  rcases List.prefix_concat_iff.mp initial with same | shorter
  · obtain ⟨rfl, one⟩ := List.append_inj' same rfl
    exact List.singleton_inj.mp one ▸ last
  · exact along front event shorter

/-- Calls that keep to the contract are recorded as they should, if the handles are those of the
recording detector and the arguments are values of their types. -/
theorem legal_of_accepts (made : ∀ call ∈ calls, call.Made valid)
    (fits : ∀ call ∈ calls, call.InRange layout)
    (accepts : (Contract.machine TraceBinary.tls).Accepts {} calls contract) :
    Along (Legal layout) calls := by
  obtain ⟨kept, reaches, rfl⟩ := accepts.reaches rfl
  have always : Always (fun _ step => step.event.Made valid ∧ step.event.InRange layout) kept :=
    always_iff_forall_mem.mpr fun step member =>
      ⟨made _ (List.mem_map_of_mem member), fits _ (List.mem_map_of_mem member)⟩
  refine (Machine.Reaches.induct (fun kept contract =>
    (∀ tid, tid ∈ alive (kept.map Step.event) ↔ contract.paths tid ≠ none) ∧
      Along (Legal layout) (kept.map Step.event)) ?_ ?_ reaches always).2
  · rintro _ rfl
    refine ⟨fun tid => iff_of_false (Finset.notMem_empty tid) fun announced => announced rfl, ?_⟩
    exact fun front event initial => absurd (List.prefix_nil.mp initial) (List.concat_ne_nil _ _)
  · rintro kept contract call next ⟨⟩ - defined ⟨made, fits⟩ ⟨lives, legal⟩
    rw [List.map_append]
    refine ⟨alive_of_call made defined lives, legal.concat ⟨fits, fun tls own => ?_,
      fun child forks member => ?_, made.ne_finalize⟩⟩
    · exact ⟨tls, (lives tls).mpr (announced_of_call made defined own), rfl⟩
    · exact (lives child).mp member (free_of_call defined forks)

/-! ### Replaying -/

/-- The replayed detector gives a thread the handle that the recording one gave it. -/
def Returns (handle : List Event → ℕ) (calls : List Event) : Prop :=
  ∀ front parent child, front ++ [.fork parent child] <+: calls →
    handle (front ++ [.fork parent child]) = child

theorem Returns.before (returns : Returns handle calls) (initial : front <+: calls) :
    Returns handle front :=
  fun earlier parent child shorter => returns earlier parent child (shorter.trans initial)

theorem Returns.latest_eq (returns : Returns handle calls) {current : ℕ}
    (known : latest handle calls tid = some current) : current = tid := by
  induction calls using List.reverseRecOn with
  | nil => cases known
  | append_singleton calls call inductionHypothesis =>
    rw [latest_append] at known
    split at known
    · next forks =>
      cases call with
      | fork parent child =>
        obtain rfl := Option.some.inj forks
        exact (Option.some.inj known).symm.trans (returns calls parent child List.prefix_rfl)
      | _ => cases forks
    · exact inductionHypothesis (returns.before (List.prefix_append _ _)) known

/-- The replayed detector sees the recorded call itself. -/
theorem Returns.expected_eq (returns : Returns handle calls)
    (expects : call ∈ expected handle calls event) : call = event := by
  unfold expected at expects
  split at expects
  · next tls calling =>
    obtain ⟨current, known, rfl⟩ := Option.map_eq_some_iff.mp expects
    rw [returns.latest_eq known]
    exact Event.withTls_self calling
  · exact (Option.some.inj expects).symm

/-- Calls that are recorded as they should and can be read back are replayed as they are. -/
theorem Returns.replay_calls (returns : Returns handle calls) (legal : Along (Legal layout) calls)
    (readBack : ∀ call ∈ calls, call.ReadBack) :
    ∃ output ∈ replay handle layout calls, output.calls = calls := by
  suffices ∀ front, front <+: calls → ∃ output ∈ replay handle layout front,
      Mirrors handle front output ∧ output.calls = front by
    obtain ⟨output, reached, -, same⟩ := this calls List.prefix_rfl
    exact ⟨output, reached, same⟩
  intro front initial
  induction front using List.reverseRecOn with
  | nil => exact ⟨{}, rfl, mirrors_nil, rfl⟩
  | append_singleton front event inductionHypothesis =>
    have shorter : front <+: calls := (List.prefix_append _ _).trans initial
    obtain ⟨output, reached, mirrors, same⟩ := inductionHypothesis shorter
    have here := legal front event initial
    have member : event ∈ calls :=
      initial.subset (List.mem_append_right _ (List.mem_singleton_self _))
    obtain ⟨after, followed, replayed, mirrored⟩ := mirrors.replayed here (readBack event member)
    obtain ⟨call, expects, written⟩ := replayed.calls
    rw [same] at expects written
    refine ⟨after, (replay_append_of_legal reached here).trans followed, mirrored, ?_⟩
    rw [written, (returns.before shorter).expected_eq expects]

/-! ### Files -/

variable {allocates : ℕ → Bool} {images : List (List UInt8)} {file : List UInt8}

/-- A file that ends with an entry is decoded safely. -/
theorem WholeEntries.decodes (whole : WholeEntries layout allocates file) :
    DecodesSafely layout allocates file := by
  obtain ⟨divides, small, memory⟩ := whole
  rw [DecodesSafely, decode_eq]
  dsimp only
  rw [Nat.mod_eq_of_lt small, if_neg]
  · exact ⟨(Nat.div_mul_cancel divides).ge, rfl⟩
  · rintro ⟨some, refused⟩
    have nonempty : file ≠ [] := by
      rintro rfl
      exact some (Nat.zero_div _)
    exact absurd (memory nonempty) (Bool.eq_false_iff.mp refused)

/-- If each call is recorded, the first calls are recorded in the first entries. -/
theorem trace_take (recorded : ∀ call ∈ calls, (TraceBinary.record layout call).isSome)
    (count : ℕ) :
    (TraceBinary.trace layout calls).take count = TraceBinary.trace layout (calls.take count) := by
  induction calls generalizing count with
  | nil => rw [List.take_nil, TraceBinary.trace, List.filterMap_nil, List.take_nil]
  | cons call rest inductionHypothesis =>
    obtain ⟨here, others⟩ := List.forall_mem_cons.mp recorded
    obtain ⟨entry, writes⟩ := Option.isSome_iff_exists.mp here
    cases count with
    | zero => rfl
    | succ count =>
      have tail := inductionHypothesis others count
      unfold TraceBinary.trace at tail ⊢
      rw [List.take_succ_cons, List.filterMap_cons_some writes, List.filterMap_cons_some writes,
        List.take_succ_cons, tail]

theorem length_flatten_images {entries : List Ipc.BufferEntry}
    (written : List.Forall₂ (IsImage layout) entries images) :
    images.flatten.length = entries.length * layout.sizeofBufferEntry := by
  induction written with
  | nil => rw [List.flatten_nil, List.length_nil, List.length_nil, Nat.zero_mul]
  | cons image _ inductionHypothesis =>
    rw [List.flatten_cons, List.length_append, inductionHypothesis, image.1, List.length_cons,
      Nat.succ_mul, Nat.add_comm]

/-- The entries of a file are what was written to it. -/
theorem completeEntries_flatten
    (written : List.Forall₂ (IsImage layout) (TraceBinary.trace layout calls) images) :
    completeEntries layout images.flatten = TraceBinary.trace layout calls := by
  have whole := completeEntries_trace written images.flatten.length
  rwa [List.take_length, length_flatten_images written,
    Nat.mul_div_cancel _ layout.sizeofBufferEntry_pos, List.take_length] at whole

/-- A file with the images of entries ends with an entry. -/
theorem wholeEntries_flatten {entries : List Ipc.BufferEntry}
    (written : List.Forall₂ (IsImage layout) entries images)
    (small : entries.length < layout.sizeRange) (memory : allocates entries.length = true) :
    WholeEntries layout allocates images.flatten := by
  rw [WholeEntries, length_flatten_images written,
    Nat.mul_div_cancel _ layout.sizeofBufferEntry_pos]
  exact ⟨Nat.dvd_mul_left _ _, small, fun _ => memory⟩

/-! ### The client -/

/-- For threads with a valid tid, the two detectors return the same handle. -/
theorem call_tls_eq (made : call.Made (Client.HasId layout)) (contract : Contract) :
    contract.call TraceBinary.tls call = contract.call (· % layout.tidRange) call := by
  have same : ∀ child, Client.HasId layout child →
      child % layout.tidRange = TraceBinary.tls child := fun child hasId => Nat.mod_eq_of_lt hasId.2
  cases call with
  | fork parent child =>
    unfold Contract.call
    simp only [same child made]
  | join parent child =>
    unfold Contract.call
    simp only [same child made]
  | finish => exact made.elim
  | _ => rfl

namespace Client

variable {steps : List (ClientStep layout)} {client : Client layout}

/-- If a client records, and every thread has a tid with an id and is announced before its first
callback that does not flush, its calls are a run of the detector. And a file with any number of
the first entries is decoded safely, and the decoder makes just the first calls of this run on the
detector, so that it analyzes what would have been analyzed online. The arguments of the calls and
their number fit into their types, and there is memory for the entries. -/
theorem client_analyzed_offline (records : params.forkHandle = TraceBinary.tls)
    (returned : ∀ (ft : Fasttrack) front parent child,
      handle (front ++ [.fork parent child]) = (ft.fork layout parent child).2)
    (reaches : (machine params Launched).Reaches steps client)
    (prompt : Always (fun _ step => Prompt (HasId layout) step) steps)
    (fits : ∀ call ∈ client.calls, call.InRange layout)
    (written : List.Forall₂ (IsImage layout) (TraceBinary.trace layout client.calls) images)
    (small : client.calls.length < layout.sizeRange)
    (memory : ∀ count ≤ client.calls.length, allocates count = true) :
    ∃ past ft, Drace.Reaches layout past ft ∧ past.map Step.event = client.calls ∧
      ∀ count, DecodesSafely layout allocates (images.take count).flatten ∧
        ∃ output earlier, (decode layout allocates (images.take count).flatten).replayed.foldlM
            (makeOutput handle layout) {} = some output ∧
          Drace.Reaches layout (past.take count) earlier ∧
          output.calls = (past.take count).map Step.event := by
  have handles : Handles params (HasId layout) := {
    nonzero := fun tid hasId => records ▸ hasId.1
    injective := fun first second _ _ same => by rwa [records] at same }
  obtain ⟨⟨contract, served⟩, made⟩ := made_of_reaches handles reaches prompt
  have accepts := served.accepts
  rw [records] at accepts
  obtain ⟨past, ft, run, events, -⟩ := Fasttrack.reaches_of_accepts
    (fun call member contract => call_tls_eq (made call member) contract) accepts
  have legal := legal_of_accepts made fits accepts
  have returns : Returns handle client.calls := by
    intro front parent child initial
    have forked : Event.fork parent child ∈ client.calls :=
      initial.subset (List.mem_append_right _ (List.mem_singleton_self _))
    rw [returned {} front parent child, fork_handle]
    exact Nat.mod_eq_of_lt (made _ forked).2
  refine ⟨past, ft, run, events, fun count => ?_⟩
  have initial : client.calls.take count <+: client.calls := List.take_prefix _ _
  have madeFirst := fun call member => made call (initial.subset member)
  have entries : List.Forall₂ (IsImage layout)
      (TraceBinary.trace layout (client.calls.take count)) (images.take count) := by
    rw [← trace_take (fun call member => (made call member).record_isSome)]
    exact List.forall₂_take count written
  have fewer :
      (TraceBinary.trace layout (client.calls.take count)).length ≤ client.calls.length :=
    (List.length_filterMap_le _ _).trans initial.length_le
  have decodes := (wholeEntries_flatten entries (fewer.trans_lt small)
    (memory _ fewer)).decodes
  obtain ⟨output, replays, same⟩ := (returns.before initial).replay_calls
    (fun front event shorter => legal front event (shorter.trans initial))
    (fun call member => (madeFirst call member).readBack)
  obtain ⟨earlier, before⟩ := run.initial (List.take_prefix count past)
  refine ⟨decodes, output, earlier, ?_, before, ?_⟩
  · rw [decodes.2, completeEntries_flatten entries]
    exact replays
  · rw [same, List.map_take, events]

/-- The client hands its calls to the recording detector. -/
def recording : RuntimeConfig := { Session.plain with forkHandle := TraceBinary.tls }

/-- The bytes of an entry, with zeros between the kind and the union. -/
def imageOf (layout : Layout) (entry : Ipc.BufferEntry) : List UInt8 :=
  (List.range layout.sizeofBufferEntry).map fun place =>
    if place = 0 then UInt8.ofNat entry.type.toByte
    else UInt8.ofNat (entry.payload (place - layout.sizeofPtr))

/-- The handle of the thread that was forked last. -/
def lastForked (layout : Layout) (calls : List Event) : ℕ :=
  ((calls.getLast?.bind Event.forks?).getD 0) % layout.tidRange

instance (entry : Ipc.BufferEntry) (bytes : List UInt8) : Decidable (IsImage layout entry bytes) :=
  inferInstanceAs (Decidable (_ ∧ _ ∧ _))

theorem client_analyzed_offline_hands_over :
    let client := (ran recording Launched {} handsOver).2
    let images := (TraceBinary.trace .x64 client.calls).map (imageOf .x64)
    ∃ past ft, Drace.Reaches .x64 past ft ∧ past.map Step.event = client.calls ∧
      ∀ count, DecodesSafely .x64 (fun _ => true) (images.take count).flatten ∧
        ∃ output earlier, (decode .x64 (fun _ => true) (images.take count).flatten).replayed.foldlM
            (makeOutput (lastForked .x64) .x64) {} = some output ∧
          Drace.Reaches .x64 (past.take count) earlier ∧
          output.calls = (past.take count).map Step.event := by
  have returned : ∀ (ft : Fasttrack) front parent child,
      lastForked .x64 (front ++ [.fork parent child]) = (ft.fork .x64 parent child).2 := by
    intro ft front parent child
    rw [fork_handle, lastForked, List.getLast?_concat]
    rfl
  have written : List.Forall₂ (IsImage .x64)
      (TraceBinary.trace .x64 (ran recording Launched {} handsOver).2.calls)
      ((TraceBinary.trace .x64 (ran recording Launched {} handsOver).2.calls).map (imageOf .x64)) :=
    List.forall₂_map_right_iff.mpr (List.forall₂_same.mpr (by decide +kernel))
  exact client_analyzed_offline rfl returned (reaches_ran recording ⟨rfl, rfl⟩ handsOver)
    (by decide +kernel) (by decide +kernel) written (by decide +kernel) fun _ _ => rfl

end Client

end Drace
