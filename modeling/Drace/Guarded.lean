/-
This file says that nothing is reported for an address that a mutex guards.

An address is guarded by a mutex if every thread holds the mutex when it accesses the
address, and holds it exclusively when it writes. An access then has been published
by its thread, which has released the mutex since, or its thread still holds the
mutex. So a thread that writes, or reads what another one has written, has heard of
all accesses it conflicts with, whichever threads make them and in which order the
mutex is handed around.
-/

import Drace.Thinning
import Drace.LockDiscipline
import Drace.Replay

namespace Drace

open Causality Clocks Machine

/-- Whoever accesses the address holds the mutex, and holds it exclusively for a write. -/
def Guarded (addr mutex : ℕ) (front : List Step) (step : Step) : Prop :=
  ∀ access ∈ step.event.access?, access.addr = addr →
    ∃ hold ∈ holdsOf front, hold.tls = access.tls ∧ hold.mutex = mutex ∧
      (access.write = true → hold.write = true)

instance (addr mutex : ℕ) (front : List Step) (step : Step) :
    Decidable (Guarded addr mutex front step) :=
  inferInstanceAs (Decidable (∀ access ∈ step.event.access?, _ → ∃ hold ∈ holdsOf front, _))

/-- No thread ends while it holds the mutex. -/
def EndsWithout (mutex : ℕ) (front : List Step) (step : Step) : Prop :=
  ∀ hold ∈ holdsOf front, hold.mutex = mutex → step.event.ends? ≠ some hold.tls

instance (mutex : ℕ) (front : List Step) (step : Step) : Decidable (EndsWithout mutex front step) :=
  inferInstanceAs (Decidable (∀ hold ∈ holdsOf front, _ → _))

/-- An acquire shares the mutex with other threads only if all of them hold it shared. -/
def Event.Excludes (holds : List Hold) : Event → Prop
  | .acquire tls mutex _ exclusive =>
    ∀ hold ∈ holds, hold.mutex = mutex → hold.tls = tls ∨ hold.write = false ∧ exclusive = false
  | _ => True

instance (holds : List Hold) : (event : Event) → Decidable (event.Excludes holds)
  | .acquire .. => inferInstanceAs (Decidable (∀ _ ∈ holds, _ → _))
  | .read .. | .write .. | .allocate .. | .deallocate .. | .happensBefore .. => isTrue trivial
  | .happensAfter .. | .release .. | .fork .. | .join .. | .detach .. => isTrue trivial
  | .finish .. | .funcEnter .. | .funcExit .. | .mapShadow .. | .finalize => isTrue trivial

/-- A hold of a thread keeps others from what conflicts with an access. -/
def Shields (holds : List Hold) (mutex tid : ℕ) (kind : Bool) : Prop :=
  ∃ hold ∈ holds, hold.tls = tid ∧ hold.mutex = mutex ∧ (kind = true → hold.write = true)

variable {layout : Layout} {past : List Step} {ft : Fasttrack} {step : Step} {holds : List Hold}
  {hold : Hold} {addr mutex tid tls id position : ℕ} {kind : Bool}

/-- What the guard says about the accesses so far: threads exclude each other, an access whose
thread is registered is shielded or published, and whoever could conflict with it has heard of
it. -/
structure Guards (layout : Layout) (addr mutex : ℕ) (past : List Step) (ft : Fasttrack) : Prop where
  excludes : ∀ hold ∈ holdsOf past, ∀ other ∈ holdsOf past, hold.write = true →
    other.mutex = hold.mutex → other.tls = hold.tls
  published : ∀ position step kind tid id, past[position]? = some step →
    Makes step kind addr tid id → tid ∈ ft.threads →
    Shields (holdsOf past) mutex tid kind ∨
      position ∈ (flow layout joinsLive).Past past (.mutex mutex)
  heard : ∀ position step kind tid id, past[position]? = some step →
    Makes step kind addr tid id → tid ∈ ft.threads → ∀ hold ∈ holdsOf past,
    hold.mutex = mutex → kind = true ∨ hold.write = true →
    position ∈ (flow layout joinsLive).Past past (.thread hold.tls)

/-! ### Holds -/

/-- Threads whose acquires exclude each other go on doing so. -/
theorem excludes_holdsAfter {event : Event} (apart : event.Excludes holds)
    (excludes : ∀ hold ∈ holds, ∀ other ∈ holds, hold.write = true →
      other.mutex = hold.mutex → other.tls = hold.tls) :
    ∀ hold ∈ event.holdsAfter holds, ∀ other ∈ event.holdsAfter holds, hold.write = true →
      other.mutex = hold.mutex → other.tls = hold.tls := by
  have fewer : ∀ rest : List Hold, rest ⊆ holds → ∀ hold ∈ rest, ∀ other ∈ rest,
      hold.write = true → other.mutex = hold.mutex → other.tls = hold.tls :=
    fun rest subset hold member other otherMember =>
      excludes hold (subset member) other (subset otherMember)
  cases event with
  | acquire tls mutex recursive exclusive =>
    intro hold member other otherMember exclusiveHold sameMutex
    rcases List.mem_cons.mp member with rfl | old <;>
      rcases List.mem_cons.mp otherMember with rfl | otherOld
    · rfl
    · rcases apart other otherOld sameMutex with same | ⟨-, shared⟩
      · exact same
      · exact absurd (shared.symm.trans exclusiveHold) (by decide)
    · rcases apart hold old sameMutex.symm with same | ⟨shared, -⟩
      · exact same.symm
      · exact absurd (shared.symm.trans exclusiveHold) (by decide)
    · exact excludes hold old other otherOld exclusiveHold sameMutex
  | release tls mutex exclusive => exact fewer _ List.erase_subset
  | join parent child => exact fewer _ (List.filter_subset_self _)
  | finish tls threadId => exact fewer _ (List.filter_subset_self _)
  | finalize => exact fun hold member => absurd member List.not_mem_nil
  | _ => exact excludes

/-- A thread shields its access until it releases the mutex. -/
theorem Shields.after {event : Event} (shields : Shields holds mutex tid kind)
    (ends : ∀ hold ∈ holds, hold.mutex = mutex → event.ends? ≠ some hold.tls)
    (goes : event ≠ .finalize) :
    Shields (event.holdsAfter holds) mutex tid kind ∨
      ∃ exclusive, event = .release tid mutex exclusive := by
  obtain ⟨hold, member, rfl, rfl, exclusive⟩ := shields
  have stays : hold ∈ event.holdsAfter holds →
      Shields (event.holdsAfter holds) hold.mutex hold.tls kind :=
    fun stays => ⟨hold, stays, rfl, rfl, exclusive⟩
  have lives := ends hold member rfl
  cases event with
  | acquire => exact Or.inl (stays (List.mem_cons_of_mem _ member))
  | release tls released mode =>
    by_cases given : hold = ⟨tls, released, mode⟩
    · exact Or.inr ⟨mode, by rw [given]⟩
    · exact Or.inl (stays ((List.mem_erase_of_ne given).mpr member))
  | join parent child =>
    refine Or.inl (stays (List.mem_filter.mpr ⟨member, decide_eq_true fun same => lives ?_⟩))
    rw [same]
    rfl
  | finish tls threadId =>
    refine Or.inl (stays (List.mem_filter.mpr ⟨member, decide_eq_true fun same => lives ?_⟩))
    rw [same]
    rfl
  | finalize => exact absurd rfl goes
  | _ => exact Or.inl (stays member)

/-- A hold after an event was there before, or its thread has just acquired the mutex. -/
theorem mem_holdsAfter {event : Event} (member : hold ∈ event.holdsAfter holds) :
    hold ∈ holds ∨ ∃ recursive, event = .acquire hold.tls hold.mutex recursive hold.write := by
  cases event with
  | acquire tls mutex recursive exclusive =>
    rcases List.mem_cons.mp member with rfl | old
    · exact Or.inr ⟨recursive, rfl⟩
    · exact Or.inl old
  | release => exact Or.inl (List.mem_of_mem_erase member)
  | join | finish => exact Or.inl (List.mem_filter.mp member).1
  | finalize => exact absurd member List.not_mem_nil
  | _ => exact Or.inl member

/-- An access leaves the holds as they are. -/
theorem holdsAfter_of_access {event : Event} {access : Access}
    (accesses : event.access? = some access) : event.holdsAfter holds = holds := by
  cases event with
  | read | write => rfl
  | _ => cases accesses

/-! ### One step -/

/-- A thread that has made an access and is not registered any more does not come back. -/
theorem registered_before {earlier : Step} (covered : Covered layout past step.pre.clocks)
    (obeys : Obeys layout past step)
    (defined : step.pre.call layout step.event = some (step.post, step.output))
    (made : earlier ∈ past) (makes : Makes earlier kind addr tid id)
    (registered : tid ∈ step.post.threads) : tid ∈ step.pre.threads := by
  have registers := (Fasttrack.mem_threads_call defined).mp registered
  obtain ⟨pre, event, post, output⟩ := step
  cases event with
  | fork parent child =>
    rcases registers with rfl | was
    · obtain ⟨access, accesses, -, -, same, -⟩ := makes
      have puts : earlier.pre.clocks.Puts layout earlier.event
          (.thread (child % layout.tidRange)) :=
        Or.inl (same ▸ caller_of_access accesses _)
      obtain ⟨fits, fresh⟩ := obeys.forksOnce child rfl
      rw [Nat.mod_eq_of_lt fits] at puts
      exact absurd (covered.forked.heard earlier made _ puts) fresh
    · exact was
  | join | finish => exact registers.1
  | finalize => cases registers
  | _ => exact registers

/-- A thread has heard of its own accesses. -/
theorem Makes.mem_past (makes : Makes step kind addr tid id) (found : past[position]? = some step) :
    position ∈ (flow layout joinsLive).Past past (.thread tid) :=
  Flow.mem_past_of_puts found (Or.inl makes.stamp.1)

/-- The holder of the guard excludes whoever conflicts with its access. -/
theorem Guards.same_thread (guards : Guards layout addr mutex past ft)
    (shields : Shields (holdsOf past) mutex tid kind) (held : hold ∈ holdsOf past)
    (atMutex : hold.mutex = mutex) (conflict : kind = true ∨ hold.write = true) :
    hold.tls = tid := by
  obtain ⟨own, member, rfl, rfl, exclusive⟩ := shields
  rcases conflict with write | write
  · exact guards.excludes own member hold held (exclusive write) atMutex
  · exact (guards.excludes hold held own member write atMutex.symm).symm

/-- The thread of an access shields it. -/
theorem Guarded.shields (guarded : Guarded addr mutex past step)
    (makes : Makes step kind addr tid id) : Shields (holdsOf past) mutex tid kind := by
  obtain ⟨access, accesses, rfl, atAddr, rfl, -⟩ := makes
  obtain ⟨hold, member, same, atMutex, exclusive⟩ := guarded access accesses atAddr
  exact ⟨hold, member, same, atMutex, exclusive⟩

theorem Makes.holdsAfter_eq (makes : Makes step kind addr tid id) :
    holdsOf (past ++ [step]) = holdsOf past := by
  obtain ⟨access, accesses, -⟩ := makes
  rw [holdsOf_append, holdsAfter_of_access accesses]

/-- Each event keeps what the guard says. -/
theorem Guards.append (guards : Guards layout addr mutex past step.pre)
    (covered : Covered layout past step.pre.clocks) (obeys : Obeys layout past step)
    (apart : step.event.Excludes (holdsOf past)) (guarded : Guarded addr mutex past step)
    (ends : EndsWithout mutex past step)
    (defined : step.pre.call layout step.event = some (step.post, step.output)) :
    Guards layout addr mutex (past ++ [step]) step.post := by
  have excludes := excludes_holdsAfter apart guards.excludes
  rw [← holdsOf_append] at excludes
  refine ⟨excludes, ?_, ?_⟩
  · intro position earlier kind tid id found makes registered
    rcases getElem?_concat_or found with old | ⟨rfl, rfl⟩
    · have made := List.mem_of_getElem? old
      have was := registered_before covered obeys defined made makes registered
      rcases guards.published position earlier kind tid id old makes was with shields | known
      · rcases shields.after ends obeys.goes with stays | ⟨exclusive, releases⟩
        · rw [holdsOf_append]
          exact Or.inl stays
        · -- the release publishes what its thread has done
          refine Or.inr (Flow.mem_past_append.mpr (Or.inr ⟨?_, Or.inr ⟨.thread tid, ?_, ?_⟩⟩))
          · show step.event.releases? = some mutex
            rw [releases]
            rfl
          · show step.pre.clocks.Takes joinsLive step.event (.thread tid)
            rw [releases]
            exact Or.inl rfl
          · exact makes.mem_past old
      · exact Or.inr (Flow.mem_past_append.mpr (Or.inl known))
    · rw [makes.holdsAfter_eq]
      exact Or.inl (guarded.shields makes)
  · intro position earlier kind tid id found makes registered hold member atMutex conflict
    rcases getElem?_concat_or found with old | ⟨rfl, rfl⟩
    · have made := List.mem_of_getElem? old
      have was := registered_before covered obeys defined made makes registered
      rw [holdsOf_append] at member
      rcases mem_holdsAfter member with held | ⟨recursive, acquires⟩
      · have known := guards.heard position earlier kind tid id old makes was hold held atMutex
          conflict
        exact Flow.mem_past_append.mpr (Or.inl known)
      · rw [acquires] at apart
        rcases guards.published position earlier kind tid id old makes was with shields | known
        · -- the thread of the access still holds the mutex, so it is the one that acquires it
          obtain ⟨own, inside, rfl, same, exclusive⟩ := shields
          rcases apart own inside (same.trans atMutex.symm) with sameThread | ⟨mode, shared⟩
          · rw [← sameThread]
            exact Flow.mem_past_append.mpr (Or.inl (makes.mem_past old))
          · rcases conflict with write | write
            · exact absurd (mode.symm.trans (exclusive write)) (by decide)
            · exact absurd (shared.symm.trans write) (by decide)
        · refine Flow.mem_past_append.mpr (Or.inr ⟨?_, Or.inr ⟨.mutex mutex, ?_, known⟩⟩)
          · show step.pre.clocks.Puts layout step.event (.thread hold.tls)
            rw [acquires]
            exact Or.inl rfl
          · show step.event.acquires? = some mutex
            rw [acquires, ← atMutex]
            rfl
    · rw [makes.holdsAfter_eq] at member
      rw [guards.same_thread (guarded.shields makes) member atMutex conflict]
      exact makes.mem_past List.getElem?_concat_length

/-! ### Runs -/

/-- What the guard says holds after every run that follows the rules and whose announcements leave
nothing out. -/
theorem Reaches.guards (reaches : Reaches layout past ft) (obeys : Always (Obeys layout) past)
    (publishes : Always (fun _ step => step.pre.clocks.Publishes step.event) past)
    (apart : Always (fun front step => step.event.Excludes (holdsOf front)) past)
    (guarded : Always (Guarded addr mutex) past) (ends : Always (EndsWithout mutex) past) :
    Guards layout addr mutex past ft := by
  induction reaches with
  | start =>
    exact ⟨fun hold member => absurd member List.not_mem_nil,
      fun _ _ _ _ _ found => absurd found (by simp),
      fun _ _ _ _ _ found => absurd found (by simp)⟩
  | @call past ft next event output earlier defined inductionHypothesis =>
    obtain ⟨obeyed, rule⟩ := always_append.mp obeys
    obtain ⟨published, -⟩ := always_append.mp publishes
    obtain ⟨apartBefore, excludes⟩ := always_append.mp apart
    obtain ⟨guardedBefore, guard⟩ := always_append.mp guarded
    obtain ⟨endsBefore, ended⟩ := always_append.mp ends
    exact (inductionHypothesis obeyed published apartBefore guardedBefore endsBefore).append
      (Reaches.covered earlier obeyed published) rule excludes guard ended defined

/-- A step of such a run reports nothing for an address that the mutex guards, if holders of a mutex
exclude each other and no thread ends while it holds the mutex. -/
theorem Reaches.unreported (reaches : Reaches layout past ft) {front : List Step}
    (initial : front ++ [step] <+: past) (obeys : Always (Obeys layout) past)
    (publishes : Always (fun _ step => step.pre.clocks.Publishes step.event) past)
    (apart : Always (fun front step => step.event.Excludes (holdsOf front)) past)
    (guarded : Always (Guarded addr mutex) past) (ends : Always (EndsWithout mutex) past) :
    ∀ race ∈ step.output.races, race.second.accessedMemory ≠ addr := by
  rintro race reports rfl
  have shorter : front <+: past := (List.prefix_append front [step]).trans initial
  obtain ⟨before, defined⟩ := reaches.step initial
  have rules := obeys.before shorter
  have room : RoomAlong layout front :=
    always_iff_forall_mem.mp (rules.imp fun _ _ rule => rule.room)
  have covered := Reaches.covered before rules (publishes.before shorter)
  have guards := Reaches.guards before rules (publishes.before shorter)
    (apart.before shorter) (guarded.before shorter) (ends.before shorter)
  obtain ⟨conflict, -, sameAddr, ⟨_, makes⟩, position, earlier, id, found, makesFirst, unordered⟩ :=
    covered.unordered (fun earlier made => Reaches.wellFormed_pre before room made)
      ⟨rfl, rfl⟩ (fun _ _ found _ _ known => Reaches.recorded before found known) defined reports
  obtain ⟨_, _, _, _, _, _, _, _, _, _, _, live, _⟩ :=
    race_of_call covered.wellFormed defined reports
  rw [sameAddr] at makesFirst
  obtain ⟨hold, held, same, atMutex, exclusive⟩ := (guarded front step initial).shields makes
  have heard := guards.heard position earlier _ _ id found makesFirst live hold held atMutex
    (conflict.imp_right exclusive)
  obtain ⟨access, accesses, -, -, caller, -⟩ := makes
  rw [same, ← caller] at heard
  exact unordered (happensBefore_access accesses heard)

/-- In a run that follows the rules, whose announcements leave nothing out, in which holders of a
mutex exclude each other and no thread ends while it holds the mutex, nothing is reported for an
address that the mutex guards. -/
theorem guarded_silent (reaches : Reaches layout past ft) (obeys : Always (Obeys layout) past)
    (publishes : Always (fun _ step => step.pre.clocks.Publishes step.event) past)
    (apart : Always (fun front step => step.event.Excludes (holdsOf front)) past)
    (guarded : Always (Guarded addr mutex) past) (ends : Always (EndsWithout mutex) past) :
    ∀ step ∈ past, ∀ race ∈ step.output.races, race.second.accessedMemory ≠ addr := by
  intro step member
  obtain ⟨front, rest, rfl⟩ := List.append_of_mem member
  have initial : front ++ [step] <+: front ++ step :: rest := ⟨rest, by simp⟩
  exact reaches.unreported initial obeys publishes apart guarded ends

/-- Two threads read an address at the same time and then write it one after the other. -/
def sharedThenExclusive : List Event :=
  [.fork 9 1, .fork 9 2, .acquire 1 7 1 false, .acquire 2 7 1 false, .read 1 0 0x100 3,
    .read 2 0 0x100 3, .release 1 7 false, .release 2 7 false, .acquire 1 7 1 true,
    .write 1 0 0x100 3, .release 1 7 true, .acquire 2 7 1 true, .write 2 0 0x100 3,
    .release 2 7 true]

theorem guarded_silent_shared_then_exclusive :
    (ran .x64 sharedThenExclusive).1.map Step.event = sharedThenExclusive ∧
      ∀ step ∈ (ran .x64 sharedThenExclusive).1, ∀ race ∈ step.output.races,
        race.second.accessedMemory ≠ 0x100 :=
  ⟨by decide +kernel, @guarded_silent .x64 _ _ 0x100 7 (reaches_ran .x64 _) (by decide +kernel)
    (by decide +kernel) (by decide +kernel) (by decide +kernel) (by decide +kernel)⟩

end Drace
