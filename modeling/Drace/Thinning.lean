/-
This file says that the detector stays precise when accesses are left out.

Sampling and disabled scopes keep accesses from the detector, but no call that orders
threads. The clocks depend on these calls only, so they are the same with all
accesses and with some of them. What is reported with some of them is therefore
unordered in the run with all of them: sampling misses races, but makes up none.
-/

import Drace.Precision
import Drace.Slicing

namespace Drace

open Causality Clocks Machine

/-- The second list is the first one without some of its accesses. -/
inductive Thinned : List Event → List Event → Prop
  | nil : Thinned [] []
  | keep {all rest : List Event} (event : Event) :
    Thinned all rest → Thinned (event :: all) (event :: rest)
  | drop {all rest : List Event} {event : Event} {access : Access} :
    event.access? = some access → Thinned all rest → Thinned (event :: all) rest

variable {layout : Layout} {past front : List Step} {ft small next : Fasttrack} {event : Event}
  {output : Output} {step : Step} {kept : ℕ → Prop} {all rest : List Event}

/-- The last event is kept, or is an access. -/
theorem thinned_concat (thinned : Thinned (all ++ [event]) rest) :
    (∃ earlier, rest = earlier ++ [event] ∧ Thinned all earlier) ∨
      (∃ access, event.access? = some access) ∧ Thinned all rest := by
  induction all generalizing rest with
  | nil =>
    cases thinned with
    | keep _ before =>
      cases before
      exact Or.inl ⟨[], rfl, .nil⟩
    | drop accesses before => exact Or.inr ⟨⟨_, accesses⟩, before⟩
  | cons first all inductionHypothesis =>
    rw [List.cons_append] at thinned
    cases thinned with
    | keep _ before =>
      rcases inductionHypothesis before with ⟨earlier, rfl, shorter⟩ | ⟨accesses, shorter⟩
      · exact Or.inl ⟨first :: earlier, rfl, .keep first shorter⟩
      · exact Or.inr ⟨accesses, .keep first shorter⟩
    | drop accesses before =>
      rcases inductionHypothesis before with ⟨earlier, rfl, shorter⟩ | ⟨last, shorter⟩
      · exact Or.inl ⟨earlier, rfl, .drop accesses shorter⟩
      · exact Or.inr ⟨last, .drop accesses shorter⟩

/-- Detectors that are alike have the same clocks. -/
theorem Fasttrack.Alike.clocks_eq {ft copy : Fasttrack} (alike : ft.Alike kept copy) :
    ft.clocks = copy.clocks := by
  refine Clocks.ext (funext fun carrier => ?_) (funext fun tid => ?_)
  · cases carrier with
    | thread tid =>
      simp only [Fasttrack.clocks]
      obtain ⟨absent, gone⟩ | ⟨thread, other, found, known, same⟩ := alike.lookup tid
      · rw [absent, gone]
      · rw [found, known, Option.map_some, Option.map_some, same.clock]
    | mutex mutex => exact congrArg (fun locks => locks.lookup mutex) alike.locks
    | identifier identifier =>
      exact congrArg (fun states => states.lookup identifier) alike.happensStates
  · simp only [Fasttrack.clocks]
    obtain ⟨absent, gone⟩ | ⟨thread, other, found, known, same⟩ := alike.lookup tid
    · rw [absent, gone]
    · rw [found, known, Option.map_some, Option.map_some, same.id]

/-- Whatever is called on both sides, detectors whose accesses are not compared stay alike. -/
theorem Fasttrack.Alike.call_none {ft copy : Fasttrack} (alike : ft.Alike (fun _ => False) copy)
    (defined : ft.call layout event = some (next, output)) :
    ∃ later result, copy.call layout event = some (later, result) ∧
      next.Alike (fun _ => False) later := by
  cases accesses : event.access? with
  | none =>
    have both : Option.Rel (Agree (Fasttrack.Alike fun _ => False)) (ft.call layout event)
      (copy.call layout event) := alike.call accesses
    rw [defined] at both
    obtain ⟨later, other, related⟩ := exists_agreeing both
    exact ⟨later, output, other, related⟩
  | some access =>
    have after := alike.call_left accesses not_false defined
    rw [Fasttrack.call_eq_accessed accesses] at defined
    obtain ⟨thread, found, -⟩ := Option.map_eq_some_iff.mp defined
    obtain ⟨absent, -⟩ | ⟨_, other, _, known, -⟩ := alike.lookup access.tls
    · rw [absent] at found
      cases found
    · have goes : copy.call layout event = some ((copy.accessed layout access other).1,
          { races := (copy.accessed layout access other).2 }) := by
        rw [Fasttrack.call_eq_accessed accesses, known, Option.map_some]
      exact ⟨_, _, goes, (after.symm.call_left accesses not_false goes).symm⟩

/-- A step of a run is a step of the other one with the same clocks. -/
def SameClocks (made step : Step) : Prop :=
  made.event = step.event ∧ made.pre.clocks = step.pre.clocks

/-- A race that is reported for a recorded access is unordered, whatever else is recorded. -/
theorem Covered.unordered (covered : Covered layout front step.pre.clocks)
    (wellFormed : ∀ earlier ∈ front, earlier.pre.clocks.WellFormed layout) {made : Step}
    (same : SameClocks made step)
    (recorded : ∀ addr var, made.pre.vars.lookup addr = some var → ∀ kind, ∀ id ∈ var.recorded kind,
      ∃ earlier ∈ front, ∃ tid, Makes earlier kind addr tid id)
    (defined : made.pre.call layout made.event = some (made.post, made.output)) {race : Race}
    (member : race ∈ made.output.races) : Unordered layout joinsLive front step race := by
  obtain ⟨event, clocks⟩ := same
  have ownFormed : made.pre.clocks.WellFormed layout := clocks ▸ covered.wellFormed
  obtain ⟨access, thread, var, id, accesses, registered, found, known, races, conflict, first,
    live, firstAddr, second, kind, secondAddr⟩ := race_of_call ownFormed defined member
  obtain ⟨earlier, before, tid, makes⟩ := recorded _ _ found _ _ known
  obtain ⟨position, atPosition⟩ := List.getElem?_of_mem before
  obtain ⟨bound, rfl⟩ := makes.makeTid (wellFormed earlier before)
  have holds := Fasttrack.holds_of_lookup registered
  obtain ⟨_, other, unknown⟩ := (ownFormed.racesWith_iff holds bound).mp races
  rw [event] at accesses
  rw [clocks] at holds unknown
  refine ⟨conflict, by rwa [first, second], by rw [firstAddr, secondAddr],
    ⟨thread.id, access, accesses, kind.symm, secondAddr.symm, second.symm, second ▸ holds.2⟩,
    position, earlier, id, atPosition, by rwa [firstAddr, first], fun ordered => ?_⟩
  obtain ⟨carrier, takes, heard⟩ := Flow.happensBefore_last.mp ordered
  obtain ⟨rfl⟩ := takes_of_access accesses takes
  have liveFirst : step.pre.clocks.idOf (layout.makeTid id) ≠ none := by
    rw [← clocks]
    exact Fasttrack.idOf_ne_none.mpr (first ▸ live)
  have below := covered.covers (.thread access.tls) position (layout.makeTid id) id holds.live
    liveFirst ⟨earlier, atPosition, makes.stamp⟩ heard
  exact absurd below (not_lt.mpr unknown)

/-- The recorded accesses of a run are accesses of another one, if its steps are. -/
theorem recorded_of_sameClocks {sampled : List Step} (reaches : Reaches layout sampled small)
    (pairs : ∀ made ∈ sampled, ∃ step ∈ past, SameClocks made step) {addr : ℕ} {var : VarState}
    (found : small.vars.lookup addr = some var) {kind : Bool} {id : ℕ}
    (member : id ∈ var.recorded kind) :
    ∃ step ∈ past, ∃ tid, Makes step kind addr tid id := by
  obtain ⟨made, before, tid, access, accesses, write, same, tls, now⟩ :=
    Reaches.recorded reaches found member
  obtain ⟨step, inside, event, clocks⟩ := pairs made before
  exact ⟨step, inside, tid, access, event ▸ accesses, write, same, tls, clocks ▸ now⟩

/-- What a run with some of the accesses comes to, beside the run with all of them. -/
structure Beside (layout : Layout) (past : List Step) (ft : Fasttrack) (sampled : List Step)
    (small : Fasttrack) : Prop where
  reaches : Reaches layout sampled small
  alike : ft.Alike (fun _ => False) small
  pairs : ∀ made ∈ sampled, ∃ step ∈ past, SameClocks made step
  unordered : ∀ made ∈ sampled, ∀ race ∈ made.output.races, ∃ front step, front ++ [step] <+: past ∧
    step.event = made.event ∧ Unordered layout joinsLive front step race

theorem Beside.drop {sampled : List Step} (beside : Beside layout past ft sampled small)
    {access : Access} (accesses : event.access? = some access)
    (defined : ft.call layout event = some (next, output)) :
    Beside layout (past ++ [⟨ft, event, next, output⟩]) next sampled small where
  reaches := beside.reaches
  alike := beside.alike.call_left accesses not_false defined
  pairs made member := by
    obtain ⟨step, inside, same⟩ := beside.pairs made member
    exact ⟨step, List.mem_append_left _ inside, same⟩
  unordered made member race reports := by
    obtain ⟨front, step, initial, same⟩ := beside.unordered made member race reports
    exact ⟨front, step, initial.trans (List.prefix_append _ _), same⟩

/-- One event more that both runs make. -/
theorem Beside.keep {sampled : List Step} (beside : Beside layout past ft sampled small)
    (covered : Covered layout past ft.clocks)
    (wellFormed : ∀ earlier ∈ past, earlier.pre.clocks.WellFormed layout)
    (defined : ft.call layout event = some (next, output)) :
    ∃ made later, made.event = event ∧
      Beside layout (past ++ [⟨ft, event, next, output⟩]) next (sampled ++ [made]) later := by
  obtain ⟨later, result, goes, alike⟩ := beside.alike.call_none defined
  refine ⟨⟨small, event, later, result⟩, later, rfl, beside.reaches.call goes, alike, ?_, ?_⟩
  · intro made member
    rcases List.mem_append.mp member with old | new
    · obtain ⟨step, inside, same⟩ := beside.pairs made old
      exact ⟨step, List.mem_append_left _ inside, same⟩
    · obtain rfl := List.mem_singleton.mp new
      exact ⟨_, List.mem_append_right _ (List.mem_singleton_self _), rfl,
        beside.alike.clocks_eq.symm⟩
  · intro made member race reports
    rcases List.mem_append.mp member with old | new
    · obtain ⟨front, step, initial, same⟩ := beside.unordered made old race reports
      exact ⟨front, step, initial.trans (List.prefix_append _ _), same⟩
    · obtain rfl := List.mem_singleton.mp new
      refine ⟨past, ⟨ft, event, next, output⟩, List.prefix_rfl, rfl, ?_⟩
      have same : SameClocks ⟨small, event, later, result⟩ ⟨ft, event, next, output⟩ :=
        ⟨rfl, beside.alike.clocks_eq.symm⟩
      have covers : Covered layout past (Step.pre ⟨ft, event, next, output⟩).clocks := covered
      exact covers.unordered wellFormed same (fun _ _ found _ _ known =>
        recorded_of_sameClocks beside.reaches beside.pairs found known) goes reports

/-- Leaving out accesses causes no false alarms: in a run that follows the rules and whose
announcements leave nothing out, any of the accesses can be left out. The other events are a run,
and a race it reports is a pair of accesses that are unordered in the run with all accesses. -/
theorem thinned_precise (reaches : Reaches layout past ft) (obeys : Always (Obeys layout) past)
    (publishes : Always (fun _ step => step.pre.clocks.Publishes step.event) past)
    (thinned : Thinned (past.map Step.event) rest) :
    ∃ sampled small, Reaches layout sampled small ∧ sampled.map Step.event = rest ∧
      ∀ made ∈ sampled, ∀ race ∈ made.output.races, ∃ front step, front ++ [step] <+: past ∧
        step.event = made.event ∧ Unordered layout joinsLive front step race := by
  suffices ∃ sampled small, sampled.map Step.event = rest ∧
      Beside layout past ft sampled small by
    obtain ⟨sampled, small, events, beside⟩ := this
    exact ⟨sampled, small, beside.reaches, events, beside.unordered⟩
  induction reaches generalizing rest with
  | @start ft begins =>
    cases thinned
    exact ⟨[], ft, rfl, .start begins, .refl ft, fun _ member => absurd member List.not_mem_nil,
      fun _ member => absurd member List.not_mem_nil⟩
  | @call past ft next event output earlier defined inductionHypothesis =>
    obtain ⟨obeyed, rule⟩ := always_append.mp obeys
    obtain ⟨published, -⟩ := always_append.mp publishes
    rw [List.map_append, List.map_singleton] at thinned
    rcases thinned_concat thinned with ⟨before, rfl, shorter⟩ | ⟨⟨access, accesses⟩, shorter⟩
    · obtain ⟨sampled, small, rfl, beside⟩ := inductionHypothesis obeyed published shorter
      have room : RoomAlong layout past :=
        always_iff_forall_mem.mp (obeyed.imp fun _ _ rule => rule.room)
      obtain ⟨made, later, same, after⟩ := beside.keep
        (Reaches.covered earlier obeyed published)
        (fun step member => Reaches.wellFormed_pre earlier room member) defined
      refine ⟨sampled ++ [made], later, ?_, after⟩
      rw [List.map_append, List.map_singleton, same]
    · obtain ⟨sampled, small, events, beside⟩ := inductionHypothesis obeyed published shorter
      exact ⟨sampled, small, events, beside.drop accesses defined⟩

/-- Every other access of two threads that write without a lock is left out. -/
theorem thinned_precise_two_threads :
    ∃ sampled small, Reaches .x64 sampled small ∧ sampled.map Step.event =
        [.fork 9 1, .fork 9 2, .acquire 1 7 1 true, .write 1 0 0x100 3, .release 1 7 true,
          .write 2 0 0x100 3] ∧
      ∀ made ∈ sampled, ∀ race ∈ made.output.races, ∃ front step,
        front ++ [step] <+: (ran .x64 [.fork 9 1, .fork 9 2, .acquire 1 7 1 true,
          .write 1 0 0x100 3, .read 1 0 0x100 3, .release 1 7 true, .read 2 0 0x100 3,
          .write 2 0 0x100 3]).1 ∧
        step.event = made.event ∧ Unordered .x64 joinsLive front step race :=
  thinned_precise (reaches_ran .x64 _) (by decide +kernel) (by decide +kernel)
    (.keep _ (.keep _ (.keep _ (.keep _ (.drop rfl (.keep _ (.drop rfl (.keep _ .nil))))))))

end Drace
