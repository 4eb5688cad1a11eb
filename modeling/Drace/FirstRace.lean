/-
This file says that the detector reports the first race on an address exactly.

A detector that kept all accesses could compare each access with all earlier ones. The
epochs the Fasttrack detector keeps instead are enough up to the first race: as
long as nothing is forgotten, and nothing was reported for an address, an access is
reported just when it races with some earlier access, whichever it is. So the first
report for an address and the first race on it are at the same access.
-/

import Drace.Completeness
import Drace.Thinning

namespace Drace

open Causality Clocks Machine

/-- The step reports a race on the address. -/
def ReportsAt (addr : ℕ) (step : Step) : Prop :=
  ∃ race ∈ step.output.races, race.second.accessedMemory = addr

/-- The step accesses the address, and some earlier access to it conflicts and does not happen
before this one. -/
def RacesAt (layout : Layout) (addr : ℕ) (front : List Step) (step : Step) : Prop :=
  ∃ access, step.event.access? = some access ∧ access.addr = addr ∧
    ∃ (position : ℕ) (earlier : Step) (other : Access), front[position]? = some earlier ∧
      earlier.event.access? = some other ∧ other.addr = addr ∧
      (other.write = true ∨ access.write = true) ∧
      ¬ (flow layout joinsLive).HappensBefore (front ++ [step]) position front.length

variable {layout : Layout} {past front : List Step} {ft : Fasttrack} {step : Step} {addr : ℕ}

/-- What is unordered according to a report is a race. -/
theorem Unordered.racesAt {race : Race} (unordered : Unordered layout joinsLive front step race) :
    RacesAt layout race.second.accessedMemory front step := by
  obtain ⟨conflict, -, sameAddr, ⟨_, access, accesses, kind, atAddr, -⟩, position, earlier, _,
    found, ⟨other, otherAccesses, otherKind, otherAddr, -⟩, apart⟩ := unordered
  refine ⟨access, accesses, atAddr, position, earlier, other, found, otherAccesses,
    otherAddr.trans sameAddr, ?_, apart⟩
  rwa [otherKind, kind]

/-- What is reported is a race. -/
theorem ReportsAt.racesAt (reports : ReportsAt addr step) (reaches : Reaches layout past ft)
    (obeys : Always (Obeys layout) past)
    (publishes : Always (fun _ step => step.pre.clocks.Publishes step.event) past)
    (initial : front ++ [step] <+: past) : RacesAt layout addr front step := by
  obtain ⟨race, member, rfl⟩ := reports
  obtain ⟨before, defined⟩ := reaches.step initial
  have shorter : front <+: past := (List.prefix_append _ _).trans initial
  have rules := obeys.before shorter
  have room : RoomAlong layout front :=
    always_iff_forall_mem.mp (rules.imp fun _ _ rule => rule.room)
  have covered := Reaches.covered before rules (publishes.before shorter)
  refine (covered.unordered (fun earlier made => Reaches.wellFormed_pre before room made)
    ⟨rfl, rfl⟩ (fun _ _ found _ _ known => Reaches.recorded before found known) defined
    member).racesAt

/-- An access without a report, with no report before it, does not race. -/
theorem not_racesAt_of_silent (reaches : Reaches layout past ft)
    (calm : ∀ step ∈ past, Calm layout step) (first : Always (WrittenFirst addr) past)
    (initial : front ++ [step] <+: past)
    (silent : ∀ made ∈ front ++ [step], ¬ ReportsAt addr made) :
    ¬ RacesAt layout addr front step := by
  rintro ⟨access, accesses, atAddr, position, earlier, other, found, otherAccesses, otherAddr,
    conflict, unordered⟩
  have rules : Always (fun front step => Calm layout step ∧ WrittenFirst addr front step ∧
      Silent addr step) (front ++ [step]) := by
    intro before made shorter
    have member : made ∈ front ++ [step] :=
      shorter.subset (List.mem_append_right _ (List.mem_singleton_self _))
    exact ⟨calm made (initial.subset member), first before made (shorter.trans initial),
      fun race reported atAddr => silent made member ⟨race, reported, atAddr⟩⟩
  obtain ⟨rulesBefore, calmHere, firstHere, silentHere⟩ := always_append.mp rules
  obtain ⟨before, defined⟩ := reaches.step initial
  obtain ⟨exact, accounted⟩ := Reaches.accounted before rulesBefore
  have made := Fasttrack.call_clockStep exact.wellFormed calmHere.room defined
  have inside : earlier ∈ past :=
    initial.subset (List.mem_append_left _ (List.mem_of_getElem? found))
  obtain ⟨id, now⟩ := Option.ne_none_iff_exists'.mp
    ((calm earlier inside).registered _ (tls_of_access otherAccesses))
  have heard := (accounted.silentAccess exact defined accesses atAddr silentHere firstHere
    (made.eq_of_access accesses)).2 position earlier other.write other.tls id found
    ⟨other, otherAccesses, rfl, otherAddr, rfl, now⟩ conflict
  exact unordered (happensBefore_access accesses heard)

/-- On a run that follows the rules, whose announcements leave nothing out and on which nothing is
forgotten, the first report for an address that is written first is at the first access that races
with an earlier one. -/
theorem first_report_iff_first_race (reaches : Reaches layout past ft)
    (calm : ∀ step ∈ past, Calm layout step) (obeys : Always (Obeys layout) past)
    (publishes : Always (fun _ step => step.pre.clocks.Publishes step.event) past)
    (first : Always (WrittenFirst addr) past) (position : ℕ) :
    IsLeast { k | ∃ step, past[k]? = some step ∧ ReportsAt addr step } position ↔
      IsLeast { k | ∃ step, past[k]? = some step ∧ RacesAt layout addr (past.take k) step }
        position := by
  have initial : ∀ k step, past[k]? = some step → past.take k ++ [step] <+: past := by
    intro k step found
    obtain ⟨bound, rfl⟩ := List.getElem?_eq_some_iff.mp found
    rw [List.take_concat_get' past k bound]
    exact List.take_prefix _ _
  have sound : ∀ k step, past[k]? = some step → ReportsAt addr step →
      RacesAt layout addr (past.take k) step := fun k step found reports =>
    reports.racesAt reaches obeys publishes (initial k step found)
  have complete : ∀ k step, past[k]? = some step → RacesAt layout addr (past.take k) step →
      ∃ j ≤ k, ∃ made, past[j]? = some made ∧ ReportsAt addr made := by
    intro k step found races
    by_contra none
    refine not_racesAt_of_silent reaches calm first (initial k step found) ?_ races
    intro made member reports
    obtain ⟨bound, rfl⟩ := List.getElem?_eq_some_iff.mp found
    rw [List.take_concat_get' past k bound] at member
    obtain ⟨j, inside, rfl⟩ := List.mem_iff_getElem.mp member
    rw [List.length_take] at inside
    refine none ⟨j, by omega, _, ?_, reports⟩
    rw [List.getElem_take]
    exact List.getElem?_eq_getElem _
  constructor
  · rintro ⟨⟨step, found, reports⟩, least⟩
    refine ⟨⟨step, found, sound _ step found reports⟩, fun k ⟨other, here, races⟩ => ?_⟩
    obtain ⟨j, before, made, there, reported⟩ := complete k other here races
    exact (least ⟨made, there, reported⟩).trans before
  · rintro ⟨⟨step, found, races⟩, least⟩
    obtain ⟨j, before, made, there, reported⟩ := complete _ step found races
    have same : position = j := (least ⟨made, there, sound j made there reported⟩).antisymm before
    subst same
    exact ⟨⟨made, there, reported⟩, fun k ⟨other, here, reports⟩ =>
      least ⟨other, here, sound k other here reports⟩⟩

/-- Two threads write an address, the second one after a read that is ordered. -/
theorem first_report_iff_first_race_third_access :
    IsLeast { k | ∃ step, (ran .x64 [.fork 9 1, .fork 9 2, .acquire 1 7 1 true, .write 1 0 0x100 3,
      .release 1 7 true, .acquire 2 7 1 true, .read 2 0 0x100 3, .write 1 0 0x100 3]).1[k]? =
        some step ∧ ReportsAt 0x100 step } 7 ↔
      IsLeast { k | ∃ step, (ran .x64 [.fork 9 1, .fork 9 2, .acquire 1 7 1 true,
        .write 1 0 0x100 3, .release 1 7 true, .acquire 2 7 1 true, .read 2 0 0x100 3,
        .write 1 0 0x100 3]).1[k]? = some step ∧ RacesAt .x64 0x100 ((ran .x64 [.fork 9 1,
        .fork 9 2, .acquire 1 7 1 true, .write 1 0 0x100 3, .release 1 7 true,
        .acquire 2 7 1 true, .read 2 0 0x100 3, .write 1 0 0x100 3]).1.take k) step } 7 :=
  first_report_iff_first_race (reaches_ran .x64 _) (by decide +kernel) (by decide +kernel)
    (by decide +kernel) (by decide +kernel) 7

end Drace
