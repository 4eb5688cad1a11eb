/-
This file says what a race collector holds.

In delayed mode races are added and resolved in any order. The collector counts what
it holds; resolving leaves the detected races that are not suppressed, each with its
symbols once, however often it is done. What keeps the collection bounded is the
limit on the count, which is tested before a race is added.
-/

import Drace.Machine
import Drace.RaceCollector

namespace Drace

/-- What is called on a collector. -/
inductive CollectorCall
  | addRace (r : Race) (ttr : ℕ)
  | resolveAll
  deriving DecidableEq

/-- A call of a collector with the states around it. -/
abbrev CollectorStep := Machine.Step RaceCollector CollectorCall Unit

namespace RaceCollector

open Machine

variable {setup : Setup} {delayedLookup : Bool} {collector : RaceCollector}
  {past : List CollectorStep} {step : CollectorStep} {race : DecoratedRace}
  {reports : List (Race × ℕ)}

/-- The calls of a collector as a machine. -/
def machine (setup : Setup) (delayedLookup : Bool) :
    Machine RaceCollector CollectorCall Unit where
  start collector := collector = {}
  call collector
    | .addRace r ttr => some (collector.addRace setup delayedLookup r ttr, ())
    | .resolveAll => some (collector.resolveAll setup, ())

/-! ### What happens to a race -/

/-- The race a call brings to the filters; a full collector takes none. -/
def taken (step : CollectorStep) : Option (Race × ℕ) :=
  match step.event with
  | .addRace r ttr => if max < step.pre.raceCount then none else some (r, ttr)
  | .resolveAll => none

/-- The collector rejects the race in `filter_duplicates`. -/
def Rejects (setup : Setup) (collector : RaceCollector) (r : Race) : Prop :=
  (filterDuplicates setup collector.racyStacks r).1 = true

instance (r : Race) : Decidable (Rejects setup collector r) := inferInstanceAs (Decidable (_ = _))

/-- The race that passes the first two filters in a call, without symbols. -/
def detectedAt (setup : Setup) (step : CollectorStep) : Option DecoratedRace :=
  match taken step with
  | some (r, ttr) =>
    if Rejects setup step.pre r ∨ setup.filter.checkImplausible r then none
    else some (.ofRace r ttr)
  | none => none

/-- The races that were detected in a history. -/
def detected (setup : Setup) (past : List CollectorStep) : List DecoratedRace :=
  past.filterMap (detectedAt setup)

/-- What the sinks get in a call: in delayed mode the race without symbols, else the resolved race
unless it is suppressed. -/
def forwardedAt (setup : Setup) (delayedLookup : Bool) (step : CollectorStep) :
    Option DecoratedRace :=
  match detectedAt setup step with
  | some race =>
    if delayedLookup then some race
    else if setup.filter.checkSuppress (resolveRace setup race) then none
    else some (resolveRace setup race)
  | none => none

theorem detected_append :
    detected setup (past ++ [step]) = detected setup past ++ (detectedAt setup step).toList := by
  rw [detected, detected, Machine.filterMap_concat]

theorem addRace_of_full {r : Race} {ttr : ℕ} (full : max < collector.raceCount) :
    collector.addRace setup delayedLookup r ttr = collector := if_pos full

/-- What adding a race does to the seen stacks, to the sinks and, in delayed mode, to the
collection. -/
theorem addRace_spec (setup : Setup) (delayedLookup : Bool) (collector : RaceCollector) (r : Race)
    (ttr : ℕ) :
    let next := collector.addRace setup delayedLookup r ttr
    let step : CollectorStep := ⟨collector, .addRace r ttr, next, ()⟩
    (next.racyStacks = if max < collector.raceCount then collector.racyStacks
      else (filterDuplicates setup collector.racyStacks r).2) ∧
      next.forwarded = collector.forwarded ++ (forwardedAt setup delayedLookup step).toList ∧
      (delayedLookup = true →
        next.races = collector.races ++ (detectedAt setup step).toList ∧
          next.raceCount = collector.raceCount + (detectedAt setup step).toList.length) := by
  intro next step
  have added : next = collector.addRace setup delayedLookup r ttr := rfl
  by_cases full : max < collector.raceCount
  · have nothing : detectedAt setup step = none := by
      rw [detectedAt, show taken step = none from if_pos full]
    rw [added, addRace_of_full full, if_pos full, forwardedAt, nothing]
    simp
  · have takes : taken step = some (r, ttr) := if_neg full
    rw [if_neg full]
    by_cases rejected : Rejects setup collector r ∨ setup.filter.checkImplausible r = true
    · have nothing : detectedAt setup step = none := by
        rw [detectedAt, takes]
        exact if_pos rejected
      rw [added, addRace, if_neg full, forwardedAt, nothing]
      simp only [show (filterDuplicates setup collector.racyStacks r).1 = true ∨
        setup.filter.checkImplausible r = true from rejected, if_true]
      simp
    · have detects : detectedAt setup step = some (.ofRace r ttr) := by
        rw [detectedAt, takes]
        exact if_neg rejected
      rw [added, addRace, if_neg full, forwardedAt, detects]
      simp only [show ¬ ((filterDuplicates setup collector.racyStacks r).1 = true ∨
        setup.filter.checkImplausible r = true) from rejected, if_false]
      cases delayedLookup with
      | true => exact ⟨rfl, rfl, fun _ => ⟨rfl, rfl⟩⟩
      | false =>
        simp only [Bool.false_eq_true, if_false, false_implies, and_true]
        split
        · exact ⟨rfl, (List.append_nil _).symm⟩
        · exact ⟨rfl, rfl⟩

/-! ### Delayed resolution -/

/-- The access has the symbols of its stack, each once. -/
def Resolved (setup : Setup) (access : ResolvedAccess) : Prop :=
  access.resolvedStack.length = min access.stackSize maxStackSize ∧
    ∀ index < access.stackSize,
      access.resolvedStack[index]? = access.stackTrace[index]?.map setup.syms

/-- A resolved race is left as it is. -/
theorem resolveRace_resolveRace :
    resolveRace setup (resolveRace setup race) = resolveRace setup race := by
  unfold resolveRace
  by_cases done : race.isResolved = true
  · simp only [if_pos done]
  · simp only [if_neg done, if_true]

theorem resolved_resolveSymbols {access : ResolvedAccess} (bare : access.resolvedStack = []) :
    Resolved setup (resolveSymbols setup access) := by
  have symbols : (resolveSymbols setup access).resolvedStack =
      (access.stackTrace.toList.take access.stackSize).map setup.syms := by
    rw [resolveSymbols, bare, List.nil_append]
  refine ⟨?_, fun index bound => ?_⟩
  · rw [symbols, List.length_map, List.length_take, Vector.length_toList]
    rfl
  · have early : index < access.stackSize := bound
    rw [symbols, List.getElem?_map, List.getElem?_take_of_lt early]
    exact congrArg (Option.map setup.syms) Vector.getElem?_toList

/-- A race as it is added has no symbols yet, and resolving gives it all of them. -/
theorem resolved_ofRace (r : Race) (ttr : ℕ) :
    Resolved setup (resolveRace setup (.ofRace r ttr)).first ∧
      Resolved setup (resolveRace setup (.ofRace r ttr)).second :=
  ⟨resolved_resolveSymbols rfl, resolved_resolveSymbols rfl⟩

theorem exists_of_mem_detected (member : race ∈ detected setup past) :
    ∃ r ttr, race = .ofRace r ttr := by
  obtain ⟨step, _, found⟩ := List.mem_filterMap.mp member
  rw [detectedAt] at found
  split at found
  · next r ttr _ =>
    split at found
    · cases found
    · exact ⟨r, ttr, (Option.some.inj found).symm⟩
  · cases found

/-- The races that stay when all are resolved. -/
def remaining (setup : Setup) (races : List DecoratedRace) : List DecoratedRace :=
  (races.map (resolveRace setup)).filter (genuine setup)

theorem remaining_append {first second : List DecoratedRace} :
    remaining setup (first ++ second) = remaining setup first ++ remaining setup second := by
  rw [remaining, List.map_append, List.filter_append]
  rfl

theorem remaining_remaining {races : List DecoratedRace} :
    remaining setup (remaining setup races) = remaining setup races := by
  have same : (remaining setup races).map (resolveRace setup) = remaining setup races := by
    refine (List.map_congr_left fun race member => ?_).trans (List.map_id _)
    obtain ⟨before, _, rfl⟩ := List.mem_map.mp (List.mem_filter.mp member).1
    exact resolveRace_resolveRace
  rw [remaining, same, remaining, List.filter_filter]
  simp only [Bool.and_self]

/-- Resolving a collector that counts its races leaves the remaining ones, and counts them. -/
theorem resolveAll_spec (counted : collector.raceCount = collector.races.length)
    (few : collector.raceCount ≤ max + 1) :
    collector.resolveAll setup = { collector with
      races := remaining setup collector.races
      raceCount := (remaining setup collector.races).length } := by
  have small : 0 + collector.races.length < countRange := by
    rw [Nat.zero_add, ← counted]
    exact lt_countRange few
  have loop : resolveLoop setup collector.races (0 + collector.races.length) = _ :=
    resolveLoop_eq 0 small
  rw [Nat.zero_add, Nat.zero_add, ← counted] at loop
  rw [resolveAll, loop]
  rfl

theorem length_remaining_le {races : List DecoratedRace} :
    (remaining setup races).length ≤ races.length :=
  (List.length_filter_le _ _).trans (List.length_map _).le

/-- The collector counts its races, and what remains of them remains of the detected ones. -/
structure Collects (setup : Setup) (past : List CollectorStep) (collector : RaceCollector) :
    Prop where
  counted : collector.raceCount = collector.races.length
  few : collector.raceCount ≤ max + 1
  remains : remaining setup collector.races = remaining setup (detected setup past)

theorem collects_of_reaches (reaches : (machine setup true).Reaches past collector) :
    Collects setup past collector := by
  induction reaches with
  | start begins =>
    rw [show _ = ({} : RaceCollector) from begins]
    exact ⟨rfl, Nat.zero_le _, rfl⟩
  | @call past before after event output _ defined inductionHypothesis =>
    cases event with
    | addRace r ttr =>
      obtain ⟨rfl⟩ := Prod.mk.inj (Option.some.inj defined)
      obtain ⟨-, -, delayed⟩ := addRace_spec setup true before r ttr
      obtain ⟨races, count⟩ := delayed rfl
      refine ⟨?_, raceCount_addRace_le r ttr inductionHypothesis.few, ?_⟩
      · rw [count, races, List.length_append, inductionHypothesis.counted]
      · rw [races, detected_append, remaining_append, remaining_append,
          inductionHypothesis.remains]
    | resolveAll =>
      obtain ⟨rfl⟩ := Prod.mk.inj (Option.some.inj defined)
      have fewer : (remaining setup before.races).length ≤ max + 1 :=
        length_remaining_le.trans (inductionHypothesis.counted ▸ inductionHypothesis.few)
      rw [resolveAll_spec inductionHypothesis.counted inductionHypothesis.few]
      refine ⟨rfl, fewer, ?_⟩
      rw [detected_append, remaining_append]
      show remaining setup (remaining setup before.races) = _ ++ []
      rw [remaining_remaining, List.append_nil, inductionHypothesis.remains]

end RaceCollector

open RaceCollector

/-- In delayed mode the collector counts its races. Resolving leaves the detected races that are not
suppressed, in the order of detection and each with the symbols of its stacks, and resolving again
changes nothing. -/
theorem delayed_resolution {setup : Setup} {past : List CollectorStep} {collector : RaceCollector}
    (reaches : (machine setup true).Reaches past collector) :
    collector.raceCount = collector.races.length ∧
      (collector.resolveAll setup).races =
        ((detected setup past).map (resolveRace setup)).filter (genuine setup) ∧
      (∀ race ∈ (collector.resolveAll setup).races,
        Resolved setup race.first ∧ Resolved setup race.second) ∧
      (collector.resolveAll setup).resolveAll setup = collector.resolveAll setup := by
  obtain ⟨counted, few, remains⟩ := collects_of_reaches reaches
  have resolved : collector.resolveAll setup = _ := resolveAll_spec counted few
  refine ⟨counted, ?_, ?_, ?_⟩
  · rw [resolved]
    exact remains
  · intro race member
    rw [resolved, remains] at member
    obtain ⟨before, found, rfl⟩ := List.mem_map.mp (List.mem_filter.mp member).1
    obtain ⟨r, ttr, rfl⟩ := exists_of_mem_detected found
    exact resolved_ofRace r ttr
  · have fewer : (remaining setup collector.races).length ≤ max + 1 :=
      length_remaining_le.trans (counted ▸ few)
    rw [resolved, resolveAll_spec rfl fewer]
    simp only [remaining_remaining]

/-- Two races on different addresses, a resolution in between, and the first race again. -/
def resolvesBetween : List CollectorCall :=
  [.addRace (raceAt 1 8) 0, .addRace (raceAt 2 64) 1, .resolveAll, .addRace (raceAt 1 8) 2]

theorem delayed_resolution_between :
    let setup : Setup := ⟨.x64, 0, fun pc => { pc }, { addrList := [(8, 8)] }⟩
    let past := ((machine setup true).ran {} resolvesBetween).1
    let collector := ((machine setup true).ran {} resolvesBetween).2
    collector.raceCount = collector.races.length ∧
      (collector.resolveAll setup).races =
        ((detected setup past).map (resolveRace setup)).filter (genuine setup) ∧
      (∀ race ∈ (collector.resolveAll setup).races,
        Resolved setup race.first ∧ Resolved setup race.second) ∧
      (collector.resolveAll setup).resolveAll setup = collector.resolveAll setup :=
  delayed_resolution (Machine.reaches_ran rfl resolvesBetween)

namespace RaceCollector

variable {setup : Setup} {collector : RaceCollector} {reports : List (Race × ℕ)}

/-! ### The limit -/

theorem collect_append {delayedLookup : Bool} {front rest : List (Race × ℕ)} :
    collect setup delayedLookup (front ++ rest) collector =
      collect setup delayedLookup rest (collect setup delayedLookup front collector) := by
  rw [collect, List.foldl_append]
  rfl

/-- A streaming collector stays empty just if none of the races it takes is suppressed. -/
theorem races_streaming_eq_nil_iff : (collect setup false reports collector).races = [] ↔
    collector.races = [] ∧ ∀ race ∈ (admitted setup collector.racyStacks reports).take
      collector.room, genuine setup race = true := by
  induction reports generalizing collector with
  | nil => simp [collect, admitted]
  | cons report rest inductionHypothesis =>
    rw [collect, List.foldl_cons, ← collect, inductionHypothesis]
    rcases addRace_cases setup false collector report.1 report.2 with
      ⟨full, same⟩ | ⟨fits, racyStacks, ⟨rejects, same⟩ | ⟨admits, same⟩⟩
    · rw [same, room_eq_zero full, List.take_zero, List.take_zero]
    · rw [same, rejects rest]
      rfl
    · rw [same, if_neg Bool.false_ne_true, admits rest, room, room, room_succ fits,
        List.take_succ_cons, List.forall_mem_cons]
      split
      · next suppressed => simp [genuine, suppressed]
      · next wanted => simp [genuine, wanted]

/-- A delayed collector holds the first of the races it takes. -/
theorem length_races_delayed : (collect setup true reports collector).races.length =
    collector.races.length +
      min collector.room (admitted setup collector.racyStacks reports).length := by
  have collected : (collect setup true reports collector).races.map (resolveRace setup) = _ :=
    collect_delayed
  simpa using congrArg List.length collected

end RaceCollector

/-- In streaming mode the collection is empty after every race just if none of the races that pass
the first filters below the limit is suppressed. In delayed mode it never exceeds the limit just if
no more races than that pass these filters. -/
theorem collection_bounded_iff (setup : Setup) (reports : List (Race × ℕ)) :
    ((∀ front, front <+: reports → (collect setup false front {}).races = []) ↔
      ∀ race ∈ (admitted setup ∅ reports).take (RaceCollector.max + 1),
        ¬ setup.filter.checkSuppress race = true) ∧
      ((∀ front, front <+: reports →
        (collect setup true front {}).races.length ≤ RaceCollector.max) ↔
          (admitted setup ∅ reports).length ≤ RaceCollector.max) := by
  constructor
  · have final : (collect setup false reports {}).races = [] ↔
        ∀ race ∈ (admitted setup ∅ reports).take (RaceCollector.max + 1),
          genuine setup race = true :=
      races_streaming_eq_nil_iff.trans (and_iff_right rfl)
    have wanted : (∀ race ∈ (admitted setup ∅ reports).take (RaceCollector.max + 1),
        genuine setup race = true) ↔
          ∀ race ∈ (admitted setup ∅ reports).take (RaceCollector.max + 1),
            ¬ setup.filter.checkSuppress race = true := by simp [genuine]
    rw [← wanted, ← final]
    refine ⟨fun always => always reports (List.prefix_refl _), ?_⟩
    rintro empty front ⟨rest, rfl⟩
    rw [collect_append] at empty
    exact (races_streaming_eq_nil_iff.mp empty).1
  · have final : (collect setup true reports {}).races.length ≤ RaceCollector.max ↔
        (admitted setup ∅ reports).length ≤ RaceCollector.max := by
      rw [length_races_delayed]
      show 0 + min (RaceCollector.max + 1) (admitted setup ∅ reports).length ≤ _ ↔ _
      omega
    rw [← final]
    refine ⟨fun always => always reports (List.prefix_refl _), ?_⟩
    rintro bounded front ⟨rest, rfl⟩
    rw [collect_append, length_races_delayed] at bounded
    exact (Nat.le_add_right _ _).trans bounded

/-- One suppressed race stays in a streaming collection, and a delayed one takes one race more than
the limit. -/
theorem collection_exceeds :
    (¬ ∀ (setup : Setup) (reports : List (Race × ℕ)),
      (collect setup false reports {}).races = []) ∧
        ¬ ∀ (setup : Setup) (reports : List (Race × ℕ)),
          (collect setup true reports {}).races.length ≤ RaceCollector.max := by
  let setup : Setup := ⟨.x64, 0, fun pc => { pc }, { addrList := [(8, 8)] }⟩
  refine ⟨fun empty => ?_, fun bounded => ?_⟩
  · exact absurd (empty setup [(raceAt 1 8, 0)]) (by decide)
  · have exceeded := bounded setup (List.replicate 201 (raceAt 1 64, 0))
    rw [length_races_delayed] at exceeded
    exact absurd exceeded (by decide +kernel)

end Drace
