/-
This file compares the two modes of the race collector.

Both modes take the same races from the detector. Streaming resolves each of them
at once and counts those that are not suppressed; the delayed mode counts all of them
and drops the suppressed ones in the end. Both stop at the same count. So the delayed
mode keeps the unsuppressed ones among the first races, streaming the first ones among the
unsuppressed races, and the former are always a beginning of the latter.
-/

import Mathlib
import Drace.RaceFilter

namespace Drace

/-! ### The first elements and the wanted elements -/

section Taking

variable {Element : Type} {limit : ℕ} {wanted : Element → Bool} {elements : List Element}

/-- The wanted ones among the first elements begin the first ones among the wanted. -/
theorem filter_take_prefix_take_filter :
    (elements.take limit).filter wanted <+: (elements.filter wanted).take limit := by
  rw [List.prefix_take_iff]
  constructor
  · exact (List.take_prefix limit elements).filter wanted
  · exact (List.length_filter_le _ _).trans (List.length_take_le _ _)

/-- Filtering and taking commute just if the limit cuts no wanted element off, or all elements
before the limit are wanted. -/
theorem filter_take_eq_take_filter_iff :
    (elements.take limit).filter wanted = (elements.filter wanted).take limit ↔
      (∀ element ∈ elements.take limit, wanted element) ∨
        ∀ element ∈ elements.drop limit, ¬ wanted element := by
  have parts : elements.filter wanted =
      (elements.take limit).filter wanted ++ (elements.drop limit).filter wanted := by
    rw [← List.filter_append, List.take_append_drop]
  have short : ((elements.take limit).filter wanted).length ≤ limit :=
    (List.length_filter_le _ _).trans (List.length_take_le _ _)
  have cut : (elements.filter wanted).take limit = (elements.take limit).filter wanted ++
      ((elements.drop limit).filter wanted).take
        (limit - ((elements.take limit).filter wanted).length) := by
    rw [parts, List.take_append, List.take_of_length_le short]
  rw [cut, List.self_eq_append_right, List.take_eq_nil_iff, Nat.sub_eq_zero_iff_le,
    List.filter_eq_nil_iff]
  refine or_congr_left' fun more => ?_
  -- an element behind the limit is wanted, so the limit is reached
  have reached : (elements.take limit).length = limit := by
    refine List.length_take_of_le (Nat.le_of_lt (Nat.lt_of_not_le fun few => more ?_))
    rw [List.drop_eq_nil_of_le few]
    exact fun element member => absurd member List.not_mem_nil
  rw [← List.length_filter_eq_length_iff, reached]
  exact ⟨fun full => le_antisymm short full, fun all => all.ge⟩

end Taking

/-! ### The collector -/

/-- What a collector is set up with. -/
structure RaceCollector.Setup where
  layout : Layout
  suppressionLevel : ℕ
  syms : ℕ → SymbolLocation
  filter : RaceFilter

/-- The state of a collector, with what it has forwarded to its sinks. -/
structure RaceCollector where
  races : List DecoratedRace := []
  raceCount : ℕ := 0
  racyStacks : Finset ℕ := ∅
  forwarded : List DecoratedRace := []

namespace RaceCollector

/-- `RaceCollector::MAX`. -/
def max : ℕ := 200

variable (setup : Setup)

/-- The stacks a race is known by. -/
def stackHash (r : Race) : ℕ :=
  r.first.stackTrace[0] ^^^ (r.second.stackTrace[0] <<< 1) % setup.layout.sizeRange

/-- The outermost entry of a stack, or the access itself if the stack is no deeper. -/
def outermost (access : AccessEntry) : ℕ := access.stackTrace[0]

/-- Whether a race with the same stacks has been seen, and the seen ones after it. -/
def filterDuplicates (racyStacks : Finset ℕ) (r : Race) : Bool × Finset ℕ :=
  if setup.suppressionLevel = 0 then (false, racyStacks)
  else if stackHash setup r ∉ racyStacks then (false, insert (stackHash setup r) racyStacks)
  else (true, racyStacks)

def resolveSymbols (access : ResolvedAccess) : ResolvedAccess :=
  { access with resolvedStack :=
      access.resolvedStack ++ (access.stackTrace.toList.take access.stackSize).map setup.syms }

def resolveRace (race : DecoratedRace) : DecoratedRace :=
  if race.isResolved then race
  else { race with
    resolvedAddr := setup.syms race.first.accessedMemory
    first := resolveSymbols setup race.first
    second := resolveSymbols setup race.second
    isResolved := true }

/-- Adds a race that is found `ttr` milliseconds after the start. -/
def addRace (delayedLookup : Bool) (collector : RaceCollector) (r : Race) (ttr : ℕ) :
    RaceCollector :=
  if max < collector.raceCount then collector
  else
    let (duplicate, racyStacks) := filterDuplicates setup collector.racyStacks r
    let collector := { collector with racyStacks }
    if duplicate ∨ setup.filter.checkImplausible r then collector
    else if delayedLookup then
      let race := DecoratedRace.ofRace r ttr
      { collector with
        races := collector.races ++ [race]
        forwarded := collector.forwarded ++ [race]
        raceCount := collector.raceCount + 1 }
    else
      let race := resolveRace setup (.ofRace r ttr)
      -- a suppressed race stays behind in the collection
      if setup.filter.checkSuppress race then { collector with races := collector.races ++ [race] }
      else { collector with
        forwarded := collector.forwarded ++ [race]
        raceCount := collector.raceCount + 1 }

/-- How many values `_race_count` has. An `unsigned long` has 32 bit at least. -/
def countRange : ℕ := 0x100000000

/-- The loop of `resolve_all` over the collected races: the races that stay and their count, which
wraps where more races are erased than were counted. -/
def resolveLoop : List DecoratedRace → ℕ → List DecoratedRace × ℕ
  | [], raceCount => ([], raceCount)
  | race :: rest, raceCount =>
    let resolved := resolveRace setup race
    if setup.filter.checkSuppress resolved then
      resolveLoop rest ((raceCount + countRange - 1) % countRange)
    else
      let (races, left) := resolveLoop rest raceCount
      (resolved :: races, left)

/-- Resolves all races and erases the suppressed ones. -/
def resolveAll (collector : RaceCollector) : RaceCollector :=
  let (races, raceCount) := resolveLoop setup collector.races collector.raceCount
  { collector with races, raceCount }

/-- Adds races one after the other. -/
def collect (delayedLookup : Bool) (reports : List (Race × ℕ)) (collector : RaceCollector) :
    RaceCollector :=
  reports.foldl (fun collector report =>
    collector.addRace setup delayedLookup report.1 report.2) collector

/-! ### What a sequence of races comes to -/

/-- The races of a sequence that are neither duplicates nor implausible, resolved. -/
def admitted : Finset ℕ → List (Race × ℕ) → List DecoratedRace
  | _, [] => []
  | racyStacks, report :: rest =>
    let (duplicate, racyStacks) := filterDuplicates setup racyStacks report.1
    if duplicate ∨ setup.filter.checkImplausible report.1 then admitted racyStacks rest
    else resolveRace setup (.ofRace report.1 report.2) :: admitted racyStacks rest

/-- A race that is not suppressed. -/
def genuine (race : DecoratedRace) : Bool := !setup.filter.checkSuppress race

variable {setup} {collector : RaceCollector} {reports : List (Race × ℕ)}
  {races : List DecoratedRace}

/-- How many races a collector still takes. -/
def room (collector : RaceCollector) : ℕ := max + 1 - collector.raceCount

theorem room_eq_zero (full : max < collector.raceCount) : collector.room = 0 :=
  Nat.sub_eq_zero_of_le full

theorem room_succ (fits : ¬ max < collector.raceCount) :
    max + 1 - collector.raceCount = max + 1 - (collector.raceCount + 1) + 1 := by omega

/-- What adding a race can do: nothing if the collector is full, or it rejects the race as a
duplicate or as implausible, or it takes the race as its mode does. -/
theorem addRace_cases (setup : Setup) (delayedLookup : Bool) (collector : RaceCollector)
    (r : Race) (ttr : ℕ) :
    (max < collector.raceCount ∧ collector.addRace setup delayedLookup r ttr = collector) ∨
      ¬ max < collector.raceCount ∧ ∃ racyStacks,
        ((∀ rest, admitted setup collector.racyStacks ((r, ttr) :: rest) =
            admitted setup racyStacks rest) ∧
          collector.addRace setup delayedLookup r ttr = { collector with racyStacks }) ∨
        (∀ rest, admitted setup collector.racyStacks ((r, ttr) :: rest) =
            resolveRace setup (.ofRace r ttr) :: admitted setup racyStacks rest) ∧
          collector.addRace setup delayedLookup r ttr =
            if delayedLookup then
              { races := collector.races ++ [.ofRace r ttr]
                raceCount := collector.raceCount + 1
                racyStacks
                forwarded := collector.forwarded ++ [.ofRace r ttr] }
            else if setup.filter.checkSuppress (resolveRace setup (.ofRace r ttr)) then
              { collector with
                races := collector.races ++ [resolveRace setup (.ofRace r ttr)]
                racyStacks }
            else
              { collector with
                raceCount := collector.raceCount + 1
                racyStacks
                forwarded := collector.forwarded ++ [resolveRace setup (.ofRace r ttr)] } := by
  by_cases full : max < collector.raceCount
  · exact Or.inl ⟨full, if_pos full⟩
  · refine Or.inr ⟨full, (filterDuplicates setup collector.racyStacks r).2, ?_⟩
    rw [addRace, if_neg full]
    by_cases rejected : (filterDuplicates setup collector.racyStacks r).1 = true ∨
        setup.filter.checkImplausible r = true
    · exact Or.inl ⟨fun rest => if_pos rejected, if_pos rejected⟩
    · exact Or.inr ⟨fun rest => if_neg rejected, if_neg rejected⟩

/-- Streaming forwards the first of the races that are not suppressed. -/
theorem collect_streaming : (collect setup false reports collector).forwarded =
    collector.forwarded ++
      ((admitted setup collector.racyStacks reports).filter (genuine setup)).take
        collector.room := by
  induction reports generalizing collector with
  | nil => simp [collect, admitted]
  | cons report rest inductionHypothesis =>
    rw [collect, List.foldl_cons, ← collect, inductionHypothesis]
    rcases addRace_cases setup false collector report.1 report.2 with
      ⟨full, same⟩ | ⟨fits, racyStacks, ⟨rejects, same⟩ | ⟨admits, same⟩⟩
    · rw [same, room_eq_zero full, List.take_zero, List.take_zero]
    · rw [same, rejects rest]
      rfl
    · rw [same, if_neg Bool.false_ne_true, admits rest]
      split
      · next suppressed =>
        rw [List.filter_cons_of_neg (by simp [genuine, suppressed])]
        rfl
      · next wanted =>
        rw [List.filter_cons_of_pos (by simp [genuine, wanted]), room, room, room_succ fits,
          List.take_succ_cons, List.append_assoc]
        rfl

/-- The delayed mode collects the first of the races. -/
theorem collect_delayed : (collect setup true reports collector).races.map (resolveRace setup) =
    collector.races.map (resolveRace setup) ++
      (admitted setup collector.racyStacks reports).take collector.room := by
  induction reports generalizing collector with
  | nil => simp [collect, admitted]
  | cons report rest inductionHypothesis =>
    rw [collect, List.foldl_cons, ← collect, inductionHypothesis]
    rcases addRace_cases setup true collector report.1 report.2 with
      ⟨full, same⟩ | ⟨fits, racyStacks, ⟨rejects, same⟩ | ⟨admits, same⟩⟩
    · rw [same, room_eq_zero full, List.take_zero, List.take_zero]
    · rw [same, rejects rest]
      rfl
    · rw [same, if_pos rfl, admits rest, room, room, room_succ fits, List.take_succ_cons,
        List.map_append, List.append_assoc]
      rfl

/-- What every added race keeps is kept by a sequence of them. -/
theorem collect_keeps {delayedLookup : Bool} (property : RaceCollector → Prop)
    (addRace : ∀ collector r ttr, property collector →
      property (collector.addRace setup delayedLookup r ttr))
    (holds : property collector) : property (collect setup delayedLookup reports collector) :=
  List.foldlRecOn reports _ holds fun collector holds _ _ => addRace collector _ _ holds

/-- A collector in streaming mode counts what it has forwarded. -/
theorem raceCount_addRace_streaming (r : Race) (ttr : ℕ)
    (counted : collector.raceCount = collector.forwarded.length) :
    (collector.addRace setup false r ttr).raceCount =
      (collector.addRace setup false r ttr).forwarded.length := by
  rcases addRace_cases setup false collector r ttr with
    ⟨_, same⟩ | ⟨_, racyStacks, ⟨_, same⟩ | ⟨_, same⟩⟩
  · rw [same, counted]
  · rw [same]
    exact counted
  · rw [same, if_neg Bool.false_ne_true]
    split
    · exact counted
    · rw [List.length_append, counted, List.length_singleton]

theorem raceCount_streaming (counted : collector.raceCount = collector.forwarded.length) :
    (collect setup false reports collector).raceCount =
      (collect setup false reports collector).forwarded.length :=
  collect_keeps (fun collector => collector.raceCount = collector.forwarded.length)
    (fun _ r ttr counted => raceCount_addRace_streaming r ttr counted) counted

/-- A collector in delayed mode counts what it has collected. -/
theorem raceCount_addRace_delayed (r : Race) (ttr : ℕ)
    (counted : collector.raceCount = collector.races.length) :
    (collector.addRace setup true r ttr).raceCount =
      (collector.addRace setup true r ttr).races.length := by
  rcases addRace_cases setup true collector r ttr with
    ⟨_, same⟩ | ⟨_, racyStacks, ⟨_, same⟩ | ⟨_, same⟩⟩
  · rw [same, counted]
  · rw [same]
    exact counted
  · rw [same, if_pos rfl, List.length_append, counted, List.length_singleton]

theorem raceCount_delayed (counted : collector.raceCount = collector.races.length) :
    (collect setup true reports collector).raceCount =
      (collect setup true reports collector).races.length :=
  collect_keeps (fun collector => collector.raceCount = collector.races.length)
    (fun _ r ttr counted => raceCount_addRace_delayed r ttr counted) counted

/-- No collector counts more races than it takes. -/
theorem raceCount_addRace_le {delayedLookup : Bool} (r : Race) (ttr : ℕ)
    (few : collector.raceCount ≤ max + 1) :
    (collector.addRace setup delayedLookup r ttr).raceCount ≤ max + 1 := by
  rcases addRace_cases setup delayedLookup collector r ttr with
    ⟨_, same⟩ | ⟨fits, racyStacks, ⟨_, same⟩ | ⟨_, same⟩⟩
  · rw [same]
    exact few
  · rw [same]
    exact few
  · have one : collector.raceCount + 1 ≤ max + 1 := Nat.succ_le_succ (not_lt.mp fits)
    rw [same]
    split
    · exact one
    · split
      · exact few
      · exact one

theorem raceCount_collect_le {delayedLookup : Bool} :
    (collect setup delayedLookup reports {}).raceCount ≤ max + 1 :=
  collect_keeps (fun collector => collector.raceCount ≤ max + 1)
    (fun _ r ttr few => raceCount_addRace_le r ttr few) (Nat.zero_le _)

/-- A count up to the limit does not wrap. -/
theorem lt_countRange {count : ℕ} (few : count ≤ max + 1) : count < countRange :=
  few.trans_lt (by decide)

/-- The loop keeps the races that are not suppressed, and takes the others off the count. -/
theorem resolveLoop_eq (before : ℕ) (small : before + races.length < countRange) :
    resolveLoop setup races (before + races.length) =
    ((races.map (resolveRace setup)).filter (genuine setup),
      before + ((races.map (resolveRace setup)).filter (genuine setup)).length) := by
  induction races generalizing before with
  | nil => rfl
  | cons race rest inductionHypothesis =>
    rw [List.length_cons] at small
    rw [resolveLoop, List.map_cons, List.length_cons]
    simp only
    split
    · next suppressed =>
      have less : before + (rest.length + 1) + countRange - 1 =
          before + rest.length + countRange := by omega
      have fewer : before + rest.length < countRange := by omega
      rw [List.filter_cons_of_neg (by simp [genuine, suppressed]), less, Nat.add_mod_right,
        Nat.mod_eq_of_lt fewer]
      exact inductionHypothesis before fewer
    · next wanted =>
      rw [List.filter_cons_of_pos (by simp [genuine, wanted]), ← Nat.add_assoc, Nat.add_right_comm,
        inductionHypothesis (before + 1) (by omega), List.length_cons]
      simp only [Prod.mk.injEq, true_and]
      omega

/-- What the delayed mode has in the end. -/
theorem resolveAll_collect : ((collect setup true reports {}).resolveAll setup).races =
    ((admitted setup ∅ reports).take (max + 1)).filter (genuine setup) := by
  have counted : (collect setup true reports {}).raceCount =
      (collect setup true reports {}).races.length := raceCount_delayed rfl
  have collected : (collect setup true reports {}).races.map (resolveRace setup) =
      (admitted setup ∅ reports).take (max + 1) := collect_delayed
  have small : 0 + (collect setup true reports {}).races.length < countRange := by
    rw [Nat.zero_add, ← counted]
    exact lt_countRange raceCount_collect_le
  have loop : resolveLoop setup (collect setup true reports {}).races
      (0 + (collect setup true reports {}).races.length) = _ := resolveLoop_eq 0 small
  rw [Nat.zero_add, ← counted, collected] at loop
  rw [resolveAll, loop]

end RaceCollector

open RaceCollector

/-- The delayed mode ends up with a beginning of what streaming forwards and counts, and with all of
it just if no race before the limit is suppressed or every race behind it is. -/
theorem delayed_agrees_with_streaming (setup : Setup) (reports : List (Race × ℕ)) :
    let streaming := collect setup false reports {}
    let delayed := (collect setup true reports {}).resolveAll setup
    streaming.raceCount = streaming.forwarded.length ∧ delayed.races <+: streaming.forwarded ∧
      (delayed.races = streaming.forwarded ↔
        (∀ race ∈ (admitted setup ∅ reports).take (max + 1), ¬ setup.filter.checkSuppress race) ∨
          ∀ race ∈ (admitted setup ∅ reports).drop (max + 1), setup.filter.checkSuppress race) := by
  have forwarded : (collect setup false reports {}).forwarded =
      ((admitted setup ∅ reports).filter (genuine setup)).take (max + 1) := collect_streaming
  refine ⟨raceCount_streaming rfl, ?_, ?_⟩
  · rw [forwarded, resolveAll_collect]
    exact filter_take_prefix_take_filter
  · rw [forwarded, resolveAll_collect, filter_take_eq_take_filter_iff]
    simp [genuine]

/-- A race on one address at one program counter. -/
def raceAt (pc addr : ℕ) : Race :=
  let entry : AccessEntry :=
    { write := true, onheap := false, threadId := 1, accessType := 0, stackSize := 1
      accessSize := 3, heapBlockSize := 0, accessedMemory := addr, heapBlockBegin := 0
      stackTrace := Vector.replicate _ pc }
  ⟨entry, entry⟩

/-- Suppressed races use up the limit of the delayed mode, and a genuine one after them is lost. -/
theorem suppressed_races_fill_delayed :
    ¬ ∀ (setup : Setup) (reports : List (Race × ℕ)),
      ((collect setup true reports {}).resolveAll setup).races =
        (collect setup false reports {}).forwarded := by
  intro agree
  let setup : Setup := ⟨.x64, 0, fun pc => { pc }, { addrList := [(8, 8)] }⟩
  let reports := List.replicate 201 (raceAt 1 8, 0) ++ [(raceAt 1000 64, 0)]
  have lost := congrArg List.length (agree setup reports)
  rw [resolveAll_collect, collect_streaming] at lost
  exact absurd lost (by decide +kernel)

end Drace
