/-
This file says which races the duplicate filter loses.

A race is known by one word, mixed from the outermost entries of its two stacks, and
the word is noted before the other filters look at the race. So a race is lost to one
that has another top of stack, if their words agree; and it is lost to one that was
itself thrown away.
-/

import Mathlib
import Drace.Collection

namespace Drace

namespace RaceCollector

open Machine

variable {setup : Setup} {delayedLookup : Bool} {collector : RaceCollector} {key : ℕ}
  {past front : List CollectorStep} {step : CollectorStep} {race : DecoratedRace} {r other : Race}

/-! ### The words that were seen -/

theorem rejects_iff : Rejects setup collector r ↔
    setup.suppressionLevel ≠ 0 ∧ stackHash setup r ∈ collector.racyStacks := by
  unfold Rejects filterDuplicates
  split
  · next off => simp [off]
  · next level =>
    split
    · next fresh => simp [fresh]
    · next seen => simp [level, not_not.mp seen]

/-- The call takes a race that is known by this word. -/
def Brings (setup : Setup) (key : ℕ) (step : CollectorStep) : Prop :=
  ∃ report ∈ taken step, stackHash setup report.1 = key

instance : DecidablePred (Brings setup key) := fun _ => inferInstanceAs (Decidable (∃ _ ∈ _, _))

theorem mem_filterDuplicates (level : setup.suppressionLevel ≠ 0) :
    key ∈ (filterDuplicates setup collector.racyStacks r).2 ↔
      key ∈ collector.racyStacks ∨ stackHash setup r = key := by
  unfold filterDuplicates
  rw [if_neg level]
  split
  · rw [Finset.mem_insert, or_comm, eq_comm]
  · next seen =>
    refine (or_iff_left_of_imp ?_).symm
    rintro rfl
    exact not_not.mp seen

/-- A call adds the word of the race it takes. -/
theorem mem_racyStacks_post (level : setup.suppressionLevel ≠ 0)
    (defined : (machine setup delayedLookup).call step.pre step.event =
      some (step.post, step.output)) :
    key ∈ step.post.racyStacks ↔ key ∈ step.pre.racyStacks ∨ Brings setup key step := by
  obtain ⟨before, event, after, output⟩ := step
  cases event with
  | addRace r ttr =>
    have next : before.addRace setup delayedLookup r ttr = after :=
      (Prod.mk.inj (Option.some.inj defined)).1
    have words := (addRace_spec setup delayedLookup before r ttr).1
    show key ∈ after.racyStacks ↔ _
    rw [← next, words, Brings, taken]
    simp only
    split
    · simp
    · simp [mem_filterDuplicates level]
  | resolveAll =>
    have next : before.resolveAll setup = after := (Prod.mk.inj (Option.some.inj defined)).1
    show key ∈ after.racyStacks ↔ _
    rw [← next]
    simp [Brings, taken, resolveAll]

/-- The words seen are those of the races that were taken. -/
theorem mem_racyStacks_iff (level : setup.suppressionLevel ≠ 0)
    (reaches : (machine setup delayedLookup).Reaches past collector) :
    key ∈ collector.racyStacks ↔ ∃ step ∈ past, Brings setup key step := by
  induction reaches with
  | start begins =>
    rw [show _ = ({} : RaceCollector) from begins]
    simp
  | @call past before after event output _ defined inductionHypothesis =>
    let step : CollectorStep := ⟨before, event, after, output⟩
    have made : (machine setup delayedLookup).call step.pre step.event =
        some (step.post, step.output) := defined
    rw [show after = step.post from rfl, mem_racyStacks_post level made, inductionHypothesis]
    simp only [List.mem_append, List.mem_singleton, or_and_right, exists_or, exists_eq_left]
    rfl

/-- A word that was seen was brought by a first race. -/
theorem exists_first (seen : ∃ step ∈ past, Brings setup key step) :
    ∃ before first rest, past = before ++ first :: rest ∧ Brings setup key first ∧
      ∀ step ∈ before, ¬ Brings setup key step := by
  have found : (past.find? fun step => Brings setup key step).isSome := by
    rw [List.find?_isSome]
    simpa using seen
  obtain ⟨first, same⟩ := Option.isSome_iff_exists.mp found
  obtain ⟨brings, before, rest, rfl, fresh⟩ := List.find?_eq_some_iff_append.mp same
  exact ⟨before, first, rest, rfl, by simpa using brings, by simpa using fresh⟩

/-! ### Similar races -/

/-- The innermost entry of a stack. -/
def topOfStack (access : AccessEntry) : Option ℕ := access.stackTrace[access.stackSize - 1]?

/-- The pair of top-of-callstack entries of a race. -/
def tops (r : Race) : Option ℕ × Option ℕ := (topOfStack r.first, topOfStack r.second)

/-- The race passes the duplicate filter before the call, and it is rejected after it. -/
def Suppresses (setup : Setup) (step : CollectorStep) (r : Race) : Prop :=
  ¬ Rejects setup step.pre r ∧ Rejects setup step.post r

/-- The outermost entries of the first stacks differ as much as those of the second stacks, moved by
one bit. -/
def SameMix (setup : Setup) (r other : Race) : Prop :=
  outermost r.first ^^^ outermost other.first =
    ((outermost r.second ^^^ outermost other.second) <<< 1) % setup.layout.sizeRange

instance : Decidable (SameMix setup r other) := inferInstanceAs (Decidable (_ = _))

theorem sameMix_iff : SameMix setup r other ↔ stackHash setup r = stackHash setup other := by
  have swap : ∀ a b c d : ℕ, a ^^^ b = c ^^^ d ↔ a ^^^ c = b ^^^ d := by
    intro a b c d
    have same : a ^^^ b ^^^ (c ^^^ d) = a ^^^ c ^^^ (b ^^^ d) := by ac_rfl
    rw [← xor_eq_zero_iff, same, xor_eq_zero_iff]
  have width : ∃ width, setup.layout.sizeRange = 2 ^ width := by
    cases setup.layout with
    | x86 => exact ⟨32, rfl⟩
    | x64 => exact ⟨64, rfl⟩
  obtain ⟨width, same⟩ := width
  rw [SameMix, stackHash, stackHash, outermost, outermost, outermost, outermost, same,
    Nat.shiftLeft_xor_distrib, Nat.xor_mod_two_pow, swap]

/-- A rejected race has an earlier one with the same tops. -/
def RejectsSimilar (setup : Setup) (front : List CollectorStep) (step : CollectorStep) : Prop :=
  ∀ report ∈ taken step, Rejects setup step.pre report.1 →
    ∃ earlier ∈ front, ∃ other ∈ taken earlier, tops other.1 = tops report.1

/-- A race is suppressed by races with the same tops only. -/
def SuppressesSimilar (setup : Setup) (front : List CollectorStep) (step : CollectorStep) : Prop :=
  ∀ report ∈ taken step, ∀ earlier ∈ front, ∀ other ∈ taken earlier,
    Suppresses setup earlier report.1 → tops other.1 = tops report.1

/-- Races whose outermost entries mix to the same word have the same tops. -/
def MixesSimilar (setup : Setup) (front : List CollectorStep) (step : CollectorStep) : Prop :=
  ∀ report ∈ taken step, ∀ earlier ∈ front, ∀ other ∈ taken earlier,
    SameMix setup other.1 report.1 → tops other.1 = tops report.1

instance : Decidable (RejectsSimilar setup front step) :=
  inferInstanceAs (Decidable (∀ _ ∈ _, _ → ∃ _ ∈ _, ∃ _ ∈ _, _))

instance : Decidable (MixesSimilar setup front step) :=
  inferInstanceAs (Decidable (∀ _ ∈ _, ∀ _ ∈ _, ∀ _ ∈ _, _))

/-- A race is suppressed by the first race of its word. -/
theorem suppresses_iff (level : setup.suppressionLevel ≠ 0)
    (reaches : (machine setup delayedLookup).Reaches past collector)
    (initial : front ++ [step] <+: past) :
    Suppresses setup step r ↔ Brings setup (stackHash setup r) step ∧
      ∀ earlier ∈ front, ¬ Brings setup (stackHash setup r) earlier := by
  obtain ⟨before, defined⟩ := reaches.step initial
  have seen : stackHash setup r ∈ step.pre.racyStacks ↔ _ := mem_racyStacks_iff level before
  unfold Suppresses
  rw [rejects_iff, rejects_iff, mem_racyStacks_post level defined, seen]
  simp only [level, ne_eq, not_false_eq_true, true_and, not_exists, not_and]
  constructor
  · rintro ⟨fresh, later⟩
    exact ⟨later.resolve_left fun ⟨earlier, member, brings⟩ => fresh earlier member brings, fresh⟩
  · rintro ⟨brings, fresh⟩
    exact ⟨fresh, Or.inr brings⟩

/-- A call takes one race. -/
theorem Brings.hash {report : Race × ℕ} (brings : Brings setup key step)
    (takes : report ∈ taken step) : stackHash setup report.1 = key := by
  obtain ⟨other, found, rfl⟩ := brings
  rw [Option.mem_unique takes found]

/-- Of the races with one word the first suppresses all others, so these have its tops. -/
theorem tops_first {before rest : List CollectorStep} {first : CollectorStep}
    {report third : Race × ℕ} (level : setup.suppressionLevel ≠ 0)
    (reaches : (machine setup delayedLookup).Reaches past collector)
    (similar : Always (SuppressesSimilar setup) past)
    (initial : before ++ first :: rest ++ [step] <+: past) (takes : report ∈ taken step)
    (takesFirst : third ∈ taken first)
    (same : stackHash setup third.1 = stackHash setup report.1)
    (fresh : ∀ earlier ∈ before, ¬ Brings setup (stackHash setup report.1) earlier) :
    tops third.1 = tops report.1 := by
  have early : before ++ [first] <+: past := by
    refine List.IsPrefix.trans ⟨rest ++ [step], ?_⟩ initial
    simp
  have suppresses : Suppresses setup first report.1 :=
    (suppresses_iff level reaches early).mpr ⟨⟨third, takesFirst, same⟩, fresh⟩
  exact similar _ step initial report takes first (by simp) third takesFirst suppresses

end RaceCollector

open RaceCollector

/-- Only similar races are de-duplicated just if the races taken whose outermost entries mix to the
same word have the same tops. -/
theorem duplicates_similar_iff {setup : Setup} {delayedLookup : Bool} {past : List CollectorStep}
    {collector : RaceCollector} (level : setup.suppressionLevel = 1)
    (reaches : (machine setup delayedLookup).Reaches past collector) :
    Machine.Always (RejectsSimilar setup) past ∧ Machine.Always (SuppressesSimilar setup) past ↔
      Machine.Always (MixesSimilar setup) past := by
  have on : setup.suppressionLevel ≠ 0 := by rw [level]; exact Nat.one_ne_zero
  constructor
  · rintro ⟨-, similar⟩ front step initial report takes earlier member other takesOther mixes
    have same := sameMix_iff.mp mixes
    obtain ⟨before, first, rest, rfl, ⟨third, takesFirst, key⟩, fresh⟩ :=
      exists_first ⟨earlier, member, other, takesOther, same⟩
    have last : tops third.1 = tops report.1 :=
      tops_first on reaches similar initial takes takesFirst key fresh
    rw [← last]
    rcases List.mem_append.mp member with among | among
    · exact absurd ⟨other, takesOther, same⟩ (fresh earlier among)
    rcases List.mem_cons.mp among with rfl | behind
    · rw [Option.mem_unique takesFirst takesOther]
    · obtain ⟨between, after, rfl⟩ := List.append_of_mem behind
      have shorter : before ++ first :: between ++ [earlier] <+: past := by
        refine List.IsPrefix.trans ⟨after ++ [step], ?_⟩ initial
        simp
      rw [← same] at key fresh
      exact (tops_first on reaches similar shorter takesOther takesFirst key fresh).symm
  · intro mixes
    refine ⟨fun front step initial report takes rejected => ?_,
      fun front step initial report takes earlier member other takesOther suppresses => ?_⟩
    · have seen := (rejects_iff.mp rejected).2
      obtain ⟨earlier, member, other, takesOther, same⟩ :=
        (mem_racyStacks_iff on (reaches.step initial).1).mp seen
      exact ⟨earlier, member, other, takesOther,
        mixes front step initial report takes earlier member other takesOther
          (sameMix_iff.mpr same)⟩
    · obtain ⟨before, after, rfl⟩ := List.append_of_mem member
      have shorter : before ++ [earlier] <+: past := by
        refine List.IsPrefix.trans ⟨after ++ [step], ?_⟩ initial
        simp
      have brings := ((suppresses_iff on reaches shorter).mp suppresses).1
      exact mixes _ step initial report takes earlier member other takesOther
        (sameMix_iff.mpr (brings.hash takesOther))

/-- A duplicate filter without any other filters. -/
def plainSetup : Setup := ⟨.x64, 1, fun pc => { pc }, {}⟩

/-- A race comes again, and one with another program counter follows. -/
def comesAgain : List CollectorCall :=
  [.addRace (raceAt 1 8) 0, .addRace (raceAt 1 8) 1, .addRace (raceAt 2 8) 2]

theorem duplicates_similar_iff_again :
    let past := ((machine plainSetup false).ran {} comesAgain).1
    Machine.Always (RejectsSimilar plainSetup) past ∧
        Machine.Always (SuppressesSimilar plainSetup) past ↔
      Machine.Always (MixesSimilar plainSetup) past :=
  duplicates_similar_iff rfl (Machine.reaches_ran rfl comesAgain)

/-- A race between two functions that are called from the same place. -/
def raceWithin (outer inner : ℕ) : Race :=
  let entry : AccessEntry :=
    { write := true, onheap := false, threadId := 1, accessType := 0, stackSize := 2
      accessSize := 3, heapBlockSize := 0, accessedMemory := 8, heapBlockBegin := 0
      stackTrace := (Vector.replicate _ inner).setIfInBounds 0 outer }
  ⟨entry, entry⟩

/-- The place it is called from makes another race a duplicate. -/
theorem other_top_rejected :
    ¬ ∀ (setup : Setup) (delayedLookup : Bool) (past : List CollectorStep)
      (collector : RaceCollector), setup.suppressionLevel = 1 →
        (machine setup delayedLookup).Reaches past collector →
          Machine.Always (RejectsSimilar setup) past ∧
            Machine.Always (SuppressesSimilar setup) past := by
  intro always
  let calls : List CollectorCall := [.addRace (raceWithin 1 2) 0, .addRace (raceWithin 1 3) 1]
  have similar := (always plainSetup false _ _ rfl (Machine.reaches_ran rfl calls)).1
  exact absurd similar (by decide +kernel)

namespace RaceCollector

open Machine

variable {setup : Setup} {delayedLookup : Bool} {collector : RaceCollector} {key : ℕ}
  {past front : List CollectorStep} {step : CollectorStep} {race : DecoratedRace}
  {report : Race × ℕ}

/-! ### Lost races -/

/-- The race as the detector reported it. -/
def toRace (race : DecoratedRace) : Race :=
  ⟨race.first.toAccessEntry, race.second.toAccessEntry⟩

/-- What the sinks get of a race. -/
def entryOf (setup : Setup) (delayedLookup : Bool) (report : Race × ℕ) : DecoratedRace :=
  if delayedLookup then .ofRace report.1 report.2
  else resolveRace setup (.ofRace report.1 report.2)

/-- The race is suppressed by the filter, once it has its symbols. -/
def Suppressed (setup : Setup) (report : Race × ℕ) : Prop :=
  setup.filter.checkSuppress (resolveRace setup (.ofRace report.1 report.2)) = true

instance : Decidable (Suppressed setup report) := inferInstanceAs (Decidable (_ = _))

/-- The race does not get past the filters behind the duplicate filter. Delayed races are looked at
later. -/
def Discarded (setup : Setup) (delayedLookup : Bool) (report : Race × ℕ) : Prop :=
  setup.filter.checkImplausible report.1 = true ∨ delayedLookup = false ∧ Suppressed setup report

instance : Decidable (Discarded setup delayedLookup report) :=
  inferInstanceAs (Decidable (_ ∨ _ ∧ _))

/-- A plausible and unsuppressed race whose word no forwarded race has is forwarded itself. -/
def Forwards (setup : Setup) (delayedLookup : Bool) (step : CollectorStep) : Prop :=
  ∀ report ∈ taken step, ¬ setup.filter.checkImplausible report.1 = true →
    ¬ Suppressed setup report →
      (∀ race ∈ step.pre.forwarded, stackHash setup (toRace race) ≠ stackHash setup report.1) →
        step.post.forwarded = step.pre.forwarded ++ [entryOf setup delayedLookup report]

instance : Decidable (Forwards setup delayedLookup step) :=
  inferInstanceAs (Decidable (∀ _ ∈ _, _ → _ → (∀ _ ∈ _, _) → _ = _))

/-- Of the races with the word of a plausible and unsuppressed one the first was not discarded. -/
def FirstStands (setup : Setup) (delayedLookup : Bool) (front : List CollectorStep)
    (step : CollectorStep) : Prop :=
  ∀ report ∈ taken step, ¬ setup.filter.checkImplausible report.1 = true →
    ¬ Suppressed setup report → ∀ before first, before ++ [first] <+: front →
      (∀ earlier ∈ before, ¬ Brings setup (stackHash setup report.1) earlier) →
        ∀ other ∈ taken first, stackHash setup other.1 = stackHash setup report.1 →
          ¬ Discarded setup delayedLookup other

theorem toRace_entryOf : toRace (entryOf setup delayedLookup report) = report.1 := by
  cases delayedLookup <;> rfl

/-- A race is forwarded if it is neither rejected nor discarded. -/
theorem forwardedAt_eq_some_iff : forwardedAt setup delayedLookup step = some race ↔
    ∃ report ∈ taken step, ¬ Rejects setup step.pre report.1 ∧
      ¬ Discarded setup delayedLookup report ∧ entryOf setup delayedLookup report = race := by
  cases takes : taken step with
  | none => simp [forwardedAt, detectedAt, takes]
  | some report =>
    obtain ⟨r, ttr⟩ := report
    simp only [forwardedAt, detectedAt, takes, Option.mem_def, Option.some.injEq, exists_eq_left',
      Discarded, not_or, entryOf, Suppressed]
    by_cases rejected : Rejects setup step.pre r
    · simp [rejected]
    · by_cases garbage : setup.filter.checkImplausible r = true
      · simp [garbage]
      · cases delayedLookup with
        | true => simp [rejected, garbage]
        | false => simp [rejected, garbage]

theorem forwarded_post (defined : (machine setup delayedLookup).call step.pre step.event =
    some (step.post, step.output)) :
    step.post.forwarded = step.pre.forwarded ++ (forwardedAt setup delayedLookup step).toList := by
  obtain ⟨before, event, after, output⟩ := step
  cases event with
  | addRace r ttr =>
    have next : before.addRace setup delayedLookup r ttr = after :=
      (Prod.mk.inj (Option.some.inj defined)).1
    exact next ▸ (addRace_spec setup delayedLookup before r ttr).2.1
  | resolveAll =>
    have next : before.resolveAll setup = after := (Prod.mk.inj (Option.some.inj defined)).1
    exact next ▸ (List.append_nil _).symm

theorem forwarded_post_iff (defined : (machine setup delayedLookup).call step.pre step.event =
    some (step.post, step.output)) : step.post.forwarded = step.pre.forwarded ++ [race] ↔
      forwardedAt setup delayedLookup step = some race := by
  rw [forwarded_post defined, List.append_right_inj]
  cases forwardedAt setup delayedLookup step <;> simp

/-- The sinks have got what was forwarded in each call. -/
theorem forwarded_of_reaches (reaches : (machine setup delayedLookup).Reaches past collector) :
    collector.forwarded = past.filterMap (forwardedAt setup delayedLookup) := by
  induction reaches with
  | start begins =>
    rw [show _ = ({} : RaceCollector) from begins]
    rfl
  | @call past before after event output _ defined inductionHypothesis =>
    let step : CollectorStep := ⟨before, event, after, output⟩
    have made : (machine setup delayedLookup).call step.pre step.event =
        some (step.post, step.output) := defined
    have next : after.forwarded = before.forwarded ++ _ := forwarded_post made
    rw [next, Machine.filterMap_concat, ← inductionHypothesis]

/-- A race is rejected if its word came before it. -/
theorem rejects_iff_brings (level : setup.suppressionLevel ≠ 0)
    (reaches : (machine setup delayedLookup).Reaches past collector) :
    Rejects setup collector report.1 ↔
      ∃ step ∈ past, Brings setup (stackHash setup report.1) step := by
  rw [rejects_iff, mem_racyStacks_iff level reaches]
  exact and_iff_right level

/-- While the first race of a word was discarded, no race with this word is forwarded. -/
theorem hash_ne_of_discarded {before rest : List CollectorStep} {first : CollectorStep}
    {other : Race × ℕ} (level : setup.suppressionLevel ≠ 0)
    (reaches : (machine setup delayedLookup).Reaches (before ++ first :: rest) collector)
    (takes : other ∈ taken first) (discarded : Discarded setup delayedLookup other)
    (fresh : ∀ earlier ∈ before, ¬ Brings setup (stackHash setup other.1) earlier)
    (member : race ∈ collector.forwarded) :
    stackHash setup (toRace race) ≠ stackHash setup other.1 := by
  intro same
  rw [forwarded_of_reaches reaches] at member
  obtain ⟨step, among, found⟩ := List.mem_filterMap.mp member
  obtain ⟨report, takesReport, accepted, kept, rfl⟩ := forwardedAt_eq_some_iff.mp found
  rw [toRace_entryOf] at same
  rcases List.mem_append.mp among with early | among
  · exact fresh step early ⟨report, takesReport, same⟩
  rcases List.mem_cons.mp among with rfl | behind
  · rw [Option.mem_unique takesReport takes] at kept
    exact kept discarded
  · obtain ⟨between, after, rfl⟩ := List.append_of_mem behind
    have shorter : before ++ first :: between ++ [step] <+:
        before ++ first :: (between ++ step :: after) := ⟨after, by simp⟩
    exact accepted ((rejects_iff_brings level (reaches.step shorter).1).mpr
      ⟨first, by simp, other, takes, same.symm⟩)

/-- The first race of a word is forwarded, if it was not discarded. -/
theorem mem_forwarded_of_first {before after : List CollectorStep} {first : CollectorStep}
    {other : Race × ℕ} (level : setup.suppressionLevel ≠ 0)
    (reaches : (machine setup delayedLookup).Reaches (before ++ first :: after) collector)
    (takes : other ∈ taken first) (kept : ¬ Discarded setup delayedLookup other)
    (fresh : ∀ earlier ∈ before, ¬ Brings setup (stackHash setup other.1) earlier) :
    entryOf setup delayedLookup other ∈ collector.forwarded := by
  have early : before ++ [first] <+: before ++ first :: after := ⟨after, by simp⟩
  have passed : ¬ Rejects setup first.pre other.1 := by
    intro rejected
    obtain ⟨earlier, among, brings⟩ :=
      (rejects_iff_brings level (reaches.step early).1).mp rejected
    exact fresh earlier among brings
  rw [forwarded_of_reaches reaches]
  exact List.mem_filterMap.mpr ⟨first, by simp,
    forwardedAt_eq_some_iff.mpr ⟨other, takes, passed, kept, rfl⟩⟩

end RaceCollector

/-- A dropped race takes no others with it just if, at a suppression level other than 0, of the
races with the word of a plausible and unsuppressed one the first was not discarded. -/
theorem dropped_takes_none_iff {setup : Setup} {delayedLookup : Bool} {past : List CollectorStep}
    {collector : RaceCollector} (reaches : (machine setup delayedLookup).Reaches past collector) :
    (∀ step ∈ past, Forwards setup delayedLookup step) ↔
      (setup.suppressionLevel ≠ 0 → Machine.Always (FirstStands setup delayedLookup) past) := by
  constructor
  · intro forwards level front step initial report takes sensible genuine before first early fresh
      other takesOther same discarded
    obtain ⟨reached, defined⟩ := reaches.step initial
    obtain ⟨rest, rfl⟩ := early
    rw [List.append_assoc, List.singleton_append] at reached
    rw [← same] at fresh
    have unknown : ∀ race ∈ step.pre.forwarded,
        stackHash setup (toRace race) ≠ stackHash setup report.1 := fun race member =>
      same ▸ hash_ne_of_discarded level reached takesOther discarded fresh member
    have rejected : Rejects setup step.pre report.1 :=
      (rejects_iff_brings level reached).mpr ⟨first, by simp, other, takesOther, same⟩
    have sent := forwards step (initial.mem (by simp)) report takes sensible genuine unknown
    obtain ⟨again, takesAgain, accepted, -⟩ :=
      forwardedAt_eq_some_iff.mp ((forwarded_post_iff defined).mp sent)
    exact accepted (Option.mem_unique takes takesAgain ▸ rejected)
  · intro stands step member report takes sensible genuine unknown
    obtain ⟨front, rest, rfl⟩ := List.append_of_mem member
    have initial : front ++ [step] <+: front ++ step :: rest := ⟨rest, by simp⟩
    obtain ⟨reached, defined⟩ := reaches.step initial
    have accepted : ¬ Rejects setup step.pre report.1 := by
      intro rejected
      have level := (rejects_iff.mp rejected).1
      obtain ⟨before, first, after, rfl, ⟨other, takesOther, same⟩, fresh⟩ :=
        exists_first ((rejects_iff_brings level reached).mp rejected)
      have early : before ++ [first] <+: before ++ first :: after := ⟨after, by simp⟩
      have kept := stands level _ step initial report takes sensible genuine before first early
        fresh other takesOther same
      rw [← same] at fresh
      have sent := mem_forwarded_of_first level reached takesOther kept fresh
      exact unknown _ sent (by rw [toRace_entryOf, same])
    have kept : ¬ Discarded setup delayedLookup report := fun discarded =>
      discarded.elim sensible fun streaming => genuine streaming.2
    exact (forwarded_post_iff defined).mpr
      (forwardedAt_eq_some_iff.mpr ⟨report, takes, accepted, kept, rfl⟩)

theorem dropped_takes_none_iff_again :
    let past := ((machine plainSetup false).ran {} comesAgain).1
    (∀ step ∈ past, Forwards plainSetup false step) ↔
      (plainSetup.suppressionLevel ≠ 0 → Machine.Always (FirstStands plainSetup false) past) :=
  dropped_takes_none_iff (Machine.reaches_ran rfl comesAgain)

/-- A race without a program counter is implausible, and it makes the next one a duplicate. -/
theorem discarded_takes_other :
    ¬ ∀ (setup : Setup) (delayedLookup : Bool) (past : List CollectorStep)
      (collector : RaceCollector), (machine setup delayedLookup).Reaches past collector →
        ∀ step ∈ past, Forwards setup delayedLookup step := by
  intro always
  let calls : List CollectorCall := [.addRace (raceWithin 1 0) 0, .addRace (raceWithin 1 2) 1]
  have forwards := always plainSetup false _ _ (Machine.reaches_ran rfl calls)
  exact absurd forwards (by decide +kernel)

end Drace
