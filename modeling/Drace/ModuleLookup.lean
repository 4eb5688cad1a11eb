/-
This file says when a lookup by address finds the description of the module that
is loaded there.

Descriptions are never taken out of the index, and a load does not replace a
description with the same base. So a description of an unloaded module stays in
the way of a later module whose range holds its base. The lookup follows the
loads and unloads just where no load meets such a description, or, if only the
values of the description matter, one with other values.
-/

import Drace.ModuleTracker

namespace Drace

open Machine

abbrev ModuleStep := Machine.Step Tracker ModuleEvent (Option PMetadata)

variable {config : TrackerConfig} {tracker next : Tracker} {past front : List ModuleStep}
  {step : ModuleStep} {event : ModuleEvent} {output : Option PMetadata} {mod other : ModuleData}
  {modptr found : PMetadata} {base pc : ℕ}

/-! ### What a history says -/

/-- The modules loaded after a step, each with the description its load has made. -/
def ModuleStep.loadedAfter (current : List (ModuleData × PMetadata)) (step : ModuleStep) :
    List (ModuleData × PMetadata) :=
  match step.event, step.output with
  | .load _ mod, some modptr => (mod, modptr) :: current
  | .load _ _, none => current
  | .unload mod, _ => current.filter fun entry => entry.1 ≠ mod

/-- The modules that are loaded, each with the description its load has made. -/
def loadedModules (past : List ModuleStep) : List (ModuleData × PMetadata) :=
  past.foldl ModuleStep.loadedAfter []

theorem loadedModules_append :
    loadedModules (past ++ [step]) = step.loadedAfter (loadedModules past) := by
  rw [loadedModules, List.foldl_append]
  rfl

/-- A module is loaded beside the loaded ones, and one of the loaded modules is unloaded. -/
def LoadsDisjoint (front : List ModuleStep) (step : ModuleStep) : Prop :=
  match step.event with
  | .load _ mod => ∀ entry ∈ loadedModules front,
      mod.mend ≤ entry.1.start ∨ entry.1.mend ≤ mod.start
  | .unload mod => ∃ entry ∈ loadedModules front, entry.1 = mod

instance : Decidable (LoadsDisjoint front step) :=
  match step with
  | ⟨_, .load _ mod, _, _⟩ => inferInstanceAs (Decidable (∀ entry ∈ loadedModules front,
      mod.mend ≤ entry.1.start ∨ entry.1.mend ≤ mod.start))
  | ⟨_, .unload mod, _, _⟩ =>
    inferInstanceAs (Decidable (∃ entry ∈ loadedModules front, entry.1 = mod))

/-- The address range, the instrumentation flags and the type of a description. -/
def Metadata.values (metadata : Metadata) : ℕ × ℕ × InstrFlags × ModTypeFlags :=
  (metadata.base, metadata.mend, metadata.instrument, metadata.modtype)

/-- Every program counter in a loaded module leads to the description made by its load. -/
def FindsLoaded (front : List ModuleStep) (step : ModuleStep) : Prop :=
  ∀ entry ∈ loadedModules (front ++ [step]), ∀ pc, entry.1.start ≤ pc → pc < entry.1.mend →
    step.post.getModuleContaining pc = some entry.2

/-- Every program counter in a loaded module leads to a description with the values of the one
made by its load. -/
def FindsValues (front : List ModuleStep) (step : ModuleStep) : Prop :=
  ∀ entry ∈ loadedModules (front ++ [step]), ∀ pc, entry.1.start ≤ pc → pc < entry.1.mend →
    ∃ found, step.post.getModuleContaining pc = some found ∧
      (step.post.objects[found]?).map Metadata.values =
        (step.post.objects[entry.2]?).map Metadata.values

/-- A module is loaded where no description has its base. -/
def LoadsFresh (step : ModuleStep) : Prop :=
  ∀ record mod, step.event = .load record mod → ∀ base found,
    step.pre.modulesIdx.Holds base found → ¬ (mod.start ≤ base ∧ base < mod.mend)

/-- A module is loaded where only descriptions with its values have their base. -/
def LoadsAlike (step : ModuleStep) : Prop :=
  ∀ record mod modptr, step.event = .load record mod → step.output = some modptr →
    ∀ base found, step.pre.modulesIdx.Holds base found → mod.start ≤ base → base < mod.mend →
      (step.post.objects[found]?).map Metadata.values =
        (step.post.objects[modptr]?).map Metadata.values

/-! ### What a step does -/

theorem Tracker.getModuleContaining_eq_some_iff :
    tracker.getModuleContaining pc = some modptr ↔ ∃ base metadata,
      tracker.modulesIdx.lowerBound pc = some (base, modptr) ∧
        tracker.objects[modptr]? = some metadata ∧ pc < metadata.mend := by
  unfold getModuleContaining
  constructor
  · intro contains
    split at contains
    · cases contains
    · next base mptr bound =>
      split at contains
      · next metadata here =>
        split at contains
        · next inside =>
          obtain rfl := Option.some.inj contains
          exact ⟨base, metadata, bound, here, inside⟩
        · cases contains
      · cases contains
  · rintro ⟨base, metadata, bound, here, inside⟩
    simp only [bound, here, if_pos inside]

/-- The description of a module is a copy of the module's record. -/
def Tracker.Copies (tracker : Tracker) : Prop :=
  ∀ metadata ∈ tracker.objects, ∀ record, metadata.info ≠ some (.passed record)

theorem Metadata.info_describe (metadata : Metadata) (copy : ModuleDataPtr) :
    (metadata.describe config mod copy).info = some copy := by
  unfold describe findDebugInfo
  split <;> rfl

theorem Metadata.info_adaptManaged (metadata : Metadata) :
    (metadata.adaptManaged config mod).info = metadata.info := by
  unfold adaptManaged
  grind

theorem modify_concat_length {Element : Type} (elements : List Element) (last : Element)
    (change : Element → Element) :
    (elements ++ [last]).modify elements.length change = elements ++ [change last] := by
  induction elements with
  | nil => rfl
  | cons head rest inductionHypothesis =>
    rw [List.length_cons, List.cons_append, List.modify_succ_cons, inductionHypothesis,
      List.cons_append]

/-- No module counts as registered: records are compared by their address, and a description has
a copy of its own. -/
theorem Tracker.registered_eq_none (copies : tracker.Copies) (record : ℕ) :
    tracker.registered (.passed record) mod = none := by
  refine Option.filter_eq_none_iff.mpr fun modptr _ found => ?_
  obtain ⟨metadata, here, same⟩ := (Option.any_eq_true _ _).mp found
  have copied := copies metadata (List.mem_of_getElem? here) record
  simp only [Bool.and_eq_true, beq_iff_eq] at same
  exact copied same.2

/-- A load makes a description, and puts it into the index unless its base is there. -/
theorem Tracker.eventModuleLoad_spec (copies : tracker.Copies) (config : TrackerConfig)
    (record : ℕ) (mod : ModuleData) :
    ∃ metadata, (tracker.eventModuleLoad config (.passed record) mod).1.objects =
        tracker.objects ++ [metadata] ∧
      (tracker.eventModuleLoad config (.passed record) mod).1.modulesIdx =
        tracker.modulesIdx.emplace mod.start tracker.objects.length ∧
      (tracker.eventModuleLoad config (.passed record) mod).2 = tracker.objects.length ∧
      metadata.mend = mod.mend ∧ metadata.info = some (.copied tracker.objects.length) := by
  unfold eventModuleLoad registerModule
  rw [tracker.registered_eq_none copies record]
  refine ⟨((({ base := mod.start, mend := mod.mend } : Metadata).describe config mod
    (.copied tracker.objects.length)).adaptManaged config mod), ?_, rfl, rfl, ?_, ?_⟩
  · simp only [addEmplace, modify, modify_concat_length]
  · simp
  · rw [Metadata.info_adaptManaged, Metadata.info_describe]

/-- An unload changes nothing but the mark of one description. -/
theorem Tracker.eventModuleUnload_spec :
    (tracker.eventModuleUnload mod).modulesIdx = tracker.modulesIdx ∧
      ∀ modptr : PMetadata,
        (tracker.eventModuleUnload mod).objects[modptr]? = tracker.objects[modptr]? ∨
        ∃ metadata : Metadata, tracker.objects[modptr]? = some metadata ∧
          (tracker.eventModuleUnload mod).objects[modptr]? =
            some { metadata with loaded := false } := by
  unfold eventModuleUnload
  split
  · next unloaded _ =>
    refine ⟨rfl, fun modptr => ?_⟩
    rw [modify, List.getElem?_modify]
    split
    · cases found : tracker.objects[modptr]? with
      | none => exact Or.inl rfl
      | some metadata => exact Or.inr ⟨metadata, rfl, rfl⟩
    · exact Or.inl Option.map_id'
  · exact ⟨rfl, fun modptr => Or.inl rfl⟩

/-- What a load or an unload changes in the tracker. -/
inductive TrackerStep (tracker next : Tracker) : ModuleEvent → Option PMetadata → Prop
  | load (record : ℕ) (mod : ModuleData) (metadata : Metadata) :
    next.objects = tracker.objects ++ [metadata] →
    next.modulesIdx = tracker.modulesIdx.emplace mod.start tracker.objects.length →
    metadata.mend = mod.mend → metadata.info = some (.copied tracker.objects.length) →
    TrackerStep tracker next (.load record mod) (some tracker.objects.length)
  | unload (mod : ModuleData) : next.modulesIdx = tracker.modulesIdx →
    (∀ modptr : PMetadata, next.objects[modptr]? = tracker.objects[modptr]? ∨
      ∃ metadata : Metadata, tracker.objects[modptr]? = some metadata ∧
        next.objects[modptr]? = some { metadata with loaded := false }) →
    TrackerStep tracker next (.unload mod) none

theorem call_trackerStep (copies : tracker.Copies)
    (defined : (moduleTracker config).call tracker event = some (next, output)) :
    TrackerStep tracker next event output := by
  cases event with
  | load record mod =>
    simp only [moduleTracker, Option.some.injEq, Prod.mk.injEq] at defined
    obtain ⟨rfl, rfl⟩ := defined
    obtain ⟨metadata, objects, index, pointer, mend, info⟩ :=
      tracker.eventModuleLoad_spec copies config record mod
    rw [pointer]
    exact TrackerStep.load record mod metadata objects index mend info
  | unload mod =>
    simp only [moduleTracker, Option.some.injEq, Prod.mk.injEq] at defined
    obtain ⟨rfl, rfl⟩ := defined
    exact TrackerStep.unload mod tracker.eventModuleUnload_spec.1 tracker.eventModuleUnload_spec.2

/-- A description that is there stays, and keeps all but its mark. -/
theorem TrackerStep.keeps (does : TrackerStep tracker next event output) {metadata : Metadata}
    (found : tracker.objects[modptr]? = some metadata) :
    ∃ loaded, next.objects[modptr]? = some { metadata with loaded } := by
  cases does with
  | load record mod made objects =>
    have bound := (List.getElem?_eq_some_iff.mp found).1
    exact ⟨metadata.loaded, by rw [objects, List.getElem?_append_left bound, found]⟩
  | unload mod index objects =>
    rcases objects modptr with same | ⟨earlier, there, changed⟩
    · exact ⟨metadata.loaded, same.trans found⟩
    · obtain rfl := Option.some.inj (there.symm.trans found)
      exact ⟨false, changed⟩

theorem TrackerStep.copies (does : TrackerStep tracker next event output)
    (copies : tracker.Copies) : next.Copies := by
  intro metadata member record
  cases does with
  | load _ mod made objects index mend info =>
    rw [objects] at member
    rcases List.mem_append.mp member with earlier | last
    · exact copies metadata earlier record
    · obtain rfl := List.mem_singleton.mp last
      rw [info]
      exact fun same => by cases same
  | unload mod index objects =>
    obtain ⟨modptr, found⟩ := List.mem_iff_getElem?.mp member
    rcases objects modptr with same | ⟨earlier, there, changed⟩
    · exact copies metadata (List.mem_of_getElem? (same.symm.trans found)) record
    · obtain rfl := Option.some.inj (changed.symm.trans found)
      exact copies earlier (List.mem_of_getElem? there) record

/-! ### Comparing descriptions -/

/-- A way to compare descriptions that no later step changes, and that tells where they end. -/
structure Likeness where
  alike : Tracker → PMetadata → PMetadata → Prop
  refl : ∀ tracker modptr, alike tracker modptr modptr
  mend_eq : ∀ {tracker first second} {one two : Metadata}, alike tracker first second →
    tracker.objects[first]? = some one → tracker.objects[second]? = some two → one.mend = two.mend
  stable : ∀ {tracker next event output first second} {one two : Metadata},
    TrackerStep tracker next event output → tracker.objects[first]? = some one →
    tracker.objects[second]? = some two → (alike next first second ↔ alike tracker first second)

/-- They are the same object. -/
def Likeness.same : Likeness where
  alike _ first second := first = second
  refl _ _ := rfl
  mend_eq := by
    rintro tracker first _ one two rfl here there
    rw [Option.some.inj (here.symm.trans there)]
  stable _ _ _ := Iff.rfl

/-- They have the same values. -/
def Likeness.values : Likeness where
  alike tracker first second :=
    (tracker.objects[first]?).map Metadata.values = (tracker.objects[second]?).map Metadata.values
  refl _ _ := rfl
  mend_eq := by
    intro tracker first second one two alike here there
    rw [here, there] at alike
    exact congrArg (fun values => values.2.1) (Option.some.inj alike)
  stable := by
    intro tracker next event output first second one two does here there
    obtain ⟨_, nextHere⟩ := does.keeps here
    obtain ⟨_, nextThere⟩ := does.keeps there
    rw [here, there, nextHere, nextThere]
    rfl

variable {like : Likeness} {entry : ModuleData × PMetadata}

/-- Every lookup in the module's range finds a description like the module's. -/
def Finds (like : Likeness) (tracker : Tracker) (entry : ModuleData × PMetadata) : Prop :=
  ∀ pc, entry.1.start ≤ pc → pc < entry.1.mend →
    ∃ found, tracker.getModuleContaining pc = some found ∧ like.alike tracker found entry.2

/-- Every description with its base in the module's range is like the module's. -/
def Clear (like : Likeness) (tracker : Tracker) (entry : ModuleData × PMetadata) : Prop :=
  ∀ base found, tracker.modulesIdx.Holds base found → entry.1.start ≤ base →
    base < entry.1.mend → like.alike tracker found entry.2

/-- The module has a description, and the index has some description for its base. -/
structure Registered (tracker : Tracker) (entry : ModuleData × PMetadata) : Prop where
  made : ∃ metadata, tracker.objects[entry.2]? = some metadata ∧ metadata.mend = entry.1.mend
  reached : ∃ found, tracker.modulesIdx.Holds entry.1.start found

/-- Lookups are right where no description is in the way. -/
theorem Registered.finds_iff_clear (registered : Registered tracker entry) :
    Finds like tracker entry ↔ Clear like tracker entry := by
  obtain ⟨own, there, ownEnd⟩ := registered.made
  obtain ⟨first, reached⟩ := registered.reached
  constructor
  · intro finds base found holds above below
    obtain ⟨answer, contains, alike⟩ := finds base above below
    obtain ⟨key, metadata, bound, -, -⟩ := Tracker.getModuleContaining_eq_some_iff.mp contains
    obtain ⟨keyHolds, atMost, largest⟩ := OrderedIndex.lowerBound_eq_some_iff.mp bound
    obtain rfl : key = base := le_antisymm atMost (largest base found holds le_rfl)
    rwa [holds.unique keyHolds]
  · intro clear pc above below
    cases bound : tracker.modulesIdx.lowerBound pc with
    | none =>
      exact absurd (OrderedIndex.lowerBound_eq_none_iff.mp bound _ _ reached) (not_lt.mpr above)
    | some answer =>
      obtain ⟨key, found⟩ := answer
      obtain ⟨holds, atMost, largest⟩ := OrderedIndex.lowerBound_eq_some_iff.mp bound
      obtain ⟨metadata, here, -⟩ := tracker.placed key found holds
      have alike := clear key found holds (largest _ _ reached above) (by omega)
      have sameEnd := like.mend_eq alike here there
      exact ⟨found, Tracker.getModuleContaining_eq_some_iff.mpr
        ⟨key, metadata, bound, here, by omega⟩, alike⟩

/-- A step leaves a module registered. -/
theorem TrackerStep.registered (does : TrackerStep tracker next event output)
    (registered : Registered tracker entry) : Registered next entry := by
  obtain ⟨metadata, found, mend⟩ := registered.made
  obtain ⟨first, reached⟩ := registered.reached
  obtain ⟨loaded, kept⟩ := does.keeps found
  refine ⟨⟨_, kept, mend⟩, first, ?_⟩
  cases does with
  | load _ mod made objects index =>
    rw [index]
    exact OrderedIndex.holds_emplace.mpr (Or.inl reached)
  | unload mod index =>
    rw [index]
    exact reached

/-- A load registers its module. -/
theorem TrackerStep.registered_load {record : ℕ}
    (does : TrackerStep tracker next (.load record mod) (some modptr)) :
    Registered next (mod, modptr) := by
  cases does with
  | load _ _ made objects index mend =>
    refine ⟨⟨made, by rw [objects, List.getElem?_concat_length], mend⟩, ?_⟩
    rw [index]
    by_cases present : ∃ earlier, tracker.modulesIdx.Holds mod.start earlier
    · obtain ⟨earlier, holds⟩ := present
      exact ⟨earlier, OrderedIndex.holds_emplace.mpr (Or.inl holds)⟩
    · exact ⟨_, OrderedIndex.holds_emplace.mpr (Or.inr ⟨rfl, rfl, not_exists.mp present⟩)⟩

/-- A step beside a module does not put anything in its way, nor take anything out of it. -/
theorem TrackerStep.clear_iff (does : TrackerStep tracker next event output)
    (registered : Registered tracker entry)
    (beside : ∀ record mod, event = .load record mod →
      mod.mend ≤ entry.1.start ∨ entry.1.mend ≤ mod.start) :
    Clear like next entry ↔ Clear like tracker entry := by
  obtain ⟨own, there, -⟩ := registered.made
  have stable : ∀ base found, tracker.modulesIdx.Holds base found →
      (like.alike next found entry.2 ↔ like.alike tracker found entry.2) := by
    intro base found holds
    obtain ⟨metadata, here, -⟩ := tracker.placed base found holds
    exact like.stable does here there
  have inRange : ∀ base found, entry.1.start ≤ base → base < entry.1.mend →
      (next.modulesIdx.Holds base found ↔ tracker.modulesIdx.Holds base found) := by
    intro base found above below
    cases does with
    | load _ mod made objects index =>
      rw [index, OrderedIndex.holds_emplace]
      refine or_iff_left fun new => ?_
      have apart := beside _ mod rfl
      have nonempty := mod.nonempty
      omega
    | unload mod index => rw [index]
  constructor
  · intro clear base found holds above below
    exact (stable base found holds).mp
      (clear base found ((inRange base found above below).mpr holds) above below)
  · intro clear base found holds above below
    have before := (inRange base found above below).mp holds
    exact (stable base found before).mpr (clear base found before above below)

/-! ### Runs -/

/-- A load meets only descriptions like its own. -/
def LoadsLike (like : Likeness) (step : ModuleStep) : Prop :=
  ∀ record mod modptr, step.event = .load record mod → step.output = some modptr →
    ∀ base found, step.pre.modulesIdx.Holds base found → mod.start ≤ base → base < mod.mend →
      like.alike step.post found modptr

/-- A load is in order where its module is clear after it. -/
theorem TrackerStep.clear_load_iff {record : ℕ}
    (does : TrackerStep tracker next (.load record mod) (some modptr)) :
    Clear like next (mod, modptr) ↔ ∀ base found, tracker.modulesIdx.Holds base found →
      mod.start ≤ base → base < mod.mend → like.alike next found modptr := by
  cases does with
  | load _ _ made objects index =>
    simp only [Clear, index, OrderedIndex.holds_emplace]
    constructor
    · intro clear base found holds
      exact clear base found (Or.inl holds)
    · intro inOrder base found holds above below
      rcases holds with earlier | ⟨-, rfl, -⟩
      · exact inOrder base found earlier above below
      · exact like.refl _ _

theorem reaches_copies (reaches : (moduleTracker config).Reaches past tracker) :
    tracker.Copies := by
  induction reaches with
  | start begins =>
    obtain rfl : _ = Tracker.new := begins
    exact fun metadata member => absurd member List.not_mem_nil
  | call earlier defined inductionHypothesis =>
    exact (call_trackerStep inductionHypothesis defined).copies inductionHypothesis

/-- The steps of a run, as what they change. -/
theorem step_trackerStep (reaches : (moduleTracker config).Reaches past tracker)
    (initial : front ++ [step] <+: past) :
    (moduleTracker config).Reaches front step.pre ∧
      TrackerStep step.pre step.post step.event step.output := by
  obtain ⟨before, defined⟩ := reaches.step initial
  exact ⟨before, call_trackerStep (reaches_copies before) defined⟩

/-- The modules loaded after a step were loaded before it, or are loaded by it. -/
theorem mem_loadedModules_append (step : ModuleStep) {entry : ModuleData × PMetadata}
    (does : TrackerStep step.pre step.post step.event step.output)
    (member : entry ∈ loadedModules (past ++ [step])) :
    entry ∈ loadedModules past ∨
      ∃ record, step.event = .load record entry.1 ∧ step.output = some entry.2 := by
  rw [loadedModules_append] at member
  obtain ⟨pre, event, post, output⟩ := step
  change TrackerStep pre post event output at does
  cases does with
  | load record mod =>
    rcases List.mem_cons.mp member with rfl | earlier
    · exact Or.inr ⟨record, rfl, rfl⟩
    · exact Or.inl earlier
  | unload mod => exact Or.inl (List.mem_of_mem_filter member)

/-- A loaded module is registered. -/
theorem loadedModules_registered (reaches : (moduleTracker config).Reaches past tracker) :
    ∀ entry ∈ loadedModules past, Registered tracker entry := by
  induction reaches with
  | start => exact fun entry member => absurd member List.not_mem_nil
  | @call past tracker next event output earlier defined inductionHypothesis =>
    intro entry member
    have does := call_trackerStep (reaches_copies earlier) defined
    rcases mem_loadedModules_append ⟨tracker, event, next, output⟩ does member with
      before | ⟨record, rfl, rfl⟩
    · exact does.registered (inductionHypothesis entry before)
    · exact does.registered_load

/-- While loads meet only descriptions like their own, the loaded modules are clear. -/
theorem loadedModules_clear (reaches : (moduleTracker config).Reaches past tracker)
    (disjoint : Always LoadsDisjoint past) (inOrder : Always (fun _ => LoadsLike like) past) :
    ∀ entry ∈ loadedModules past, Clear like tracker entry := by
  refine Reaches.induct (fun past tracker => ∀ entry ∈ loadedModules past,
    Clear like tracker entry) ?_ ?_ reaches (disjoint.and inOrder)
  · exact fun _ _ entry member => absurd member List.not_mem_nil
  · rintro past tracker event next output earlier defined ⟨apart, alike⟩ clear entry member
    have does := call_trackerStep (reaches_copies earlier) defined
    rcases mem_loadedModules_append ⟨tracker, event, next, output⟩ does member with
      before | ⟨record, rfl, rfl⟩
    · refine (does.clear_iff (loadedModules_registered earlier entry before) ?_).mpr
        (clear entry before)
      rintro record mod rfl
      exact apart entry before
    · exact does.clear_load_iff.mpr (alike record _ _ rfl rfl)

/-- Lookups follow the loads and unloads of a run just where each load meets only descriptions
like its own. -/
theorem finds_iff_loadsLike (like : Likeness)
    (reaches : (moduleTracker config).Reaches past tracker)
    (disjoint : Always LoadsDisjoint past) :
    Always (fun front step => ∀ entry ∈ loadedModules (front ++ [step]),
      Finds like step.post entry) past ↔ Always (fun _ => LoadsLike like) past := by
  constructor
  · intro finds front step initial record mod modptr event output
    obtain ⟨before, does⟩ := step_trackerStep reaches initial
    have member : (mod, modptr) ∈ loadedModules (front ++ [step]) := by
      rw [loadedModules_append]
      simp only [ModuleStep.loadedAfter, event, output, List.mem_cons, true_or]
    have found := finds front step initial (mod, modptr) member
    rw [event, output] at does
    exact does.clear_load_iff.mp (does.registered_load.finds_iff_clear.mp found)
  · intro inOrder front step initial entry member
    obtain ⟨before, defined⟩ := reaches.step initial
    have after := before.call defined
    exact (loadedModules_registered after entry member).finds_iff_clear.mpr
      (loadedModules_clear after (disjoint.before initial) (inOrder.before initial) entry member)

/-- A load that meets only its own object meets none. -/
theorem loadsLike_same_iff (does : TrackerStep step.pre step.post step.event step.output) :
    LoadsLike Likeness.same step ↔ LoadsFresh step := by
  obtain ⟨pre, event, post, output⟩ := step
  constructor
  · rintro alike record mod rfl base found holds ⟨above, below⟩
    change TrackerStep pre post (.load record mod) output at does
    cases does with
    | load =>
      obtain ⟨metadata, here, -⟩ := pre.placed base found holds
      have bound := (List.getElem?_eq_some_iff.mp here).1
      have same := alike record mod _ rfl rfl base found holds above below
      exact absurd same (Nat.ne_of_lt bound)
  · intro fresh record mod modptr event _ base found holds above below
    exact absurd ⟨above, below⟩ (fresh record mod event base found holds)

/-! ### Lookup -/

/-- Lookups find the description of the loaded module after every step of a run just where no
load meets a description with its base in the module's range. They find the values of that
description just where every such description has the values of the module's own. -/
theorem lookup_follows_iff (reaches : (moduleTracker config).Reaches past tracker)
    (disjoint : Always LoadsDisjoint past) :
    (Always FindsLoaded past ↔ Always (fun _ => LoadsFresh) past) ∧
      (Always FindsValues past ↔ Always (fun _ => LoadsAlike) past) := by
  constructor
  · have finds := finds_iff_loadsLike Likeness.same reaches disjoint
    have fresh : Always (fun _ => LoadsLike Likeness.same) past ↔
        Always (fun _ => LoadsFresh) past := by
      constructor
      · intro alike front step initial
        exact (loadsLike_same_iff (step_trackerStep reaches initial).2).mp
          (alike front step initial)
      · intro fresh front step initial
        exact (loadsLike_same_iff (step_trackerStep reaches initial).2).mpr
          (fresh front step initial)
    rw [← fresh, ← finds]
    constructor
    · intro follows front step initial entry member pc above below
      exact ⟨entry.2, follows front step initial entry member pc above below, rfl⟩
    · intro follows front step initial entry member pc above below
      obtain ⟨found, contains, rfl⟩ := follows front step initial entry member pc above below
      exact contains
  · exact finds_iff_loadsLike Likeness.values reaches disjoint

/-- A system without excluded modules and without debug information. -/
def nothingExcluded : TrackerConfig where
  windows := false
  excludeMods := []
  excludePath := []
  debugInfoAvailable _ := false
  comDescriptor _ := 0

/-- A module at 100, loaded and unloaded before a module at 50 takes a part of its range. -/
def overlappingReuse : List ModuleEvent :=
  let first : ModuleData := ⟨100, 200, "/lib/first.so", "first.so", by decide⟩
  let second : ModuleData := ⟨50, 150, "/lib/second.so", "second.so", by decide⟩
  [.load 0 first, .unload first, .load 1 second]

theorem lookup_follows_iff_overlapping_reuse :
    let past := ((moduleTracker nothingExcluded).ran Tracker.new overlappingReuse).1
    (Always FindsLoaded past ↔ Always (fun _ => LoadsFresh) past) ∧
      (Always FindsValues past ↔ Always (fun _ => LoadsAlike) past) :=
  lookup_follows_iff (reaches_ran rfl overlappingReuse) (by decide)

/-- The description of the unloaded module is in the way: a program counter in both ranges leads
to its values. -/
theorem stale_module_found :
    ¬ ∀ (config : TrackerConfig) (tracker : Tracker) (past : List ModuleStep),
      (moduleTracker config).Reaches past tracker → Always LoadsDisjoint past →
        Always FindsLoaded past ∨ Always FindsValues past := by
  intro always
  let past := ((moduleTracker nothingExcluded).ran Tracker.new overlappingReuse).1
  have follows := always nothingExcluded _ past (reaches_ran rfl overlappingReuse) (by decide)
  have last : past.take 2 ++ [past.get ⟨2, by decide⟩] <+: past := ⟨[], rfl⟩
  let entry := (loadedModules past).get ⟨0, by decide⟩
  have member : entry ∈ loadedModules (past.take 2 ++ [past.get ⟨2, by decide⟩]) := by decide
  have stale : (past.get ⟨2, by decide⟩).post.getModuleContaining 120 = some 0 := by decide
  rcases follows with found | values
  · have contains := found _ _ last entry member 120 (by decide) (by decide)
    exact absurd (stale.symm.trans contains) (by decide)
  · obtain ⟨modptr, contains, same⟩ := values _ _ last entry member 120 (by decide) (by decide)
    obtain rfl := Option.some.inj (stale.symm.trans contains)
    exact absurd same (by decide)

end Drace
