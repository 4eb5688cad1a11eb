/-
This file models the cache of the last module, and says when it agrees with the
tracker of loaded modules.

The cache remembers a description and a copy of its range. It is asked before the
tracker, and it is told of no load or unload. A description that is found once is
found until another one replaces it, whatever is loaded into its range meanwhile.
So the two agree just where the index has no base inside the cached range.
-/

import Drace.Client
import Drace.ModuleLookup

namespace Drace

open Machine

/-! ### The cache -/

/-- The description that was found last, with its range. -/
structure Cache where
  mod : Option PMetadata
  start : ℕ
  mend : ℕ

namespace Cache

variable (cache : Cache)

/-- The last module, if the program counter lies in its range. -/
def lookup (pc : ℕ) : Option PMetadata :=
  match cache.mod with
  | none => none
  | some modptr => if cache.start ≤ pc ∧ pc < cache.mend then some modptr else none

/-- A new module in the cache, with the range in the record of its description. -/
def update (mod : PMetadata) (info : ModuleData) : Cache where
  mod := some mod
  start := info.start
  mend := info.mend

variable {cache} {pc : ℕ} {modptr : PMetadata}

theorem lookup_eq_some_iff : cache.lookup pc = some modptr ↔
    cache.mod = some modptr ∧ cache.start ≤ pc ∧ pc < cache.mend := by
  obtain ⟨_ | cached, start, mend⟩ := cache
  · simp [lookup]
  · simp only [lookup, Option.ite_none_right_eq_some, Option.some.injEq]
    exact and_comm

theorem lookup_eq_none_iff : cache.lookup pc = none ↔
    ∀ modptr, cache.mod = some modptr → cache.start ≤ pc → cache.mend ≤ pc := by
  rw [Option.eq_none_iff_forall_ne_some]
  refine forall_congr' fun modptr => ?_
  rw [Ne, lookup_eq_some_iff, not_and, not_and, not_lt]

end Cache

/-! ### The analysis of basic blocks -/

/-- The tracker, the copies of records it has made, and the cache in front of it. -/
structure CachedTracker where
  tracker : Tracker
  /-- What `dr_copy_module_data` has returned, by the number of the copy. -/
  copies : List ModuleData
  cache : Cache

namespace CachedTracker

variable {layout : Layout} (config : TrackerConfig) (params : RuntimeConfig) (exclTraces : Bool)
  (client : CachedTracker)

/-- The record a description points to. Those passed to a callback are gone after it. -/
def recordOf : ModuleDataPtr → Option ModuleData
  | .copied number => client.copies[number]?
  | .passed _ => none

/-- The load callback. A description that is made gets a copy of the record. -/
def eventModuleLoad (record : ℕ) (mod : ModuleData) : CachedTracker × PMetadata :=
  let result := client.tracker.eventModuleLoad config (.passed record) mod
  ({ client with
      tracker := result.1
      copies := match client.tracker.registered (.passed record) mod with
        | some _ => client.copies
        | none => client.copies ++ [mod] }, result.2)

/-- The flags of the module with a basic block. The cache is asked first, and the tracker if the
block lies outside of the cached module. -/
def instrumentBb (bbAddr : ℕ) : Option (CachedTracker × InstrFlags) :=
  match client.cache.lookup bbAddr with
  | some modptr => do
    let metadata ← client.tracker.objects[modptr]?
    some (client, metadata.instrument)
  | none =>
    match client.tracker.getModuleContaining bbAddr with
    | some modptr => do
      let metadata ← client.tracker.objects[modptr]?
      let info ← metadata.info
      let record ← client.recordOf info
      some ({ client with cache := Cache.update modptr record }, metadata.instrument)
    | none => some (client, InstrFlags.memory ||| InstrFlags.stack)

/-- A block that is frequent is not instrumented. -/
def unlessFrequent (forTrace : Bool) (data : ShadowThreadState layout) (bbAddr : ℕ)
    (instrument : InstrFlags) : InstrFlags :=
  if params.lossyFlush && forTrace && instrument != InstrFlags.none && data.pcInFreq bbAddr then
    InstrFlags.none
  else instrument

/-- Choose how a basic block is instrumented. -/
def eventAppAnalysis (forTrace : Bool) (data : ShadowThreadState layout) (bbAddr : ℕ) :
    Option (CachedTracker × InstrFlags) :=
  if forTrace && exclTraces then some (client, InstrFlags.stack)
  else (client.instrumentBb bbAddr).map fun result =>
    (result.1, unlessFrequent params forTrace data bbAddr result.2)

end CachedTracker

/-- What DynamoRIO calls the client for: loads and unloads, and blocks about to be executed. -/
inductive AnalysisEvent (layout : Layout) where
  | module (event : ModuleEvent)
  | appAnalysis (forTrace : Bool) (data : ShadowThreadState layout) (bbAddr : ℕ)

/-- The tracker with its cache as a machine. A load puts out the description it has made, and an
analysis the flags it has chosen. -/
def cachedTracker (layout : Layout) (config : TrackerConfig) (params : RuntimeConfig)
    (exclTraces : Bool) :
    Machine CachedTracker (AnalysisEvent layout) (Option PMetadata ⊕ InstrFlags) where
  start client := client.tracker = Tracker.new ∧ client.copies = [] ∧ client.cache.mod = none
  call client
    | .module (.load record mod) =>
      let result := client.eventModuleLoad config record mod
      some (result.1, .inl (some result.2))
    | .module (.unload mod) =>
      some ({ client with tracker := client.tracker.eventModuleUnload mod }, .inl none)
    | .appAnalysis forTrace data bbAddr =>
      (client.eventAppAnalysis params exclTraces forTrace data bbAddr).map fun result =>
        (result.1, .inr result.2)

abbrev CachedStep (layout : Layout) :=
  Machine.Step CachedTracker (AnalysisEvent layout) (Option PMetadata ⊕ InstrFlags)

variable {layout : Layout} {config : TrackerConfig} {params : RuntimeConfig} {exclTraces : Bool}
  {client next : CachedTracker} {past front : List (CachedStep layout)} {step : CachedStep layout}
  {event : AnalysisEvent layout} {output : Option PMetadata ⊕ InstrFlags}

/-! ### The tracker behind the cache -/

/-- The load or unload of a step, as a step of the tracker alone. -/
def CachedStep.moduleStep (step : CachedStep layout) : Option ModuleStep :=
  match step.event, step.output with
  | .module event, .inl output => some ⟨step.pre.tracker, event, step.post.tracker, output⟩
  | _, _ => none

/-- The loads and unloads of a run. -/
def moduleSteps (past : List (CachedStep layout)) : List ModuleStep :=
  past.filterMap CachedStep.moduleStep

/-- What an analysis does to the client. -/
inductive Looks (client next : CachedTracker) (skipped : Bool) (bbAddr : ℕ) : Prop
  | skips : skipped = true → next = client → Looks client next skipped bbAddr
  | hits {modptr : PMetadata} : client.cache.lookup bbAddr = some modptr → next = client →
    Looks client next skipped bbAddr
  | misses {modptr : PMetadata} {metadata : Metadata} {info : ModuleDataPtr} {record : ModuleData} :
    skipped = false → client.cache.lookup bbAddr = none →
    client.tracker.getModuleContaining bbAddr = some modptr →
    client.tracker.objects[modptr]? = some metadata → metadata.info = some info →
    client.recordOf info = some record →
    next = { client with cache := Cache.update modptr record } → Looks client next skipped bbAddr
  | unknown : client.tracker.getModuleContaining bbAddr = none → next = client →
    Looks client next skipped bbAddr

theorem CachedTracker.eventAppAnalysis_looks {forTrace : Bool} {data : ShadowThreadState layout}
    {bbAddr : ℕ} {flags : InstrFlags}
    (chosen : client.eventAppAnalysis params exclTraces forTrace data bbAddr = some (next, flags)) :
    Looks client next (forTrace && exclTraces) bbAddr := by
  unfold eventAppAnalysis at chosen
  split at chosen
  · next skipped =>
    obtain ⟨rfl, -⟩ := Prod.mk.inj (Option.some.inj chosen)
    exact .skips skipped rfl
  · next analyzed =>
    obtain ⟨⟨after, instrument⟩, found, same⟩ := Option.map_eq_some_iff.mp chosen
    obtain ⟨rfl, -⟩ := Prod.mk.inj same
    unfold instrumentBb at found
    split at found
    · next hit =>
      obtain ⟨metadata, -, same⟩ := Option.bind_eq_some_iff.mp found
      obtain ⟨rfl, -⟩ := Prod.mk.inj (Option.some.inj same)
      exact .hits hit rfl
    · next miss =>
      split at found
      · next contains =>
        obtain ⟨metadata, here, found⟩ := Option.bind_eq_some_iff.mp found
        obtain ⟨info, points, found⟩ := Option.bind_eq_some_iff.mp found
        obtain ⟨record, copied, same⟩ := Option.bind_eq_some_iff.mp found
        obtain ⟨rfl, -⟩ := Prod.mk.inj (Option.some.inj same)
        exact .misses (Bool.eq_false_iff.mpr analyzed) miss contains here points copied rfl
      · next outside =>
        obtain ⟨rfl, -⟩ := Prod.mk.inj (Option.some.inj found)
        exact .unknown outside rfl

/-- An analysis changes nothing but the cache. -/
theorem Looks.frame {skipped : Bool} {bbAddr : ℕ} (looks : Looks client next skipped bbAddr) :
    next.tracker = client.tracker ∧ next.copies = client.copies := by
  cases looks with
  | skips _ same | hits _ same | misses _ _ _ _ _ _ same | unknown _ same =>
    subst same
    exact ⟨rfl, rfl⟩

/-- Without its cache, the client is the tracker. -/
theorem reaches_moduleTracker
    (reaches : (cachedTracker layout config params exclTraces).Reaches past client) :
    (moduleTracker config).Reaches (moduleSteps past) client.tracker := by
  induction reaches with
  | start begins => exact .start begins.1
  | @call past client next event output earlier defined inductionHypothesis =>
    unfold moduleSteps at inductionHypothesis ⊢
    rw [filterMap_concat]
    cases event with
    | module event =>
      cases event with
      | load record mod =>
        obtain ⟨rfl, rfl⟩ := Prod.mk.inj (Option.some.inj defined)
        exact inductionHypothesis.call rfl
      | unload mod =>
        obtain ⟨rfl, rfl⟩ := Prod.mk.inj (Option.some.inj defined)
        exact inductionHypothesis.call rfl
    | appAnalysis forTrace data bbAddr =>
      obtain ⟨⟨after, flags⟩, chosen, same⟩ := Option.map_eq_some_iff.mp defined
      obtain ⟨rfl, rfl⟩ := Prod.mk.inj same
      rw [(CachedTracker.eventAppAnalysis_looks chosen).frame.1]
      simpa [CachedStep.moduleStep] using inductionHypothesis

/-! ### What is cached -/

/-- Descriptions have copies of records with their ranges, and the cached one is in the index. -/
structure Remembers (client : CachedTracker) : Prop where
  copied : client.copies.length = client.tracker.objects.length
  described : ∀ base modptr, client.tracker.modulesIdx.Holds base modptr →
    ∃ metadata record, client.tracker.objects[modptr]? = some metadata ∧
      metadata.info = some (.copied modptr) ∧ client.copies[modptr]? = some record ∧
      record.start = base ∧ record.mend = metadata.mend
  cached : ∀ modptr, client.cache.mod = some modptr →
    client.tracker.modulesIdx.Holds client.cache.start modptr ∧
      ∃ metadata, client.tracker.objects[modptr]? = some metadata ∧
        metadata.mend = client.cache.mend

/-- The record that is copied for an event. -/
def ModuleEvent.record : ModuleEvent → Option ModuleData
  | .load _ mod => some mod
  | .unload _ => none

/-- What the tracker does keeps what is remembered, if the copies keep up with it. -/
theorem Remembers.trackerStep {event : ModuleEvent} {output : Option PMetadata}
    (remembers : Remembers client)
    (does : TrackerStep client.tracker next.tracker event output)
    (same : next.cache = client.cache)
    (copies : next.copies = client.copies ++ event.record.toList) : Remembers next := by
  have kept : ∀ (modptr : PMetadata) (record : ModuleData), client.copies[modptr]? = some record →
      next.copies[modptr]? = some record := by
    intro modptr record found
    have bound := (List.getElem?_eq_some_iff.mp found).1
    rw [copies, List.getElem?_append_left bound, found]
  have old : ∀ base modptr, client.tracker.modulesIdx.Holds base modptr →
      ∃ metadata record, next.tracker.objects[modptr]? = some metadata ∧
        metadata.info = some (.copied modptr) ∧ next.copies[modptr]? = some record ∧
        record.start = base ∧ record.mend = metadata.mend := by
    intro base modptr holds
    obtain ⟨metadata, record, here, info, there, start, mend⟩ :=
      remembers.described base modptr holds
    obtain ⟨loaded, found⟩ := does.keeps here
    exact ⟨_, record, found, info, kept modptr record there, start, mend⟩
  have cachedKept : ∀ modptr, client.cache.mod = some modptr →
      ∃ metadata, next.tracker.objects[modptr]? = some metadata ∧
        metadata.mend = client.cache.mend := by
    intro modptr cached
    obtain ⟨metadata, here, mend⟩ := (remembers.cached modptr cached).2
    obtain ⟨loaded, found⟩ := does.keeps here
    exact ⟨_, found, mend⟩
  cases does with
  | load number mod made objects index mend info =>
    refine ⟨?_, ?_, ?_⟩
    · rw [copies, objects, List.length_append, List.length_append, remembers.copied]
      rfl
    · intro base modptr holds
      rw [index] at holds
      rcases OrderedIndex.holds_emplace.mp holds with earlier | ⟨rfl, rfl, -⟩
      · exact old base modptr earlier
      · refine ⟨made, mod, by rw [objects, List.getElem?_concat_length], info, ?_, rfl, mend.symm⟩
        rw [copies, ← remembers.copied]
        exact List.getElem?_concat_length
    · intro modptr cached
      rw [same] at cached ⊢
      refine ⟨?_, cachedKept modptr cached⟩
      rw [index]
      exact OrderedIndex.holds_emplace.mpr (Or.inl (remembers.cached modptr cached).1)
  | unload mod index objects =>
    refine ⟨?_, ?_, ?_⟩
    · rw [copies, ModuleEvent.record, Option.toList_none, List.append_nil, remembers.copied]
      refine eq_of_forall_ge_iff fun modptr => ?_
      rw [← List.getElem?_eq_none_iff, ← List.getElem?_eq_none_iff]
      rcases objects modptr with same | ⟨earlier, there, changed⟩
      · rw [same]
      · simp [there, changed]
    · intro base modptr holds
      rw [index] at holds
      exact old base modptr holds
    · intro modptr cached
      rw [same] at cached ⊢
      refine ⟨?_, cachedKept modptr cached⟩
      rw [index]
      exact (remembers.cached modptr cached).1

theorem Remembers.looks {skipped : Bool} {bbAddr : ℕ} (remembers : Remembers client)
    (looks : Looks client next skipped bbAddr) : Remembers next := by
  cases looks with
  | skips _ same | hits _ same | unknown _ same =>
    subst same
    exact remembers
  | misses analyzed miss contains here points copied same =>
    subst same
    refine ⟨remembers.copied, remembers.described, ?_⟩
    rintro _ ⟨⟩
    obtain ⟨base, metadata, bound, found, -⟩ :=
      Tracker.getModuleContaining_eq_some_iff.mp contains
    have holds := (OrderedIndex.lowerBound_eq_some_iff.mp bound).1
    obtain ⟨_, record, there, info, copy, start, mend⟩ := remembers.described _ _ holds
    obtain rfl := Option.some.inj (here.symm.trans there)
    obtain rfl := Option.some.inj (points.symm.trans info)
    obtain rfl := Option.some.inj (copied.symm.trans copy)
    subst start
    exact ⟨holds, _, here, mend.symm⟩

/-- What is cached is right along every run. -/
theorem reaches_remembers
    (reaches : (cachedTracker layout config params exclTraces).Reaches past client) :
    Remembers client := by
  induction reaches with
  | start begins =>
    obtain ⟨tracker, copies, cache⟩ := begins
    refine ⟨by rw [tracker, copies]; rfl, ?_, ?_⟩
    · intro base modptr holds
      rw [tracker] at holds
      exact absurd holds OrderedIndex.not_holds_empty
    · intro modptr cached
      rw [cache] at cached
      cases cached
  | @call past client next event output earlier defined inductionHypothesis =>
    have copies := reaches_copies (reaches_moduleTracker earlier)
    cases event with
    | module event =>
      cases event with
      | load record mod =>
        have does := call_trackerStep copies
          (rfl : (moduleTracker config).call client.tracker (.load record mod) = _)
        obtain ⟨rfl, rfl⟩ := Prod.mk.inj (Option.some.inj defined)
        refine inductionHypothesis.trackerStep does rfl ?_
        rw [CachedTracker.eventModuleLoad, client.tracker.registered_eq_none copies record]
        rfl
      | unload mod =>
        have does := call_trackerStep copies
          (rfl : (moduleTracker config).call client.tracker (.unload mod) = _)
        obtain ⟨rfl, rfl⟩ := Prod.mk.inj (Option.some.inj defined)
        exact inductionHypothesis.trackerStep does rfl (List.append_nil _).symm
    | appAnalysis forTrace data bbAddr =>
      obtain ⟨⟨after, flags⟩, chosen, same⟩ := Option.map_eq_some_iff.mp defined
      obtain ⟨rfl, rfl⟩ := Prod.mk.inj same
      exact inductionHypothesis.looks (CachedTracker.eventAppAnalysis_looks chosen)

/-! ### Agreement -/

/-- The client with nothing in its cache. -/
def CachedTracker.uncached (client : CachedTracker) : CachedTracker :=
  { client with cache := { client.cache with mod := none } }

/-- Whatever is found in the cache is what the tracker finds, and the flags chosen for a block are
those chosen without the cache. -/
def Agrees (layout : Layout) (params : RuntimeConfig) (exclTraces : Bool)
    (client : CachedTracker) : Prop :=
  ∀ pc modptr, client.cache.lookup pc = some modptr →
    client.tracker.getModuleContaining pc = some modptr ∧
      ∀ (forTrace : Bool) (data : ShadowThreadState layout),
        (client.eventAppAnalysis params exclTraces forTrace data pc).map Prod.snd =
          (client.uncached.eventAppAnalysis params exclTraces forTrace data pc).map Prod.snd

/-- The program counter lies in the cached range. -/
def Cache.Covers (cache : Cache) (pc : ℕ) : Prop :=
  cache.mod.isSome ∧ cache.start ≤ pc ∧ pc < cache.mend

/-- A load does not begin inside the cached range. An analysis of a block outside of it does not
find a description that has the base of another one in its range. -/
def KeepsClear (exclTraces : Bool) (step : CachedStep layout) : Prop :=
  match step.event with
  | .module (.load _ mod) => step.pre.cache.mod.isSome →
    mod.start ≤ step.pre.cache.start ∨ step.pre.cache.mend ≤ mod.start
  | .module (.unload _) => True
  | .appAnalysis forTrace _ bbAddr => (forTrace && exclTraces) = false →
    ¬ step.pre.cache.Covers bbAddr → ∀ base modptr metadata,
      step.pre.tracker.modulesIdx.lowerBound bbAddr = some (base, modptr) →
      step.pre.tracker.objects[modptr]? = some metadata → bbAddr < metadata.mend →
      ∀ inner found, step.pre.tracker.modulesIdx.Holds inner found →
        inner ≤ base ∨ metadata.mend ≤ inner

/-- No description has its base inside the cached range. -/
def CachedClear (client : CachedTracker) : Prop :=
  client.cache.mod.isSome → ∀ inner found, client.tracker.modulesIdx.Holds inner found →
    inner ≤ client.cache.start ∨ client.cache.mend ≤ inner

theorem Cache.lookup_isNone_iff {cache : Cache} {pc : ℕ} :
    cache.lookup pc = none ↔ ¬ cache.Covers pc := by
  rw [lookup_eq_none_iff, Covers, not_and, Option.isSome_iff_exists]
  constructor
  · rintro outside ⟨modptr, cached⟩ ⟨above, below⟩
    exact absurd below (not_lt.mpr (outside modptr cached above))
  · intro outside modptr cached above
    exact not_lt.mp fun below => outside ⟨modptr, cached⟩ ⟨above, below⟩

/-- A module found by the tracker gets the flags it gets from the cache. -/
theorem Remembers.instrumentBb_hit (remembers : Remembers client) {pc : ℕ} {modptr : PMetadata}
    (hit : client.cache.lookup pc = some modptr)
    (contains : client.tracker.getModuleContaining pc = some modptr) :
    (client.instrumentBb pc).map Prod.snd = (client.uncached.instrumentBb pc).map Prod.snd := by
  obtain ⟨cached, -, -⟩ := Cache.lookup_eq_some_iff.mp hit
  obtain ⟨holds, -⟩ := remembers.cached modptr cached
  obtain ⟨metadata, record, here, info, copy, -, -⟩ := remembers.described _ _ holds
  have missed : client.uncached.cache.lookup pc = none := rfl
  have found : client.uncached.tracker.getModuleContaining pc = some modptr := contains
  have recorded : client.uncached.recordOf (.copied modptr) = some record := copy
  have there : client.uncached.tracker.objects[modptr]? = some metadata := here
  simp only [CachedTracker.instrumentBb, hit, here, missed, found, there, info, recorded,
    Option.bind_eq_bind, Option.bind_some, Option.map_some]

/-- Cache and tracker agree where nothing has its base inside the cached range. -/
theorem Remembers.agrees_iff_clear (remembers : Remembers client) :
    Agrees layout params exclTraces client ↔ CachedClear client := by
  constructor
  · intro agrees isCached inner found holds
    by_contra inside
    rw [not_or, not_le, not_le] at inside
    obtain ⟨modptr, cached⟩ := Option.isSome_iff_exists.mp isCached
    have hit : client.cache.lookup inner = some modptr :=
      Cache.lookup_eq_some_iff.mpr ⟨cached, inside.1.le, inside.2⟩
    obtain ⟨key, -, bound, -, -⟩ :=
      Tracker.getModuleContaining_eq_some_iff.mp (agrees inner modptr hit).1
    obtain ⟨keyHolds, atMost, largest⟩ := OrderedIndex.lowerBound_eq_some_iff.mp bound
    obtain rfl : key = inner := le_antisymm atMost (largest inner found holds le_rfl)
    obtain ⟨_, there, base⟩ := client.tracker.placed _ _ keyHolds
    obtain ⟨_, also, start⟩ := client.tracker.placed _ _ (remembers.cached modptr cached).1
    obtain rfl := Option.some.inj (there.symm.trans also)
    omega
  · intro clear pc modptr hit
    obtain ⟨cached, above, below⟩ := Cache.lookup_eq_some_iff.mp hit
    obtain ⟨holds, metadata, here, mend⟩ := remembers.cached modptr cached
    have bound : client.tracker.modulesIdx.lowerBound pc = some (client.cache.start, modptr) := by
      refine OrderedIndex.lowerBound_eq_some_iff.mpr ⟨holds, above, fun later found other le => ?_⟩
      have apart := clear (cached ▸ rfl) later found other
      omega
    have contains : client.tracker.getModuleContaining pc = some modptr :=
      Tracker.getModuleContaining_eq_some_iff.mpr ⟨_, metadata, bound, here, mend ▸ below⟩
    refine ⟨contains, fun forTrace data => ?_⟩
    have flags := remembers.instrumentBb_hit hit contains
    unfold CachedTracker.eventAppAnalysis
    split
    · rfl
    · have adjusted := congrArg (Option.map (CachedTracker.unlessFrequent params forTrace data pc))
        flags
      rw [Option.map_map, Option.map_map] at adjusted ⊢
      exact adjusted

/-- Where the client agrees, a step leaves it in agreement just if it does not disturb it. -/
theorem Remembers.clear_iff_keepsClear (remembers : Remembers client)
    (copies : client.tracker.Copies) (clear : CachedClear client)
    (defined : (cachedTracker layout config params exclTraces).call client event =
      some (next, output)) :
    CachedClear next ↔ KeepsClear exclTraces ⟨client, event, next, output⟩ := by
  cases event with
  | module event =>
    cases event with
    | load record mod =>
      obtain ⟨rfl, rfl⟩ := Prod.mk.inj (Option.some.inj defined)
      obtain ⟨made, -, index, -⟩ := client.tracker.eventModuleLoad_spec copies config record mod
      have holdsAfter : ∀ {inner found},
          (client.eventModuleLoad config record mod).1.tracker.modulesIdx.Holds inner found ↔ _ :=
        fun {_ _} => (congrArg (OrderedIndex.Holds · _ _) index).to_iff.trans
          OrderedIndex.holds_emplace
      constructor
      · intro clearAfter isCached
        by_cases present : ∃ earlier, client.tracker.modulesIdx.Holds mod.start earlier
        · obtain ⟨earlier, holds⟩ := present
          exact clear isCached mod.start earlier holds
        · exact clearAfter isCached mod.start _
            (holdsAfter.mpr (Or.inr ⟨rfl, rfl, not_exists.mp present⟩))
      · intro apart isCached inner found holds
        rcases holdsAfter.mp holds with earlier | ⟨rfl, -, -⟩
        · exact clear isCached inner found earlier
        · exact apart isCached
    | unload mod =>
      obtain ⟨rfl, rfl⟩ := Prod.mk.inj (Option.some.inj defined)
      refine iff_of_true (fun isCached inner found holds => ?_) trivial
      have index : (client.tracker.eventModuleUnload mod).modulesIdx = client.tracker.modulesIdx :=
        client.tracker.eventModuleUnload_spec.1
      exact clear isCached inner found (index ▸ holds)
  | appAnalysis forTrace data bbAddr =>
    obtain ⟨⟨after, flags⟩, chosen, same⟩ := Option.map_eq_some_iff.mp defined
    obtain ⟨rfl, rfl⟩ := Prod.mk.inj same
    cases CachedTracker.eventAppAnalysis_looks chosen with
    | skips skipped same =>
      subst same
      exact iff_of_true clear fun analyzed => absurd skipped (Bool.eq_false_iff.mp analyzed)
    | hits hit same =>
      subst same
      refine iff_of_true clear fun _ missed => ?_
      rw [Cache.lookup_isNone_iff.mpr missed] at hit
      cases hit
    | misses analyzed miss contains here points copied same =>
      subst same
      obtain ⟨base, metadata, bound, there, below⟩ :=
        Tracker.getModuleContaining_eq_some_iff.mp contains
      obtain rfl := Option.some.inj (here.symm.trans there)
      obtain ⟨_, record, there, info, copy, rfl, mend⟩ := remembers.described _ _
        (OrderedIndex.lowerBound_eq_some_iff.mp bound).1
      obtain rfl := Option.some.inj (here.symm.trans there)
      obtain rfl := Option.some.inj (points.symm.trans info)
      obtain rfl := Option.some.inj (copied.symm.trans copy)
      constructor
      · intro clearAfter _ _ base modptr metadata also found _
        obtain ⟨rfl, rfl⟩ := Prod.mk.inj (Option.some.inj (bound.symm.trans also))
        obtain rfl := Option.some.inj (here.symm.trans found)
        rw [← mend]
        exact clearAfter rfl
      · intro undisturbed _ inner found holds
        have apart := undisturbed analyzed (Cache.lookup_isNone_iff.mp miss) _ _ _ bound here below
          inner found holds
        rwa [← mend] at apart
    | unknown outside same =>
      subst same
      refine iff_of_true clear fun _ _ base modptr metadata bound here below => ?_
      have contains := Tracker.getModuleContaining_eq_some_iff.mpr
        ⟨base, metadata, bound, here, below⟩
      rw [outside] at contains
      cases contains

/-! ### Runs -/

/-- No call is undefined: what the cache and the index point to is there. -/
theorem defined_cachedTracker
    (reaches : (cachedTracker layout config params exclTraces).Reaches past client)
    (event : AnalysisEvent layout) :
    ((cachedTracker layout config params exclTraces).call client event).isSome := by
  have remembers := reaches_remembers reaches
  cases event with
  | module event => cases event <;> rfl
  | appAnalysis forTrace data bbAddr =>
    have instruments : (client.instrumentBb bbAddr).isSome := by
      unfold CachedTracker.instrumentBb
      split
      · next hit =>
        obtain ⟨cached, -, -⟩ := Cache.lookup_eq_some_iff.mp hit
        obtain ⟨metadata, here, -⟩ := (remembers.cached _ cached).2
        rw [here]
        rfl
      · split
        · next contains =>
          obtain ⟨base, _, bound, -, -⟩ := Tracker.getModuleContaining_eq_some_iff.mp contains
          obtain ⟨metadata, record, here, info, copy, -, -⟩ := remembers.described _ _
            (OrderedIndex.lowerBound_eq_some_iff.mp bound).1
          rw [here, Option.bind_eq_bind, Option.bind_some, info, Option.bind_eq_bind,
            Option.bind_some, CachedTracker.recordOf, copy]
          rfl
        · rfl
    simp only [cachedTracker, CachedTracker.eventAppAnalysis, Option.isSome_map]
    split
    · rfl
    · rw [Option.isSome_map]
      exact instruments

/-- While no step disturbs the cached range, nothing has its base inside it. -/
theorem reaches_clear
    (reaches : (cachedTracker layout config params exclTraces).Reaches past client)
    (undisturbed : Always (fun _ => KeepsClear exclTraces) past) : CachedClear client := by
  refine Reaches.induct (fun _ => CachedClear) ?_ ?_ reaches undisturbed
  · intro client begins isCached
    rw [begins.2.2] at isCached
    cases isCached
  · intro past client event next output earlier defined kept clear
    have copies := reaches_copies (reaches_moduleTracker earlier)
    exact ((reaches_remembers earlier).clear_iff_keepsClear copies clear defined).mpr kept

/-- The cache agrees with the tracker after every step of a run just where no step disturbs the
cached range. -/
theorem cache_agrees_iff
    (reaches : (cachedTracker layout config params exclTraces).Reaches past client) :
    Always (fun _ step => Agrees layout params exclTraces step.post) past ↔
      Always (fun _ => KeepsClear exclTraces) past := by
  refine always_iff_always fun front step initial undisturbed => ?_
  obtain ⟨before, defined⟩ := reaches.step initial
  have clear := reaches_clear before undisturbed
  have copies := reaches_copies (reaches_moduleTracker before)
  rw [(reaches_remembers (before.call defined)).agrees_iff_clear]
  exact (reaches_remembers before).clear_iff_keepsClear copies clear defined

/-- The first of two modules is excluded by its name. -/
def firstExcluded : TrackerConfig := { nothingExcluded with excludeMods := [(· == "first.so")] }

/-- A client that has not seen a module. -/
def unloadedClient : CachedTracker := ⟨Tracker.new, [], ⟨none, 0, 0⟩⟩

theorem start_unloadedClient :
    (cachedTracker layout config params exclTraces).start unloadedClient := ⟨rfl, rfl, rfl⟩

/-- The module that is loaded first. -/
def firstModule : ModuleData := ⟨100, 300, "/lib/first.so", "first.so", by decide⟩

/-- A block of the first module is analyzed before the module is unloaded, and the second one is
loaded in the upper half of its range. -/
def reusedWhileCached : List (AnalysisEvent .x64) :=
  let second : ModuleData := ⟨200, 400, "/lib/second.so", "second.so", by decide⟩
  let data := (Session.started Session.plain {} 2).data
  [.module (.load 0 firstModule), .appAnalysis false data 150, .module (.unload firstModule),
    .module (.load 1 second)]

theorem cache_agrees_iff_reused :
    let past := ((cachedTracker .x64 firstExcluded Session.plain false).ran unloadedClient
      reusedWhileCached).1
    Always (fun _ step => Agrees .x64 Session.plain false step.post) past ↔
      Always (fun _ => KeepsClear false) past :=
  cache_agrees_iff (Machine.reaches_ran start_unloadedClient reusedWhileCached)

/-- A block of the second module gets the flags of the first one. -/
theorem stale_cache_found :
    ¬ ∀ (layout : Layout) (config : TrackerConfig) (params : RuntimeConfig) (exclTraces : Bool)
      (client : CachedTracker) (past : List (CachedStep layout)),
      (cachedTracker layout config params exclTraces).Reaches past client →
        Always LoadsDisjoint (moduleSteps past) →
          Always (fun _ step => Agrees layout params exclTraces step.post) past := by
  intro always
  let past := ((cachedTracker .x64 firstExcluded Session.plain false).ran unloadedClient
    reusedWhileCached).1
  have agrees := always .x64 firstExcluded Session.plain false _ past
    (Machine.reaches_ran start_unloadedClient reusedWhileCached) (by decide)
  have last : past.take 3 ++ [past.get ⟨3, by decide⟩] <+: past := ⟨[], rfl⟩
  obtain ⟨contains, -⟩ := agrees _ _ last 250 0 (by decide)
  exact absurd contains (by decide)

end Drace
