/-
This file models the lookup of symbols, and says when its search backwards from a
program counter is complete.

The offset in the module is counted down with unsigned words until a symbol is
found, or the limit is passed. Limit and offset wrap around: below the search
distance the limit is greater than the offset, so nothing is searched, and at the
search distance no offset is below the limit, so the search goes on at the end of
the address space. The symbol library is a parameter with a state of its own.
-/

import Drace.ModuleCache
import Drace.RaceFilter

namespace Drace

/-! ### The symbol library -/

/-- What `drsym_lookup_address` returns. -/
inductive DrsymError where
  | success
  | lineNotAvailable
  | other (code : ℕ)
  deriving DecidableEq

/-- A symbol was found, maybe without its line. -/
def DrsymError.found (err : DrsymError) : Bool := err == .success || err == .lineNotAvailable

/-- What is read of a `drsym_info_t`. -/
structure DrsymInfo where
  name : String
  file : String
  line : ℕ
  lineOffs : ℕ

/-- A lookup of an offset in the module with a path. It may change the library. -/
abbrev LookupAddress (Library : Type) :=
  Library → String → ℕ → Library × DrsymError × DrsymInfo

/-- What the resolver of managed code says about a program counter. -/
structure ManagedSymbol where
  module : String
  function : String
  path : String
  line : ℕ

/-! ### The search -/

/-- `Symbols::max_distance`. -/
def maxDistance : ℕ := 32

/-- What a lookup has done so far: the offsets it has asked for, and its result once it returns. -/
structure Lookup (Library Result : Type) where
  queries : List ℕ := []
  result : Option Result
  library : Library

variable {Library : Type} (layout : Layout) (lookupAddress : LookupAddress Library)

/-- The loop of the reverse search, which goes round as often as there is fuel. -/
def reverseSearch (path : String) (limit : ℕ) :
    ℕ → Library → ℕ → Lookup Library (Option (DrsymError × DrsymInfo))
  | 0, library, _ => { result := none, library }
  | fuel + 1, library, offset =>
    if limit ≤ offset then
      let (library, err, syminfo) := lookupAddress library path offset
      if err.found then { queries := [offset], result := some (some (err, syminfo)), library }
      else
        let next := (offset + layout.sizeRange - 1) % layout.sizeRange
        let rest := reverseSearch path limit fuel library next
        { rest with queries := offset :: rest.queries }
    else { result := some none, library }

/-- Reverse search from the program counter until a symbol can be decoded. -/
def searchModule (fuel : ℕ) (metadata : Metadata) (info : ModuleData) (library : Library)
    (pc : ℕ) : Lookup Library (Option (DrsymError × DrsymInfo)) :=
  let offset := (pc + layout.sizeRange - metadata.base) % layout.sizeRange
  let limit := max 0 ((offset + layout.sizeRange - maxDistance) % layout.sizeRange)
  reverseSearch layout lookupAddress info.fullPath limit fuel library offset

/-- The description of the module with a program counter, with the record it points to. -/
def CachedTracker.moduleAt (client : CachedTracker) (pc : ℕ) : Option (Metadata × ModuleData) := do
  let modptr ← client.tracker.getModuleContaining pc
  let metadata ← client.tracker.objects[modptr]?
  let info ← metadata.info
  let record ← client.recordOf info
  some (metadata, record)

/-- The last known symbol near the program counter. -/
def getBbSymbol (fuel : ℕ) (client : CachedTracker) (library : Library) (pc : ℕ) :
    Lookup Library String :=
  match client.moduleAt pc with
  | some (metadata, info) =>
    let search := searchModule layout lookupAddress fuel metadata info library pc
    { queries := search.queries
      result := search.result.map fun
        | some (_, syminfo) => syminfo.name
        | none => "unknown"
      library := search.library }
  | none => { result := some "unknown", library }

variable (msr : Option (ℕ → ManagedSymbol))

/-- The module is native, or the resolver of managed code is not attached. -/
def isSearched (metadata : Metadata) : Bool :=
  metadata.modtype == ModTypeFlags.native ||
    metadata.modtype == ModTypeFlags.managed && msr.isNone

/-- The location the resolver of managed code knows. -/
def managedLocation (found : Option (Metadata × ModuleData)) (pc : ℕ) : SymbolLocation :=
  match msr with
  | none => { pc }
  | some lookup =>
    let sym := lookup pc
    let sloc : SymbolLocation :=
      { pc, modName := sym.module, symName := sym.function, file := sym.path, line := sym.line }
    let sloc := match found with
      | some (metadata, info) =>
        if sloc.modName = "" then
          { sloc with
            modName := info.preferredName, modBase := metadata.base, modEnd := metadata.mend }
        else sloc
      | none => sloc
    if sloc.modName = "" ∧ sloc.symName ≠ "" then { sloc with modName := "JIT" } else sloc

/-- The location with the symbol that a search has found. -/
def SymbolLocation.withSymbol (sloc : SymbolLocation) :
    Option (DrsymError × DrsymInfo) → SymbolLocation
  | some (err, syminfo) =>
    let sloc := { sloc with symName := syminfo.name }
    if err = .lineNotAvailable then sloc
    else { sloc with file := syminfo.file, line := syminfo.line, lineOffs := syminfo.lineOffs }
  | none => sloc

/-- The last known symbol near the program counter, with as much information as possible. -/
def getSymbolInfo (fuel : ℕ) (client : CachedTracker) (library : Library) (pc : ℕ) :
    Lookup Library SymbolLocation :=
  match client.moduleAt pc with
  | some (metadata, info) =>
    if isSearched msr metadata then
      let sloc : SymbolLocation :=
        { pc, modBase := metadata.base, modEnd := metadata.mend, modName := info.preferredName }
      let search := searchModule layout lookupAddress fuel metadata info library pc
      { queries := search.queries
        result := search.result.map sloc.withSymbol
        library := search.library }
    else { result := some (managedLocation msr (some (metadata, info)) pc), library }
  | none => { result := some (managedLocation msr none pc), library }

/-! ### What the search is for -/

/-- The library after a number of queries from an offset downwards. -/
def askedFrom (path : String) (library : Library) (offset : ℕ) : ℕ → Library
  | 0 => library
  | count + 1 => (lookupAddress (askedFrom path library offset count) path (offset - count)).1

/-- The query at some distance below an offset finds a symbol, if it comes after those nearer to
the offset. -/
def AnswersAt (path : String) (library : Library) (offset distance : ℕ) : Prop :=
  (lookupAddress (askedFrom lookupAddress path library offset distance) path
    (offset - distance)).2.1.found = true

/-- The lookup returns. It has asked for the offsets downwards to the first one with a symbol, or
all those in the search distance if there is none. -/
def SearchesBackward {Result : Type} (path : String) (library : Library) (offset : ℕ)
    (lookup : ℕ → Lookup Library Result) : Prop :=
  ∃ fuel last, (lookup fuel).result.isSome ∧ last ≤ min offset maxDistance ∧
    (lookup fuel).queries = (List.range (last + 1)).map (offset - ·) ∧
    (∀ earlier < last, ¬ AnswersAt lookupAddress path library offset earlier) ∧
    (AnswersAt lookupAddress path library offset last ∨ last = min offset maxDistance)

/-- The offset is above the search distance, or at it with a symbol in the distance. -/
def InReach (path : String) (library : Library) (offset : ℕ) : Prop :=
  maxDistance < offset ∨ offset = maxDistance ∧
    ∃ distance ≤ maxDistance, AnswersAt lookupAddress path library offset distance

section Loop

variable {layout : Layout} {lookupAddress : LookupAddress Library} {path : String}
  {library : Library} {limit offset : ℕ}

/-- A symbol ends the loop. -/
theorem reverseSearch_found (reached : limit ≤ offset)
    (found : (lookupAddress library path offset).2.1.found = true) (fuel : ℕ) :
    reverseSearch layout lookupAddress path limit (fuel + 1) library offset =
      { queries := [offset]
        result := some (some (lookupAddress library path offset).2)
        library := (lookupAddress library path offset).1 } := by
  rw [reverseSearch, if_pos reached]
  exact if_pos found

/-- A query without a symbol leaves the loop at the next offset. -/
theorem reverseSearch_unfound (reached : limit ≤ offset)
    (unfound : ¬ (lookupAddress library path offset).2.1.found = true) (fuel : ℕ) :
    reverseSearch layout lookupAddress path limit (fuel + 1) library offset =
      let rest := reverseSearch layout lookupAddress path limit fuel
        (lookupAddress library path offset).1 ((offset + layout.sizeRange - 1) % layout.sizeRange)
      { rest with queries := offset :: rest.queries } := by
  rw [reverseSearch, if_pos reached]
  exact if_neg unfound

/-- Below the limit the loop is over. -/
theorem reverseSearch_passed (passed : offset < limit) (fuel : ℕ) :
    reverseSearch layout lookupAddress path limit (fuel + 1) library offset =
      { result := some none, library } := by
  rw [reverseSearch, if_neg (not_le.mpr passed)]

/-- As long as the limit is not passed, the loop asks. -/
theorem reverseSearch_asks (reached : limit ≤ offset) (fuel : ℕ) :
    0 < (reverseSearch layout lookupAddress path limit (fuel + 1) library
      offset).queries.length := by
  by_cases found : (lookupAddress library path offset).2.1.found = true
  · rw [reverseSearch_found reached found]
    exact Nat.one_pos
  · rw [reverseSearch_unfound reached found]
    exact Nat.succ_pos _

/-- Queries without a symbol leave the loop at the offset below them. -/
theorem reverseSearch_unanswered (limit count : ℕ) (below : offset < layout.sizeRange)
    (room : limit + count ≤ offset + 1) (small : count ≤ offset)
    (unanswered : ∀ earlier < count, ¬ AnswersAt lookupAddress path library offset earlier)
    (fuel : ℕ) :
    reverseSearch layout lookupAddress path limit (fuel + count) library offset =
      let rest := reverseSearch layout lookupAddress path limit fuel
        (askedFrom lookupAddress path library offset count) (offset - count)
      { rest with queries := (List.range count).map (offset - ·) ++ rest.queries } := by
  induction count generalizing fuel with
  | zero => rfl
  | succ count inductionHypothesis =>
    have earlier := inductionHypothesis (by omega) (by omega)
      (fun earlier before => unanswered earlier (by omega)) (fuel + 1)
    have next : (offset - count + layout.sizeRange - 1) % layout.sizeRange =
        offset - (count + 1) := by
      rw [show offset - count + layout.sizeRange - 1 = offset - (count + 1) + layout.sizeRange by
        omega, Nat.add_mod_right, Nat.mod_eq_of_lt (by omega)]
    rw [show fuel + (count + 1) = fuel + 1 + count by omega, earlier,
      reverseSearch_unfound (by omega) (unanswered count (by omega)), next]
    simp only [askedFrom, List.range_succ, List.map_append, List.map_singleton, List.append_assoc,
      List.singleton_append]

variable {metadata : Metadata} {info : ModuleData} {pc : ℕ}

/-- The search of a module begins at the offset of the program counter. -/
theorem searchModule_eq (above : metadata.base ≤ pc) (fits : pc < layout.sizeRange) (fuel : ℕ) :
    searchModule layout lookupAddress fuel metadata info library pc =
      reverseSearch layout lookupAddress info.fullPath
        ((pc - metadata.base + layout.sizeRange - maxDistance) % layout.sizeRange) fuel library
        (pc - metadata.base) := by
  have offset : (pc + layout.sizeRange - metadata.base) % layout.sizeRange =
      pc - metadata.base := by
    rw [show pc + layout.sizeRange - metadata.base = pc - metadata.base + layout.sizeRange by omega,
      Nat.add_mod_right, Nat.mod_eq_of_lt (by omega)]
  rw [searchModule, offset, Nat.zero_max]

/-- From the search distance on, the limit is this distance below the offset. -/
theorem limit_eq (far : maxDistance ≤ offset) (below : offset < layout.sizeRange) :
    (offset + layout.sizeRange - maxDistance) % layout.sizeRange = offset - maxDistance := by
  rw [show offset + layout.sizeRange - maxDistance = offset - maxDistance + layout.sizeRange by
    omega, Nat.add_mod_right, Nat.mod_eq_of_lt (by omega)]

theorem maxDistance_lt_sizeRange (layout : Layout) : maxDistance < layout.sizeRange := by
  cases layout <;> decide

/-- Below the search distance the limit wraps around, to above the offset. -/
theorem lt_limit (near : offset < maxDistance) :
    offset < (offset + layout.sizeRange - maxDistance) % layout.sizeRange := by
  have wide := maxDistance_lt_sizeRange layout
  rw [Nat.mod_eq_of_lt (by omega)]
  omega

/-- In reach, the loop searches backward. -/
theorem searchesBackward_of_inReach (below : offset < layout.sizeRange)
    (reach : InReach lookupAddress path library offset) :
    SearchesBackward lookupAddress path library offset fun fuel =>
      reverseSearch layout lookupAddress path
        ((offset + layout.sizeRange - maxDistance) % layout.sizeRange) fuel library offset := by
  have far : maxDistance ≤ offset := by
    rcases reach with above | ⟨same, -⟩
    · exact above.le
    · exact same.ge
  have span : min offset maxDistance = maxDistance := Nat.min_eq_right far
  rw [limit_eq far below]
  by_cases answered : ∃ first ≤ maxDistance, AnswersAt lookupAddress path library offset first ∧
      ∀ earlier < first, ¬ AnswersAt lookupAddress path library offset earlier
  · obtain ⟨first, near, answers, unanswered⟩ := answered
    have run := reverseSearch_unanswered (offset - maxDistance) first below (by omega)
      (by omega) unanswered 1
    rw [reverseSearch_found (by omega) answers] at run
    refine ⟨1 + first, first, ?_, by omega, ?_, unanswered, Or.inl answers⟩
    · exact (congrArg (fun lookup => lookup.result.isSome) run).trans rfl
    · rw [List.range_succ, List.map_append]
      exact congrArg Lookup.queries run
  · have unanswered : ∀ distance < maxDistance + 1,
        ¬ AnswersAt lookupAddress path library offset distance := by
      intro distance
      induction distance using Nat.strong_induction_on with
      | _ distance earlier =>
        exact fun inside answers => answered ⟨distance, by omega, answers,
          fun earlier' before => earlier earlier' before (by omega)⟩
    have above : maxDistance < offset := by
      refine reach.resolve_right ?_
      rintro ⟨-, distance, near, answers⟩
      exact unanswered distance (by omega) answers
    have run := reverseSearch_unanswered (offset - maxDistance) (maxDistance + 1) below
      (by omega) (by omega) unanswered 1
    rw [reverseSearch_passed (by omega)] at run
    refine ⟨1 + (maxDistance + 1), maxDistance, ?_, by omega, ?_,
      fun earlier before => unanswered earlier (by omega), Or.inr span.symm⟩
    · exact (congrArg (fun lookup => lookup.result.isSome) run).trans rfl
    · exact (congrArg Lookup.queries run).trans (List.append_nil _)

/-- Out of reach, the loop asks for nothing, or it goes on at the end of the address space. -/
theorem inReach_of_searchesBackward (below : offset < layout.sizeRange)
    (searches : SearchesBackward lookupAddress path library offset fun fuel =>
      reverseSearch layout lookupAddress path
        ((offset + layout.sizeRange - maxDistance) % layout.sizeRange) fuel library offset) :
    InReach lookupAddress path library offset := by
  obtain ⟨fuel, last, returns, near, queries, -, -⟩ := searches
  have asked := congrArg List.length queries
  rw [List.length_map, List.length_range] at asked
  beta_reduce at returns asked
  rcases Nat.lt_trichotomy offset maxDistance with short | same | above
  · cases fuel with
    | zero => cases returns
    | succ fuel =>
      rw [reverseSearch_passed (lt_limit short)] at asked
      cases asked
  · refine Or.inr ⟨same, ?_⟩
    by_contra silent
    have unanswered : ∀ earlier < maxDistance,
        ¬ AnswersAt lookupAddress path library offset earlier :=
      fun earlier before found => silent ⟨earlier, before.le, found⟩
    have limit := limit_eq same.ge below
    rw [same, Nat.sub_self] at limit
    rw [same] at returns asked unanswered below
    rw [limit] at returns asked
    have small : last ≤ maxDistance := by omega
    -- The first queries use up the fuel, or they leave some for the offset zero.
    rcases Nat.le_total fuel maxDistance with used | left
    · have run := reverseSearch_unanswered 0 fuel below (by omega) used
        (fun earlier before => unanswered earlier (by omega)) 0
      rw [Nat.zero_add] at run
      rw [run] at returns
      cases returns
    · obtain ⟨fuel, rfl⟩ := Nat.exists_eq_add_of_le' left
      rw [reverseSearch_unanswered 0 maxDistance below (by omega) le_rfl unanswered fuel]
        at returns asked
      rw [Nat.sub_self] at returns asked
      have silentAtZero : ¬ (lookupAddress (askedFrom lookupAddress path library maxDistance
          maxDistance) path 0).2.1.found = true := by
        intro found
        refine silent ⟨maxDistance, le_rfl, ?_⟩
        rw [AnswersAt, same, Nat.sub_self]
        exact found
      obtain _ | _ | fuel := fuel
      · cases returns
      · rw [reverseSearch_unfound le_rfl silentAtZero] at returns
        cases returns
      · rw [reverseSearch_unfound le_rfl silentAtZero] at asked
        have more : 0 < (reverseSearch layout lookupAddress path 0 (fuel + 1)
            (lookupAddress (askedFrom lookupAddress path library maxDistance maxDistance) path 0).1
            ((0 + layout.sizeRange - 1) % layout.sizeRange)).queries.length :=
          reverseSearch_asks (Nat.zero_le _) fuel
        simp only [List.length_append, List.length_map, List.length_range, List.length_cons]
          at asked
        omega
  · exact Or.inl above

/-- The loop searches backward just where the offset is in reach. -/
theorem reverseSearch_searchesBackward_iff (layout : Layout) (below : offset < layout.sizeRange) :
    SearchesBackward lookupAddress path library offset (fun fuel =>
      reverseSearch layout lookupAddress path
        ((offset + layout.sizeRange - maxDistance) % layout.sizeRange) fuel library offset) ↔
      InReach lookupAddress path library offset :=
  ⟨inReach_of_searchesBackward below, searchesBackward_of_inReach below⟩

end Loop

section Lookups

variable {layout : Layout} {lookupAddress : LookupAddress Library}
  {msr : Option (ℕ → ManagedSymbol)} {library : Library} {client : CachedTracker}
  {metadata : Metadata} {info : ModuleData} {pc : ℕ}

/-- Only what is asked for and whether a lookup returns matters. -/
theorem SearchesBackward.congr {Result Other : Type} {path : String} {offset : ℕ}
    {lookup : ℕ → Lookup Library Result} {other : ℕ → Lookup Library Other}
    (queries : ∀ fuel, (lookup fuel).queries = (other fuel).queries)
    (result : ∀ fuel, (lookup fuel).result.isSome = (other fuel).result.isSome) :
    SearchesBackward lookupAddress path library offset lookup ↔
      SearchesBackward lookupAddress path library offset other := by
  unfold SearchesBackward
  simp only [queries, result]

/-- A module that contains a program counter does not begin above it. -/
theorem base_le_of_moduleAt (found : client.moduleAt pc = some (metadata, info)) :
    metadata.base ≤ pc := by
  obtain ⟨modptr, contains, found⟩ := Option.bind_eq_some_iff.mp found
  obtain ⟨described, here, found⟩ := Option.bind_eq_some_iff.mp found
  obtain ⟨pointer, -, found⟩ := Option.bind_eq_some_iff.mp found
  obtain ⟨record, -, same⟩ := Option.bind_eq_some_iff.mp found
  obtain ⟨rfl, -⟩ := Prod.mk.inj (Option.some.inj same)
  obtain ⟨base, _, bound, -, -⟩ := Tracker.getModuleContaining_eq_some_iff.mp contains
  obtain ⟨holds, atMost, -⟩ := OrderedIndex.lowerBound_eq_some_iff.mp bound
  obtain ⟨_, there, start⟩ := client.tracker.placed base modptr holds
  obtain rfl := Option.some.inj (here.symm.trans there)
  exact start ▸ atMost

/-- Every module the tracker finds has its description and its record. -/
theorem exists_moduleAt {config : TrackerConfig} {params : RuntimeConfig} {exclTraces : Bool}
    {past : List (CachedStep layout)} {modptr : PMetadata}
    (reaches : (cachedTracker layout config params exclTraces).Reaches past client)
    (contains : client.tracker.getModuleContaining pc = some modptr) :
    ∃ metadata info, client.moduleAt pc = some (metadata, info) ∧
      client.tracker.objects[modptr]? = some metadata := by
  obtain ⟨base, _, bound, -, -⟩ := Tracker.getModuleContaining_eq_some_iff.mp contains
  obtain ⟨metadata, record, here, points, copy, -, -⟩ := (reaches_remembers reaches).described _ _
    (OrderedIndex.lowerBound_eq_some_iff.mp bound).1
  refine ⟨metadata, record, ?_, here⟩
  simp only [CachedTracker.moduleAt, contains, here, points, CachedTracker.recordOf, copy,
    Option.bind_eq_bind, Option.bind_some]

/-- The block symbol and the symbol information are searched for backward, one by one and no
further than the search distance, just where the offset of the program counter in its module is in
reach, and for the information the module is one that is searched. -/
theorem backward_search_iff (found : client.moduleAt pc = some (metadata, info))
    (fits : pc < layout.sizeRange) :
    (SearchesBackward lookupAddress info.fullPath library (pc - metadata.base)
        (fun fuel => getBbSymbol layout lookupAddress fuel client library pc) ↔
      InReach lookupAddress info.fullPath library (pc - metadata.base)) ∧
    (SearchesBackward lookupAddress info.fullPath library (pc - metadata.base)
        (fun fuel => getSymbolInfo layout lookupAddress msr fuel client library pc) ↔
      isSearched msr metadata = true ∧
        InReach lookupAddress info.fullPath library (pc - metadata.base)) := by
  have above := base_le_of_moduleAt found
  have searches : SearchesBackward lookupAddress info.fullPath library (pc - metadata.base)
      (fun fuel => searchModule layout lookupAddress fuel metadata info library pc) ↔
        InReach lookupAddress info.fullPath library (pc - metadata.base) := by
    rw [← reverseSearch_searchesBackward_iff layout (by omega)]
    simp only [searchModule_eq above fits]
  constructor
  · rw [← searches]
    refine SearchesBackward.congr (fun fuel => ?_) (fun fuel => ?_)
    · rw [getBbSymbol, found]
    · rw [getBbSymbol, found]
      exact Option.isSome_map
  · by_cases searched : isSearched msr metadata = true
    · rw [← searches, and_iff_right searched]
      refine SearchesBackward.congr (fun fuel => ?_) (fun fuel => ?_)
      · simp only [getSymbolInfo, found, if_pos searched]
      · simp only [getSymbolInfo, found, if_pos searched, Option.isSome_map]
    · refine iff_of_false ?_ fun both => searched both.1
      rintro ⟨fuel, last, -, -, queries, -, -⟩
      have asked := congrArg List.length queries
      simp only [getSymbolInfo, found, if_neg searched, List.length_map, List.length_range,
        List.length_nil] at asked
      omega

end Lookups

/-- A client with one module. -/
def loadedClient : CachedTracker :=
  (unloadedClient.eventModuleLoad nothingExcluded 0 firstModule).1

/-- A library with a symbol at every offset. -/
def symbolEverywhere : LookupAddress Unit := fun _ _ _ => ((), .success, ⟨"main", "main.c", 1, 0⟩)

theorem backward_search_iff_far :
    let found := (loadedClient.moduleAt 140).get (by decide)
    (SearchesBackward symbolEverywhere found.2.fullPath () (140 - found.1.base)
        (fun fuel => getBbSymbol .x64 symbolEverywhere fuel loadedClient () 140) ↔
      InReach symbolEverywhere found.2.fullPath () (140 - found.1.base)) ∧
    (SearchesBackward symbolEverywhere found.2.fullPath () (140 - found.1.base)
        (fun fuel => getSymbolInfo .x64 symbolEverywhere none fuel loadedClient () 140) ↔
      isSearched none found.1 = true ∧
        InReach symbolEverywhere found.2.fullPath () (140 - found.1.base)) :=
  backward_search_iff (Option.some_get (by decide)).symm (by decide)

/-- Nothing is searched near the base of a module. -/
theorem near_base_unsearched :
    ¬ ∀ (Library : Type) (layout : Layout) (lookupAddress : LookupAddress Library)
      (msr : Option (ℕ → ManagedSymbol)) (config : TrackerConfig) (params : RuntimeConfig)
      (exclTraces : Bool) (past : List (CachedStep layout)) (client : CachedTracker)
      (library : Library) (pc : ℕ) (metadata : Metadata) (info : ModuleData),
      (cachedTracker layout config params exclTraces).Reaches past client →
        client.moduleAt pc = some (metadata, info) → pc < layout.sizeRange →
          isSearched msr metadata = true →
          SearchesBackward lookupAddress info.fullPath library (pc - metadata.base)
            (fun fuel => getBbSymbol layout lookupAddress fuel client library pc) ∧
          SearchesBackward lookupAddress info.fullPath library (pc - metadata.base)
            (fun fuel => getSymbolInfo layout lookupAddress msr fuel client library pc) := by
  intro always
  have reaches : (cachedTracker .x64 nothingExcluded Session.plain false).Reaches
      [⟨unloadedClient, .module (.load 0 firstModule), loadedClient, .inl (some 0)⟩] loadedClient :=
    Machine.Reaches.call (Machine.Reaches.start start_unloadedClient) rfl
  obtain ⟨⟨fuel, last, -, -, queries, -, -⟩, -⟩ := always Unit .x64 symbolEverywhere none
    nothingExcluded Session.plain false _ loadedClient () 110 _ _ reaches
    (Option.some_get (x := loadedClient.moduleAt 110) (by decide)).symm (by decide) (by decide)
  have asked := congrArg List.length queries
  rw [List.length_map, List.length_range] at asked
  cases fuel with
  | zero => cases asked
  | succ fuel => cases asked

end Drace
