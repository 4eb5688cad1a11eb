/-
This file says when the suppression of addresses is exact.

The filter looks at one block only, the one that starts at or next below the
address, and a start keeps the size it was registered with first. So an address is
missed just if the block it lies in has another one start between, which ends
before the address.
-/

import Drace.RaceFilter

namespace Drace

variable {filter : RaceFilter} {blocks : List (ℕ × ℕ)} {block : ℕ × ℕ} {addr start size : ℕ}

/-! ### Registered blocks -/

/-- The filter after blocks have been suppressed one after the other. -/
def RaceFilter.suppressAll (filter : RaceFilter) (blocks : List (ℕ × ℕ)) : RaceFilter :=
  blocks.foldl (fun filter block => filter.suppressAddr block.1 block.2) filter

/-- The address lies in one of the blocks. -/
def InBlocks (blocks : List (ℕ × ℕ)) (addr : ℕ) : Prop :=
  ∃ block ∈ blocks, block.1 ≤ addr ∧ addr < block.1 + block.2

/-- The size a start is registered with first. -/
def firstSize (blocks : List (ℕ × ℕ)) (start : ℕ) : Option ℕ :=
  (blocks.find? fun block => block.1 = start).map Prod.snd

/-- Whenever a block ends behind one that starts within it or with it, a third one starts behind
that one and no later than at its end. Of the blocks with one start the first one counts. -/
def Continued (blocks : List (ℕ × ℕ)) : Prop :=
  ∀ outer ∈ blocks, ∀ inner ∈ blocks, ∀ size ∈ firstSize blocks inner.1, outer.1 ≤ inner.1 →
    inner.1 + size < outer.1 + outer.2 →
      ∃ later ∈ blocks, inner.1 < later.1 ∧ later.1 ≤ inner.1 + size

instance : Decidable (Continued blocks) :=
  inferInstanceAs (Decidable (∀ _ ∈ _, ∀ _ ∈ _, ∀ _ ∈ _, _))

/-- The registered blocks as an index. -/
def blockIndex (blocks : List (ℕ × ℕ)) : OrderedIndex ℕ ℕ :=
  blocks.foldl (fun index block => index.emplace block.1 block.2) .empty

theorem blockIndex_append : blockIndex (blocks ++ [block]) =
    (blockIndex blocks).emplace block.1 block.2 := by
  rw [blockIndex, List.foldl_append]
  rfl

theorem suppressAll_append : filter.suppressAll (blocks ++ [block]) =
    (filter.suppressAll blocks).suppressAddr block.1 block.2 := by
  rw [RaceFilter.suppressAll, List.foldl_append]
  rfl

theorem firstSize_append : firstSize (blocks ++ [block]) start =
    (firstSize blocks start).or (if block.1 = start then some block.2 else none) := by
  rw [firstSize, List.find?_append, Option.map_or, firstSize]
  congr 1
  by_cases same : block.1 = start <;> simp [same]

/-- Registering a block changes the list of blocks only. -/
theorem suppressAll_eq (none : filter.addrList = []) : filter.suppressAll blocks =
    { filter with addrList := (blockIndex blocks).entries } := by
  induction blocks using List.reverseRecOn with
  | nil =>
    show filter = { filter with addrList := [] }
    rw [← none]
  | append_singleton blocks block inductionHypothesis =>
    rw [suppressAll_append, inductionHypothesis, blockIndex_append]
    rfl

/-- The index holds each start with its first size. -/
theorem holds_blockIndex : (blockIndex blocks).Holds start size ↔
    firstSize blocks start = some size := by
  induction blocks using List.reverseRecOn generalizing start size with
  | nil => exact iff_of_false OrderedIndex.not_holds_empty (by simp [firstSize])
  | append_singleton blocks block inductionHypothesis =>
    rw [blockIndex_append, OrderedIndex.holds_emplace, firstSize_append]
    simp only [inductionHypothesis]
    cases found : firstSize blocks start with
    | some first =>
      simp only [Option.some_or, or_iff_left_iff_imp]
      rintro ⟨rfl, -, fresh⟩
      exact absurd found (fresh first)
    | none =>
      simp only [Option.none_or, reduceCtorEq, false_or]
      constructor
      · rintro ⟨rfl, rfl, -⟩
        exact if_pos rfl
      · intro last
        split at last
        · next same =>
          subst same
          exact ⟨rfl, (Option.some.inj last).symm, fun earlier => by rw [found]; simp⟩
        · cases last

theorem mem_of_firstSize (first : firstSize blocks start = some size) :
    (start, size) ∈ blocks := by
  obtain ⟨block, found, rfl⟩ := Option.map_eq_some_iff.mp first
  have same : block.1 = start := by simpa using List.find?_some found
  exact same ▸ List.mem_of_find?_eq_some found

theorem exists_firstSize (member : block ∈ blocks) :
    ∃ size, firstSize blocks block.1 = some size := by
  have found : (blocks.find? fun other => other.1 = block.1).isSome :=
    List.find?_isSome.mpr ⟨block, member, by simp⟩
  obtain ⟨first, same⟩ := Option.isSome_iff_exists.mp found
  exact ⟨first.2, by rw [firstSize, same, Option.map_some]⟩

/-- The search finds the greatest start that is not above the address, with its first size. -/
theorem lowerBound_blockIndex : (blockIndex blocks).lowerBound addr = some (start, size) ↔
    firstSize blocks start = some size ∧ start ≤ addr ∧
      ∀ block ∈ blocks, block.1 ≤ addr → block.1 ≤ start := by
  rw [OrderedIndex.lowerBound_eq_some_iff, holds_blockIndex]
  refine and_congr_right fun _ => and_congr_right fun _ => ⟨fun greatest block member => ?_, ?_⟩
  · obtain ⟨size, first⟩ := exists_firstSize member
    exact greatest block.1 size (holds_blockIndex.mpr first)
  · intro greatest later found holds
    exact greatest _ (mem_of_firstSize (holds_blockIndex.mp holds))

theorem exists_lowerBound (member : block ∈ blocks) (below : block.1 ≤ addr) :
    ∃ start size, (blockIndex blocks).lowerBound addr = some (start, size) := by
  cases bound : (blockIndex blocks).lowerBound addr with
  | none =>
    obtain ⟨size, first⟩ := exists_firstSize member
    have above := OrderedIndex.lowerBound_eq_none_iff.mp bound _ _ (holds_blockIndex.mpr first)
    exact absurd below (not_le.mpr above)
  | some found => exact ⟨found.1, found.2, rfl⟩

/-! ### What is suppressed -/

theorem addrIsSuppressed_suppressAll (none : filter.addrList = []) :
    (filter.suppressAll blocks).addrIsSuppressed addr = true ↔
      ∃ block, (blockIndex blocks).lowerBound addr = some block ∧
        addr < (block.1 + block.2) % 2 ^ 64 := by
  rw [suppressAll_eq none]
  unfold RaceFilter.addrIsSuppressed
  show _ ↔ ∃ block, (blockIndex blocks).entries.find? _ = some block ∧ _
  split
  · next block bound =>
    rw [bound]
    simp
  · next bound =>
    rw [bound]
    simp

/-- An address is suppressed if it lies in the first block of the greatest start that is not above
it. -/
theorem addrIsSuppressed_iff (none : filter.addrList = [])
    (fits : ∀ block ∈ blocks, block.1 + block.2 < 2 ^ 64) :
    (filter.suppressAll blocks).addrIsSuppressed addr = true ↔
      ∃ start size, firstSize blocks start = some size ∧ start ≤ addr ∧ addr < start + size ∧
        ∀ block ∈ blocks, block.1 ≤ addr → block.1 ≤ start := by
  rw [addrIsSuppressed_suppressAll none]
  constructor
  · rintro ⟨⟨start, size⟩, bound, inside⟩
    obtain ⟨first, below, greatest⟩ := lowerBound_blockIndex.mp bound
    rw [Nat.mod_eq_of_lt (fits _ (mem_of_firstSize first))] at inside
    exact ⟨start, size, first, below, inside, greatest⟩
  · rintro ⟨start, size, first, below, inside, greatest⟩
    refine ⟨_, lowerBound_blockIndex.mpr ⟨first, below, greatest⟩, ?_⟩
    rwa [Nat.mod_eq_of_lt (fits _ (mem_of_firstSize first))]

/-- The filter suppresses nothing but the registered blocks. -/
theorem inBlocks_of_addrIsSuppressed (none : filter.addrList = [])
    (fits : ∀ block ∈ blocks, block.1 + block.2 < 2 ^ 64)
    (suppressed : (filter.suppressAll blocks).addrIsSuppressed addr = true) :
    InBlocks blocks addr := by
  obtain ⟨start, size, first, below, inside, -⟩ := (addrIsSuppressed_iff none fits).mp suppressed
  exact ⟨(start, size), mem_of_firstSize first, below, inside⟩

/-- It suppresses all of them just if they are continued. -/
theorem addrIsSuppressed_exact_iff (none : filter.addrList = [])
    (fits : ∀ block ∈ blocks, block.1 + block.2 < 2 ^ 64) :
    (∀ addr, (filter.suppressAll blocks).addrIsSuppressed addr = true ↔ InBlocks blocks addr) ↔
      Continued blocks := by
  constructor
  · intro exact outer isOuter inner isInner size first starts ends
    by_contra alone
    -- the address right behind the inner block is missed
    have covered : InBlocks blocks (inner.1 + size) := ⟨outer, isOuter, by omega, ends⟩
    obtain ⟨start, found, firstFound, below, inside, greatest⟩ :=
      (addrIsSuppressed_iff none fits).mp ((exact _).mpr covered)
    have atLeast := greatest inner isInner (Nat.le_add_right _ _)
    rcases Nat.lt_or_eq_of_le atLeast with behind | rfl
    · exact alone ⟨(start, found), mem_of_firstSize firstFound, behind, below⟩
    · rw [first] at firstFound
      obtain ⟨rfl⟩ := Option.some.inj firstFound
      exact lt_irrefl _ inside
  · intro continued addr
    refine ⟨inBlocks_of_addrIsSuppressed none fits, ?_⟩
    rintro ⟨outer, isOuter, starts, ends⟩
    obtain ⟨start, size, bound⟩ := exists_lowerBound isOuter starts
    obtain ⟨first, below, greatest⟩ := lowerBound_blockIndex.mp bound
    refine (addrIsSuppressed_iff none fits).mpr ⟨start, size, first, below, ?_, greatest⟩
    by_contra missed
    obtain ⟨later, isLater, behind, reached⟩ := continued outer isOuter (start, size)
      (mem_of_firstSize first) size first (greatest outer isOuter starts) (by simp only; omega)
    have atMost := greatest later isLater (by simp only at reached; omega)
    exact absurd behind (not_lt.mpr atMost)

/-- Suppressing addresses adds the races on them to those that are suppressed by their symbols. -/
theorem checkSuppress_suppressAll (none : filter.addrList = []) (race : DecoratedRace) :
    (filter.suppressAll blocks).checkSuppress race = true ↔
      (filter.suppressAll blocks).addrIsSuppressed race.first.accessedMemory = true ∨
        (filter.suppressAll blocks).addrIsSuppressed race.second.accessedMemory = true ∨
          filter.checkSuppress race = true := by
  have nothing : ∀ addr, filter.addrIsSuppressed addr = false := by
    intro addr
    rw [RaceFilter.addrIsSuppressed, none]
    rfl
  have others : (filter.suppressAll blocks).rtosList = filter.rtosList ∧
      (filter.suppressAll blocks).raceList = filter.raceList := by
    rw [suppressAll_eq none]
    exact ⟨rfl, rfl⟩
  simp only [RaceFilter.checkSuppress, RaceFilter.checkRace, RaceFilter.checkRtos, others.1,
    others.2, nothing, Bool.or_eq_true, Bool.false_eq_true, or_assoc, false_or]

/-- After blocks have been suppressed, an address is suppressed just if it lies in one of them, a
race is suppressed by address just if one of its addresses does, and no address is lost on the way,
if and only if the blocks are continued. -/
theorem address_suppression_exact_iff (none : filter.addrList = [])
    (fits : ∀ block ∈ blocks, block.1 + block.2 < 2 ^ 64) :
    ((∀ addr, (filter.suppressAll blocks).addrIsSuppressed addr = true ↔ InBlocks blocks addr) ∧
      (∀ race, (filter.suppressAll blocks).checkSuppress race = true ↔
        InBlocks blocks race.first.accessedMemory ∨ InBlocks blocks race.second.accessedMemory ∨
          filter.checkSuppress race = true) ∧
      ∀ front, front <+: blocks → ∀ addr,
        (filter.suppressAll front).addrIsSuppressed addr = true →
          (filter.suppressAll blocks).addrIsSuppressed addr = true) ↔ Continued blocks := by
  rw [← addrIsSuppressed_exact_iff none fits]
  refine ⟨And.left, fun exact => ⟨exact, fun race => ?_, fun front initial addr before => ?_⟩⟩
  · rw [checkSuppress_suppressAll none, exact, exact]
  · have early : ∀ block ∈ front, block.1 + block.2 < 2 ^ 64 := fun block member =>
      fits block (initial.mem member)
    obtain ⟨block, member, inside⟩ := inBlocks_of_addrIsSuppressed none early before
    exact (exact addr).mpr ⟨block, initial.mem member, inside⟩

/-- Three blocks, the second of which reaches from within the first to the third. -/
def overlapping : List (ℕ × ℕ) := [(40, 20), (50, 30), (80, 8)]

theorem address_suppression_exact_iff_overlapping :
    let filter : RaceFilter := {}
    ((∀ addr, (filter.suppressAll overlapping).addrIsSuppressed addr = true ↔
        InBlocks overlapping addr) ∧
      (∀ race, (filter.suppressAll overlapping).checkSuppress race = true ↔
        InBlocks overlapping race.first.accessedMemory ∨
          InBlocks overlapping race.second.accessedMemory ∨ filter.checkSuppress race = true) ∧
      ∀ front, front <+: overlapping → ∀ addr,
        (filter.suppressAll front).addrIsSuppressed addr = true →
          (filter.suppressAll overlapping).addrIsSuppressed addr = true) ↔
      Continued overlapping :=
  address_suppression_exact_iff rfl (by decide)

/-- A block within a greater one hides what lies behind it in the greater one. -/
theorem nested_block_hides :
    ¬ ∀ (blocks : List (ℕ × ℕ)), (∀ block ∈ blocks, block.1 + block.2 < 2 ^ 64) →
      (∀ addr, (({} : RaceFilter).suppressAll blocks).addrIsSuppressed addr = true ↔
        InBlocks blocks addr) := by
  intro exact
  have suppressed := (exact [(0, 100), (50, 1)] (by decide) 60).mpr ⟨(0, 100), by decide⟩
  exact absurd suppressed (by decide)

end Drace
