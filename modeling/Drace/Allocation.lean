/-
This file compares the allocation table with the blocks that are live.

The live blocks follow from the calls alone: an allocation starts a block or
gives a live one a new size, a deallocation ends it. The detector should hold
exactly these blocks, and deallocating one should forget exactly the variables in
it. It does not: the final erase of a deallocation uses the cursor of the loop,
which then stands behind the block, and an allocation never replaces an entry.
The main result says which steps are harmless.
-/

import Drace.Access

namespace Drace

open Machine

/-- The live blocks after a call: start addresses with the size of the latest allocation. -/
def Event.liveAfter (live : AList fun _ : ℕ => ℕ) : Event → AList fun _ : ℕ => ℕ
  | .allocate _ _ addr size => live.insert addr size
  | .deallocate _ addr => live.erase addr
  | _ => live

/-- The blocks that are live after a history. -/
def liveBlocks (past : List Step) : AList fun _ : ℕ => ℕ :=
  past.foldl (fun live step => step.event.liveAfter live) ∅

variable {layout : Layout} {past front : List Step} {ft next : Fasttrack} {event : Event}
  {output : Output} {step : Step}

/-- The live blocks end within the address space. -/
def BlocksFit (layout : Layout) (past : List Step) : Prop :=
  ∀ block ∈ (liveBlocks past).entries, block.1 + block.2 ≤ layout.sizeRange

/-- The live blocks are pairwise disjoint. -/
def BlocksDisjoint (past : List Step) : Prop :=
  ∀ block ∈ (liveBlocks past).entries, ∀ other ∈ (liveBlocks past).entries,
    block.1 < other.1 → block.1 + block.2 ≤ other.1

instance (past : List Step) : Decidable (BlocksFit layout past) :=
  inferInstanceAs (Decidable (∀ block ∈ (liveBlocks past).entries, _ ≤ _))

instance (past : List Step) : Decidable (BlocksDisjoint past) :=
  inferInstanceAs (Decidable (∀ block ∈ (liveBlocks past).entries,
    ∀ other ∈ (liveBlocks past).entries, block.1 < other.1 → _ ≤ _))

/-- The allocation table holds exactly the live blocks. -/
def AllocsMatch (past : List Step) (ft : Fasttrack) : Prop :=
  ∀ addr, ft.allocs.lookup addr = (liveBlocks past).lookup addr

/-- Deallocating a live block forgets exactly the variables in it. -/
def FreesRange (front : List Step) (step : Step) : Prop :=
  ∀ tls addr size, step.event = .deallocate tls addr → (liveBlocks front).lookup addr = some size →
    ∀ key, step.post.vars.lookup key =
      if addr ≤ key ∧ key < addr + size then none else step.pre.vars.lookup key

/-- The call ends no live block, unless it is empty or ends the address space and holds no
variable, and it does not give a live block another size. -/
def KeepsTable (layout : Layout) (front : List Step) (step : Step) : Prop :=
  (∀ tls addr size, step.event = .deallocate tls addr → (liveBlocks front).lookup addr = some size →
    size = 0 ∨ addr + size = layout.sizeRange ∧
      ∀ key, addr ≤ key → key < addr + size → key ∉ step.pre.vars) ∧
  ∀ tls pc addr size old, step.event = .allocate tls pc addr size →
    (liveBlocks front).lookup addr = some old → old = size

@[simp]
theorem liveBlocks_append :
    liveBlocks (past ++ [step]) = step.event.liveAfter (liveBlocks past) := by
  simp [liveBlocks]

/-- Calls that neither allocate nor deallocate nor end the analysis keep table and live blocks. -/
theorem keepsBlocks {access : Option Access} (accesses : event.access? = access)
    (defined : ft.call layout event = some (next, output))
    (quiet : access = none → Fasttrack.memoryAfter layout ft event = ft.memory) :
    next.allocs = ft.allocs := by
  cases access with
  | none => exact congrArg Prod.snd ((Fasttrack.call_quiet accesses defined).2.trans (quiet rfl))
  | some access =>
    obtain ⟨_, _, _, kept, _⟩ := Fasttrack.call_access accesses defined
    exact kept

/-- Allocating keeps the table exact unless a live block gets another size. -/
theorem allocsMatch_allocate (exact : AllocsMatch past ft) (tls pc addr size : ℕ) :
    AllocsMatch (past ++ [⟨ft, .allocate tls pc addr size, ft.allocate addr size, output⟩])
        (ft.allocate addr size) ↔
      ∀ old, (liveBlocks past).lookup addr = some old → old = size := by
  unfold AllocsMatch
  rw [liveBlocks_append]
  simp only [Event.liveAfter, AList.lookup_insert_eq_ite]
  unfold Fasttrack.allocate
  cases live : (liveBlocks past).lookup addr with
  | none =>
    have absent : addr ∉ ft.allocs := AList.lookup_eq_none.mp ((exact addr).trans live)
    simp only [if_neg absent, AList.lookup_insert_eq_ite, reduceCtorEq, false_imp_iff, implies_true,
      iff_true]
    intro key
    rw [exact key]
  | some old =>
    have member : addr ∈ ft.allocs := by
      rw [← AList.lookup_isSome, exact addr, live]
      rfl
    simp only [if_pos member]
    constructor
    · intro same other found
      have here := same addr
      rw [exact addr, live, if_pos rfl] at here
      exact (Option.some.inj found).symm.trans (Option.some.inj here)
    · intro same key
      split
      · next atStart => rw [atStart, exact addr, live, same old rfl]
      · exact exact key

/-- Deallocating keeps the table exact if the cursor comes back to where it started. -/
theorem allocsMatch_deallocate (exact : AllocsMatch past ft) (tls addr : ℕ) :
    AllocsMatch (past ++ [⟨ft, .deallocate tls addr, ft.deallocate layout addr, output⟩])
        (ft.deallocate layout addr) ↔ ft.endAddr layout addr ≤ addr := by
  unfold AllocsMatch
  rw [liveBlocks_append]
  simp only [Event.liveAfter, AList.lookup_erase_eq_ite,
    (Fasttrack.deallocate_spec layout ft addr _).2]
  constructor
  · intro same
    have here := same addr
    rw [if_pos rfl, if_pos rfl] at here
    by_contra beyond
    rw [if_neg (by omega)] at here
    cases here
  · intro back key
    rw [max_eq_left back]
    by_cases atStart : key = addr
    · rw [if_pos atStart, if_pos atStart]
    · rw [if_neg atStart, if_neg atStart, if_neg atStart, exact key]

/-- Where the table is exact and the live blocks fit, a call keeps it exact and frees what it
should if and only if it is harmless. -/
theorem keepsTable_iff (exact : AllocsMatch front ft) (fits : BlocksFit layout front)
    (goes : event ≠ .finalize) (defined : ft.call layout event = some (next, output)) :
    AllocsMatch (front ++ [⟨ft, event, next, output⟩]) next ∧
      FreesRange front ⟨ft, event, next, output⟩ ↔
      KeepsTable layout front ⟨ft, event, next, output⟩ := by
  cases event with
  | allocate tls pc addr size =>
    obtain ⟨rfl, _⟩ := Prod.mk.inj (Option.some.inj defined)
    rw [allocsMatch_allocate exact]
    constructor
    · rintro ⟨same, _⟩
      refine ⟨by rintro _ _ _ ⟨⟩, ?_⟩
      rintro _ _ _ _ old ⟨⟩ live
      exact same old live
    · rintro ⟨_, same⟩
      exact ⟨fun old live => same tls pc addr size old rfl live, by rintro _ _ _ ⟨⟩⟩
  | deallocate tls addr =>
    obtain ⟨rfl, _⟩ := Prod.mk.inj (Option.some.inj defined)
    rw [allocsMatch_deallocate exact]
    have size : ∀ size, (liveBlocks front).lookup addr = some size →
        ft.endAddr layout addr = (addr + size) % layout.sizeRange ∧
          addr + size ≤ layout.sizeRange := by
      intro size live
      have block : (⟨addr, size⟩ : Sigma fun _ : ℕ => ℕ) ∈ (liveBlocks front).entries :=
        AList.mem_lookup_iff.mp live
      refine ⟨?_, fits _ block⟩
      rw [Fasttrack.endAddr, exact addr, live, Option.getD_some]
    have erased := fun key => (Fasttrack.deallocate_spec layout ft addr key).1
    constructor
    · rintro ⟨back, frees⟩
      refine ⟨?_, by rintro _ _ _ _ _ ⟨⟩⟩
      rintro _ _ length ⟨⟩ live
      obtain ⟨atEnd, fit⟩ := size length live
      rcases Nat.eq_zero_or_pos length with zero | positive
      · exact Or.inl zero
      · have ends : addr + length = layout.sizeRange := by
          rcases Nat.lt_or_eq_of_le fit with less | ends
          · rw [atEnd, Nat.mod_eq_of_lt less] at back
            omega
          · exact ends
        refine Or.inr ⟨ends, fun key above below => ?_⟩
        have gone := frees tls addr length rfl live key
        rw [if_pos ⟨above, below⟩, erased, if_neg (by omega)] at gone
        exact AList.lookup_eq_none.mp gone
    · rintro ⟨harmless, _⟩
      constructor
      · cases live : (liveBlocks front).lookup addr with
        | none =>
          rw [Fasttrack.endAddr, exact addr, live]
          exact Nat.mod_le _ _
        | some length =>
          obtain ⟨atEnd, fit⟩ := size length live
          rw [atEnd]
          rcases harmless tls addr length rfl live with rfl | ⟨ends, _⟩
          · exact Nat.mod_le _ _
          · rw [ends, Nat.mod_self]
            exact Nat.zero_le _
      · rintro _ _ length ⟨⟩ live key
        obtain ⟨atEnd, fit⟩ := size length live
        rw [erased, atEnd]
        rcases harmless tls addr length rfl live with rfl | ⟨ends, untouched⟩
        · rw [if_neg (by have := Nat.mod_le (addr + 0) layout.sizeRange; omega), if_neg (by omega)]
        · rw [ends, Nat.mod_self, if_neg (by omega)]
          split
          · next inside => exact AList.lookup_eq_none.mpr (untouched key inside.1 (ends ▸ inside.2))
          · rfl
  | finalize => exact absurd rfl goes
  | _ =>
    have kept := keepsBlocks rfl defined (fun _ => rfl)
    refine iff_of_true ⟨?_, by rintro _ _ _ ⟨⟩⟩ ⟨by rintro _ _ _ ⟨⟩, by rintro _ _ _ _ _ ⟨⟩⟩
    intro addr
    rw [liveBlocks_append, kept]
    exact exact addr

/-- An exact table along a run is exact at its end. -/
theorem allocsMatch_end (reaches : Reaches layout past ft)
    (always : Always (fun front step => AllocsMatch (front ++ [step]) step.post) past) :
    AllocsMatch past ft := by
  cases reaches with
  | start begins =>
    obtain ⟨argv, rfl⟩ := begins
    exact fun addr => rfl
  | call earlier defined => exact (always_append.mp always).2

/-- As long as the live blocks fit the address space, the allocation table holds exactly the live
blocks after each call and each deallocation forgets exactly its block if and only if no live
block that is not empty is ever deallocated, unless it ends the address space and holds no
variable, and none is allocated again with another size. -/
theorem allocs_exact_iff (reaches : Reaches layout past ft)
    (fits : Always (fun front _ => BlocksFit layout front) past)
    (goes : ∀ step ∈ past, step.event ≠ .finalize) :
    Always (fun front step => AllocsMatch (front ++ [step]) step.post ∧
      FreesRange front step) past ↔
      Always (KeepsTable layout) past := by
  induction reaches with
  | start begins => exact iff_of_true always_nil always_nil
  | @call past ft next event output earlier defined inductionHypothesis =>
    obtain ⟨fitsBefore, fit⟩ := always_append.mp fits
    have before := inductionHypothesis fitsBefore fun step member =>
      goes step (List.mem_append_left _ member)
    rw [always_append, always_append, before]
    refine and_congr_right fun kept => ?_
    have exact : AllocsMatch past ft :=
      allocsMatch_end earlier ((before.mpr kept).imp fun _ _ both => both.1)
    exact keepsTable_iff exact fit (goes _
      (List.mem_append_right _ (List.mem_singleton_self _))) defined

theorem allocs_exact_iff_two_blocks :
    let past := (ran .x64 [.fork 9 1, .allocate 1 0 0x100 4, .write 1 7 0x102 1,
      .allocate 1 0 0x104 4, .deallocate 1 0x104]).1
    Always (fun front step => AllocsMatch (front ++ [step]) step.post ∧
      FreesRange front step) past ↔
      Always (KeepsTable .x64) past :=
  allocs_exact_iff (reaches_ran .x64 [.fork 9 1, .allocate 1 0 0x100 4, .write 1 7 0x102 1,
    .allocate 1 0 0x104 4, .deallocate 1 0x104]) (by decide +kernel) (by decide +kernel)

/-- Freeing the first of two adjacent blocks leaves its entry in the table and takes the entry of
the second one. -/
theorem deallocate_erases_neighbour :
    let run := ran .x64 [.fork 9 1, .allocate 1 0 0x100 4, .allocate 1 0 0x104 4,
      .deallocate 1 0x100]
    Reaches .x64 run.1 run.2 ∧ (∀ step ∈ run.1, step.event ≠ .finalize) ∧
      Always (fun front step => BlocksFit .x64 (front ++ [step]) ∧
        BlocksDisjoint (front ++ [step])) run.1 ∧
      run.2.allocs.lookup 0x100 = some 4 ∧ (liveBlocks run.1).lookup 0x100 = none ∧
      run.2.allocs.lookup 0x104 = none ∧ (liveBlocks run.1).lookup 0x104 = some 4 ∧
      ¬ Always (fun front step => AllocsMatch (front ++ [step]) step.post ∧ FreesRange front step)
        run.1 := by
  refine ⟨reaches_ran .x64 _, by decide +kernel, by decide +kernel, by decide +kernel,
    by decide +kernel, by decide +kernel, by decide +kernel, fun always => ?_⟩
  have stale := (always_iff_forall_index.mp always ⟨3, by decide +kernel⟩).1 0x100
  exact absurd stale (by decide +kernel)

end Drace
