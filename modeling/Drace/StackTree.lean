/-
This file shows that the tree of a stack depot is canonical: it has one vertex for
each call stack that was there, and no other. Every vertex but the root has one
edge, which leads to an older vertex, so the edges lead to the root; calls that are
made at the same place have different addresses, so the way to the root tells the
vertices apart.
-/

import Drace.StackDepot

namespace Drace

open Machine StackTrace

namespace StackTrace

/-- The out-edges of a vertex. -/
def outEdges (depot : StackTrace) (vertex : ℕ) : List (ℕ × ℕ) :=
  depot.edges.filter fun edge => edge.1 = vertex

variable {depot popped : StackTrace} {element vertex : ℕ}

/-! ### What a call does to the tree -/

/-- A push goes to the child with the address, or to a new one if there is none. -/
theorem push_cases (depot : StackTrace) (element : ℕ) :
    (∃ edge ∈ depot.edges, edge.2 = depot.ce ∧ addrOf depot.vertices edge.1 = element ∧
      (depot.pushStackElement element).vertices = depot.vertices ∧
      (depot.pushStackElement element).edges = depot.edges ∧
      (depot.pushStackElement element).ce = edge.1) ∨
    (∀ edge ∈ depot.edges, edge.2 = depot.ce → addrOf depot.vertices edge.1 ≠ element) ∧
      (depot.pushStackElement element).vertices = depot.vertices ++ [element] ∧
      (depot.pushStackElement element).edges =
        depot.edges ++ [(depot.vertices.length, depot.ce)] ∧
      (depot.pushStackElement element).ce = depot.vertices.length := by
  unfold pushStackElement
  split
  · next edge found =>
    obtain ⟨member, below, address⟩ := findCall_spec found
    exact .inl ⟨edge, member, below, address, rfl, rfl, rfl⟩
  · next absent =>
    refine .inr ⟨fun edge member below address => ?_, rfl, rfl, rfl⟩
    have child : edge ∈ depot.edges.filter fun edge => edge.2 = depot.ce :=
      List.mem_filter.mpr ⟨member, decide_eq_true below⟩
    exact absurd (decide_eq_true address.symm) (List.find?_eq_none.mp absent edge child)

/-- A pop follows the edge of the current vertex. -/
theorem pop_cases (defined : depot.popStackElement = some popped) :
    (depot.ce, popped.ce) ∈ depot.edges ∧ popped.vertices = depot.vertices ∧
      popped.edges = depot.edges := by
  unfold popStackElement at defined
  split at defined
  · cases defined
  · next target found =>
    obtain ⟨rfl⟩ := Option.some.inj defined
    exact ⟨parent_mem found, rfl, rfl⟩

theorem pathTo_congr {other : StackTrace} (vertices : other.vertices = depot.vertices)
    (edges : other.edges = depot.edges) : other.pathTo vertex = depot.pathTo vertex := by
  rw [pathTo, pathTo, vertices, edges]

/-- The tree of one depot is a part of that of another, with the same stacks. -/
structure Grows (depot next : StackTrace) : Prop where
  length : depot.vertices.length ≤ next.vertices.length
  path : ∀ vertex < depot.vertices.length, next.pathTo vertex = depot.pathTo vertex

theorem grows_push (depot : StackTrace) (element : ℕ) :
    Grows depot (depot.pushStackElement element) where
  length := by
    rcases push_cases depot element with ⟨edge, -, -, -, vertices, -, -⟩ | ⟨-, vertices, -, -⟩
    · rw [vertices]
    · rw [vertices, List.length_append]
      exact Nat.le_add_right _ _
  path _ bound := pushStackElement_pathTo depot element bound

theorem grows_of_eq {next : StackTrace} (vertices : next.vertices = depot.vertices)
    (edges : next.edges = depot.edges) : Grows depot next where
  length := by rw [vertices]
  path _ _ := pathTo_congr vertices edges

/-! ### The shape of the tree -/

/-- The tree is canonical: every vertex but the root has an edge, and no two calls at the same
place have the same address. -/
structure Canonical (depot : StackTrace) : Prop where
  edge : ∀ vertex < depot.vertices.length, vertex ≠ root → ∃ target, (vertex, target) ∈ depot.edges
  siblings : ∀ first ∈ depot.edges, ∀ second ∈ depot.edges, first.2 = second.2 →
    addrOf depot.vertices first.1 = addrOf depot.vertices second.1 → first = second

theorem canonical_new : Canonical {} where
  edge _ bound other := absurd (Nat.lt_one_iff.mp bound) other
  siblings _ member := absurd member List.not_mem_nil

theorem Canonical.congr {other : StackTrace} (canonical : Canonical depot)
    (vertices : other.vertices = depot.vertices) (edges : other.edges = depot.edges) :
    Canonical other where
  edge := by
    rw [vertices, edges]
    exact canonical.edge
  siblings := by
    rw [vertices, edges]
    exact canonical.siblings

theorem addrOf_append {vertices : List ℕ} (bound : vertex < vertices.length) :
    addrOf (vertices ++ [element]) vertex = addrOf vertices vertex := by
  rw [addrOf, addrOf, List.getD_eq_getElem?_getD, List.getD_eq_getElem?_getD,
    List.getElem?_append_left bound]

theorem addrOf_length (vertices : List ℕ) :
    addrOf (vertices ++ [element]) vertices.length = element := by
  rw [addrOf, List.getD_eq_getElem?_getD, List.getElem?_concat_length]
  rfl

theorem Canonical.push (canonical : Canonical depot) (element : ℕ) :
    Canonical (depot.pushStackElement element) := by
  rcases push_cases depot element with
    ⟨edge, -, -, -, vertices, edges, -⟩ | ⟨fresh, vertices, edges, -⟩
  · exact canonical.congr vertices edges
  · -- The old edges keep their addresses, and none leads to the current vertex with the new one.
    have keeps : ∀ edge ∈ depot.edges,
        addrOf (depot.vertices ++ [element]) edge.1 = addrOf depot.vertices edge.1 :=
      fun edge member => addrOf_append (depot.edge_lt edge member).2
    have apart : ∀ edge ∈ depot.edges, edge.2 = depot.ce →
        addrOf (depot.vertices ++ [element]) edge.1 ≠
          addrOf (depot.vertices ++ [element]) depot.vertices.length := by
      intro edge member below
      rw [keeps edge member, addrOf_length]
      exact fresh edge member below
    refine ⟨?_, ?_⟩
    · intro vertex bound other
      rw [vertices, List.length_append, List.length_singleton] at bound
      rw [edges]
      rcases Nat.lt_succ_iff_lt_or_eq.mp bound with old | rfl
      · obtain ⟨target, member⟩ := canonical.edge vertex old other
        exact ⟨target, List.mem_append_left _ member⟩
      · exact ⟨depot.ce, List.mem_append_right _ (List.mem_singleton_self _)⟩
    · rw [vertices, edges]
      intro first firstMember second secondMember below address
      rcases List.mem_append.mp firstMember with firstOld | firstNew
      · rcases List.mem_append.mp secondMember with secondOld | secondNew
        · rw [keeps first firstOld, keeps second secondOld] at address
          exact canonical.siblings first firstOld second secondOld below address
        · obtain rfl := List.mem_singleton.mp secondNew
          exact absurd address (apart first firstOld below)
      · obtain rfl := List.mem_singleton.mp firstNew
        rcases List.mem_append.mp secondMember with secondOld | secondNew
        · exact absurd address.symm (apart second secondOld below.symm)
        · exact (List.mem_singleton.mp secondNew).symm

/-- Every vertex but the root has exactly one out-edge. -/
theorem Canonical.outEdges_length (canonical : Canonical depot)
    (bound : vertex < depot.vertices.length) (other : vertex ≠ root) :
    (depot.outEdges vertex).length = 1 := by
  obtain ⟨target, member⟩ := canonical.edge vertex bound other
  have edges : depot.edges.Nodup := depot.sources_nodup.of_map
  have only : (depot.outEdges vertex).Perm [(vertex, target)] := by
    refine (List.perm_ext_iff_of_nodup (edges.filter _) (List.nodup_singleton _)).mpr fun edge => ?_
    refine List.mem_filter.trans ?_
    rw [List.mem_singleton, decide_eq_true_iff]
    constructor
    · rintro ⟨inside, source⟩
      exact List.inj_on_of_nodup_map depot.sources_nodup inside member source
    · rintro rfl
      exact ⟨member, rfl⟩
  exact only.length_eq

/-- Following the out-edges leads to the root. -/
theorem Canonical.reaches_root (canonical : Canonical depot)
    (bound : vertex < depot.vertices.length) :
    Relation.ReflTransGen (fun source target => (source, target) ∈ depot.edges) vertex root := by
  induction vertex using Nat.strong_induction_on with
  | _ vertex inductionHypothesis =>
    by_cases atRoot : vertex = root
    · exact atRoot ▸ .refl
    · obtain ⟨target, member⟩ := canonical.edge vertex bound atRoot
      have older := (depot.edge_lt _ member).1
      exact .head member (inductionHypothesis target older (older.trans bound))

/-- Different vertices stand for different stacks. -/
theorem Canonical.pathTo_injective (canonical : Canonical depot) {first second : ℕ}
    (firstBound : first < depot.vertices.length) (secondBound : second < depot.vertices.length)
    (same : depot.pathTo first = depot.pathTo second) : first = second := by
  induction first using Nat.strong_induction_on generalizing second with
  | _ first inductionHypothesis =>
    by_cases firstRoot : first = root
    · by_cases secondRoot : second = root
      · exact firstRoot.trans secondRoot.symm
      · obtain ⟨target, member⟩ := canonical.edge second secondBound secondRoot
        rw [firstRoot, pathTo_root, pathTo_of_edge depot member] at same
        exact absurd same.symm (List.concat_ne_nil _ _)
    · obtain ⟨target, member⟩ := canonical.edge first firstBound firstRoot
      by_cases secondRoot : second = root
      · rw [secondRoot, pathTo_root, pathTo_of_edge depot member] at same
        exact absurd same (List.concat_ne_nil _ _)
      · obtain ⟨other, otherMember⟩ := canonical.edge second secondBound secondRoot
        rw [pathTo_of_edge depot member, pathTo_of_edge depot otherMember] at same
        obtain ⟨paths, address⟩ := List.append_inj' same rfl
        have older := (depot.edge_lt _ member).1
        have otherOlder := (depot.edge_lt _ otherMember).1
        have targets : target = other := inductionHypothesis target older
          (older.trans firstBound) (otherOlder.trans secondBound) paths
        exact congrArg Prod.fst
          (canonical.siblings _ member _ otherMember targets (List.singleton_inj.mp address))

end StackTrace

/-! ### Runs -/

variable {past front : List (Step StackTrace DepotCall (Option (List ℕ)))}
  {depot next : StackTrace} {event : DepotCall} {output : Option (List ℕ)}

/-- Each call of a depot grows its tree. -/
theorem grows_call (defined : stackDepot.call depot event = some (next, output)) :
    Grows depot next := by
  cases event with
  | pushStackElement element =>
    obtain ⟨rfl, -⟩ := Prod.mk.inj (Option.some.inj defined)
    exact grows_push depot element
  | popStackElement =>
    obtain ⟨popped, pops, same⟩ := Option.map_eq_some_iff.mp defined
    obtain ⟨rfl, -⟩ := Prod.mk.inj same
    obtain ⟨-, vertices, edges⟩ := pop_cases pops
    exact grows_of_eq vertices edges
  | setReadWrite | returnStackTrace =>
    obtain ⟨rfl, -⟩ := Prod.mk.inj (Option.some.inj defined)
    exact grows_of_eq rfl rfl

theorem StackTrace.Canonical.call (canonical : Canonical depot)
    (defined : stackDepot.call depot event = some (next, output)) : Canonical next := by
  cases event with
  | pushStackElement element =>
    obtain ⟨rfl, -⟩ := Prod.mk.inj (Option.some.inj defined)
    exact canonical.push element
  | popStackElement =>
    obtain ⟨popped, pops, same⟩ := Option.map_eq_some_iff.mp defined
    obtain ⟨rfl, -⟩ := Prod.mk.inj same
    obtain ⟨-, vertices, edges⟩ := pop_cases pops
    exact canonical.congr vertices edges
  | setReadWrite | returnStackTrace =>
    obtain ⟨rfl, -⟩ := Prod.mk.inj (Option.some.inj defined)
    exact canonical.congr rfl rfl

/-- A vertex that a call adds is the current one after it. -/
theorem added_is_current (defined : stackDepot.call depot event = some (next, output)) {vertex : ℕ}
    (bound : vertex < next.vertices.length) (fresh : depot.vertices.length ≤ vertex) :
    vertex = next.ce := by
  have unchanged : next.vertices = depot.vertices → vertex = next.ce := by
    intro same
    rw [same] at bound
    omega
  cases event with
  | pushStackElement element =>
    obtain ⟨rfl, -⟩ := Prod.mk.inj (Option.some.inj defined)
    rcases push_cases depot element with ⟨edge, -, -, -, vertices, -, -⟩ | ⟨-, vertices, -, current⟩
    · exact unchanged vertices
    · rw [vertices, List.length_append, List.length_singleton] at bound
      omega
  | popStackElement =>
    obtain ⟨popped, pops, same⟩ := Option.map_eq_some_iff.mp defined
    obtain ⟨rfl, -⟩ := Prod.mk.inj same
    exact unchanged (pop_cases pops).2.1
  | setReadWrite | returnStackTrace =>
    obtain ⟨rfl, -⟩ := Prod.mk.inj (Option.some.inj defined)
    exact unchanged rfl

theorem canonical_of_reaches (reaches : stackDepot.Reaches past depot) : Canonical depot := by
  induction reaches with
  | start begins =>
    obtain rfl : _ = ({} : StackTrace) := begins
    exact canonical_new
  | call _ defined canonical => exact canonical.call defined

/-- A history leads to one state. -/
theorem reaches_unique {other : StackTrace} (reaches : stackDepot.Reaches past depot)
    (otherReaches : stackDepot.Reaches past other) : depot = other := by
  rcases List.eq_nil_or_concat past with rfl | ⟨front, step, rfl⟩
  · exact Eq.trans reaches.start_of_nil (Eq.symm otherReaches.start_of_nil)
  · rw [List.concat_eq_append] at reaches otherReaches
    exact reaches.eq_post.trans otherReaches.eq_post.symm

/-- The current vertex of a moment keeps standing for the stack of that moment. -/
theorem pathTo_of_moment {moment : StackTrace} (reaches : stackDepot.Reaches past depot)
    (initial : front <+: past) (then_ : stackDepot.Reaches front moment) :
    moment.ce < depot.vertices.length ∧
      depot.pathTo moment.ce = stackOf (front.map Step.event) := by
  induction reaches with
  | start begins =>
    obtain rfl := List.prefix_nil.mp initial
    obtain rfl := reaches_unique then_ (.start begins)
    exact ⟨moment.ce_lt, callPath_of_reaches then_⟩
  | @call past before next event output earlier defined inductionHypothesis =>
    rcases List.prefix_concat_iff.mp initial with rfl | shorter
    · obtain rfl := reaches_unique then_ (earlier.call defined)
      exact ⟨moment.ce_lt, callPath_of_reaches then_⟩
    · obtain ⟨bound, path⟩ := inductionHypothesis shorter
      have grows := grows_call defined
      exact ⟨bound.trans_le grows.length, (grows.path _ bound).trans path⟩

/-- Every vertex stands for the stack of some moment. -/
theorem exists_moment (reaches : stackDepot.Reaches past depot) {vertex : ℕ}
    (bound : vertex < depot.vertices.length) :
    ∃ front, front <+: past ∧ stackOf (front.map Step.event) = depot.pathTo vertex := by
  induction reaches with
  | start begins =>
    obtain rfl : _ = ({} : StackTrace) := begins
    obtain rfl := Nat.lt_one_iff.mp bound
    exact ⟨[], List.prefix_refl _, pathTo_root.symm⟩
  | @call past before next event output earlier defined inductionHypothesis =>
    by_cases old : vertex < before.vertices.length
    · obtain ⟨front, initial, stack⟩ := inductionHypothesis old
      refine ⟨front, initial.trans (List.prefix_append _ _), stack.trans ?_⟩
      exact ((grows_call defined).path vertex old).symm
    · obtain rfl := added_is_current defined bound (not_lt.mp old)
      exact ⟨_, List.prefix_refl _, (callPath_of_reaches (earlier.call defined)).symm⟩

/-- The stacks that were there at some moment, apart from the empty one. -/
def stacksSeen (calls : List DepotCall) : Finset (List ℕ) :=
  (calls.inits.map stackOf).toFinset.erase []

theorem mem_stacks_iff {calls : List DepotCall} {stack : List ℕ} :
    stack ∈ (calls.inits.map stackOf).toFinset ↔
      ∃ front, front <+: calls ∧ stackOf front = stack := by
  rw [List.mem_toFinset, List.mem_map]
  simp only [List.mem_inits]

/-- The vertices stand for the stacks that were there. -/
theorem image_pathTo (reaches : stackDepot.Reaches past depot) :
    (Finset.range depot.vertices.length).image depot.pathTo =
      ((past.map Step.event).inits.map stackOf).toFinset := by
  ext stack
  rw [Finset.mem_image, mem_stacks_iff]
  constructor
  · rintro ⟨vertex, bound, rfl⟩
    obtain ⟨front, initial, stack⟩ := exists_moment reaches (Finset.mem_range.mp bound)
    exact ⟨front.map Step.event, initial.map Step.event, stack⟩
  · rintro ⟨calls, initial, rfl⟩
    obtain ⟨front, shorter, rfl⟩ := List.prefix_map_iff.mp initial
    obtain ⟨moment, then_⟩ := reaches.initial shorter
    obtain ⟨bound, path⟩ := pathTo_of_moment reaches shorter then_
    exact ⟨moment.ce, Finset.mem_range.mpr bound, path⟩

/-- There is one vertex more than there were different non-empty stacks. -/
theorem vertices_length (reaches : stackDepot.Reaches past depot) :
    depot.vertices.length = 1 + (stacksSeen (past.map Step.event)).card := by
  have injective : Set.InjOn depot.pathTo (Finset.range depot.vertices.length) := by
    intro first firstBound second secondBound same
    exact (canonical_of_reaches reaches).pathTo_injective
      (Finset.mem_range.mp firstBound) (Finset.mem_range.mp secondBound) same
  have empty : [] ∈ ((past.map Step.event).inits.map stackOf).toFinset :=
    mem_stacks_iff.mpr ⟨[], List.nil_prefix, rfl⟩
  have all : depot.vertices.length = ((past.map Step.event).inits.map stackOf).toFinset.card := by
    rw [← image_pathTo reaches, Finset.card_image_of_injOn injective, Finset.card_range]
  rw [all, stacksSeen, Finset.card_erase_of_mem empty]
  have positive := Finset.card_pos.mpr ⟨_, empty⟩
  omega

/-- The tree of a depot, seen from outside. -/
structure CanonicalTree (depot : StackTrace) : Prop where
  outEdge : ∀ vertex < depot.vertices.length, vertex ≠ root →
    (depot.outEdges vertex).length = 1
  toRoot : ∀ vertex < depot.vertices.length,
    Relation.ReflTransGen (fun source target => (source, target) ∈ depot.edges) vertex root
  siblings : ∀ first ∈ depot.edges, ∀ second ∈ depot.edges, first.2 = second.2 →
    addrOf depot.vertices first.1 = addrOf depot.vertices second.1 → first = second

/-- The current vertex tells the stacks of any two moments of a history apart. -/
def TellsApart (past : List (Step StackTrace DepotCall (Option (List ℕ)))) : Prop :=
  ∀ (front back : List (Step StackTrace DepotCall (Option (List ℕ)))) (moment other : StackTrace),
    front <+: past → back <+: past →
    stackDepot.Reaches front moment → stackDepot.Reaches back other →
    (moment.ce = other.ce ↔ stackOf (front.map Step.event) = stackOf (back.map Step.event))

theorem tellsApart_of_reaches (reaches : stackDepot.Reaches past depot) : TellsApart past := by
  intro front back moment other initial otherInitial then_ otherThen
  obtain ⟨bound, path⟩ := pathTo_of_moment reaches initial then_
  obtain ⟨otherBound, otherPath⟩ := pathTo_of_moment reaches otherInitial otherThen
  rw [← path, ← otherPath]
  exact ⟨fun same => congrArg depot.pathTo same,
    fun same => (canonical_of_reaches reaches).pathTo_injective bound otherBound same⟩

/-- Calls that never pop the empty stack can be made. After them the tree is canonical, the current
vertex has told the stacks of any two moments apart, and there is one vertex more than there were
different non-empty stacks. -/
theorem stack_tree_canonical (calls : List DepotCall)
    (nonempty : ∀ front call, front ++ [call] <+: calls → PopsNonempty front call) :
    (∃ past depot, stackDepot.Reaches past depot ∧ past.map Step.event = calls) ∧
      ∀ past depot, stackDepot.Reaches past depot → past.map Step.event = calls →
        CanonicalTree depot ∧ TellsApart past ∧
          depot.vertices.length = 1 + (stacksSeen calls).card := by
  refine ⟨stackDepot_runs calls nonempty, ?_⟩
  rintro past depot reaches rfl
  have canonical := canonical_of_reaches reaches
  refine ⟨⟨?_, ?_, canonical.siblings⟩, tellsApart_of_reaches reaches, vertices_length reaches⟩
  · exact fun vertex bound other => canonical.outEdges_length bound other
  · exact fun vertex bound => canonical.reaches_root bound

theorem stack_tree_canonical_branching :
    (∃ past depot, stackDepot.Reaches past depot ∧ past.map Step.event = branchingCalls) ∧
      ∀ past depot, stackDepot.Reaches past depot → past.map Step.event = branchingCalls →
        CanonicalTree depot ∧ TellsApart past ∧
          depot.vertices.length = 1 + (stacksSeen branchingCalls).card :=
  stack_tree_canonical branchingCalls (forall_initial_iff_forall_index.mpr (by decide))

/-- The calls go through four stacks, one of them twice. -/
example : (stacksSeen branchingCalls).card = 4 := by decide

end Drace
