/-
This file models the stack depot of a thread and proves what it returns.

The depot keeps the call stack as a path in a tree that only grows: a vertex
stands for a call stack, its edge leads to the caller's vertex, and pushing a
call that was seen before at the same place goes back to the old vertex. A
recorded access points to a vertex, so the stack of an access survives later
calls and returns. Descriptors of a `vecS` graph are indices, and the edge lists
of a vertex keep the order in which edges were added.
-/

import Mathlib
import Drace.Table

namespace Drace

/-! ### A tree that is only a root -/

namespace StackTrace

theorem root_lt_length : 0 < [0].length := by decide

theorem noEdge_lt :
    ∀ edge ∈ ([] : List (ℕ × ℕ)), edge.2 < edge.1 ∧ edge.1 < [0].length := by simp

theorem noSources_nodup : (([] : List (ℕ × ℕ)).map Prod.fst).Nodup := by simp

theorem nothingRecorded_lt : ∀ addr entry,
    (∅ : AList fun _ : ℕ => ℕ × ℕ).lookup addr = some entry → entry.2 < [0].length := by simp

end StackTrace

/-- The stack depot: the tree of call stacks, the current vertex, and the program counter and
vertex of the latest access to each address. Edges lead to vertices that are older, and no
vertex has two. -/
structure StackTrace where
  readWrite : AList fun _ : ℕ => ℕ × ℕ := ∅
  vertices : List ℕ := [0]
  edges : List (ℕ × ℕ) := []
  ce : ℕ := 0
  ce_lt : ce < vertices.length := by exact StackTrace.root_lt_length
  edge_lt : ∀ edge ∈ edges, edge.2 < edge.1 ∧ edge.1 < vertices.length := by
    exact StackTrace.noEdge_lt
  sources_nodup : (edges.map Prod.fst).Nodup := by exact StackTrace.noSources_nodup
  recorded_lt : ∀ addr entry, readWrite.lookup addr = some entry → entry.2 < vertices.length := by
    exact StackTrace.nothingRecorded_lt

namespace StackTrace

/-- The root element, which is the first vertex of the graph. -/
def root : ℕ := 0

/-- The address stored along with a vertex. -/
def addrOf (vertices : List ℕ) (vertex : ℕ) : ℕ := vertices.getD vertex 0

/-- The target of the first out-edge of a vertex. -/
def parent (edges : List (ℕ × ℕ)) (vertex : ℕ) : Option ℕ :=
  (edges.find? fun edge => edge.1 = vertex).map Prod.snd

/-- The loop of `make_trace`: follows the out-edges up to the root and puts the addresses it
passes in front. A vertex without an out-edge other than the root does not occur. -/
def climb (vertices : List ℕ) (edges : List (ℕ × ℕ)) : ℕ → ℕ → List ℕ → List ℕ
  | 0, _, trace => trace
  | fuel + 1, vertex, trace =>
    if vertex = root then trace
    else match parent edges vertex with
      | none => trace
      | some target => climb vertices edges fuel target (addrOf vertices vertex :: trace)

/-- Re-constructs a stack trace from a bottom node to the root. -/
def makeTrace (depot : StackTrace) (entry : ℕ × ℕ) : List ℕ :=
  climb depot.vertices depot.edges depot.vertices.length entry.2 [entry.1]

theorem parent_mem {edges : List (ℕ × ℕ)} {vertex target : ℕ}
    (found : parent edges vertex = some target) : (vertex, target) ∈ edges := by
  obtain ⟨edge, first, rfl⟩ := Option.map_eq_some_iff.mp found
  have source : edge.1 = vertex := by simpa using List.find?_some first
  rw [← source]
  exact List.mem_of_find?_eq_some first

theorem parent_lt (depot : StackTrace) {vertex target : ℕ}
    (found : parent depot.edges vertex = some target) : target < vertex :=
  (depot.edge_lt _ (parent_mem found)).1

/-- Pop the last element from the stack. On the root there is no edge to follow, which the
precondition of the call excludes. -/
def popStackElement (depot : StackTrace) : Option StackTrace :=
  match found : parent depot.edges depot.ce with
  | none => none
  | some target => some { depot with
      ce := target
      ce_lt := Nat.lt_trans (depot.parent_lt found) depot.ce_lt }

/-- The vertex below the current one that already stands for a call of the element. -/
def findCall (depot : StackTrace) (element : ℕ) : Option (ℕ × ℕ) :=
  (depot.edges.filter fun edge => edge.2 = depot.ce).find? fun edge =>
    element = addrOf depot.vertices edge.1

theorem findCall_spec {depot : StackTrace} {element : ℕ} {edge : ℕ × ℕ}
    (found : depot.findCall element = some edge) :
    edge ∈ depot.edges ∧ edge.2 = depot.ce ∧ addrOf depot.vertices edge.1 = element := by
  have member := List.mem_filter.mp (List.mem_of_find?_eq_some found)
  have same := List.find?_some found
  exact ⟨member.1, by simpa using member.2, by simpa using (of_decide_eq_true same).symm⟩

/-- Push a new element to the stack depot. -/
def pushStackElement (depot : StackTrace) (element : ℕ) : StackTrace :=
  match found : depot.findCall element with
  | some edge => { depot with
      ce := edge.1
      ce_lt := (depot.edge_lt edge (findCall_spec found).1).2 }
  | none => { depot with
      vertices := depot.vertices ++ [element]
      edges := depot.edges ++ [(depot.vertices.length, depot.ce)]
      ce := depot.vertices.length
      ce_lt := by simp
      edge_lt := by
        intro edge member
        rw [List.length_append, List.length_singleton]
        rcases List.mem_append.mp member with old | new
        · exact ⟨(depot.edge_lt edge old).1, Nat.lt_succ_of_lt (depot.edge_lt edge old).2⟩
        · obtain ⟨rfl⟩ := List.mem_singleton.mp new
          exact ⟨depot.ce_lt, Nat.lt_succ_self _⟩
      sources_nodup := by
        rw [List.map_append, List.map_singleton]
        refine List.Nodup.append depot.sources_nodup (List.nodup_singleton _) ?_
        rw [List.disjoint_singleton]
        intro member
        obtain ⟨edge, old, same⟩ := List.mem_map.mp member
        exact absurd (depot.edge_lt edge old).2 (by omega)
      recorded_lt := by
        intro addr entry recorded
        rw [List.length_append]
        exact Nat.lt_add_right _ (depot.recorded_lt addr entry recorded) }

/-- When a variable is written or read, the depot remembers the current stack and the program
counter of the operation. -/
def setReadWrite (depot : StackTrace) (addr pc : ℕ) : StackTrace :=
  { depot with
    readWrite := depot.readWrite.insert addr (pc, depot.ce)
    recorded_lt := by
      intro other entry recorded
      rw [AList.lookup_insert_eq_ite] at recorded
      split at recorded
      · obtain ⟨rfl⟩ := Option.some.inj recorded
        exact depot.ce_lt
      · exact depot.recorded_lt other entry recorded }

/-- Returns the stack trace of the latest access to the address, empty if there was none. -/
def returnStackTrace (depot : StackTrace) (address : ℕ) : List ℕ :=
  match depot.readWrite.lookup address with
  | some entry => depot.makeTrace entry
  | none => []

/-! ### The path of a vertex -/

variable {vertices : List ℕ} {edges : List (ℕ × ℕ)} {vertex fuel : ℕ}

theorem climb_acc (fuel vertex : ℕ) (trace : List ℕ) :
    climb vertices edges fuel vertex trace = climb vertices edges fuel vertex [] ++ trace := by
  induction fuel generalizing vertex trace with
  | zero => rfl
  | succ fuel inductionHypothesis =>
    unfold climb
    by_cases atRoot : vertex = root
    · simp only [if_pos atRoot, List.nil_append]
    · simp only [if_neg atRoot]
      cases parent edges vertex with
      | none => rfl
      | some target =>
        simp only
        rw [inductionHypothesis target (_ :: trace), inductionHypothesis target [_]]
        simp

/-- Any fuel above the vertex is enough, since every edge leads to a smaller vertex. -/
theorem climb_fuel (older : ∀ edge ∈ edges, edge.2 < edge.1) {fuel other vertex : ℕ}
    (enough : vertex < fuel) (otherEnough : vertex < other) (trace : List ℕ) :
    climb vertices edges fuel vertex trace = climb vertices edges other vertex trace := by
  induction fuel generalizing vertex other trace with
  | zero => exact absurd enough (Nat.not_lt_zero _)
  | succ fuel inductionHypothesis =>
    cases other with
    | zero => exact absurd otherEnough (Nat.not_lt_zero _)
    | succ other =>
      unfold climb
      by_cases atRoot : vertex = root
      · simp only [if_pos atRoot]
      · simp only [if_neg atRoot]
        cases found : parent edges vertex with
        | none => rfl
        | some target =>
          have less : target < vertex := older _ (parent_mem found)
          exact inductionHypothesis (by omega) (by omega) _

/-- The stack a vertex stands for, outermost call first. -/
def pathTo (depot : StackTrace) (vertex : ℕ) : List ℕ :=
  climb depot.vertices depot.edges depot.vertices.length vertex []

/-- The current stack. -/
def callPath (depot : StackTrace) : List ℕ := depot.pathTo depot.ce

variable {depot : StackTrace}

theorem makeTrace_eq (entry : ℕ × ℕ) :
    depot.makeTrace entry = depot.pathTo entry.2 ++ [entry.1] := climb_acc _ _ _

theorem pathTo_root : depot.pathTo root = [] := by
  unfold pathTo
  cases depot.vertices.length <;> rfl

/-- The path of a vertex is the path of its parent and its own address. -/
theorem pathTo_of_edge (depot : StackTrace) {source target : ℕ}
    (edge : (source, target) ∈ depot.edges) :
    depot.pathTo source = depot.pathTo target ++ [addrOf depot.vertices source] := by
  obtain ⟨less, bound⟩ := depot.edge_lt _ edge
  have notRoot : source ≠ root := Nat.ne_of_gt (Nat.zero_lt_of_lt less)
  have isParent : parent depot.edges source = some target := by
    cases found : depot.edges.find? fun other => other.1 = source with
    | none => exact absurd (List.find?_eq_none.mp found _ edge) (by simp)
    | some other =>
      have same : other.1 = source := by simpa using List.find?_some found
      have unique : other = (source, target) :=
        List.inj_on_of_nodup_map depot.sources_nodup (List.mem_of_find?_eq_some found) edge same
      rw [parent, found, unique]
      rfl
  have step : climb depot.vertices depot.edges (source + 1) source [] =
      climb depot.vertices depot.edges source target [addrOf depot.vertices source] := by
    rw [climb, if_neg notRoot, isParent]
  have older := fun other member => (depot.edge_lt other member).1
  rw [pathTo, climb_fuel older bound (Nat.lt_succ_self source), step, climb_acc,
    climb_fuel older less (Nat.lt_trans less bound)]
  rfl

theorem parent_append_of_lt {fresh target : ℕ} (less : vertex < fresh) :
    parent (edges ++ [(fresh, target)]) vertex = parent edges vertex := by
  unfold parent
  rw [List.find?_append, List.find?_singleton, if_neg (by simp; omega), Option.or_none]

/-- A new vertex does not change the path of an older one. -/
theorem climb_append (older : ∀ edge ∈ edges, edge.2 < edge.1) {element target vertex : ℕ}
    (bound : vertex < vertices.length) (fuel : ℕ) (trace : List ℕ) :
    climb (vertices ++ [element]) (edges ++ [(vertices.length, target)]) fuel vertex trace =
      climb vertices edges fuel vertex trace := by
  induction fuel generalizing vertex trace with
  | zero => rfl
  | succ fuel inductionHypothesis =>
    unfold climb
    rw [parent_append_of_lt bound]
    by_cases atRoot : vertex = root
    · simp only [if_pos atRoot]
    · simp only [if_neg atRoot]
      cases found : parent edges vertex with
      | none => rfl
      | some target =>
        have less : target < vertex := older _ (parent_mem found)
        have sameAddr : addrOf (vertices ++ [element]) vertex = addrOf vertices vertex := by
          rw [addrOf, addrOf, List.getD_eq_getElem?_getD, List.getD_eq_getElem?_getD,
            List.getElem?_append_left bound]
        simp only [sameAddr]
        exact inductionHypothesis (Nat.lt_trans less bound) _

/-! ### What the operations do to the stack and to recorded accesses -/

@[simp]
theorem callPath_new : ({} : StackTrace).callPath = [] := pathTo_root

@[simp]
theorem returnStackTrace_new (address : ℕ) : ({} : StackTrace).returnStackTrace address = [] := rfl

theorem pushStackElement_pathTo (depot : StackTrace) (element : ℕ) {vertex : ℕ}
    (bound : vertex < depot.vertices.length) :
    (depot.pushStackElement element).pathTo vertex = depot.pathTo vertex := by
  have older := fun edge member => (depot.edge_lt edge member).1
  unfold pushStackElement
  split
  · rfl
  · unfold pathTo
    simp only
    rw [climb_append older bound, climb_fuel older (by simp; omega) bound]

/-- Pushing adds the element to the stack. -/
theorem callPath_push (element : ℕ) :
    (depot.pushStackElement element).callPath = depot.callPath ++ [element] := by
  have keeps := pushStackElement_pathTo depot element depot.ce_lt
  unfold callPath
  rw [← keeps]
  unfold pushStackElement
  split
  · next edge found =>
    obtain ⟨member, same, address⟩ := findCall_spec found
    have path : depot.pathTo edge.1 = depot.pathTo edge.2 ++ [addrOf depot.vertices edge.1] :=
      pathTo_of_edge depot member
    rw [same, address] at path
    exact path
  · next absent =>
    have newEdge : (depot.vertices.length, depot.ce) ∈ (depot.pushStackElement element).edges := by
      unfold pushStackElement
      split
      · next found => rw [absent] at found; cases found
      · exact List.mem_append_right _ (List.mem_singleton_self _)
    have added := pathTo_of_edge (depot.pushStackElement element) newEdge
    unfold pushStackElement at added
    split at added
    · next found => rw [absent] at found; cases found
    · rw [added]
      simp [addrOf]

theorem returnStackTrace_push (element address : ℕ) :
    (depot.pushStackElement element).returnStackTrace address = depot.returnStackTrace address := by
  have sameTable : (depot.pushStackElement element).readWrite = depot.readWrite := by
    unfold pushStackElement
    split <;> rfl
  unfold returnStackTrace
  rw [sameTable]
  cases recorded : depot.readWrite.lookup address with
  | none => rfl
  | some entry =>
    simp only [makeTrace_eq]
    rw [pushStackElement_pathTo depot element (depot.recorded_lt address entry recorded)]

/-- Popping is defined on a non-empty stack only, and takes the last element off. -/
theorem callPath_pop {popped : StackTrace} (defined : depot.popStackElement = some popped) :
    ∃ element, depot.callPath = popped.callPath ++ [element] := by
  unfold popStackElement at defined
  split at defined
  · cases defined
  · next target found =>
    obtain ⟨rfl⟩ := Option.some.inj defined
    exact ⟨_, pathTo_of_edge depot (parent_mem found)⟩

theorem returnStackTrace_pop {popped : StackTrace} (defined : depot.popStackElement = some popped)
    (address : ℕ) : popped.returnStackTrace address = depot.returnStackTrace address := by
  unfold popStackElement at defined
  split at defined
  · cases defined
  · obtain ⟨rfl⟩ := Option.some.inj defined
    rfl

@[simp]
theorem callPath_setReadWrite (addr pc : ℕ) :
    (depot.setReadWrite addr pc).callPath = depot.callPath := rfl

/-- Recording an access replaces the trace of its address by the current stack and the program
counter, and leaves the other addresses alone. -/
theorem returnStackTrace_setReadWrite (addr pc address : ℕ) :
    (depot.setReadWrite addr pc).returnStackTrace address =
      if address = addr then depot.callPath ++ [pc] else depot.returnStackTrace address := by
  unfold returnStackTrace setReadWrite
  simp only
  rw [AList.lookup_insert_eq_ite]
  by_cases same : address = addr
  · simp only [if_pos same]
    exact makeTrace_eq _
  · simp only [if_neg same]
    rfl

end StackTrace

end Drace
