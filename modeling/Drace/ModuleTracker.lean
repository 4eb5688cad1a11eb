/-
This file models the tracker of loaded modules.

The descriptions of modules are shared objects: the index points to them by the
base of their module, and a description that is not in the index lives on in the
hands of whoever made it. So the objects are kept in the order they were made in,
and a pointer is a position in that order. What DynamoRIO and the configuration
say about a module is a parameter.
-/

import Mathlib
import Drace.Machine
import Drace.OrderedIndex

namespace Drace

/-! ### Modules -/

/-- The `module_data_t` of DynamoRIO: a module with its address range. -/
structure ModuleData where
  start : ℕ
  mend : ℕ
  fullPath : String
  /-- What `dr_module_preferred_name` returns. -/
  preferredName : String
  nonempty : start < mend
  deriving DecidableEq

/-- The address of a `module_data_t`: a record passed to a callback, or a copy of one. -/
inductive ModuleDataPtr where
  | passed (number : ℕ)
  | copied (number : ℕ)
  deriving DecidableEq

/-- Instrumentation level flags. -/
abbrev InstrFlags := BitVec 8

namespace InstrFlags

def none : InstrFlags := 0
def symbols : InstrFlags := 1
def memory : InstrFlags := 2
def stack : InstrFlags := 4

end InstrFlags

/-- Flags describing characteristics of a module. -/
abbrev ModTypeFlags := BitVec 8

namespace ModTypeFlags

def unknown : ModTypeFlags := 0
def native : ModTypeFlags := 1
def managed : ModTypeFlags := 2
def sync : ModTypeFlags := 4 ||| managed

end ModTypeFlags

/-- The description of a module. -/
structure Metadata where
  base : ℕ
  mend : ℕ
  loaded : Bool := true
  instrument : InstrFlags := InstrFlags.none
  modtype : ModTypeFlags := ModTypeFlags.unknown
  info : Option ModuleDataPtr := none
  debugInfo : Bool := false
  deriving DecidableEq

/-- What the tracker is told about the system, its configuration and the modules. -/
structure TrackerConfig where
  /-- The client is built for Windows. -/
  windows : Bool
  /-- The regular expressions for the names of excluded modules. -/
  excludeMods : List (String → Bool)
  excludePath : List String
  debugInfoAvailable : ModuleData → Bool
  /-- The address of the COM descriptor in the header of a module. -/
  comDescriptor : ModuleData → ℕ

/-- One of two nonempty strings begins with the other. -/
def commonPrefix (a b : String) : Bool :=
  if a.toList = [] ∨ b.toList = [] then false
  else if a.toList.length > b.toList.length then a.toList.take b.toList.length == b.toList
  else b.toList.take a.toList.length == a.toList

/-- A path without its directories. -/
def basename (fullpath : String) : String :=
  String.ofList (fullpath.toList.reverse.takeWhile fun c => c != '/' && c != '\\').reverse

namespace Metadata

variable (config : TrackerConfig) (mod : ModuleData) (metadata : Metadata)

/-- Tell a managed module from a native one. -/
def tagModule : ModTypeFlags :=
  if config.windows then
    if config.comDescriptor mod = 0 then ModTypeFlags.native else ModTypeFlags.managed
  else ModTypeFlags.native

/-- Keep a copy of the module's record, and tag the module. -/
def setInfo (copy : ModuleDataPtr) : Metadata :=
  { metadata with info := some copy, modtype := tagModule config mod }

/-- The flags of a module, by its path and its name. -/
def chooseInstrument : Metadata :=
  let pathExcluded := (config.excludePath.map String.toLower).any fun pathPrefix =>
    commonPrefix pathPrefix mod.fullPath.toLower
  let nameExcluded := config.excludeMods.any fun expr => expr mod.preferredName
  { metadata with
    instrument :=
      if pathExcluded then InstrFlags.stack
      else if nameExcluded then InstrFlags.symbols ||| InstrFlags.stack
      else InstrFlags.memory ||| InstrFlags.stack ||| InstrFlags.symbols }

/-- Look for debug information where symbols are wanted. -/
def findDebugInfo : Metadata :=
  if metadata.instrument &&& InstrFlags.symbols ≠ 0 then
    { metadata with debugInfo := config.debugInfoAvailable mod }
  else metadata

/-- What the load event changes in the description of a managed module. -/
def adaptManaged : Metadata :=
  let name := mod.preferredName
  if commonPrefix name "MSVCP" || commonPrefix name "KERNELBASE" || commonPrefix name "libc" then
    metadata
  else if commonPrefix name "KERNEL" then metadata
  else if !config.windows then metadata
  else if commonPrefix name "clr.dll" || commonPrefix name "coreclr.dll" then metadata
  else if metadata.modtype = ModTypeFlags.managed then
    let sync := !(commonPrefix (basename name) "System." &&
      commonPrefix (basename name) "System.Private")
    { metadata with
      instrument := InstrFlags.stack
      modtype := if sync then metadata.modtype ||| ModTypeFlags.sync else metadata.modtype }
  else metadata

/-- The description that a load leaves: all but the range is set here. -/
def describe (copy : ModuleDataPtr) : Metadata :=
  (((metadata.setInfo config mod copy).chooseInstrument config mod).findDebugInfo config mod)

@[simp]
theorem describe_base (copy : ModuleDataPtr) :
    (metadata.describe config mod copy).base = metadata.base := by
  unfold describe findDebugInfo
  split <;> rfl

@[simp]
theorem describe_mend (copy : ModuleDataPtr) :
    (metadata.describe config mod copy).mend = metadata.mend := by
  unfold describe findDebugInfo
  split <;> rfl

@[simp]
theorem adaptManaged_base : (metadata.adaptManaged config mod).base = metadata.base := by
  unfold adaptManaged
  grind

@[simp]
theorem adaptManaged_mend : (metadata.adaptManaged config mod).mend = metadata.mend := by
  unfold adaptManaged
  grind

end Metadata

/-! ### The tracker -/

/-- A pointer to the description of a module. -/
abbrev PMetadata := ℕ

/-- The descriptions made so far, and the index of those that can be found by address. -/
structure Tracker where
  objects : List Metadata
  modulesIdx : OrderedIndex ℕ PMetadata
  /-- An entry of the index points to a description of a module with this base. -/
  placed : ∀ base modptr, modulesIdx.Holds base modptr →
    ∃ metadata, objects[modptr]? = some metadata ∧ metadata.base = base

namespace Tracker

/-- The tracker before the first module is loaded. -/
def new : Tracker where
  objects := []
  modulesIdx := OrderedIndex.empty
  placed := fun _ _ holds => (OrderedIndex.not_holds_empty holds).elim

variable (config : TrackerConfig) (tracker : Tracker)

/-- The module at the largest base that is not above the program counter, if it reaches so far. -/
def getModuleContaining (pc : ℕ) : Option PMetadata :=
  match tracker.modulesIdx.lowerBound pc with
  | none => none
  | some (_, mptr) =>
    match tracker.objects[mptr]? with
    | some metadata => if pc < metadata.mend then some mptr else none
    | none => none

/-- Change a description in place. -/
def modify (modptr : PMetadata) (change : Metadata → Metadata)
    (keeps : ∀ metadata, (change metadata).base = metadata.base) : Tracker where
  objects := tracker.objects.modify modptr change
  modulesIdx := tracker.modulesIdx
  placed := by
    intro base pointer holds
    obtain ⟨metadata, found, same⟩ := tracker.placed base pointer holds
    rw [List.getElem?_modify, found]
    split
    · exact ⟨_, rfl, (keeps metadata).trans same⟩
    · exact ⟨_, rfl, same⟩

/-- Make a description, and put it into the index unless its base is there. -/
def addEmplace (mbase mend : ℕ) : Tracker × PMetadata :=
  let ptr := tracker.objects.length
  ({ objects := tracker.objects ++ [{ base := mbase, mend }]
     modulesIdx := tracker.modulesIdx.emplace mbase ptr
     placed := by
      intro base pointer holds
      rcases OrderedIndex.holds_emplace.mp holds with earlier | ⟨rfl, rfl, -⟩
      · obtain ⟨metadata, found, same⟩ := tracker.placed base pointer earlier
        have bound := (List.getElem?_eq_some_iff.mp found).1
        exact ⟨metadata, by rw [List.getElem?_append_left bound, found], same⟩
      · exact ⟨_, List.getElem?_concat_length, rfl⟩ }, ptr)

/-- The description at the start of a module, if it is that of this very record, unloaded. -/
def registered (pointer : ModuleDataPtr) (mod : ModuleData) : Option PMetadata :=
  (tracker.getModuleContaining mod.start).filter fun modptr =>
    tracker.objects[modptr]?.any fun metadata =>
      !metadata.loaded && metadata.info == some pointer

/-- Describe a module that has just been loaded, unless it is registered. -/
def registerModule (pointer : ModuleDataPtr) (mod : ModuleData) : Tracker × PMetadata :=
  match tracker.registered pointer mod with
  | some modptr =>
    (tracker.modify modptr (fun metadata => { metadata with loaded := true }) fun _ => rfl, modptr)
  | none =>
    let (tracker, modptr) := tracker.addEmplace mod.start mod.mend
    (tracker.modify modptr (fun metadata => metadata.describe config mod (.copied modptr))
      fun metadata => metadata.describe_base config mod _, modptr)

/-- The load callback. -/
def eventModuleLoad (pointer : ModuleDataPtr) (mod : ModuleData) : Tracker × PMetadata :=
  let (tracker, modptr) := tracker.registerModule config pointer mod
  (tracker.modify modptr (Metadata.adaptManaged config mod) (Metadata.adaptManaged_base config mod),
    modptr)

/-- The unload callback. -/
def eventModuleUnload (mod : ModuleData) : Tracker :=
  match tracker.getModuleContaining mod.start with
  | some modptr =>
    tracker.modify modptr (fun metadata => { metadata with loaded := false }) fun _ => rfl
  | none => tracker

end Tracker

/-- What DynamoRIO tells the tracker; a load comes with the number of the record it passes. -/
inductive ModuleEvent where
  | load (record : ℕ) (mod : ModuleData)
  | unload (mod : ModuleData)

/-- The tracker as a machine; a load puts out the description it has made. -/
def moduleTracker (config : TrackerConfig) : Machine Tracker ModuleEvent (Option PMetadata) where
  start := (· = Tracker.new)
  call tracker
    | .load record mod =>
      let result := tracker.eventModuleLoad config (.passed record) mod
      some (result.1, some result.2)
    | .unload mod => some (tracker.eventModuleUnload mod, none)

end Drace
