/-
This file models resolved races and the filter they pass through.

A regular expression is given by the strings it matches, the symbol table by the
symbol it finds for an address, and the modules that are not instrumented by the
addresses in them. What is looked up and in which order is the source's.
-/

import Drace.Fasttrack
import Drace.OrderedIndex

namespace Drace

/-- Information related to a symbol. -/
structure SymbolLocation where
  pc : ℕ := 0
  modBase : ℕ := 0
  modEnd : ℕ := 0
  modName : String := ""
  symName : String := ""
  file : String := ""
  line : ℕ := 0
  lineOffs : ℕ := 0
  deriving DecidableEq

/-- An access with the symbols of its stack. -/
structure ResolvedAccess extends AccessEntry where
  resolvedStack : List SymbolLocation := []
  deriving DecidableEq

/-- A race with its symbols and the milliseconds since the start of the program. -/
structure DecoratedRace where
  first : ResolvedAccess
  second : ResolvedAccess
  resolvedAddr : SymbolLocation := {}
  elapsed : ℕ
  isResolved : Bool := false
  deriving DecidableEq

/-- The race as the detector reports it, without symbols. -/
def DecoratedRace.ofRace (race : Race) (ttr : ℕ) : DecoratedRace where
  first := { toAccessEntry := race.first }
  second := { toAccessEntry := race.second }
  elapsed := ttr

/-- The criteria races are filtered by. -/
structure RaceFilter where
  /-- The suppressed top of stack functions. -/
  rtosList : List (String → Bool) := []
  /-- The suppressed functions. -/
  raceList : List (String → Bool) := []
  /-- The suppressed blocks with their sizes, those at greater addresses first. -/
  addrList : List (ℕ × ℕ) := []
  /-- An address lies in a module that is not instrumented. -/
  inSilentModule : ℕ → Bool := fun _ => false

namespace RaceFilter

variable (filter : RaceFilter)

/-- The top of stack symbol matches. -/
def checkRtos (race : DecoratedRace) : Bool :=
  if race.first.stackSize = 0 ∨ race.second.stackSize = 0 then false
  else
    let top1 := race.first.resolvedStack.getLast?
    let top2 := race.second.resolvedStack.getLast?
    filter.rtosList.any fun expr =>
      top1.any (fun symbol => expr symbol.symName) || top2.any fun symbol => expr symbol.symName

/-- The address lies in the suppressed block that starts at or next below it. -/
def addrIsSuppressed (addr : ℕ) : Bool :=
  match filter.addrList.find? fun block => block.1 ≤ addr with
  | some block => addr < (block.1 + block.2) % 2 ^ 64
  | none => false

/-- Add a block to the suppressed ones. A block at the same address stays as it is. -/
def suppressAddr (addr size : ℕ) : RaceFilter :=
  { filter with addrList := OrderedIndex.emplaceEntry addr size filter.addrList }

/-- An accessed address is excluded, or a symbol of one of the stacks matches. -/
def checkRace (race : DecoratedRace) : Bool :=
  filter.addrIsSuppressed race.first.accessedMemory ||
    filter.addrIsSuppressed race.second.accessedMemory ||
    filter.raceList.any fun expr =>
      (race.first.resolvedStack.any fun symbol => expr symbol.symName) ||
        race.second.resolvedStack.any fun symbol => expr symbol.symName

def checkSuppress (race : DecoratedRace) : Bool := filter.checkRace race || filter.checkRtos race

/-- The innermost program counter of one of the stacks is null. -/
def stackImplausible (race : Race) : Bool :=
  if race.first.stackSize = 0 ∨ race.second.stackSize = 0 then false
  else race.first.stackTrace[race.first.stackSize - 1]? = some 0 ∨
    race.second.stackTrace[race.second.stackSize - 1]? = some 0

def checkImplausible (race : Race) : Bool :=
  stackImplausible race || filter.inSilentModule race.first.accessedMemory

end RaceFilter

end Drace
