import ColonyPico.Dm.ModelPoint
import Mathlib

/-!
The component that selects the indoor temperature
(`Storm::Component::IdtSelection`).
-/

namespace ColonyPico.Storm.IdtSelection

open ColonyPico.Dm.ModelPoint

/-- The component's members and its own output model points. -/
structure State where
  critical : Bool
  activeIdt : ℚ
  primaryAlarm : Bool
  secondaryAlarm : Bool
  criticalAlarm : Bool
  deriving DecidableEq

def State.init : State :=
  { critical := false
    activeIdt := 0
    primaryAlarm := false
    secondaryAlarm := false
    criticalAlarm := false }

/-- What the component reads; nothing where a point is invalid. -/
structure Inputs where
  primaryIdt : Option ℚ
  secondaryIdt : Option ℚ
  enabledSecondaryIdt : Option Bool
  deriving DecidableEq

def start (s : State) : State :=
  { s with critical := false }

/-- An invalid enable point reads as disabled. -/
def Inputs.secondaryEnabled (ins : Inputs) : Bool :=
  ins.enabledSecondaryIdt.getD false

/-- `validSecondary` as the alarms use it: no alarm when not configured. -/
def Inputs.secondaryOkay (ins : Inputs) : Bool :=
  if ins.secondaryEnabled then ins.secondaryIdt.isSome else true

/-- Neither sensor that could be used is valid. -/
def Inputs.isCritical (ins : Inputs) : Bool :=
  (!ins.primaryIdt.isSome && !ins.secondaryEnabled) ||
    (!ins.primaryIdt.isSome && !ins.secondaryOkay)

/-- `execute()`, with the shared forced off count. -/
def execute (s : State) (ins : Inputs) (refCnt : RefCounter) : State × RefCounter :=
  let idt :=
    if ins.secondaryEnabled then ins.secondaryIdt.getD (ins.primaryIdt.getD 0)
    else ins.primaryIdt.getD 0
  let s :=
    { s with
      activeIdt := idt
      primaryAlarm := !ins.primaryIdt.isSome
      secondaryAlarm := !ins.secondaryOkay
      criticalAlarm := ins.isCritical }
  if ins.isCritical = true ∧ s.critical = false then
    ({ s with critical := true }, refCnt.increment)
  else if ins.isCritical = false ∧ s.critical = true then
    ({ s with critical := false }, refCnt.decrement)
  else (s, refCnt)

end ColonyPico.Storm.IdtSelection
