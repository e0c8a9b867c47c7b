import ColonyPico.Dm.RecordPoints
import ColonyPico.Storm.EquipmentControl

/-!
The setters of the virtual outputs (`Storm::Dm::MpVirtualOutputs`): every one of them reads the
outputs, changes some fields, and writes all of them back under a lock request. Data are compared
field by field.
-/

namespace ColonyPico.Storm.VirtualOutputSetters

open Dm.ModelPoint Dm.LockState Dm.RecordPoints

def maxIndoorStages : Nat := 3

def maxOutdoorStages : Nat := 1

/-- `VirtualOutputs_T`. -/
structure VirtualOutputs where
  indoorFan : UInt16
  indoorFanCont : UInt16
  indoorStages : Vector UInt16 maxIndoorStages
  outdoorFan : UInt16
  outdoorStages : Vector UInt16 maxOutdoorStages
  sovInHeating : Bool
  deriving DecidableEq

def maxOutput : UInt16 := 1000

def clamp (output : UInt16) : UInt16 :=
  if output > maxOutput then maxOutput else output

namespace VirtualOutputs

/-- All outputs off and the switch-over-valve for cooling. -/
def zero : VirtualOutputs :=
  ⟨0, 0, Vector.replicate _ 0, 0, Vector.replicate _ 0, false⟩

def validate (newValues : VirtualOutputs) : VirtualOutputs :=
  { newValues with
    indoorFan := clamp newValues.indoorFan
    indoorFanCont := clamp newValues.indoorFanCont
    outdoorFan := clamp newValues.outdoorFan
    indoorStages := newValues.indoorStages.map clamp
    outdoorStages := newValues.outdoorStages.map clamp }

/-- The static helpers. -/
def setSafeAllOff (outputs : VirtualOutputs) : VirtualOutputs :=
  { zero with sovInHeating := outputs.sovInHeating }

def setCapacityOff (outputs : VirtualOutputs) : VirtualOutputs :=
  { zero with sovInHeating := outputs.sovInHeating, indoorFanCont := outputs.indoorFanCont }

end VirtualOutputs

open VirtualOutputs

abbrev MpVirtualOutputs := LockablePoint VirtualOutputs

namespace MpVirtualOutputs

/-- `writeData()`, with the sequence number that it returns. -/
def writeOutputs (mp : MpVirtualOutputs) (newData : VirtualOutputs) (lockRequest : LockRequest) :
    MpVirtualOutputs × Nat :=
  let mp := writeRecord mp newData lockRequest
  (mp, mp.seqNum)

def write (mp : MpVirtualOutputs) (srcData : VirtualOutputs) (lockRequest : LockRequest) :
    MpVirtualOutputs × Nat :=
  writeOutputs mp (validate srcData) lockRequest

variable (mp : MpVirtualOutputs)

def setIndoorFanOutput (fanSpeed : UInt16) (lockRequest : LockRequest) : MpVirtualOutputs × Nat :=
  mp.write { mp.data with indoorFan := fanSpeed } lockRequest

def setIndoorFanContinousOutput (fanContSpeed : UInt16) (lockRequest : LockRequest) :
    MpVirtualOutputs × Nat :=
  mp.write { mp.data with indoorFanCont := fanContSpeed } lockRequest

/-- The lock request is not handed on to `write()`. -/
def setIndoorStageOutput (stageIndex : Nat) (stageOutput : UInt16) (_lockRequest : LockRequest) :
    MpVirtualOutputs × Nat :=
  if h : stageIndex < maxIndoorStages then
    mp.write
      { mp.data with indoorStages := mp.data.indoorStages.set stageIndex stageOutput h }
      .noRequest
  else (mp, mp.seqNum)

def setOutdoorFanOutput (fanSpeed : UInt16) (lockRequest : LockRequest) : MpVirtualOutputs × Nat :=
  mp.write { mp.data with outdoorFan := fanSpeed } lockRequest

/-- The lock request is not handed on to `write()`. -/
def setOutdoorStageOutput (stageIndex : Nat) (stageOutput : UInt16) (_lockRequest : LockRequest) :
    MpVirtualOutputs × Nat :=
  if h : stageIndex < maxOutdoorStages then
    mp.write
      { mp.data with outdoorStages := mp.data.outdoorStages.set stageIndex stageOutput h }
      .noRequest
  else (mp, mp.seqNum)

def setSovToCooling (lockRequest : LockRequest) : MpVirtualOutputs × Nat :=
  mp.write { mp.data with sovInHeating := false } lockRequest

def setSovToHeating (lockRequest : LockRequest) : MpVirtualOutputs × Nat :=
  mp.write { mp.data with sovInHeating := true } lockRequest

def setOutdoorOff (lockRequest : LockRequest) : MpVirtualOutputs × Nat :=
  mp.write { mp.data with outdoorStages := Vector.replicate _ 0, outdoorFan := 0 } lockRequest

def setIndoorOff (lockRequest : LockRequest) : MpVirtualOutputs × Nat :=
  mp.write { mp.data with indoorStages := Vector.replicate _ 0, indoorFan := 0, indoorFanCont := 0 }
    lockRequest

/-- The helper clears data that were never set, but for the switch-over-valve. -/
def setSafeAllOff (newData : VirtualOutputs) (lockRequest : LockRequest) :
    MpVirtualOutputs × Nat :=
  mp.write { newData.setSafeAllOff with sovInHeating := mp.data.sovInHeating } lockRequest

/-- The helper is given zeros, whose continuous fan it keeps. -/
def setCapacityOff (lockRequest : LockRequest) : MpVirtualOutputs × Nat :=
  mp.write { zero.setCapacityOff with sovInHeating := mp.data.sovInHeating } lockRequest

end MpVirtualOutputs

/-- A call of a setter; `setSafeAllOff()` comes with what its local variable happens to hold. -/
inductive Setter where
  | setIndoorFanOutput (fanSpeed : UInt16)
  | setIndoorFanContinousOutput (fanContSpeed : UInt16)
  | setIndoorStageOutput (stageIndex : Nat) (stageOutput : UInt16)
  | setOutdoorFanOutput (fanSpeed : UInt16)
  | setOutdoorStageOutput (stageIndex : Nat) (stageOutput : UInt16)
  | setSovToCooling
  | setSovToHeating
  | setOutdoorOff
  | setIndoorOff
  | setSafeAllOff (newData : VirtualOutputs)
  | setCapacityOff

namespace Setter

def call (mp : MpVirtualOutputs) (lockRequest : LockRequest) : Setter → MpVirtualOutputs × Nat
  | setIndoorFanOutput fanSpeed => mp.setIndoorFanOutput fanSpeed lockRequest
  | setIndoorFanContinousOutput fanContSpeed =>
      mp.setIndoorFanContinousOutput fanContSpeed lockRequest
  | setIndoorStageOutput stageIndex stageOutput =>
      mp.setIndoorStageOutput stageIndex stageOutput lockRequest
  | setOutdoorFanOutput fanSpeed => mp.setOutdoorFanOutput fanSpeed lockRequest
  | setOutdoorStageOutput stageIndex stageOutput =>
      mp.setOutdoorStageOutput stageIndex stageOutput lockRequest
  | setSovToCooling => mp.setSovToCooling lockRequest
  | setSovToHeating => mp.setSovToHeating lockRequest
  | setOutdoorOff => mp.setOutdoorOff lockRequest
  | setIndoorOff => mp.setIndoorOff lockRequest
  | setSafeAllOff newData => mp.setSafeAllOff newData lockRequest
  | setCapacityOff => mp.setCapacityOff lockRequest

/-- The outputs that a setter is to leave: the fields that it names, clamped, and the others as they
are; `none` for a stage that does not exist. -/
def documented (data : VirtualOutputs) : Setter → Option VirtualOutputs
  | setIndoorFanOutput fanSpeed => some { data with indoorFan := clamp fanSpeed }
  | setIndoorFanContinousOutput fanContSpeed =>
      some { data with indoorFanCont := clamp fanContSpeed }
  | setIndoorStageOutput stageIndex stageOutput =>
      if h : stageIndex < maxIndoorStages then
        some { data with
          indoorStages := data.indoorStages.set stageIndex (clamp stageOutput) h }
      else none
  | setOutdoorFanOutput fanSpeed => some { data with outdoorFan := clamp fanSpeed }
  | setOutdoorStageOutput stageIndex stageOutput =>
      if h : stageIndex < maxOutdoorStages then
        some { data with
          outdoorStages := data.outdoorStages.set stageIndex (clamp stageOutput) h }
      else none
  | setSovToCooling => some { data with sovInHeating := false }
  | setSovToHeating => some { data with sovInHeating := true }
  | setOutdoorOff => some { data with outdoorStages := Vector.replicate _ 0, outdoorFan := 0 }
  | setIndoorOff =>
      some { data with
        indoorStages := Vector.replicate _ 0, indoorFan := 0, indoorFanCont := 0 }
  | setSafeAllOff _ => some data.setSafeAllOff
  | setCapacityOff => some data.setCapacityOff

/-- The write of the documented outputs under the lock request. -/
def Documented (s : Setter) (mp : MpVirtualOutputs) (lockRequest : LockRequest) : Prop :=
  s.call mp lockRequest =
    match s.documented mp.data with
    | some newData => mp.writeOutputs newData lockRequest
    | none => (mp, mp.seqNum)

/-- When a setter does what is documented. -/
def InDocumentedCase (mp : MpVirtualOutputs) (lockRequest : LockRequest) : Setter → Prop
  | setIndoorStageOutput stageIndex stageOutput =>
      ∀ h : stageIndex < maxIndoorStages,
        NeedsNoRequest mp
          { mp.data with
            indoorStages := mp.data.indoorStages.set stageIndex (clamp stageOutput) h } lockRequest
  | setOutdoorStageOutput stageIndex stageOutput =>
      ∀ h : stageIndex < maxOutdoorStages,
        NeedsNoRequest mp
          { mp.data with
            outdoorStages := mp.data.outdoorStages.set stageIndex (clamp stageOutput) h }
          lockRequest
  | setCapacityOff => mp.data.indoorFanCont = 0 ∨ Refused mp lockRequest
  | _ => True

end Setter

/-- The outputs are in their range. -/
structure InRange (data : VirtualOutputs) : Prop where
  indoorFan : data.indoorFan ≤ maxOutput
  indoorFanCont : data.indoorFanCont ≤ maxOutput
  indoorStages : ∀ output ∈ data.indoorStages, output ≤ maxOutput
  outdoorFan : data.outdoorFan ≤ maxOutput
  outdoorStages : ∀ output ∈ data.outdoorStages, output ≤ maxOutput

/-- The states of the model point. `fromJSON_()` goes through `write()`, and `importData()` reads
what such a point exported. -/
inductive Reachable : MpVirtualOutputs → Prop where
  | init : Reachable { toPoint := Point.init zero true, locked := false }
  | write {mp} (h : Reachable mp) (srcData : VirtualOutputs) (lockRequest : LockRequest) :
      Reachable (mp.write srcData lockRequest).1
  | call {mp} (h : Reachable mp) (s : Setter) (lockRequest : LockRequest) :
      Reachable (s.call mp lockRequest).1
  | setInvalid {mp} (h : Reachable mp) (lockRequest : LockRequest) :
      Reachable (setInvalid zero mp lockRequest)
  | copyFrom {mp src} (h : Reachable mp) (hsrc : Reachable src) (lockRequest : LockRequest) :
      Reachable (copyFrom zero mp src lockRequest)
  | importData {mp} (h : Reachable mp) (locked : Bool) (seqNum : Nat) :
      Reachable { data := mp.data, valid := mp.valid, seqNum := seqNum, locked := locked }
  | touch {mp} (h : Reachable mp) : Reachable { mp with seqNum := mp.touch.seqNum }
  | setLockState {mp} (h : Reachable mp) (lockRequest : LockRequest) :
      Reachable (setLockState mp lockRequest)

section Range

theorem clamp_le (output : UInt16) : clamp output ≤ maxOutput := by
  unfold clamp
  split
  · exact UInt16.le_refl _
  · exact UInt16.not_lt.1 ‹_›

theorem clamp_of_le {output : UInt16} (h : output ≤ maxOutput) : clamp output = output :=
  if_neg (UInt16.not_lt.2 h)

theorem map_clamp {n : Nat} {stages : Vector UInt16 n} (h : ∀ output ∈ stages, output ≤ maxOutput) :
    stages.map clamp = stages := by
  refine Vector.ext fun i hi => ?_
  rw [Vector.getElem_map]
  exact clamp_of_le (h _ (Vector.getElem_mem hi))

theorem map_clamp_set {n : Nat} {stages : Vector UInt16 n}
    (h : ∀ output ∈ stages, output ≤ maxOutput) (i : Nat) (hi : i < n) (output : UInt16) :
    (stages.set i output hi).map clamp = stages.set i (clamp output) hi := by
  rw [Vector.map_set, map_clamp h]

theorem map_clamp_zero (n : Nat) : (Vector.replicate n 0).map clamp = Vector.replicate n 0 := by
  rw [Vector.map_replicate]
  rfl

theorem inRange_validate (newValues : VirtualOutputs) : InRange (validate newValues) := by
  have hstages : ∀ {n} (stages : Vector UInt16 n), ∀ output ∈ stages.map clamp,
      output ≤ maxOutput := by
    intro n stages output houtput
    obtain ⟨x, -, rfl⟩ := Vector.mem_map.1 houtput
    exact clamp_le x
  exact ⟨clamp_le _, clamp_le _, hstages _, clamp_le _, hstages _⟩

theorem InRange.clamped {data : VirtualOutputs} (h : InRange data) :
    clamp data.indoorFan = data.indoorFan ∧ clamp data.indoorFanCont = data.indoorFanCont ∧
      clamp data.outdoorFan = data.outdoorFan ∧
      data.indoorStages.map clamp = data.indoorStages ∧
      data.outdoorStages.map clamp = data.outdoorStages :=
  ⟨clamp_of_le h.indoorFan, clamp_of_le h.indoorFanCont, clamp_of_le h.outdoorFan,
    map_clamp h.indoorStages, map_clamp h.outdoorStages⟩

theorem inRange_zero : InRange zero := by
  have hvalidate : validate zero = zero := by
    rw [validate, zero, map_clamp_zero, map_clamp_zero]
    rfl
  exact hvalidate ▸ inRange_validate zero

variable {mp : MpVirtualOutputs}

theorem inRange_write (h : InRange mp.data) (srcData : VirtualOutputs) (lockRequest : LockRequest) :
    InRange (mp.write srcData lockRequest).1.data :=
  writeRecord_data h (inRange_validate srcData) lockRequest

theorem inRange_call (h : InRange mp.data) (s : Setter) (lockRequest : LockRequest) :
    InRange (s.call mp lockRequest).1.data := by
  cases s with
  | setIndoorStageOutput stageIndex stageOutput =>
      simp only [Setter.call, MpVirtualOutputs.setIndoorStageOutput]
      split
      · exact inRange_write h _ _
      · exact h
  | setOutdoorStageOutput stageIndex stageOutput =>
      simp only [Setter.call, MpVirtualOutputs.setOutdoorStageOutput]
      split
      · exact inRange_write h _ _
      · exact h
  | _ => exact inRange_write h _ _

theorem Reachable.inRange (h : Reachable mp) : InRange mp.data := by
  induction h with
  | init => exact inRange_zero
  | write h srcData lockRequest ih => exact inRange_write ih srcData lockRequest
  | call h s lockRequest ih => exact inRange_call ih s lockRequest
  | setInvalid h lockRequest ih => exact setInvalid_data ih inRange_zero lockRequest
  | copyFrom h hsrc lockRequest ih ihsrc =>
      exact copyFrom_data ih ihsrc inRange_zero lockRequest
  | importData h locked seqNum ih => exact ih
  | touch h ih => exact ih
  | setLockState h lockRequest ih => exact ih

end Range

section Arguments

/-- The output of a stage; a stage that does not exist has none. -/
def stageOutput {n : Nat} (stages : Vector UInt16 n) (i : Nat) : Nat :=
  (stages[i]?.getD 0).toNat

/-- The outputs as the equipment has them in its arguments. -/
def VirtualOutputs.toArgs (outputs : VirtualOutputs) : StageFsm.VirtualOutputs :=
  { indoorFan := outputs.indoorFan.toNat
    indoorFanCont := outputs.indoorFanCont.toNat
    indoorStages := stageOutput outputs.indoorStages
    outdoorFan := outputs.outdoorFan.toNat
    outdoorStages := stageOutput outputs.outdoorStages
    sovInHeating := outputs.sovInHeating }

/-- What a stage that is turned on or off writes. -/
def outputOf (on : Bool) : UInt16 :=
  if on then maxOutput else 0

theorem stageOutput_replicate (n : Nat) : stageOutput (Vector.replicate n 0) = fun _ => 0 := by
  funext i
  rw [stageOutput, Vector.getElem?_replicate]
  split_ifs <;> rfl

theorem stageOutput_set {n : Nat} (stages : Vector UInt16 n) {i : Nat} (hi : i < n)
    (output : UInt16) :
    stageOutput (stages.set i output hi) =
      Function.update (stageOutput stages) i output.toNat := by
  funext j
  rcases eq_or_ne j i with rfl | hne
  · rw [Function.update_self, stageOutput, Vector.getElem?_set_self]
    rfl
  · rw [Function.update_of_ne hne, stageOutput, Vector.getElem?_set_ne hi hne.symm, stageOutput]

theorem toArgs_setCapacityOff (outputs : VirtualOutputs) :
    outputs.setCapacityOff.toArgs = outputs.toArgs.setCapacityOff := by
  simp only [VirtualOutputs.toArgs, VirtualOutputs.setCapacityOff, zero, stageOutput_replicate]
  rfl

theorem toArgs_setSafeAllOff (outputs : VirtualOutputs) :
    outputs.setSafeAllOff.toArgs = EquipmentControl.setSafeAllOff outputs.toArgs := by
  simp only [VirtualOutputs.toArgs, VirtualOutputs.setSafeAllOff, zero, stageOutput_replicate]
  rfl

theorem toNat_outputOf (on : Bool) :
    (outputOf on).toNat = if on then Config.virtualOutputsOn else Config.virtualOutputsOff := by
  cases on <;> rfl

/-- The cooling stage sets its output and, as the first stage, the indoor fan. -/
theorem toArgs_setStage_cooling (outputs : VirtualOutputs) (systemIndex : Nat) {outIndex : Nat}
    (h : outIndex < maxOutdoorStages) (on : Bool) :
    outputs.toArgs.setStage .cooling systemIndex outIndex on =
      { outputs with
        outdoorStages := outputs.outdoorStages.set outIndex (outputOf on) h
        indoorFan := if systemIndex = 0 then outputOf on else outputs.indoorFan }.toArgs := by
  simp only [StageFsm.VirtualOutputs.setStage, VirtualOutputs.toArgs, stageOutput_set,
    apply_ite UInt16.toNat, toNat_outputOf]

/-- An indoor heating stage, likewise; the fan is not for every furnace. -/
theorem toArgs_setStage_indoorHeat (outputs : VirtualOutputs) (controlFan : Bool)
    (systemIndex : Nat) {outIndex : Nat} (h : outIndex < maxIndoorStages) (on : Bool) :
    outputs.toArgs.setStage (.indoorHeat controlFan) systemIndex outIndex on =
      { outputs with
        indoorStages := outputs.indoorStages.set outIndex (outputOf on) h
        indoorFan :=
          if systemIndex = 0 then outputOf (on && controlFan) else outputs.indoorFan }.toArgs := by
  simp only [StageFsm.VirtualOutputs.setStage, VirtualOutputs.toArgs, stageOutput_set,
    apply_ite UInt16.toNat, toNat_outputOf]

/-- Outputs in range that a write lets through are those that the equipment gets back. -/
theorem toArgs_write {mp : MpVirtualOutputs} {outputs : VirtualOutputs} (h : InRange outputs)
    {lockRequest : LockRequest} (hgranted : ¬ Refused mp lockRequest) :
    (mp.write outputs lockRequest).1.data.toArgs = outputs.toArgs := by
  obtain ⟨hfan, hfanCont, houtdoorFan, hindoor, houtdoor⟩ := h.clamped
  have hdata : (mp.write outputs lockRequest).1.data = validate outputs := by
    rw [MpVirtualOutputs.write, MpVirtualOutputs.writeOutputs, writeRecord_granted hgranted]
  rw [hdata, validate, hfan, hfanCont, houtdoorFan, hindoor, houtdoor]

end Arguments

section Setters

variable {mp : MpVirtualOutputs}

theorem writeOutputs_eq_iff (newData newData' : VirtualOutputs)
    (lockRequest lockRequest' : LockRequest) :
    mp.writeOutputs newData lockRequest = mp.writeOutputs newData' lockRequest' ↔
      writeRecord mp newData lockRequest = writeRecord mp newData' lockRequest' :=
  ⟨fun h => (Prod.mk.inj h).1, fun h => congrArg (fun p => (p, p.seqNum)) h⟩

theorem clamp_zero : clamp 0 = 0 :=
  rfl

/-- A setter that hands its request on does what is documented when clamping what it writes gives
the documented outputs. -/
theorem write_documented {s : Setter} {srcData newData : VirtualOutputs} {lockRequest : LockRequest}
    (hcall : s.call mp lockRequest = mp.write srcData lockRequest)
    (hdocumented : s.documented mp.data = some newData) (hvalidate : validate srcData = newData) :
    s.Documented mp lockRequest := by
  rw [Setter.Documented, hcall, hdocumented, MpVirtualOutputs.write, hvalidate]

/-- A setter that drops its request does what is documented when the request makes no difference. -/
theorem write_noRequest_documented_iff {s : Setter} {srcData newData : VirtualOutputs}
    {lockRequest : LockRequest} (hcall : s.call mp lockRequest = mp.write srcData .noRequest)
    (hdocumented : s.documented mp.data = some newData) (hvalidate : validate srcData = newData) :
    s.Documented mp lockRequest ↔ NeedsNoRequest mp newData lockRequest := by
  rw [Setter.Documented, hcall, hdocumented, MpVirtualOutputs.write, hvalidate]
  exact (writeOutputs_eq_iff _ _ _ _).trans (writeRecord_noRequest_iff mp newData lockRequest)

/-- A setter does what is documented exactly when the lock request that it drops, or the fan that it
drops, makes no difference. -/
theorem documented_iff (h : Reachable mp) (s : Setter) (lockRequest : LockRequest) :
    s.Documented mp lockRequest ↔ s.InDocumentedCase mp lockRequest := by
  have hrange := h.inRange
  have hkept := hrange.clamped
  cases s with
  | setIndoorStageOutput stageIndex stageOutput =>
      rcases Nat.lt_or_ge stageIndex maxIndoorStages with hindex | hindex
      · have hcall : (Setter.setIndoorStageOutput stageIndex stageOutput).call mp lockRequest =
            mp.write
              { mp.data with
                indoorStages := mp.data.indoorStages.set stageIndex stageOutput hindex }
              .noRequest := dif_pos hindex
        rw [write_noRequest_documented_iff hcall (dif_pos hindex)]
        · exact ⟨fun hneeds _ => hneeds, fun hcase => hcase hindex⟩
        · simp only [validate, hkept, map_clamp_set hrange.indoorStages]
      · refine iff_of_true ?_ fun hlt => absurd hlt (Nat.not_lt.2 hindex)
        simp only [Setter.Documented, Setter.documented, Setter.call,
          MpVirtualOutputs.setIndoorStageOutput, dif_neg (Nat.not_lt.2 hindex)]
  | setOutdoorStageOutput stageIndex stageOutput =>
      rcases Nat.lt_or_ge stageIndex maxOutdoorStages with hindex | hindex
      · have hcall : (Setter.setOutdoorStageOutput stageIndex stageOutput).call mp lockRequest =
            mp.write
              { mp.data with
                outdoorStages := mp.data.outdoorStages.set stageIndex stageOutput hindex }
              .noRequest := dif_pos hindex
        rw [write_noRequest_documented_iff hcall (dif_pos hindex)]
        · exact ⟨fun hneeds _ => hneeds, fun hcase => hcase hindex⟩
        · simp only [validate, hkept, map_clamp_set hrange.outdoorStages]
      · refine iff_of_true ?_ fun hlt => absurd hlt (Nat.not_lt.2 hindex)
        simp only [Setter.Documented, Setter.documented, Setter.call,
          MpVirtualOutputs.setOutdoorStageOutput, dif_neg (Nat.not_lt.2 hindex)]
  | setCapacityOff =>
      have hvalidate : validate { zero.setCapacityOff with sovInHeating := mp.data.sovInHeating } =
          { mp.data.setCapacityOff with indoorFanCont := 0 } := by
        simp only [validate, VirtualOutputs.setCapacityOff, zero, clamp_zero, map_clamp_zero]
      have hcont : { mp.data.setCapacityOff with indoorFanCont := 0 } = mp.data.setCapacityOff ↔
          mp.data.indoorFanCont = 0 := by
        simp only [VirtualOutputs.setCapacityOff, VirtualOutputs.mk.injEq, and_true, true_and]
        exact eq_comm
      simp only [Setter.Documented, Setter.documented, Setter.call,
        MpVirtualOutputs.setCapacityOff, MpVirtualOutputs.write, hvalidate, Setter.InDocumentedCase]
      rw [writeOutputs_eq_iff, writeRecord_inj_iff, hcont]
  | setSafeAllOff newData =>
      refine iff_of_true (write_documented rfl rfl ?_) trivial
      simp only [validate, VirtualOutputs.setSafeAllOff, zero, clamp_zero, map_clamp_zero]
  | setOutdoorOff =>
      refine iff_of_true (write_documented rfl rfl ?_) trivial
      simp only [validate, hkept, clamp_zero, map_clamp_zero]
  | setIndoorOff =>
      refine iff_of_true (write_documented rfl rfl ?_) trivial
      simp only [validate, hkept, clamp_zero, map_clamp_zero]
  | _ =>
      refine iff_of_true (write_documented rfl rfl ?_) trivial
      simp only [validate, hkept]

theorem documented_stage :
    (Setter.setIndoorStageOutput 1 1500).Documented
      { toPoint := Point.init zero true, locked := false } .noRequest :=
  (documented_iff Reachable.init _ .noRequest).2 fun _ => trivial

/-- A stage is to be set on a locked point, with a request to unlock it. -/
theorem documented_counterexample :
    ¬ ∀ (mp : MpVirtualOutputs) (s : Setter) (lockRequest : LockRequest), Reachable mp →
      s.Documented mp lockRequest := by
  intro hall
  have hreachable := Reachable.setLockState Reachable.init .lock
  have hdocumented := hall _ (.setIndoorStageOutput 0 500) .unlock hreachable
  have hlocked := congrArg (fun r => r.1.locked) hdocumented
  exact absurd hlocked (by decide)

end Setters

end ColonyPico.Storm.VirtualOutputSetters
