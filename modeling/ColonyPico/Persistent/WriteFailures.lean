import ColonyPico.Persistent.MirroredChunk

/-!
Updates of a mirrored chunk on media whose writes may fail.
-/

namespace ColonyPico.Persistent.WriteFailures

open ColonyPico.Foundations.ByteStore
open ColonyPico.Persistent.Media
open ColonyPico.Persistent.MirroredChunk

/-- What becomes of a write: done, or failed with `left` over the first bytes of its range. -/
inductive Outcome where
  | done
  | failed (left : List UInt8)
  deriving DecidableEq, Repr

/-- A write to a region. One that does not fit is refused before anything is stored. -/
def attempt (r : RegionMedia) (offset : Nat) (src : List UInt8) : Outcome → Bool × RegionMedia
  | .done => r.write offset src
  | .failed left =>
      if offset + src.length ≤ r.regionLength then
        (false, { r with bytes := overwrite r.bytes offset (left.take src.length) })
      else (false, r)

/-- Issue the writes in order, the first as the `k`-th of the call; what each returned. -/
def attempts (outcomes : Nat → Outcome) : Nat → Chunk → List MediaWrite → List Bool × Chunk
  | _, c, [] => ([], c)
  | k, c, w :: writes =>
      let written := attempt (c.region w.side) w.offset w.bytes (outcomes k)
      let rest := attempts outcomes (k + 1) (c.setRegion w.side written.2) writes
      (written.1 :: rest.1, rest.2)

/-- One pass of the loop of `updateData()`. -/
def updateCopy (P : Platform) (outcomes : Nat → Outcome) (k : Nat) (c : Chunk)
    (data : List UInt8) (index : Nat) (invalidate : Bool) : List Bool × Chunk :=
  let side := toggle c.currentRegion
  let transId := (c.transId + 1) % 2 ^ 64
  attempts outcomes k { c with currentRegion := some side, transId := transId }
    (adjacent side index (copyFields P transId data invalidate))

/-- What an `updateData()` call leaves behind, with what each of its writes returned. -/
structure Update where
  chunk : Chunk
  work : List UInt8
  result : Bool
  succeeded : List Bool

/-- `updateData()`; `none` when its assertion fails. -/
def updateData (P : Platform) (outcomes : Nat → Outcome) (c : Chunk) (srcHandler : Payload)
    (index : Nat) (invalidate : Bool) : Option Update :=
  if c.currentRegion = none then none
  else
    let zeroed := List.replicate P.workBufferSize 0
    let data := srcHandler.getData c.dataLen
    let len := data.length
    let pulled := overwrite zeroed 0 data
    if len = 0 then
      some { chunk := c, work := pulled, result := false, succeeded := [] }
    else
      let work := if invalidate then zeroed else pulled
      let first := updateCopy P outcomes 0 { c with dataLen := len } (work.take len) index
        invalidate
      let second := updateCopy P outcomes 4 first.2 (work.take len) index invalidate
      some
        { chunk := second.2
          work := work
          -- each pass assigns the result of its first write and accumulates the other three
          result := second.1.all id
          succeeded := first.1 ++ second.1 }

section Attempts

theorem attempt_iff (r : RegionMedia) (offset : Nat) (src : List UInt8) (outcome : Outcome) :
    (attempt r offset src outcome).1 = true ↔
      outcome = .done ∧ offset + src.length ≤ r.bytes.length := by
  cases outcome with
  | done =>
      simp only [attempt, RegionMedia.write, RegionMedia.regionLength, true_and]
      split_ifs with hfit
      · simp [hfit]
      · simp [hfit]
  | failed left =>
      simp only [attempt, reduceCtorEq, false_and, iff_false]
      split_ifs <;> simp

theorem length_attempt (r : RegionMedia) (offset : Nat) (src : List UInt8) (outcome : Outcome) :
    (attempt r offset src outcome).2.bytes.length = r.bytes.length := by
  by_cases hfit : offset + src.length ≤ r.regionLength
  · cases outcome with
    | done =>
        rw [attempt, RegionMedia.write, if_pos hfit]
        exact length_overwrite r.bytes offset src hfit
    | failed left =>
        rw [attempt, if_pos hfit]
        have htake : (left.take src.length).length ≤ src.length := List.length_take_le _ _
        exact length_overwrite r.bytes offset _ ((Nat.add_le_add_left htake offset).trans hfit)
  · cases outcome with
    | done => rw [attempt, RegionMedia.write, if_neg hfit]
    | failed left => rw [attempt, if_neg hfit]

theorem attempt_of_true {r : RegionMedia} {offset : Nat} {src : List UInt8} {outcome : Outcome}
    (h : (attempt r offset src outcome).1 = true) :
    (attempt r offset src outcome).2 = { r with bytes := overwrite r.bytes offset src } := by
  obtain ⟨rfl, hfit⟩ := (attempt_iff r offset src outcome).mp h
  rw [attempt, write_of_fits r offset src hfit]

variable (outcomes : Nat → Outcome)

/-- Media that do not fail take the writes as `issue` does. -/
theorem attempts_of_done (k : Nat) (c : Chunk) (writes : List MediaWrite)
    (h : ∀ j < writes.length, outcomes (k + j) = .done) :
    (attempts outcomes k c writes).1.all id = (issue c writes).1 ∧
      (attempts outcomes k c writes).2 = (issue c writes).2 := by
  induction writes generalizing k c with
  | nil => exact ⟨rfl, rfl⟩
  | cons w writes ih =>
      have hfirst : outcomes k = .done := h 0 (by simp)
      have hrest := ih (k + 1) (c.setRegion w.side ((c.region w.side).write w.offset w.bytes).2)
        (fun j hj => by
          rw [Nat.add_assoc, Nat.add_comm 1 j]
          exact h (j + 1) (by simpa using hj))
      simp only [attempts, issue, hfirst, attempt, List.all_cons, id]
      rw [hrest.1]
      exact ⟨rfl, hrest.2⟩

/-- Adjacent fields are all written when no write fails and their range is in the region. -/
theorem all_attempts_iff (k : Nat) (c : Chunk) (side : Side) (offset : Nat)
    (fields : List (List UInt8)) :
    (attempts outcomes k c (adjacent side offset fields)).1.all id = true ↔
      (∀ j < fields.length, outcomes (k + j) = .done) ∧
        (fields ≠ [] → offset + fields.flatten.length ≤ (c.region side).bytes.length) := by
  induction fields generalizing k c offset with
  | nil => simp [attempts, adjacent]
  | cons field fields ih =>
      have hlen := length_attempt (c.region side) offset field (outcomes k)
      simp only [adjacent, attempts, List.all_cons, Bool.and_eq_true, id]
      rw [attempt_iff, ih, region_setRegion, hlen, List.flatten_cons, List.length_append,
        List.length_cons]
      constructor
      · rintro ⟨⟨hdone, hfit⟩, hrest, hall⟩
        refine ⟨fun j hj => ?_, fun _ => ?_⟩
        · cases j with
          | zero => exact hdone
          | succ j =>
              rw [← Nat.add_assoc, Nat.add_right_comm]
              exact hrest j (by omega)
        · cases fields with
          | nil => simpa using hfit
          | cons next fields =>
              have := hall (List.cons_ne_nil _ _)
              omega
      · rintro ⟨hall, hfits⟩
        have hfit := hfits (List.cons_ne_nil _ _)
        refine ⟨⟨hall 0 (by omega), by omega⟩, fun j hj => ?_, fun _ => by omega⟩
        rw [Nat.add_assoc, Nat.add_comm 1 j]
        exact hall (j + 1) (by omega)

theorem attempts_keeps (k : Nat) (c : Chunk) (side : Side) (offset : Nat)
    (fields : List (List UInt8)) :
    (attempts outcomes k c (adjacent side offset fields)).2.currentRegion = c.currentRegion ∧
      (attempts outcomes k c (adjacent side offset fields)).2.transId = c.transId ∧
      (attempts outcomes k c (adjacent side offset fields)).2.dataLen = c.dataLen ∧
      (attempts outcomes k c (adjacent side offset fields)).2.region side.other =
        c.region side.other := by
  induction fields generalizing k c offset with
  | nil => exact ⟨rfl, rfl, rfl, rfl⟩
  | cons field fields ih =>
      rw [adjacent, attempts]
      cases side <;> exact ih _ _ _

end Attempts

section Copies

variable (P : Platform) (outcomes : Nat → Outcome)

/-- None of the four writes of a copy fails, and their range is in the region. -/
def Accepted (k regionLength index len : Nat) : Prop :=
  (∀ j < 4, outcomes (k + j) = .done) ∧
    index + (frameOffsetData P + (len + crcSize)) ≤ regionLength

theorem length_crcBuffer (crc : Checksum.Crc32EthernetFast.Crc32) (invalidate : Bool) :
    (crcBuffer crc invalidate).length = crcSize := by
  cases invalidate <;> rfl

theorem length_copyFields (transId : Nat) (data : List UInt8) (invalidate : Bool) :
    (copyFields P transId data invalidate).flatten.length =
      frameOffsetData P + (data.length + crcSize) := by
  simp only [copyFields, List.flatten_cons, List.flatten_nil, List.length_append, length_toBytes,
    length_crcBuffer, List.length_nil, frameOffsetData]
  omega

theorem all_updateCopy_iff (k : Nat) (c : Chunk) (data : List UInt8) (index : Nat)
    (invalidate : Bool) :
    (updateCopy P outcomes k c data index invalidate).1.all id = true ↔
      Accepted P outcomes k (c.region (toggle c.currentRegion)).bytes.length index
        data.length := by
  rw [updateCopy, all_attempts_iff, length_copyFields]
  constructor
  · rintro ⟨hdone, hfit⟩
    exact ⟨hdone, hfit (List.cons_ne_nil _ _)⟩
  · rintro ⟨hdone, hfit⟩
    exact ⟨hdone, fun _ => hfit⟩

theorem updateCopy_of_accepted (k : Nat) (c : Chunk) (data : List UInt8) (index : Nat)
    (invalidate : Bool)
    (h : Accepted P outcomes k (c.region (toggle c.currentRegion)).bytes.length index
      data.length) :
    (updateCopy P outcomes k c data index invalidate).2 =
      store { c with currentRegion := some (toggle c.currentRegion), transId := nextId c.transId }
        (toggle c.currentRegion) index
        (copyFields P (nextId c.transId) data invalidate).flatten := by
  rw [updateCopy]
  have hdone := (attempts_of_done outcomes k
    { c with currentRegion := some (toggle c.currentRegion), transId := nextId c.transId }
    (adjacent (toggle c.currentRegion) index
      (copyFields P (nextId c.transId) data invalidate)) h.1).2
  rw [issue_adjacent _ _ _ _ (by rw [length_copyFields]; exact h.2)] at hdone
  exact hdone

/-- A copy leaves the region that it does not write alone. -/
theorem updateCopy_keeps (k : Nat) (c : Chunk) (data : List UInt8) (index : Nat)
    (invalidate : Bool) :
    let next := (updateCopy P outcomes k c data index invalidate).2
    next.currentRegion = some (toggle c.currentRegion) ∧ next.transId = nextId c.transId ∧
      next.dataLen = c.dataLen ∧
      next.region (toggle c.currentRegion).other = c.region (toggle c.currentRegion).other := by
  exact attempts_keeps outcomes k
    { c with currentRegion := some (toggle c.currentRegion), transId := nextId c.transId }
    (toggle c.currentRegion) index (copyFields P (nextId c.transId) data invalidate)

end Copies

/-- The payload bytes that an update writes: zeros when it erases. -/
def written (P : Platform) (data : List UInt8) (invalidate : Bool) : List UInt8 :=
  let zeroed := List.replicate P.workBufferSize 0
  (if invalidate then zeroed else overwrite zeroed 0 data).take data.length

theorem written_false (P : Platform) (data : List UInt8) : written P data false = data :=
  take_overwrite_zero _ _

@[simp] theorem other_other (side : Side) : side.other.other = side := by
  cases side <;> rfl

section Update

variable (P : Platform) (outcomes : Nat → Outcome) (c : Chunk) (src : Payload) (index : Nat)
  (invalidate : Bool) {side : Side}

theorem updateData_of_empty (hcurrent : c.currentRegion = some side)
    (hdata : src.getData c.dataLen = []) :
    ∃ u, updateData P outcomes c src index invalidate = some u ∧ u.result = false := by
  rw [updateData, if_neg (by simp [hcurrent])]
  dsimp only
  rw [if_pos (by rw [hdata]; rfl)]
  exact ⟨_, rfl, rfl⟩

/-- The first copy of an update. -/
def firstCopy : List Bool × Chunk :=
  updateCopy P outcomes 0 { c with dataLen := (src.getData c.dataLen).length }
    (written P (src.getData c.dataLen) invalidate) index invalidate

def secondCopy : List Bool × Chunk :=
  updateCopy P outcomes 4 (firstCopy P outcomes c src index invalidate).2
    (written P (src.getData c.dataLen) invalidate) index invalidate

theorem updateData_of_payload (hcurrent : c.currentRegion = some side)
    (hdata : src.getData c.dataLen ≠ []) :
    updateData P outcomes c src index invalidate =
      some
        { chunk := (secondCopy P outcomes c src index invalidate).2
          work :=
            if invalidate then List.replicate P.workBufferSize 0
            else overwrite (List.replicate P.workBufferSize 0) 0 (src.getData c.dataLen)
          result := (secondCopy P outcomes c src index invalidate).1.all id
          succeeded := (firstCopy P outcomes c src index invalidate).1 ++
            (secondCopy P outcomes c src index invalidate).1 } := by
  rw [updateData, if_neg (by simp [hcurrent])]
  dsimp only
  rw [if_neg fun h => hdata (List.length_eq_zero_iff.mp h)]
  rfl

/-- A copy that is accepted holds its fields, and the other region is as it was. -/
theorem updateCopy_spec (k : Nat) (data : List UInt8) (side : Side)
    (hside : toggle c.currentRegion = side) :
    let next := (updateCopy P outcomes k c data index invalidate).2
    let accepted := Accepted P outcomes k (c.region side).bytes.length index data.length
    ((updateCopy P outcomes k c data index invalidate).1.all id = true ↔ accepted) ∧
      next.currentRegion = some side ∧ next.transId = nextId c.transId ∧
      next.region side.other = c.region side.other ∧
      (accepted → Holds (next.region side).bytes index
        (copyFields P (nextId c.transId) data invalidate).flatten) := by
  subst hside
  intro next accepted
  have hkeeps := updateCopy_keeps P outcomes k c data index invalidate
  refine ⟨all_updateCopy_iff P outcomes k c data index invalidate, hkeeps.1, hkeeps.2.1,
    hkeeps.2.2.2, fun h => ?_⟩
  rw [show next = _ from updateCopy_of_accepted P outcomes k c data index invalidate h, store,
    region_setRegion]
  apply holds_overwrite
  rw [length_copyFields]
  have hfit := h.2
  cases hside : toggle c.currentRegion <;> rw [hside] at hfit <;> exact hfit

/-- An update with a payload: the copy in the other region first, that in the current one second,
and the second alone decides on the result. -/
theorem updateData_spec (hcurrent : c.currentRegion = some side)
    (hdata : src.getData c.dataLen ≠ []) :
    let data := written P (src.getData c.dataLen) invalidate
    let first := Accepted P outcomes 0 (c.region side.other).bytes.length index data.length
    let second := Accepted P outcomes 4 (c.region side).bytes.length index data.length
    ∃ u, updateData P outcomes c src index invalidate = some u ∧
      (u.result = true ↔ second) ∧
      (u.succeeded.all id = true ↔ first ∧ second) ∧
      u.chunk.currentRegion = some side ∧
      (second → Holds (u.chunk.region side).bytes index
        (copyFields P u.chunk.transId data invalidate).flatten) ∧
      (first → Holds (u.chunk.region side.other).bytes index
        (copyFields P (nextId c.transId) data invalidate).flatten) := by
  intro data first second
  have hregion : ∀ s, Chunk.region { c with dataLen := (src.getData c.dataLen).length } s =
      c.region s := by
    intro s
    cases s <;> rfl
  have hfirst := updateCopy_spec P outcomes { c with dataLen := (src.getData c.dataLen).length }
    index invalidate 0 data side.other (by rw [hcurrent, toggle_some])
  dsimp only at hfirst
  rw [hregion, hregion, other_other] at hfirst
  obtain ⟨hall0, hcurrent0, -, hkept0, hholds0⟩ := hfirst
  have hsecond := updateCopy_spec P outcomes (firstCopy P outcomes c src index invalidate).2
    index invalidate 4 data side (by rw [firstCopy, hcurrent0, toggle_some, other_other])
  dsimp only at hsecond
  rw [show (firstCopy P outcomes c src index invalidate).2.region side = _ from hkept0] at hsecond
  obtain ⟨hall1, hcurrent1, htrans1, hkept1, hholds1⟩ := hsecond
  refine ⟨_, updateData_of_payload P outcomes c src index invalidate hcurrent hdata, hall1, ?_,
    hcurrent1, fun h => ?_, fun h => ?_⟩
  · rw [List.all_append, Bool.and_eq_true]
    exact and_congr hall0 hall1
  · dsimp only
    rw [show (secondCopy P outcomes c src index invalidate).2.transId = _ from htrans1]
    exact hholds1 h
  · dsimp only
    rw [show (secondCopy P outcomes c src index invalidate).2.region side.other = _ from hkept1]
    exact hholds0 h

end Update

/-- Media that do not fail behave as in the model without failures. -/
theorem updateData_done (P : Platform) (c : Chunk) (src : Payload) (index : Nat)
    (invalidate : Bool) :
    (updateData P (fun _ => .done) c src index invalidate).map
        (fun u => (u.chunk, u.work, u.result)) =
      (MirroredChunk.updateData P c src index invalidate).map
        fun u => (u.chunk, u.work, u.result) := by
  have hcopy : ∀ k c data, (updateCopy P (fun _ => .done) k c data index invalidate).1.all id =
        (MirroredChunk.updateCopy P c data index invalidate).1 ∧
      (updateCopy P (fun _ => .done) k c data index invalidate).2 =
        (MirroredChunk.updateCopy P c data index invalidate).2.1 :=
    fun k c data => attempts_of_done _ k _ _ fun _ _ => rfl
  simp only [updateData, MirroredChunk.updateData]
  split_ifs with hcurrent hempty hinvalidate
  · rfl
  · rfl
  · simp only [Option.map_some, hcopy]
  · simp only [Option.map_some, hcopy]

/-- `updateData()` reports failures: it returns true only if all of its writes succeeded and the
region that it leaves as the newest holds the payload with a good CRC. -/
def Reports (P : Platform) (payload : List UInt8) (index : Nat) (u : Update) : Prop :=
  u.result = true →
    (∀ written ∈ u.succeeded, written = true) ∧
      ∃ side, u.chunk.currentRegion = some side ∧
        Holds (u.chunk.region side).bytes index (frame P u.chunk.transId payload)

/-- An update reports failures just when there is no payload, the first copy was written, or the
second one was not. -/
theorem reports_iff (P : Platform) (outcomes : Nat → Outcome) (c : Chunk) (src : Payload)
    (index : Nat) (side : Side) (hcurrent : c.currentRegion = some side) :
    ∃ u, updateData P outcomes c src index false = some u ∧
      (Reports P (src.getData c.dataLen) index u ↔
        src.getData c.dataLen = [] ∨
          Accepted P outcomes 0 (c.region side.other).bytes.length index
            (src.getData c.dataLen).length ∨
          ¬Accepted P outcomes 4 (c.region side).bytes.length index
            (src.getData c.dataLen).length) := by
  by_cases hdata : src.getData c.dataLen = []
  · obtain ⟨u, hu, hresult⟩ := updateData_of_empty P outcomes c src index false hcurrent hdata
    refine ⟨u, hu, iff_of_true (fun h => ?_) (.inl hdata)⟩
    rw [hresult] at h
    exact absurd h (by decide)
  · obtain ⟨u, hu, hresult, hall, hside, hholds, -⟩ :=
      updateData_spec P outcomes c src index false hcurrent hdata
    rw [written_false] at hresult hall hholds
    have hsucceeded : (∀ written ∈ u.succeeded, written = true) ↔ u.succeeded.all id = true := by
      simp
    refine ⟨u, hu, ?_⟩
    rw [Reports, hsucceeded, hall, hresult]
    constructor
    · intro h
      right
      by_cases hsecond : Accepted P outcomes 4 (c.region side).bytes.length index
          (src.getData c.dataLen).length
      · exact .inl (h hsecond).1.1
      · exact .inr hsecond
    · rintro (hempty | hfirst | hsecond) h
      · exact absurd hempty hdata
      · exact ⟨⟨hfirst, h⟩, side, hside, hholds h⟩
      · exact absurd h hsecond

theorem reports_blank :
    ∃ u, updateData Platform.pico (fun _ => .done) blank (Payload.ofBytes [1, 2, 3]) 0 false =
        some u ∧ Reports Platform.pico [1, 2, 3] 0 u := by
  obtain ⟨u, hu, hiff⟩ := reports_iff Platform.pico (fun _ => .done) blank
    (Payload.ofBytes [1, 2, 3]) 0 .a rfl
  exact ⟨u, hu, hiff.mpr (.inr (.inl ⟨fun _ _ => rfl, by decide⟩))⟩

/-- The write of the first copy's transaction ID fails. -/
theorem not_reports_first :
    ¬∀ (P : Platform) (outcomes : Nat → Outcome) (c : Chunk) (src : Payload) (index : Nat) (u : Update),
      updateData P outcomes c src index false = some u →
        Reports P (src.getData c.dataLen) index u := by
  intro h
  have hreports := h Platform.pico (fun k => if k = 0 then .failed [] else .done) blank
    (Payload.ofBytes [1, 2, 3]) 0 _ rfl (by decide)
  exact absurd hreports.1 (by decide)

end ColonyPico.Persistent.WriteFailures
