import ColonyPico.Persistent.TornFrame

/-!
Power lost during an update of a mirrored chunk: what a fresh start delivers.
-/

namespace ColonyPico.Persistent.PowerFail

open ColonyPico.Foundations.ByteStore
open ColonyPico.Persistent.Media
open ColonyPico.Persistent.MirroredChunk
open ColonyPico.Persistent.TornFrame

/-- Both regions hold `old`, the current one under the later transaction ID. -/
structure Mirrored (P : Platform) (c : Chunk) (side : Side) (index : Nat)
    (old : List UInt8) : Prop where
  current : c.currentRegion = some side
  newest : Holds (c.region side).bytes index (frame P c.transId old)
  previous : Holds (c.region side.other).bytes index (frame P (c.transId - 1) old)
  later : 2 ≤ c.transId
  range : c.transId < 2 ^ 64
  dataLen : c.dataLen = old.length
  pos : 0 < old.length
  buffer : old.length + crcSize ≤ P.workBufferSize
  mirrored : c.regionA.bytes.length = c.regionB.bytes.length

/-- A completed update leaves its payload mirrored, unless the transaction ID rolls
over. -/
theorem mirrored_updated (P : Platform) (c : Chunk) (side : Side) (index : Nat)
    (payload : List UInt8) (h : Fits P c index payload.length)
    (htrans : c.transId + 2 < 2 ^ 64) :
    Mirrored P (updated P c side index payload) side index payload := by
  obtain ⟨hnew, hold⟩ := holds_updated P c side index payload h
  have hlen := length_updated P c side index payload h
  have hfirst : nextId c.transId = c.transId + 1 := Nat.mod_eq_of_lt (by omega)
  have hsecond : nextId (nextId c.transId) = c.transId + 2 := by
    rw [hfirst]
    exact Nat.mod_eq_of_lt (by omega)
  have htransId : (updated P c side index payload).transId = c.transId + 2 := by
    rw [← hsecond]
    cases side <;> rfl
  rw [hsecond] at hnew
  rw [hfirst] at hold
  refine ⟨by cases side <;> rfl, ?_, ?_, ?_, ?_, by cases side <;> rfl, h.pos, h.buffer,
    (hlen .a).trans (h.mirrored.trans (hlen .b).symm)⟩
  · rw [htransId]
    exact hnew
  · rw [htransId]
    exact hold
  · omega
  · omega

/-- The bytes of a frame. -/
def frameSize (P : Platform) (payload : List UInt8) : Nat :=
  frameOffsetData P + (payload.length + crcSize)

/-- A region when power is lost after `cut` bytes of an update: the region other than
the current one is written first. -/
def imageAt (P : Platform) (c : Chunk) (side : Side) (index : Nat) (new : List UInt8)
    (cut : Nat) (s : Side) : RegionMedia :=
  torn P (c.region s) index (writtenId c side s) new
    (if s = side then cut - frameSize P new else cut)

theorem powerCut_updateWrites (P : Platform) (c : Chunk) (side : Side) (index : Nat)
    (new : List UInt8) (cut : Nat) (h : Fits P c index new.length) :
    powerCut c (updateWrites P c side index new) cut =
      { c with
        regionA := imageAt P c side index new cut .a
        regionB := imageAt P c side index new cut .b } := by
  have hlen : ∀ transId, (frame P transId new).length = frameSize P new :=
    fun transId => length_frame P transId new
  have hfirst : index + (frame P (nextId c.transId) new).length ≤
      (c.region side.other).bytes.length := by
    rw [hlen]
    exact h.side _
  have hsecond : index + (frame P (nextId (nextId c.transId)) new).length ≤
      ((store c side.other index (frame P (nextId c.transId) new)).region
        side).bytes.length := by
    rw [hlen]
    cases side
    · exact h.side .a
    · exact h.side .b
  have hstored : powerCut c (updateWrites P c side index new) cut =
      store (store c side.other index ((frame P (nextId c.transId) new).take cut)) side index
        ((frame P (nextId (nextId c.transId)) new).take (cut - frameSize P new)) := by
    rw [updateWrites, powerCut_adjacent c _ _ _ _ _ hfirst]
    simp only [← frame_def, hlen]
    split_ifs with hcut
    · rw [Nat.sub_eq_zero_of_le (by omega), List.take_zero, store_nil]
    · rw [← List.append_nil (adjacent side index _), powerCut_adjacent _ _ _ _ _ _ hsecond]
      simp only [← frame_def, hlen, powerCut]
      rw [List.take_of_length_le (by rw [hlen]; omega : (frame P _ new).length ≤ cut)]
      split_ifs with hcut'
      · rfl
      · rw [List.take_of_length_le (by rw [hlen]; omega)]
  rw [hstored]
  cases side <;> rfl

/-- What a fresh `start()` and `loadData()` deliver when power is lost after `cut`
bytes of an update. -/
def reloadAfterCut (P : Platform) (c : Chunk) (new work : List UInt8) (dst : Payload)
    (index cut : Nat) : Option (List UInt8) :=
  (updateData P c (Payload.ofBytes new) index false).bind fun update =>
    reload P ReadPace.full (powerCut c update.writes cut) work dst index

/-- The old copy of a region. -/
def oldFrame (P : Platform) (c : Chunk) (side : Side) (old : List UInt8) (s : Side) :
    List UInt8 :=
  frame P (if s = side then c.transId else c.transId - 1) old

/-- The new copy of a region. -/
def newFrame (P : Platform) (c : Chunk) (side : Side) (new : List UInt8) (s : Side) :
    List UInt8 :=
  frame P (writtenId c side s) new

/-- A frame that is neither the old one nor the new one does not pass its CRC. -/
def TornDetected (P : Platform) (c : Chunk) (side : Side) (index : Nat)
    (old new : List UInt8) (cut : Nat) : Prop :=
  ∀ s, ¬ Holds (imageAt P c side index new cut s).bytes index (oldFrame P c side old s) →
    ¬ Holds (imageAt P c side index new cut s).bytes index (newFrame P c side new s) →
    Probes P (imageAt P c side index new cut s) index 0

/-- The data that reached region B agrees with the old payload, or with equal lengths
the old payload agrees with the new one past it. -/
def OldSurvives (P : Platform) (c : Chunk) (old new : List UInt8) (cut : Nat) : Prop :=
  let written := dataWritten P (nextId c.transId) new cut
  written.take old.length = old.take written.length ∨
    old.length = new.length ∧ old.drop written.length = new.drop written.length

/-- Region B announces more data than can be read, or the old payload agrees with the
new one past what reached region B, or with equal lengths on what did. -/
def NewSurvives (P : Platform) (c : Chunk) (side : Side) (index : Nat)
    (old new : List UInt8) (cut : Nat) : Prop :=
  let written := new.take (cut - frameSize P new - frameOffsetData P)
  ¬ Admits P (imageAt P c side index new cut .b) index ∨
    (old.take new.length).drop written.length = new.drop written.length ∨
    old.length = new.length ∧ written = old.take written.length

/-- When a power loss after `cut` bytes does no harm. Below the last transaction ID
either copy is recognised; at the last one the first new copy is written under the
ID zero, which stands for corruption. -/
def Survives (P : Platform) (c : Chunk) (side : Side) (index : Nat) (old new : List UInt8)
    (cut : Nat) : Prop :=
  let holdsOld s := Holds (imageAt P c side index new cut s).bytes index
    (oldFrame P c side old s)
  let holdsNew s := Holds (imageAt P c side index new cut s).bytes index
    (newFrame P c side new s)
  if c.transId + 1 < 2 ^ 64 then
    match side with
    | .a => holdsNew .b ∨ OldSurvives P c old new cut
    | .b => ¬ holdsNew .a ∨ holdsNew .b ∨ NewSurvives P c .b index old new cut
  else
    match side with
    | .a => holdsNew .a ∨ holdsOld .a ∧ OldSurvives P c old new cut
    | .b => holdsNew .b ∨ holdsOld .b

section Survival

variable {P : Platform} {c : Chunk} {index : Nat} {old new : List UInt8} {cut : Nat}

theorem laidOver_old_iff :
    (laidOver old (dataWritten P (nextId c.transId) new cut) = old ∨
      laidOver old (dataWritten P (nextId c.transId) new cut) = new) ↔
      OldSurvives P c old new cut := by
  rw [OldSurvives, laidOver_eq_self_iff]
  refine or_congr_right ⟨fun h => ?_, fun h => ?_⟩
  · have hlen : old.length = new.length := by rw [← h, length_laidOver]
    exact ⟨hlen, (laidOver_eq_iff _ _ _ hlen
      fun i hi hnew => getElem?_dataWritten P _ new cut i hi hnew).mp h⟩
  · exact (laidOver_eq_iff _ _ _ h.1
      fun i hi hnew => getElem?_dataWritten P _ new cut i hi hnew).mpr h.2

theorem laidOver_new_iff (hle : new.length ≤ old.length) (j : Nat) :
    (laidOver (old.take new.length) (new.take j) = old ∨
      laidOver (old.take new.length) (new.take j) = new) ↔
      (old.take new.length).drop (new.take j).length = new.drop (new.take j).length ∨
        old.length = new.length ∧ new.take j = old.take (new.take j).length := by
  have hlen : (old.take new.length).length = new.length := by
    rw [List.length_take]
    omega
  have htake : ∀ i, i < (new.take j).length → i < new.length →
      (new.take j)[i]? = new[i]? := by
    intro i hi _
    rw [List.length_take] at hi
    rw [List.getElem?_take, if_pos (by omega)]
  rw [or_comm]
  refine or_congr (laidOver_eq_iff _ _ _ hlen htake) ⟨fun h => ?_, fun h => ?_⟩
  · have hequal : old.length = new.length := by rw [← h, length_laidOver, hlen]
    refine ⟨hequal, ?_⟩
    rw [List.take_of_length_le (by omega : old.length ≤ new.length), laidOver_eq_self_iff] at h
    rwa [List.take_of_length_le (by rw [List.length_take]; omega)] at h
  · rw [List.take_of_length_le (by omega : old.length ≤ new.length), laidOver_eq_self_iff,
      List.take_of_length_le (by rw [List.length_take]; omega)]
    exact h.2

end Survival

section Cut

variable {P : Platform} {c : Chunk} {side : Side} {index : Nat} {old new : List UInt8}
  {cut : Nat} (h : Mirrored P c side index old) (hpos : 0 < new.length)
  (hle : new.length ≤ old.length)
include h

theorem Mirrored.holds (s : Side) : Holds (c.region s).bytes index (oldFrame P c side old s) := by
  have hnewest := h.newest
  have hprevious := h.previous
  cases side <;> cases s
  · exact hnewest
  · exact hprevious
  · exact hprevious
  · exact hnewest

theorem holds_imageAt_of_lt (hcut : cut < frameSize P new) :
    Holds (imageAt P c side index new cut side).bytes index (oldFrame P c side old side) := by
  rw [imageAt, if_pos rfl, Nat.sub_eq_zero_of_le (Nat.le_of_lt hcut), torn, List.take_zero,
    overwrite_nil]
  exact h.holds side

theorem probes_of_holdsOld (s : Side)
    (hold : Holds (imageAt P c side index new cut s).bytes index (oldFrame P c side old s)) :
    Probes P (imageAt P c side index new cut s) index
      (if s = side then c.transId else c.transId - 1) := by
  have hrange := h.range
  exact probes_of_holds P index old _ _ h.buffer (by split_ifs <;> omega) hold

/-- A region that does not hold its new copy answers with at most its old ID. -/
theorem exists_probes_le (htorn : TornDetected P c side index old new cut) (s : Side)
    (hnew : ¬ Holds (imageAt P c side index new cut s).bytes index (newFrame P c side new s)) :
    ∃ transId, Probes P (imageAt P c side index new cut s) index transId ∧
      transId ≤ if s = side then c.transId else c.transId - 1 := by
  by_cases hold : Holds (imageAt P c side index new cut s).bytes index (oldFrame P c side old s)
  · exact ⟨_, probes_of_holdsOld h s hold, le_rfl⟩
  · exact ⟨0, htorn s hold hnew, Nat.zero_le _⟩

include hle

theorem length_imageAt (s : Side) :
    (imageAt P c side index new cut s).bytes.length = (c.region s).bytes.length :=
  length_torn P _ index _ _ old new _ (h.holds s) hle

theorem holds_imageAt_of_ge (hcut : frameSize P new ≤ cut) (s : Side) (hs : s ≠ side) :
    Holds (imageAt P c side index new cut s).bytes index (newFrame P c side new s) := by
  rw [imageAt, if_neg hs]
  exact holds_torn_of_le P _ index _ _ old new cut (h.holds s) hle
    (by rw [length_frame]; exact hcut)

theorem imageAt_mirrored :
    (imageAt P c side index new cut .a).bytes.length =
      (imageAt P c side index new cut .b).bytes.length :=
  (length_imageAt h hle .a).trans (h.mirrored.trans (length_imageAt h hle .b).symm)

theorem probes_of_holdsNew (s : Side)
    (hnew : Holds (imageAt P c side index new cut s).bytes index (newFrame P c side new s)) :
    Probes P (imageAt P c side index new cut s) index (writtenId c side s) := by
  have hbuffer := h.buffer
  exact probes_of_holds P index new _ _ (by omega) (writtenId_lt c side s) hnew

include hpos

theorem reloadAfterCut_eq (work : List UInt8) (dst : Payload) :
    reloadAfterCut P c new work dst index cut =
      reload P ReadPace.full
        { c with
          regionA := imageAt P c side index new cut .a
          regionB := imageAt P c side index new cut .b } work dst index := by
  have hbuffer := h.buffer
  have hfits : Fits P c index new.length := by
    have hfit := (holds_header P _ index _ old (h.holds .a)).2.2
    exact ⟨hpos, by rw [h.dataLen]; exact hle, by simp only [Chunk.region] at hfit; omega,
      by omega, h.mirrored⟩
  rw [reloadAfterCut, updateData_of_fits P c side index new h.current hfits, Option.bind_some,
    powerCut_updateWrites P c side index new cut hfits]

variable (work : List UInt8) (dst : Payload)

/-- An intact copy in region B is delivered when region A's ID is not larger. -/
theorem reloadAfterCut_of_B (payload : List UInt8) (transId other : Nat)
    (hpayload : 0 < payload.length) (hbuffer : payload.length + crcSize ≤ P.workBufferSize)
    (hrange : transId < 2 ^ 64)
    (hold : Holds (imageAt P c side index new cut .b).bytes index (frame P transId payload))
    (hA : Probes P (imageAt P c side index new cut .a) index other) (hother : other ≤ transId)
    (hne : transId ≠ 0) :
    reloadAfterCut P c new work dst index cut = some payload := by
  rw [reloadAfterCut_eq h hpos hle]
  exact reload_of_selectsB P _ work dst index payload transId other (imageAt_mirrored h hle)
    hbuffer hpayload hrange hold hA hother hne

theorem reloadAfterCut_of_A (payload : List UInt8) (transId other : Nat)
    (hpayload : 0 < payload.length) (hbuffer : payload.length + crcSize ≤ P.workBufferSize)
    (hrange : transId < 2 ^ 64)
    (hold : Holds (imageAt P c side index new cut .a).bytes index (frame P transId payload))
    (hB : Probes P (imageAt P c side index new cut .b) index other) (hother : other < transId) :
    reloadAfterCut P c new work dst index cut =
      some (laidOver payload (probed P (imageAt P c side index new cut .b) index)) := by
  rw [reloadAfterCut_eq h hpos hle]
  exact reload_of_selectsA P _ work dst index payload transId other (imageAt_mirrored h hle)
    hbuffer hpayload hrange hold hB hother

/-- With both new copies intact the new payload is delivered, if an ID is not zero. -/
theorem reloadAfterCut_of_both
    (hA : Holds (imageAt P c side index new cut .a).bytes index (newFrame P c side new .a))
    (hB : Holds (imageAt P c side index new cut .b).bytes index (newFrame P c side new .b))
    (hne : writtenId c side .a ≠ 0 ∨ writtenId c side .b ≠ 0) :
    reloadAfterCut P c new work dst index cut = some new := by
  have hbuffer := h.buffer
  rcases Nat.lt_or_ge (writtenId c side .b) (writtenId c side .a) with hlt | hge
  · rw [reloadAfterCut_of_A h hpos hle work dst new _ _ hpos (by omega) (writtenId_lt c side .a)
      hA (probes_of_holdsNew h hle .b hB) hlt,
      probed_of_holds P index new _ _ (by omega) hB, laidOver_append]
  · exact reloadAfterCut_of_B h hpos hle work dst new _ _ hpos (by omega)
      (writtenId_lt c side .b) hB (probes_of_holdsNew h hle .a hA) hge (by omega)

theorem reloadAfterCut_of_none (hA : Probes P (imageAt P c side index new cut .a) index 0)
    (hB : Probes P (imageAt P c side index new cut .b) index 0) :
    reloadAfterCut P c new work dst index cut = none := by
  rw [reloadAfterCut_eq h hpos hle]
  exact reload_of_no_answer P _ work dst index (imageAt_mirrored h hle) hA hB

end Cut

theorem nextId_of_lt {transId : Nat} (h : transId + 1 < 2 ^ 64) :
    nextId transId = transId + 1 :=
  Nat.mod_eq_of_lt h

section Survival

variable {P : Platform} {c : Chunk} {index : Nat} {old new : List UInt8} {cut : Nat}
  (hpos : 0 < new.length) (hle : new.length ≤ old.length) (work : List UInt8) (dst : Payload)
include hpos hle

/-- Region A is the newest, so region B is written first. -/
theorem survives_a_iff (h : Mirrored P c .a index old)
    (htorn : TornDetected P c .a index old new cut) (htrans : c.transId + 1 < 2 ^ 64) :
    (reloadAfterCut P c new work dst index cut = some old ∨
      reloadAfterCut P c new work dst index cut = some new) ↔
      Holds (imageAt P c .a index new cut .b).bytes index (newFrame P c .a new .b) ∨
        OldSurvives P c old new cut := by
  have hbuffer := h.buffer
  have hlater := h.later
  have hidB : writtenId c .a .b = c.transId + 1 := nextId_of_lt htrans
  by_cases hB : Holds (imageAt P c .a index new cut .b).bytes index (newFrame P c .a new .b)
  · refine iff_of_true (.inr ?_) (.inl hB)
    by_cases hA : Holds (imageAt P c .a index new cut .a).bytes index (newFrame P c .a new .a)
    · exact reloadAfterCut_of_both h hpos hle work dst hA hB (.inr (by omega))
    · obtain ⟨transId, hprobes, hother⟩ := exists_probes_le h htorn .a hA
      rw [if_pos rfl] at hother
      exact reloadAfterCut_of_B h hpos hle work dst new _ _ hpos (by omega)
        (writtenId_lt c .a .b) hB hprobes (by omega) (by omega)
  · have hcut : cut < frameSize P new := by
      by_contra hge
      exact hB (holds_imageAt_of_ge h hle (by omega) .b (by simp))
    obtain ⟨transId, hprobes, hother⟩ := exists_probes_le h htorn .b hB
    rw [if_neg (by simp)] at hother
    have hgot := reloadAfterCut_of_A h hpos hle work dst old _ _ h.pos h.buffer h.range
      (holds_imageAt_of_lt h hcut) hprobes (by omega)
    rw [imageAt, if_neg (by simp), laidOver_old_torn P _ index _ _ old new cut (h.holds .b) hle
      hbuffer] at hgot
    rw [hgot, Option.some_inj, Option.some_inj, or_iff_right hB]
    exact laidOver_old_iff

/-- Region B is the newest, so region A is written first. -/
theorem survives_b_iff (h : Mirrored P c .b index old)
    (htorn : TornDetected P c .b index old new cut) (htrans : c.transId + 1 < 2 ^ 64) :
    (reloadAfterCut P c new work dst index cut = some old ∨
      reloadAfterCut P c new work dst index cut = some new) ↔
      ¬ Holds (imageAt P c .b index new cut .a).bytes index (newFrame P c .b new .a) ∨
        Holds (imageAt P c .b index new cut .b).bytes index (newFrame P c .b new .b) ∨
        NewSurvives P c .b index old new cut := by
  have hbuffer := h.buffer
  have hlater := h.later
  have hidA : writtenId c .b .a = c.transId + 1 := nextId_of_lt htrans
  by_cases hA : Holds (imageAt P c .b index new cut .a).bytes index (newFrame P c .b new .a)
  · rw [or_iff_right (not_not_intro hA)]
    by_cases hB : Holds (imageAt P c .b index new cut .b).bytes index (newFrame P c .b new .b)
    · exact iff_of_true
        (.inr (reloadAfterCut_of_both h hpos hle work dst hA hB (.inl (by omega)))) (.inl hB)
    · obtain ⟨transId, hprobes, hother⟩ := exists_probes_le h htorn .b hB
      rw [if_pos rfl] at hother
      have hgot := reloadAfterCut_of_A h hpos hle work dst new _ _ hpos (by omega)
        (writtenId_lt c .b .a) hA hprobes (by omega)
      rw [imageAt, if_pos rfl, laidOver_new_torn P _ index _ _ old new _ (h.holds .b) hle
        hbuffer] at hgot
      rw [hgot, Option.some_inj, Option.some_inj, or_iff_right hB, NewSurvives, imageAt,
        if_pos rfl]
      split_ifs with haccept
      · rw [or_iff_right (not_not_intro haccept)]
        exact laidOver_new_iff hle _
      · exact iff_of_true (.inr rfl) (.inl haccept)
  · have hcut : cut < frameSize P new := by
      by_contra hge
      exact hA (holds_imageAt_of_ge h hle (by omega) .a (by simp))
    obtain ⟨transId, hprobes, hother⟩ := exists_probes_le h htorn .a hA
    rw [if_neg (by simp)] at hother
    exact iff_of_true
      (.inl (reloadAfterCut_of_B h hpos hle work dst old _ _ h.pos h.buffer h.range
        (holds_imageAt_of_lt h hcut) hprobes (by omega) (by omega)))
      (.inl hA)

variable (hlast : ¬ c.transId + 1 < 2 ^ 64)
include hlast

/-- At the last transaction ID the first copy answers with zero even when intact. -/
theorem survives_a_last_iff (h : Mirrored P c .a index old)
    (htorn : TornDetected P c .a index old new cut) :
    (reloadAfterCut P c new work dst index cut = some old ∨
      reloadAfterCut P c new work dst index cut = some new) ↔
      Holds (imageAt P c .a index new cut .a).bytes index (newFrame P c .a new .a) ∨
        Holds (imageAt P c .a index new cut .a).bytes index (oldFrame P c .a old .a) ∧
          OldSurvives P c old new cut := by
  have hbuffer := h.buffer
  have hrange := h.range
  have htrans : c.transId = 2 ^ 64 - 1 := by omega
  have hidB : writtenId c .a .b = 0 := by simp [writtenId, htrans, nextId]
  have hidA : writtenId c .a .a = 1 := by simp [writtenId, htrans, nextId]
  by_cases hA : Holds (imageAt P c .a index new cut .a).bytes index (oldFrame P c .a old .a)
  · have hnew : ¬ Holds (imageAt P c .a index new cut .a).bytes index
        (newFrame P c .a new .a) := by
      intro hnew
      have hold' := probes_of_holdsOld h .a hA []
      rw [probes_of_holdsNew h hle .a hnew [], hidA, if_pos rfl] at hold'
      omega
    have hB : ∃ transId, Probes P (imageAt P c .a index new cut .b) index transId ∧
        transId < c.transId := by
      by_cases hnewB : Holds (imageAt P c .a index new cut .b).bytes index
          (newFrame P c .a new .b)
      · exact ⟨_, probes_of_holdsNew h hle .b hnewB, by omega⟩
      · obtain ⟨transId, hprobes, hother⟩ := exists_probes_le h htorn .b hnewB
        rw [if_neg (by simp)] at hother
        exact ⟨transId, hprobes, by omega⟩
    obtain ⟨transId, hprobes, hother⟩ := hB
    have hgot := reloadAfterCut_of_A h hpos hle work dst old _ _ h.pos h.buffer h.range hA
      hprobes hother
    rw [imageAt, if_neg (by simp), laidOver_old_torn P _ index _ _ old new cut (h.holds .b) hle
      hbuffer] at hgot
    rw [hgot, Option.some_inj, Option.some_inj, or_iff_right hnew, and_iff_right hA]
    exact laidOver_old_iff
  · have hcut : frameSize P new ≤ cut := by
      by_contra hlt
      exact hA (holds_imageAt_of_lt h (by omega))
    have hB := holds_imageAt_of_ge h hle hcut .b (by simp)
    by_cases hnew : Holds (imageAt P c .a index new cut .a).bytes index (newFrame P c .a new .a)
    · exact iff_of_true
        (.inr (reloadAfterCut_of_both h hpos hle work dst hnew hB (.inl (by omega))))
        (.inl hnew)
    · have hzero := probes_of_holdsNew h hle .b hB
      rw [hidB] at hzero
      rw [reloadAfterCut_of_none h hpos hle work dst (htorn .a hA hnew) hzero]
      simp [hA, hnew]

theorem survives_b_last_iff (h : Mirrored P c .b index old)
    (htorn : TornDetected P c .b index old new cut) :
    (reloadAfterCut P c new work dst index cut = some old ∨
      reloadAfterCut P c new work dst index cut = some new) ↔
      Holds (imageAt P c .b index new cut .b).bytes index (newFrame P c .b new .b) ∨
        Holds (imageAt P c .b index new cut .b).bytes index (oldFrame P c .b old .b) := by
  have hbuffer := h.buffer
  have hrange := h.range
  have htrans : c.transId = 2 ^ 64 - 1 := by omega
  have hidA : writtenId c .b .a = 0 := by simp [writtenId, htrans, nextId]
  have hidB : writtenId c .b .b = 1 := by simp [writtenId, htrans, nextId]
  by_cases hB : Holds (imageAt P c .b index new cut .b).bytes index (oldFrame P c .b old .b)
  · have hA : ∃ transId, Probes P (imageAt P c .b index new cut .a) index transId ∧
        transId ≤ c.transId := by
      by_cases hnewA : Holds (imageAt P c .b index new cut .a).bytes index
          (newFrame P c .b new .a)
      · exact ⟨_, probes_of_holdsNew h hle .a hnewA, by omega⟩
      · obtain ⟨transId, hprobes, hother⟩ := exists_probes_le h htorn .a hnewA
        rw [if_neg (by simp)] at hother
        exact ⟨transId, hprobes, by omega⟩
    obtain ⟨transId, hprobes, hother⟩ := hA
    exact iff_of_true
      (.inl (reloadAfterCut_of_B h hpos hle work dst old _ _ h.pos h.buffer h.range hB hprobes
        hother (by omega)))
      (.inr hB)
  · have hcut : frameSize P new ≤ cut := by
      by_contra hlt
      exact hB (holds_imageAt_of_lt h (by omega))
    have hA := holds_imageAt_of_ge h hle hcut .a (by simp)
    by_cases hnew : Holds (imageAt P c .b index new cut .b).bytes index (newFrame P c .b new .b)
    · exact iff_of_true
        (.inr (reloadAfterCut_of_both h hpos hle work dst hA hnew (.inr (by omega))))
        (.inl hnew)
    · have hzero := probes_of_holdsNew h hle .a hA
      rw [hidA] at hzero
      rw [reloadAfterCut_of_none h hpos hle work dst hzero (htorn .b hB hnew)]
      simp [hB, hnew]

end Survival

/-- After a power loss at any byte of an update, exactly the complete old or exactly
the complete new payload is delivered if and only if the loss does no harm. -/
theorem reloadAfterCut_atomic_iff (P : Platform) (c : Chunk) (side : Side) (index : Nat)
    (old new work : List UInt8) (dst : Payload) (cut : Nat) (h : Mirrored P c side index old)
    (hpos : 0 < new.length) (hle : new.length ≤ c.dataLen)
    (htorn : TornDetected P c side index old new cut) :
    (reloadAfterCut P c new work dst index cut = some old ∨
      reloadAfterCut P c new work dst index cut = some new) ↔
      Survives P c side index old new cut := by
  rw [h.dataLen] at hle
  by_cases htrans : c.transId + 1 < 2 ^ 64
  · cases side
    · rw [Survives, if_pos htrans]
      exact survives_a_iff hpos hle work dst h htorn htrans
    · rw [Survives, if_pos htrans]
      exact survives_b_iff hpos hle work dst h htorn htrans
  · cases side
    · rw [Survives, if_neg htrans]
      exact survives_a_last_iff hpos hle work dst htrans h htorn
    · rw [Survives, if_neg htrans]
      exact survives_b_last_iff hpos hle work dst htrans h htorn

/-- A chunk whose regions both hold `[1, 2]`, region A the newest. -/
def sample : Chunk :=
  updated Platform.pico blank .a 0 [1, 2]

theorem sample_mirrored : Mirrored Platform.pico sample .a 0 [1, 2] :=
  mirrored_updated Platform.pico blank .a 0 [1, 2] (blank_fits 2 (by decide) (by decide))
    (by decide)

/-- Power lost with the header of region B written and none of its data. -/
theorem reloadAfterCut_sample_header :
    reloadAfterCut Platform.pico sample [7, 8] [] (Payload.ofBytes []) 0 12 = some [1, 2] ∨
      reloadAfterCut Platform.pico sample [7, 8] [] (Payload.ofBytes []) 0 12 = some [7, 8] := by
  have htorn : TornDetected Platform.pico sample .a 0 [1, 2] [7, 8] 12 := by
    intro s
    cases s <;> set_option maxRecDepth 20000 in decide
  refine (reloadAfterCut_atomic_iff Platform.pico sample .a 0 [1, 2] [7, 8] []
    (Payload.ofBytes []) 12 sample_mirrored (by decide) (by decide) htorn).mpr ?_
  exact .inr (.inl (by decide))

/-- Power lost after one more byte: the new first byte is delivered with the old
second one. -/
theorem reloadAfterCut_sample_mixed :
    Mirrored Platform.pico sample .a 0 [1, 2] ∧
      TornDetected Platform.pico sample .a 0 [1, 2] [7, 8] 13 ∧
      reloadAfterCut Platform.pico sample [7, 8] [] (Payload.ofBytes []) 0 13 =
        some [7, 2] := by
  refine ⟨sample_mirrored, ?_, by set_option maxRecDepth 20000 in decide⟩
  intro s
  cases s <;> set_option maxRecDepth 20000 in decide

end ColonyPico.Persistent.PowerFail
