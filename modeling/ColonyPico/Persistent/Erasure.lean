import ColonyPico.Checksum.PolynomialCrcs
import ColonyPico.Foundations.Runs
import ColonyPico.Persistent.CrcChunk
import ColonyPico.Persistent.WriteFailures

/-!
Erasing a record by an update that stores zeros under a wrong CRC.
-/

namespace ColonyPico.Persistent.Erasure

open ColonyPico.Checksum
open ColonyPico.Checksum.Crc32EthernetFast
open ColonyPico.Foundations.ByteStore
open ColonyPico.Foundations.Runs
open ColonyPico.Persistent.Media
open ColonyPico.Persistent.WriteFailures

/-! ### Wrong check bytes -/

/-- No remainder is recognised with the check bytes of an erased record. -/
theorem isOkay_corrupted (crc : Crc32) : isOkay (accumulate crc (crcBuffer crc true)) = false := by
  rw [Bool.eq_false_iff, ne_eq, PolynomialCrcs.ethernet_recognises crc rfl]
  intro h
  have hfirst : (crc.crc >>> 24).toUInt8 ^^^ (0xA5 : UInt8) = (crc.crc >>> 24).toUInt8 :=
    (List.cons.inj h).1
  have hzero := congrArg ((crc.crc >>> 24).toUInt8 ^^^ ·) hfirst
  rw [← UInt8.xor_assoc, UInt8.xor_self, UInt8.zero_xor] at hzero
  exact absurd hzero (by decide)

/-- A read that brings as many bytes as a stretch has brings the stretch. -/
theorem read_of_holds (pace : ReadPace) {r : RegionMedia} {offset : Nat} {src : List UInt8}
    (h : Holds r.bytes offset src) (hfull : (r.read pace offset src.length).1.length = src.length) :
    (r.read pace offset src.length).1 = src := by
  rw [length_read_of_fits pace r offset _ h.1] at hfull
  rw [read_of_fits pace r offset _ h.1, hfull]
  exact h.2

/-- The read loop finds the CRC of an erased record wrong. -/
theorem isOkay_readBody_corrupted (pace : ReadPace) (s : BodyRead) (offset : Nat)
    (data : List UInt8)
    (h : Holds s.region.bytes offset (data ++ crcBuffer (accumulate s.crc data) true)) :
    isOkay (readBody pace (data.length + crcSize) s offset (data.length + crcSize)).crc = false := by
  have hlen : (data ++ crcBuffer (accumulate s.crc data) true).length = data.length + crcSize := by
    rw [List.length_append, length_crcBuffer]
  have hfit := h.1
  have hslice := h.2
  rw [hlen] at hfit hslice
  rw [(readBody_crc pace _ s offset _ (Nat.le_refl _) hfit).1, hslice, accumulate_append]
  exact isOkay_corrupted _

/-- The loaders' check of a length: it does not roll over, and the work buffer has the room. -/
theorem remaining_of_accepted {P : Platform} {length : Nat}
    (h : (length + crcSize) % P.sizeModulus ≤ P.workBufferSize ∧
      length < (length + crcSize) % P.sizeModulus) (hlength : length < P.sizeModulus) :
    (length + crcSize) % P.sizeModulus = length + crcSize := by
  rcases Nat.lt_or_ge (length + crcSize) P.sizeModulus with hlow | hhigh
  · exact Nat.mod_eq_of_lt hlow
  · have hroll := h.2
    have hlt : (length + crcSize) % P.sizeModulus < P.sizeModulus := Nat.mod_lt _ (by omega)
    have hle := Nat.mod_le (length + crcSize - P.sizeModulus) P.sizeModulus
    rw [Nat.mod_eq_sub_mod hhigh] at hroll
    have hsmall : P.sizeModulus < 256 ^ 1 := by
      simp only [crcSize] at hle hroll
      omega
    have hone : P.sizeofSizeT = 0 := by
      have := (Nat.pow_lt_pow_iff_right (by decide : 1 < 256)).mp hsmall
      omega
    have hmodulus : P.sizeModulus = 1 := by rw [Platform.sizeModulus, hone]; rfl
    omega

/-- A region with an erased copy answers a probe with no transaction ID. -/
theorem getTransactionId_erased (P : Platform) (pace : ReadPace) (region : RegionMedia)
    (work : List UInt8) (index transId : Nat) (data : List UInt8)
    (hdata : data.length < P.sizeModulus)
    (h : Holds region.bytes index (MirroredChunk.copyFields P transId data true).flatten) :
    (MirroredChunk.getTransactionId P pace region work index).transId = 0 := by
  simp only [MirroredChunk.copyFields, List.flatten_cons, List.flatten_nil, List.append_nil] at h
  obtain ⟨htid, hrest⟩ := holds_append h
  obtain ⟨hlen, hbody⟩ := holds_append hrest
  rw [length_toBytes] at hlen hbody
  rw [length_toBytes] at hbody
  have hreadTid := read_of_holds pace htid
  have hreadLen := read_of_holds pace (r := (region.read pace index MirroredChunk.transIdSize).2)
    (by rw [bytes_read]; exact hlen)
  rw [length_toBytes] at hreadTid hreadLen
  rw [MirroredChunk.getTransactionId]
  dsimp only
  by_cases hfullTid : (region.read pace index MirroredChunk.transIdSize).1.length =
      MirroredChunk.transIdSize
  · rw [if_pos hfullTid, hreadTid hfullTid]
    by_cases hfullLen : ((region.read pace index MirroredChunk.transIdSize).2.read pace
        (index + MirroredChunk.transIdSize) P.sizeofSizeT).1.length = P.sizeofSizeT
    · rw [if_pos hfullLen, hreadLen hfullLen, ofBytes_toBytes _ _ hdata]
      split_ifs with haccept hokay
      · rw [remaining_of_accepted haccept hdata, isOkay_readBody_corrupted] at hokay
        · exact absurd hokay (by decide)
        · simp only [bytes_read]
          rw [MirroredChunk.frameOffsetData, ← Nat.add_assoc]
          exact hbody
      · rfl
      · rfl
    · rw [if_neg hfullLen]
  · rw [if_neg hfullTid]

/-! ### A record stored once -/

/-- `CrcChunk::updateData()` on media whose writes may fail. -/
def crcUpdateData (P : Platform) (outcomes : Nat → Outcome) (c : CrcChunk.Chunk)
    (srcHandler : Payload) (index : Nat) (invalidate : Bool) : CrcChunk.Update :=
  let zeroed := List.replicate P.workBufferSize 0
  let data := srcHandler.getData c.dataLen
  let len := data.length
  let pulled := overwrite zeroed 0 data
  if len = 0 then
    { chunk := c, work := pulled, result := false }
  else
    let work := if invalidate then zeroed else pulled
    let lenBytes := toBytes P.sizeofSizeT len
    let written := attempt c.region index lenBytes (outcomes 0)
    let crc := accumulate reset lenBytes
    let written' := attempt written.2 (index + P.sizeofSizeT) (work.take len) (outcomes 1)
    let crc' := accumulate crc (work.take len)
    let written'' := attempt written'.2 (index + P.sizeofSizeT + len)
      (crcBuffer crc' invalidate) (outcomes 2)
    { chunk := { region := written''.2, dataLen := len }
      work := work
      result := written.1 && written'.1 && written''.1 }

theorem crcUpdateData_done (P : Platform) (c : CrcChunk.Chunk) (src : Payload) (index : Nat)
    (invalidate : Bool) :
    crcUpdateData P (fun _ => .done) c src index invalidate =
      CrcChunk.updateData P c src index invalidate :=
  rfl

section Crc

variable (P : Platform) (outcomes : Nat → Outcome) (c : CrcChunk.Chunk) (src : Payload)
  (index : Nat)

/-- Three writes that succeed, the second behind the first and the third behind the second. -/
theorem holds_of_attempts {r : RegionMedia} {xs ys zs : List UInt8} {len : Nat}
    {o1 o2 o3 : Outcome} (hys : ys.length ≤ len)
    (h1 : (attempt r index xs o1).1 = true)
    (h2 : (attempt (attempt r index xs o1).2 (index + xs.length) ys o2).1 = true)
    (h3 : (attempt (attempt (attempt r index xs o1).2 (index + xs.length) ys o2).2
      (index + xs.length + len) zs o3).1 = true) :
    let bytes := (attempt (attempt (attempt r index xs o1).2 (index + xs.length) ys o2).2
      (index + xs.length + len) zs o3).2.bytes
    Holds bytes index xs ∧ (ys.length = len → Holds bytes (index + xs.length) (ys ++ zs)) := by
  intro bytes
  have hfit1 := ((attempt_iff _ _ _ _).mp h1).2
  have hfit2 := ((attempt_iff _ _ _ _).mp h2).2
  have hfit3 := ((attempt_iff _ _ _ _).mp h3).2
  rw [length_attempt] at hfit2 hfit3
  rw [length_attempt] at hfit3
  have hbytes : bytes = overwrite (overwrite (overwrite r.bytes index xs) (index + xs.length) ys)
      (index + xs.length + len) zs := by
    show (attempt _ _ _ _).2.bytes = _
    rw [attempt_of_true h3, attempt_of_true h2, attempt_of_true h1]
  have hlen1 := length_overwrite r.bytes index xs hfit1
  have hlen2 := length_overwrite (overwrite r.bytes index xs) (index + xs.length) ys (by omega)
  rw [hbytes]
  constructor
  · have hstored := holds_overwrite r.bytes index xs hfit1
    exact (hstored.overwrite_after (Nat.le_refl _) (by omega)).overwrite_after (by omega) (by omega)
  · rintro rfl
    rw [overwrite_overwrite_append _ _ _ _ (by omega)]
    exact holds_overwrite _ _ _ (by rw [List.length_append]; omega)

/-- What an erasing update that returns true leaves in the region. -/
theorem crcUpdateData_erased (h : (crcUpdateData P outcomes c src index true).result = true) :
    let len := (src.getData c.dataLen).length
    let zeros := written P (src.getData c.dataLen) true
    let bytes := (crcUpdateData P outcomes c src index true).chunk.region.bytes
    Holds bytes index (toBytes P.sizeofSizeT len) ∧
      (zeros.length = len →
        Holds bytes (index + P.sizeofSizeT) (zeros ++
          crcBuffer (accumulate (accumulate reset (toBytes P.sizeofSizeT len)) zeros) true)) := by
  intro len zeros bytes
  by_cases hempty : len = 0
  · rw [crcUpdateData, if_pos hempty] at h
    exact absurd h Bool.false_ne_true
  · have hzeros : zeros.length ≤ len := List.length_take_le _ _
    have hlen := length_toBytes P.sizeofSizeT len
    rw [crcUpdateData, if_neg hempty] at h
    simp only [Bool.and_eq_true] at h
    have hholds := holds_of_attempts index hzeros h.1.1 (by rw [hlen]; exact h.1.2)
      (by rw [hlen]; exact h.2)
    rw [hlen] at hholds
    have hbytes : bytes = _ := congrArg (fun u => u.chunk.region.bytes)
      (show crcUpdateData P outcomes c src index true = _ by rw [crcUpdateData, if_neg hempty])
    rw [hbytes]
    exact hholds

theorem loadData_erased (pace : ReadPace) (c : CrcChunk.Chunk) (work : List UInt8) (dst : Payload)
    {len : Nat} (zeros : List UInt8) (hlen : len < P.sizeModulus)
    (hheader : Holds c.region.bytes index (toBytes P.sizeofSizeT len))
    (hbody : len ≤ P.workBufferSize → zeros.length = len ∧
      Holds c.region.bytes (index + P.sizeofSizeT) (zeros ++
        crcBuffer (accumulate (accumulate reset (toBytes P.sizeofSizeT len)) zeros) true)) :
    (CrcChunk.loadData P pace c work dst index).result = false ∧
      (CrcChunk.loadData P pace c work dst index).delivered = none := by
  have hread := read_of_holds pace hheader
  rw [length_toBytes] at hread
  rw [CrcChunk.loadData]
  dsimp only
  by_cases hfull : (c.region.read pace index P.sizeofSizeT).1.length = P.sizeofSizeT
  · rw [if_pos hfull, hread hfull, ofBytes_toBytes _ _ hlen]
    split_ifs with haccept hokay
    · have hremaining := remaining_of_accepted haccept hlen
      obtain ⟨rfl, hholds⟩ := hbody (by have := haccept.1; omega)
      rw [hremaining, isOkay_readBody_corrupted pace _ _ zeros (by rw [bytes_read]; exact hholds)]
        at hokay
      exact absurd hokay Bool.false_ne_true
    · exact ⟨rfl, rfl⟩
    · exact ⟨rfl, rfl⟩
  · rw [if_neg hfull]
    exact ⟨rfl, rfl⟩

theorem length_written_true (data : List UInt8) (h : data.length ≤ P.workBufferSize) :
    (written P data true).length = data.length := by
  simp [written, h]

end Crc

/-! ### Runs -/

/-- A fresh `start()` and `loadData()` of a record stored once find nothing. -/
def CrcErased (P : Platform) (region : RegionMedia) (index : Nat) : Prop :=
  ∀ (pace : ReadPace) (work : List UInt8) (dst : Payload),
    let load := CrcChunk.loadData P pace (CrcChunk.start P region) work dst index
    load.result = false ∧ load.delivered = none

/-- A fresh `start()` and `loadData()` of a record stored twice find nothing. -/
def MirroredErased (P : Platform) (regionA regionB : RegionMedia) (index : Nat) : Prop :=
  ∀ (pace : ReadPace) (work : List UInt8) (dst : Payload) (fresh : MirroredChunk.Chunk),
    MirroredChunk.start regionA regionB = some fresh →
      let load := MirroredChunk.loadData P pace fresh work dst index
      load.result = false ∧ load.delivered = none

/-- A call of a chunk; an update comes with what becomes of its writes. -/
inductive Operation where
  | loadData (pace : ReadPace) (work : List UInt8) (dstHandler : Payload) (index : Nat)
  | updateData (outcomes : Nat → Outcome) (srcHandler : Payload) (index : Nat) (invalidate : Bool)

def crcStep (P : Platform) (c : CrcChunk.Chunk) : Operation → Option CrcChunk.Chunk
  | .loadData pace work dst index => some (CrcChunk.loadData P pace c work dst index).chunk
  | .updateData outcomes src index invalidate =>
      some (crcUpdateData P outcomes c src index invalidate).chunk

def mirroredStep (P : Platform) (c : MirroredChunk.Chunk) : Operation → Option MirroredChunk.Chunk
  | .loadData pace work dst index => some (MirroredChunk.loadData P pace c work dst index).chunk
  | .updateData outcomes src index invalidate =>
      (updateData P outcomes c src index invalidate).map Update.chunk

/-- An erasing update that returns true erases. -/
def CrcErases (P : Platform) (c : CrcChunk.Chunk) : Operation → Prop
  | .updateData outcomes src index true =>
      let u := crcUpdateData P outcomes c src index true
      u.result = true → CrcErased P u.chunk.region index
  | _ => True

def MirroredErases (P : Platform) (c : MirroredChunk.Chunk) : Operation → Prop
  | .updateData outcomes src index true =>
      ∀ u, updateData P outcomes c src index true = some u → u.result = true →
        MirroredErased P u.chunk.regionA u.chunk.regionB index
  | _ => True

/-- The payload of an erasing update is empty, or its first copy is written, or its second is not. -/
def Intact (P : Platform) (c : MirroredChunk.Chunk) : Operation → Prop
  | .updateData outcomes src index true =>
      ∀ side, c.currentRegion = some side →
        let len := (written P (src.getData c.dataLen) true).length
        src.getData c.dataLen = [] ∨
          Accepted P outcomes 0 (c.region side.other).bytes.length index len ∨
          ¬Accepted P outcomes 4 (c.region side).bytes.length index len
  | _ => True

theorem crcErases_of_lt (P : Platform) {c : CrcChunk.Chunk} (hc : c.dataLen < P.sizeModulus)
    (operation : Operation) : CrcErases P c operation := by
  cases operation with
  | loadData pace work dst index => trivial
  | updateData outcomes src index invalidate =>
      cases invalidate with
      | false => trivial
      | true =>
          intro hresult pace work dst
          obtain ⟨hheader, hbody⟩ := crcUpdateData_erased P outcomes c src index hresult
          refine loadData_erased P index pace (CrcChunk.start P _) work dst
            (written P (src.getData c.dataLen) true) ((src.fits c.dataLen).trans_lt hc) hheader
            fun hbuffer => ?_
          have hlen := length_written_true P _ hbuffer
          exact ⟨hlen, hbody hlen⟩

theorem dataLen_crcStep_lt (P : Platform) {c next : CrcChunk.Chunk} {operation : Operation}
    (hc : c.dataLen < P.sizeModulus) (hstep : crcStep P c operation = some next) :
    next.dataLen < P.sizeModulus := by
  cases operation with
  | loadData pace work dst index =>
      obtain rfl := Option.some.inj hstep
      rw [CrcChunk.loadData]
      dsimp only
      split_ifs with hheader haccept hokay
      · have hlt := ofBytes_lt (c.region.read pace index P.sizeofSizeT).1
        rwa [hheader] at hlt
      · exact hc
      · exact hc
      · exact hc
  | updateData outcomes src index invalidate =>
      obtain rfl := Option.some.inj hstep
      rw [crcUpdateData]
      dsimp only
      by_cases hempty : (src.getData c.dataLen).length = 0
      · rw [if_pos hempty]
        exact hc
      · rw [if_neg hempty]
        exact (src.fits c.dataLen).trans_lt hc

theorem mirroredErased_of_holds (P : Platform) {regionA regionB : RegionMedia} {index : Nat}
    {data : List UInt8} (hdata : data.length < P.sizeModulus) {transA transB : Nat}
    (hA : Holds regionA.bytes index (MirroredChunk.copyFields P transA data true).flatten)
    (hB : Holds regionB.bytes index (MirroredChunk.copyFields P transB data true).flatten) :
    MirroredErased P regionA regionB index := by
  intro pace work dst fresh hfresh
  rw [MirroredChunk.start] at hfresh
  split_ifs at hfresh with hlen
  obtain rfl := Option.some.inj hfresh
  have hprobeA := getTransactionId_erased P pace regionA work index transA data hdata hA
  have hprobeB := getTransactionId_erased P pace regionB
    (MirroredChunk.getTransactionId P pace regionA work index).work index transB data hdata hB
  rw [MirroredChunk.loadData]
  dsimp only
  rw [if_pos ⟨hprobeA, hprobeB⟩]
  exact ⟨rfl, rfl⟩

theorem mirroredErases_of_intact (P : Platform) (c : MirroredChunk.Chunk) {operation : Operation}
    (hintact : Intact P c operation) : MirroredErases P c operation := by
  cases operation with
  | loadData pace work dst index => trivial
  | updateData outcomes src index invalidate =>
      cases invalidate with
      | false => trivial
      | true =>
          intro u hu hresult
          cases hcurrent : c.currentRegion with
          | none =>
              rw [updateData, if_pos hcurrent] at hu
              cases hu
          | some side =>
              have hlen : (written P (src.getData c.dataLen) true).length < P.sizeModulus := by
                have hbuffer : P.workBufferSize < P.sizeModulus := P.addressable
                have htake : (written P (src.getData c.dataLen) true).length ≤ P.workBufferSize := by
                  simp [written]
                exact htake.trans_lt hbuffer
              by_cases hdata : src.getData c.dataLen = []
              · obtain ⟨u', hu', hfalse⟩ :=
                  updateData_of_empty P outcomes c src index true hcurrent hdata
                obtain rfl := Option.some.inj (hu.symm.trans hu')
                rw [hfalse] at hresult
                cases hresult
              · obtain ⟨u', hu', hsecond, -, -, hholds, hother⟩ :=
                  updateData_spec P outcomes c src index true hcurrent hdata
                obtain rfl := Option.some.inj (hu.symm.trans hu')
                have hwritten := hsecond.mp hresult
                rcases hintact side hcurrent with hempty | hfirst | hfailed
                · exact absurd hempty hdata
                · cases side with
                  | a => exact mirroredErased_of_holds P hlen (hholds hwritten) (hother hfirst)
                  | b => exact mirroredErased_of_holds P hlen (hother hfirst) (hholds hwritten)
                · exact absurd hwritten hfailed

/-- Erasing a record stored once always erases; erasing one stored twice does so in every run in
which no erasing update loses its first copy alone. -/
theorem erasures_erase (P : Platform) :
    (∀ (region : RegionMedia) (operations : List Operation),
      AllSteps (crcStep P) (CrcErases P) (CrcChunk.start P region) operations) ∧
    ∀ (regionA regionB : RegionMedia) (c : MirroredChunk.Chunk) (operations : List Operation),
      MirroredChunk.start regionA regionB = some c →
      AllSteps (mirroredStep P) (Intact P) c operations →
      AllSteps (mirroredStep P) (MirroredErases P) c operations := by
  constructor
  · intro region operations
    have hmodulus : 0 < P.sizeModulus := (Nat.zero_le _).trans_lt P.addressable
    exact allSteps_of_invariant (fun _ _ _ hc _ hstep => dataLen_crcStep_lt P hc hstep)
      (fun _ operation hc _ => crcErases_of_lt P hc operation)
      (show (CrcChunk.start P region).dataLen < P.sizeModulus from Nat.mod_lt _ hmodulus)
      (allSteps_of_forall (fun _ _ => trivial) _ operations)
  · intro regionA regionB c operations _ hall
    exact allSteps_of_invariant (fun _ _ _ _ _ _ => trivial)
      (fun c _ _ hintact => mirroredErases_of_intact P c hintact) trivial hall

/-- Load from erased media, store a payload, erase the record. -/
def storeAndErase (outcomes : Nat → Outcome) : List Operation :=
  [.loadData ReadPace.full [] (Payload.ofBytes []) 0,
    .updateData (fun _ => .done) (Payload.ofBytes [1, 2, 3]) 0 false,
    .updateData outcomes (Payload.ofBytes [1, 2, 3]) 0 true]

theorem erasures_erase_done :
    AllSteps (mirroredStep Platform.pico) (MirroredErases Platform.pico)
      ⟨erased, erased, 0, 0, none⟩ (storeAndErase fun _ => .done) := by
  refine (erasures_erase Platform.pico).2 erased erased _ _ rfl ⟨trivial, fun c hc => ?_⟩
  obtain rfl := Option.some.inj hc
  refine ⟨trivial, fun c hc => ⟨fun side hside => .inr (.inl ?_), fun _ _ => trivial⟩⟩
  obtain rfl := Option.some.inj hc
  refine ⟨fun _ _ => rfl, ?_⟩
  cases side <;> decide

/-- The writes of the first copy fail and leave what was there. -/
theorem not_erasures_erase_first :
    ¬∀ (P : Platform) (regionA regionB : RegionMedia) (c : MirroredChunk.Chunk)
      (operations : List Operation), MirroredChunk.start regionA regionB = some c →
        AllSteps (mirroredStep P) (MirroredErases P) c operations := by
  intro h
  have hall := h Platform.pico erased erased _
    (storeAndErase fun k => if k < 4 then .failed [] else .done) rfl
  have herased := ((hall.2 _ rfl).2 _ rfl).1 _ rfl (by decide) ReadPace.full []
    (Payload.ofBytes []) _ rfl
  exact absurd herased.1 (by set_option maxRecDepth 20000 in decide)

end ColonyPico.Persistent.Erasure
