import ColonyPico.Dm.PersistentRecord

/-!
Exporting a model point to a buffer and importing it from one
(`ModelPointCommon_::exportData()`, `ModelPointCommon_::importData()`), for every length of the
buffer.
-/

namespace ColonyPico.Dm.ExportImport

open ColonyPico.Foundations.ByteStore
open ColonyPico.Foundations.ByteMemory
open ColonyPico.Dm.ModelPoint
open ColonyPico.Dm.LockState
open ColonyPico.Dm.LockRule (Kind exportMetadata importMetadata getExternalSize)
open ColonyPico.Dm.PersistentRecord (Item length_exportData importData_of_startsWith)

/-- `exportData()`: the bytes exported, and what is behind the pointer after it. -/
def exportData (sizeofSizeT : Nat) (k : Kind) (p : Mp) (dstDataStream : Option Memory)
    (maxDstLength : Nat) (includeLockedState : Bool) : Nat × Option Memory :=
  match dstDataStream with
  | none => (0, none)
  | some dst =>
      -- the default argument of getExternalSize() is used here
      if getExternalSize sizeofSizeT k p false ≤ maxDstLength then
        let bytesAdded := (exportMetadata sizeofSizeT k).length
        let dst := store dst 0 (exportMetadata sizeofSizeT k)
        let dst := store dst bytesAdded p.data
        let dst := store dst (bytesAdded + p.data.length) [p.valid.toUInt8]
        let dst :=
          if includeLockedState then
            store dst (bytesAdded + p.data.length + 1) [p.locked.toUInt8]
          else dst
        (getExternalSize sizeofSizeT k p includeLockedState, some dst)
      else (0, some dst)

/-- `importData()`: the bytes consumed, and the point. -/
def importData (sizeofSizeT : Nat) (k : Kind) (p : Mp) (srcDataStream : Option Memory)
    (srcLength : Nat) (includeLockedState : Bool) : Nat × Mp :=
  match srcDataStream with
  | none => (0, p)
  | some src => LockRule.importData sizeofSizeT k p src srcLength includeLockedState

/-- Neither call goes beyond the length it is given: the counts that they return do not, an
export leaves the bytes behind it as they are, and an import does not depend on them. -/
def StaysWithin (sizeofSizeT : Nat) (k : Kind) (p : Mp) (length : Nat)
    (includeLockedState : Bool) : Prop :=
  (∀ dst dst' count,
    exportData sizeofSizeT k p (some dst) length includeLockedState = (count, some dst') →
    count ≤ length ∧ ∀ i, length ≤ i → dst' i = dst i) ∧
  ∀ src src', (∀ i, i < length → src' i = src i) →
    (importData sizeofSizeT k p (some src) length includeLockedState).1 ≤ length ∧
      importData sizeofSizeT k p (some src') length includeLockedState =
        importData sizeofSizeT k p (some src) length includeLockedState

/-- What has been exported is imported, by any point of the kind and size, as data, valid state
and, when included, lock state, from exactly the bytes exported. -/
def RoundTrips (sizeofSizeT : Nat) (k : Kind) (p : Mp) (length : Nat)
    (includeLockedState : Bool) : Prop :=
  ∀ dst dst' count,
    exportData sizeofSizeT k p (some dst) length includeLockedState = (count, some dst') →
    count ≠ 0 → ∀ (q : Mp) (srcLength : Nat), q.data.length = p.data.length → count ≤ srcLength →
      importData sizeofSizeT k q (some dst') srcLength includeLockedState =
        (count,
          { data := p.data
            valid := p.valid
            seqNum := advanceSequenceNumber q.seqNum
            locked := if includeLockedState then p.locked else q.locked })

section Export

variable (sizeofSizeT : Nat) (k : Kind) (p : Mp) (includeLockedState : Bool)

theorem exportData_of_le (dst : Memory) {maxDstLength : Nat}
    (hlen : getExternalSize sizeofSizeT k p false ≤ maxDstLength) :
    exportData sizeofSizeT k p (some dst) maxDstLength includeLockedState =
      (getExternalSize sizeofSizeT k p includeLockedState,
        some (store dst 0 (LockRule.exportData sizeofSizeT k p includeLockedState))) := by
  have hdata := store_store dst 0 (exportMetadata sizeofSizeT k) p.data
  have hvalid := store_store dst 0 (exportMetadata sizeofSizeT k ++ p.data) [p.valid.toUInt8]
  have hlocked := store_store dst 0 (exportMetadata sizeofSizeT k ++ p.data ++ [p.valid.toUInt8])
    [p.locked.toUInt8]
  rw [Nat.zero_add] at hdata hvalid hlocked
  rw [List.length_append] at hvalid hlocked
  rw [List.length_append] at hlocked
  rw [exportData, if_pos hlen]
  simp only [hdata, hvalid]
  cases includeLockedState with
  | false => simp [LockRule.exportData]
  | true =>
      rw [List.length_singleton] at hlocked
      rw [if_pos rfl, hlocked]
      simp [LockRule.exportData]

theorem exportData_of_lt (dst : Memory) {maxDstLength : Nat}
    (hlen : maxDstLength < getExternalSize sizeofSizeT k p false) :
    exportData sizeofSizeT k p (some dst) maxDstLength includeLockedState = (0, some dst) :=
  if_neg (Nat.not_le.mpr hlen)

end Export

section Import

variable {sizeofSizeT : Nat} {k : Kind} {p : Mp} {includeLockedState : Bool}

theorem importMetadata_congr {src src' : Memory}
    (hsame : ∀ i, i < (exportMetadata sizeofSizeT k).length → src' i = src i) :
    importMetadata sizeofSizeT k src' = importMetadata sizeofSizeT k src := by
  cases k with
  | array n size =>
      simp only [exportMetadata, List.length_append, length_toBytes] at hsame
      have hfirst : load src' sizeofSizeT = load src sizeofSizeT :=
        load_congr fun i hi => hsame i (by omega)
      have hsecond : load (fun i => src' (sizeofSizeT + i)) sizeofSizeT =
          load (fun i => src (sizeofSizeT + i)) sizeofSizeT :=
        load_congr fun i hi => hsame (sizeofSizeT + i) (by omega)
      simp only [importMetadata, hfirst, hsecond]
  | common => rfl
  | string => rfl
  | numeric plus minus => rfl
  | refCounter => rfl

theorem length_of_importMetadata {src : Memory} {bytesConsumed : Nat}
    (himport : importMetadata sizeofSizeT k src = some bytesConsumed) :
    bytesConsumed = (exportMetadata sizeofSizeT k).length := by
  cases k with
  | array n size =>
      simp only [importMetadata, Option.ite_none_left_eq_some, Option.some.injEq] at himport
      rw [← himport.2]
      simp [exportMetadata]
  | common => exact (Option.some.inj himport).symm
  | string => exact (Option.some.inj himport).symm
  | numeric plus minus => exact (Option.some.inj himport).symm
  | refCounter => exact (Option.some.inj himport).symm

theorem importData_congr {src src' : Memory} {srcLength : Nat}
    (hroom : getExternalSize sizeofSizeT k p includeLockedState ≤ srcLength)
    (hsame : ∀ i, i < srcLength → src' i = src i) :
    LockRule.importData sizeofSizeT k p src' srcLength includeLockedState =
      LockRule.importData sizeofSizeT k p src srcLength includeLockedState := by
  have hmetadata : importMetadata sizeofSizeT k src' = importMetadata sizeofSizeT k src :=
    importMetadata_congr fun i hi => hsame i (by rw [getExternalSize] at hroom; omega)
  rw [LockRule.importData, LockRule.importData, hmetadata]
  cases himport : importMetadata sizeofSizeT k src with
  | none => rfl
  | some bytesConsumed =>
      rw [getExternalSize, ← length_of_importMetadata himport] at hroom
      have hdata : load (fun i => src' (bytesConsumed + i)) p.data.length =
          load (fun i => src (bytesConsumed + i)) p.data.length :=
        load_congr fun i hi => hsame (bytesConsumed + i) (by omega)
      have hvalid := hsame (bytesConsumed + p.data.length) (by omega)
      cases includeLockedState with
      | false => simp only [hdata, hvalid, Bool.false_eq_true, if_false]
      | true =>
          have hlocked := hsame (bytesConsumed + (p.data.length + 1)) (by
            rw [if_pos rfl] at hroom
            omega)
          simp only [hdata, hvalid, hlocked, if_true]

theorem importData_of_lt (src : Memory) {srcLength : Nat}
    (hroom : srcLength < getExternalSize sizeofSizeT k p false) :
    LockRule.importData sizeofSizeT k p src srcLength includeLockedState = (0, p) :=
  if_neg (Nat.not_le.mpr hroom)

theorem importData_count_le (src : Memory) {srcLength : Nat}
    (hroom : getExternalSize sizeofSizeT k p includeLockedState ≤ srcLength) :
    (LockRule.importData sizeofSizeT k p src srcLength includeLockedState).1 ≤ srcLength := by
  rcases Nat.lt_or_ge srcLength (getExternalSize sizeofSizeT k p false) with hlen | hlen
  · rw [importData_of_lt src hlen]
    exact Nat.zero_le _
  · rw [LockRule.importData, if_pos hlen]
    cases importMetadata sizeofSizeT k src with
    | none => exact Nat.zero_le _
    | some bytesConsumed => exact hroom

end Import

section Boundary

variable (sizeofSizeT : Nat) (k : Kind) (p : Mp) (length : Nat) (includeLockedState : Bool)

theorem getExternalSize_lockState :
    getExternalSize sizeofSizeT k p includeLockedState =
      getExternalSize sizeofSizeT k p false + if includeLockedState then 1 else 0 := rfl

theorem staysWithin_of_room
    (hroom : length < getExternalSize sizeofSizeT k p false ∨
      getExternalSize sizeofSizeT k p includeLockedState ≤ length) :
    StaysWithin sizeofSizeT k p length includeLockedState := by
  rcases hroom with hshort | hroom
  · constructor
    · intro dst dst' count hexport
      rw [exportData_of_lt sizeofSizeT k p includeLockedState dst hshort] at hexport
      cases hexport
      exact ⟨Nat.zero_le _, fun _ _ => rfl⟩
    · intro src src' _
      show (LockRule.importData _ _ _ _ _ _).1 ≤ _ ∧
        LockRule.importData _ _ _ _ _ _ = LockRule.importData _ _ _ _ _ _
      rw [importData_of_lt src hshort, importData_of_lt src' hshort]
      exact ⟨Nat.zero_le _, rfl⟩
  · have hlen : getExternalSize sizeofSizeT k p false ≤ length := by
      rw [getExternalSize_lockState] at hroom
      omega
    constructor
    · intro dst dst' count hexport
      rw [exportData_of_le sizeofSizeT k p includeLockedState dst hlen] at hexport
      cases hexport
      refine ⟨hroom, ?_⟩
      intro i hi
      exact store_outside _ _ _ (.inr (by rw [length_exportData]; omega))
    · intro src src' hsame
      exact ⟨importData_count_le src hroom, importData_congr hroom hsame⟩

theorem roundTrips (htyped : Item.WellTyped sizeofSizeT ⟨k, p⟩) :
    RoundTrips sizeofSizeT k p length includeLockedState := by
  intro dst dst' count hexport hcount q srcLength hsize hroom
  rcases Nat.lt_or_ge length (getExternalSize sizeofSizeT k p false) with hlen | hlen
  · rw [exportData_of_lt sizeofSizeT k p includeLockedState dst hlen] at hexport
    cases hexport
    exact absurd rfl hcount
  · rw [exportData_of_le sizeofSizeT k p includeLockedState dst hlen] at hexport
    cases hexport
    have hstream := startsWith_store dst 0 (LockRule.exportData sizeofSizeT k p includeLockedState)
    rw [suffix_zero] at hstream
    refine importData_of_startsWith htyped hsize hstream ?_
    rw [getExternalSize_lockState] at hroom
    rw [getExternalSize, hsize]
    exact le_trans (Nat.le_add_right _ _) hroom

/-- Both calls stay within the length they are given and undo each other, unless the lock state
is included and there is no room for it. -/
theorem staysWithin_and_roundTrips_iff (htyped : Item.WellTyped sizeofSizeT ⟨k, p⟩) :
    StaysWithin sizeofSizeT k p length includeLockedState ∧
        RoundTrips sizeofSizeT k p length includeLockedState ↔
      (includeLockedState = true → length ≠ getExternalSize sizeofSizeT k p false) := by
  constructor
  · rintro ⟨⟨hexport, -⟩, -⟩ rfl rfl
    have hcount := (hexport (fun _ => 0) _ _
      (exportData_of_le sizeofSizeT k p true _ (Nat.le_refl _))).1
    rw [getExternalSize_lockState, if_pos rfl] at hcount
    omega
  · intro hlength
    refine ⟨staysWithin_of_room sizeofSizeT k p length includeLockedState ?_,
      roundTrips sizeofSizeT k p length _ htyped⟩
    rw [getExternalSize_lockState sizeofSizeT k p includeLockedState]
    cases includeLockedState with
    | false => exact Nat.lt_or_ge _ _
    | true =>
        have hne := hlength rfl
        rw [if_pos rfl]
        omega

/-- An array of two bytes in a buffer of its full external size. -/
theorem staysWithin_and_roundTrips_array :
    Item.WellTyped 4 ⟨.array 2 1, { Point.init [7, 9] true with locked := true }⟩ ∧
      StaysWithin 4 (.array 2 1) { Point.init [7, 9] true with locked := true } 12 true ∧
        RoundTrips 4 (.array 2 1) { Point.init [7, 9] true with locked := true } 12 true :=
  have htyped : Item.WellTyped 4
      ⟨.array 2 1, { Point.init [7, 9] true with locked := true }⟩ := ⟨by decide, by decide⟩
  ⟨htyped, (staysWithin_and_roundTrips_iff 4 _ _ _ _ htyped).mpr (by decide)⟩

/-- In a buffer of the size without the lock state, the lock state is written behind the end. -/
theorem not_staysWithin_lockState :
    ¬ StaysWithin 4 .common { Point.init [1, 2, 3, 4] true with locked := true } 5 true := by
  rintro ⟨hexport, -⟩
  have hcount := (hexport (fun _ => 0) _ _ rfl).1
  exact absurd hcount (by decide)

end Boundary

end ColonyPico.Dm.ExportImport
