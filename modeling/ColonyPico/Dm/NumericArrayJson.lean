import ColonyPico.Dm.ArrayElements
import ColonyPico.Json.Variant

/-!
Setting a numeric array model point from JSON (`NumericArrayBase_::fromJSON_()`).
-/

namespace ColonyPico.Dm.NumericArrayJson

open ColonyPico.Foundations.ByteStore
open ColonyPico.Foundations.ByteMemory
open ColonyPico.Json.Variant
open ColonyPico.Dm.ModelPoint
open ColonyPico.Dm.LockState
open ColonyPico.Dm.ArrayElements

/-- `OPTION_CPL_DM_MP_ARRAY_TEMP_ARRAY_NUM_ELEMENTS`. -/
def tempArrayNumElements : Nat := 8

/-- What `fromJSON_()` leaves: its result, the point, and the caller's variables. -/
structure FromJson where
  result : Bool
  mp : Mp
  retSequenceNumber : Nat
  errorMsg : Option String

/-- An assignment to the error string, when there is one. -/
def report (errorMsg : Option String) (text : String) : Option String :=
  errorMsg.map fun _ => text

section Code

variable (w : Nat) (converter : Converter) (numElements : Nat) (stack : Memory)

/-- The loop that updates the point in chunks; `stack` is what is behind `tempArray`. -/
def storeElems (elems : List (JsonVariant Float)) (startIdx : Nat) (lockRequest : LockRequest)
    (errorMsg : Option String) : (fuel : Nat) → (p : Mp) → (retSequenceNumber offset : Nat) →
      (remaining : Nat) → Option FromJson
  | 0, p, retSequenceNumber, _, _ =>
      some { result := true, mp := p, retSequenceNumber := retSequenceNumber, errorMsg := errorMsg }
  | fuel + 1, p, retSequenceNumber, offset, remaining =>
      if remaining = 0 then
        some
          { result := true, mp := p, retSequenceNumber := retSequenceNumber, errorMsg := errorMsg }
      else
        let idx := min remaining tempArrayNumElements
        -- the elements that are checked are not those that are stored
        if (elems.take idx).all converter.checkJson = false then
          some
            { result := false
              mp := p
              retSequenceNumber := retSequenceNumber
              errorMsg := report errorMsg
                ("Failed parsing element[" ++ toString offset ++
                  "]. Content of the MP is suspect!") }
        else
          let tempArray := ((elems.drop offset).take idx).flatMap converter.fromJson
          match writeArrayElements w numElements converter.size p (memoryOf tempArray stack) idx
              ((startIdx + offset) % 2 ^ w) lockRequest with
          | none => none
          | some p' =>
              storeElems elems startIdx lockRequest errorMsg fuel p' p'.seqNum (offset + idx)
                (remaining - idx)

/-- The conversion of an `int` to `size_t`. -/
def toSize (n : Int) : Nat :=
  (n % 2 ^ w).toNat

/-- `fromJSON_()`; none when it touches memory that is not the array's. -/
def fromJSON (p : Mp) (src : JsonVariant Float) (lockRequest : LockRequest)
    (retSequenceNumber : Nat) (errorMsg : Option String) : Option FromJson :=
  let failure (text : String) : Option FromJson :=
    some
      { result := false
        mp := p
        retSequenceNumber := retSequenceNumber
        errorMsg := report errorMsg text }
  if src.isObject = false then failure "'val' key/value pair is NOT an JSON object"
  else
    match (src.getMember "elems").asArray with
    | none => failure "'val' key/value pair is missing the embedded 'elems' array"
    | some elems =>
        let startIdx := toSize w ((src.getMember "start").intOr 0)
        if numElements < (elems.length + startIdx) % 2 ^ w then
          failure
            ("Number of array elements ([" ++ toString startIdx ++ "+" ++
              toString elems.length ++ ")] exceeds the MP's element count (" ++
              toString numElements ++ ")")
        else
          storeElems w converter numElements stack elems startIdx lockRequest errorMsg
            elems.length p retSequenceNumber 0 elems.length

end Code

section Specification

variable (w : Nat) (converter : Converter) (numElements : Nat) (stack : Memory)

/-- A JSON object with an `elems` array and a `start` index, zero if there is none. -/
structure Request (src : JsonVariant Float) (elems : List (JsonVariant Float)) (start : Int) :
    Prop where
  isObject : src.isObject = true
  elems : (src.getMember "elems").asArray = some elems
  start : src.getMember "start" = .integer start ∨
    (src.getMember "start").isNull = true ∧ start = 0

/-- Every element is of the array's type and has a place in the array. -/
def IsValid (elems : List (JsonVariant Float)) (start : Int) : Prop :=
  (∀ elem ∈ elems, converter.checkJson elem = true) ∧
    0 ≤ start ∧ start + elems.length ≤ numElements

/-- The result tells whether the request is valid; a valid one has been stored, if the lock let
it, in its elements alone, and any other has changed nothing. -/
def ValidatesAndStores (p : Mp) (src : JsonVariant Float) (elems : List (JsonVariant Float))
    (start : Int) (lockRequest : LockRequest) (retSequenceNumber : Nat)
    (errorMsg : Option String) : Prop :=
  ∃ r, fromJSON w converter numElements stack p src lockRequest retSequenceNumber errorMsg =
      some r ∧
    (r.result = true ↔ IsValid converter numElements elems start) ∧
    (r.result = false → r.mp = p) ∧
    (r.result = true → ∀ i, r.mp.data[i]? =
      if (testAndUpdateLock p.locked lockRequest).2 = true ∧
          start.toNat * converter.size ≤ i ∧
          i < (start.toNat + elems.length) * converter.size
      then (elems.flatMap converter.fromJson)[i - start.toNat * converter.size]? else p.data[i]?)

/-- The request is turned down, for the start index as it is converted or for one of the elements
that are looked at; or it is valid, given that those elements are. -/
def Settled (elems : List (JsonVariant Float)) (start : Int) : Prop :=
  (∃ elem ∈ elems.take tempArrayNumElements, converter.checkJson elem = false) ∨
    if JsonVariant.IsInt start then
      if start < 0 then elems.length < -start ∨ numElements < start + elems.length
      else
        (numElements < (start + elems.length) % 2 ^ w) ∨
          start + elems.length ≤ numElements ∧
            ∀ elem ∈ elems.drop tempArrayNumElements, converter.checkJson elem = true
    else numElements < elems.length

end Specification

section Chunk

variable {w : Nat} {converter : Converter} {numElements : Nat} {p : Mp}

theorem testAndUpdateLock_again (locked : Bool) (lockRequest : LockRequest) :
    (testAndUpdateLock (testAndUpdateLock locked lockRequest).1 lockRequest).2 =
      (testAndUpdateLock locked lockRequest).2 := by
  cases locked <;> cases lockRequest <;> rfl

theorem writeArrayElements_chunk (hstorage : numElements * converter.size < 2 ^ w)
    (hdata : p.data.length = numElements * converter.size) {index count : Nat}
    (hfit : index + count ≤ numElements) {tempArray : List UInt8}
    (hlen : tempArray.length = count * converter.size) (stack : Memory)
    (lockRequest : LockRequest) :
    ∃ p', writeArrayElements w numElements converter.size p (memoryOf tempArray stack) count
        index lockRequest = some p' ∧
      p'.data = (if (testAndUpdateLock p.locked lockRequest).2
        then overwrite p.data (index * converter.size) tempArray else p.data) ∧
      (testAndUpdateLock p'.locked lockRequest).2 = (testAndUpdateLock p.locked lockRequest).2 := by
  have hnum : numElements < 2 ^ w :=
    lt_of_le_of_lt (Nat.le_mul_of_pos_right _ converter.size_pos) hstorage
  have htransfer : Transferable w numElements converter.size index count :=
    .inl ⟨by omega, by omega⟩
  have hcopy : putElements numElements converter.size p.data
      ⟨memoryOf tempArray stack, count, index⟩ =
        overwrite p.data (index * converter.size) tempArray := by
    have hinside : insideCount numElements ⟨memoryOf tempArray stack, count, index⟩ = count := by
      rw [insideCount, Nat.min_eq_right hfit, Nat.add_sub_cancel_left]
    have hload := startsWith_memoryOf tempArray stack
    rw [StartsWith, hlen] at hload
    rw [putElements, hinside, hload]
  refine ⟨_, writeArrayElements_of_transferable ⟨memoryOf tempArray stack, count, index⟩
    converter.size_pos hstorage (by simp only; omega) htransfer hdata lockRequest, ?_, ?_⟩
  · rw [data_writeElements hdata, hcopy]
  · exact testAndUpdateLock_again p.locked lockRequest

end Chunk

section Loop

variable {w : Nat} {converter : Converter} {numElements : Nat} {stack : Memory}
  {elems : List (JsonVariant Float)} {startIdx : Nat} {lockRequest : LockRequest}
  {errorMsg : Option String}

theorem all_take_of_checked
    (hchecked : ∀ elem ∈ elems.take tempArrayNumElements, converter.checkJson elem = true)
    (remaining : Nat) :
    (elems.take (min remaining tempArrayNumElements)).all converter.checkJson = true := by
  rw [List.all_eq_true]
  intro elem helem
  exact hchecked elem (List.take_subset_take_left elems (Nat.min_le_right _ _) helem)

theorem result_storeElems
    (hchecked : ∀ elem ∈ elems.take tempArrayNumElements, converter.checkJson elem = true)
    {fuel : Nat} {p : Mp} {retSequenceNumber offset remaining : Nat} {r : FromJson}
    (hrun : storeElems w converter numElements stack elems startIdx lockRequest errorMsg fuel p
      retSequenceNumber offset remaining = some r) : r.result = true := by
  induction fuel generalizing p retSequenceNumber offset remaining with
  | zero =>
      cases hrun
      rfl
  | succ fuel ih =>
      rw [storeElems] at hrun
      rcases eq_or_ne remaining 0 with hdone | hmore
      · rw [if_pos hdone] at hrun
        cases hrun
        rfl
      · simp only [if_neg hmore, all_take_of_checked hchecked, Bool.true_eq_false, if_false] at hrun
        split at hrun
        · cases hrun
        · exact ih hrun

theorem storeElems_done {fuel : Nat} {p : Mp} (retSequenceNumber offset : Nat) :
    storeElems w converter numElements stack elems startIdx lockRequest errorMsg fuel p
        retSequenceNumber offset 0 =
      some
        { result := true, mp := p, retSequenceNumber := retSequenceNumber, errorMsg := errorMsg } := by
  cases fuel with
  | zero => rfl
  | succ fuel => exact if_pos rfl

/-- From any chunk on, the loop stores the elements that are left. -/
theorem storeElems_of_fit (hstorage : numElements * converter.size < 2 ^ w)
    (hchecked : ∀ elem ∈ elems.take tempArrayNumElements, converter.checkJson elem = true)
    (hfit : startIdx + elems.length ≤ numElements) {fuel : Nat} {p : Mp}
    (hdata : p.data.length = numElements * converter.size) (retSequenceNumber : Nat)
    {offset remaining : Nat} (hoffset : offset + remaining = elems.length)
    (hfuel : remaining ≤ fuel) :
    ∃ r, storeElems w converter numElements stack elems startIdx lockRequest errorMsg fuel p
        retSequenceNumber offset remaining = some r ∧
      r.mp.data = if (testAndUpdateLock p.locked lockRequest).2
        then overwrite p.data ((startIdx + offset) * converter.size)
          ((elems.drop offset).flatMap converter.fromJson) else p.data := by
  induction fuel generalizing p retSequenceNumber offset remaining with
  | zero =>
      obtain rfl : remaining = 0 := by omega
      refine ⟨_, storeElems_done _ _, ?_⟩
      rw [List.drop_eq_nil_of_le (by omega), List.flatMap_nil, overwrite_nil, ite_self]
  | succ fuel ih =>
      rcases eq_or_ne remaining 0 with rfl | hmore
      · refine ⟨_, storeElems_done _ _, ?_⟩
        rw [List.drop_eq_nil_of_le (by omega), List.flatMap_nil, overwrite_nil, ite_self]
      · have hnum : numElements < 2 ^ w :=
          lt_of_le_of_lt (Nat.le_mul_of_pos_right _ converter.size_pos) hstorage
        have hall := all_take_of_checked hchecked remaining
        have hpos : 0 < min remaining tempArrayNumElements := by
          rw [tempArrayNumElements]
          omega
        have hle : min remaining tempArrayNumElements ≤ remaining := Nat.min_le_left _ _
        rw [storeElems]
        simp only [if_neg hmore, hall, Bool.true_eq_false, if_false,
          Nat.mod_eq_of_lt (by omega : startIdx + offset < 2 ^ w)]
        generalize min remaining tempArrayNumElements = idx at hpos hle
        have hlen : (((elems.drop offset).take idx).flatMap converter.fromJson).length =
            idx * converter.size := by
          rw [converter.length_flatMap_fromJson, List.length_take, List.length_drop,
            Nat.min_eq_left (by omega)]
        obtain ⟨p', hwrite, hdata', hlock⟩ := writeArrayElements_chunk hstorage hdata
          (by omega : startIdx + offset + idx ≤ numElements) hlen stack lockRequest
        have hcover : (startIdx + offset) * converter.size + idx * converter.size ≤
            p.data.length := by
          rw [hdata, ← Nat.add_mul]
          exact Nat.mul_le_mul_right _ (by omega)
        have hsize : p'.data.length = numElements * converter.size := by
          rw [hdata', ← hdata]
          split_ifs
          · exact length_overwrite _ _ _ (by rw [hlen]; exact hcover)
          · rfl
        obtain ⟨r, hrun, hstored⟩ := ih hsize p'.seqNum
          (by omega : offset + idx + (remaining - idx) = elems.length) (by omega)
        rw [hwrite]
        refine ⟨r, hrun, ?_⟩
        rw [hstored, hlock, hdata']
        split_ifs
        · rw [← Nat.add_assoc, Nat.add_mul _ idx, ← hlen, overwrite_overwrite_append _ _ _ _ (by
              rw [hlen]
              exact hcover), ← List.flatMap_append, ← List.drop_drop, List.take_append_drop]
        · rfl

end Loop

section StartIndex

variable {w numElements : Nat} {count : Nat} {start : Int}

theorem startIdx_of_nonneg (hw : 32 ≤ w) (hint : JsonVariant.IsInt start) (hstart : 0 ≤ start) :
    toSize w start = start.toNat := by
  have hpow : (2 : Int) ^ 32 ≤ 2 ^ w := pow_le_pow_right₀ (by decide) hw
  have hlt : start < 2 ^ w := lt_of_lt_of_le hint.2 (le_trans (by decide) hpow)
  rw [toSize, Int.emod_eq_of_lt hstart hlt]

theorem startIdx_of_neg (hw : 32 ≤ w) (hint : JsonVariant.IsInt start) (hstart : start < 0) :
    (toSize w start : Int) = 2 ^ w + start := by
  have hpow : (2 : Int) ^ 32 ≤ 2 ^ w := pow_le_pow_right₀ (by decide) hw
  have hlow := hint.1
  rw [toSize, ← Int.add_emod_left, Int.emod_eq_of_lt (by omega) (by omega),
    Int.toNat_of_nonneg (by omega)]

variable (start) in
theorem check_iff (hw : 32 ≤ w) (hnum : numElements < 2 ^ 31) (hcount : count < 2 ^ w) :
    numElements < (count + toSize w (if JsonVariant.IsInt start then start else 0)) % 2 ^ w ↔
      if JsonVariant.IsInt start then
        if start < 0 then count < -start ∨ numElements < start + count
        else numElements < (start + count) % 2 ^ w
      else numElements < count := by
  split_ifs with hint hneg
  · have hpow : 2 ^ 32 ≤ 2 ^ w := Nat.pow_le_pow_right (by decide) hw
    have hlow := hint.1
    have hidx := startIdx_of_neg hw hint hneg
    generalize toSize w start = startIdx at hidx
    have hidx' : (startIdx : Int) = ((2 ^ w : Nat) : Int) + start := by
      rw [hidx]
      push_cast
      rfl
    rcases Nat.lt_or_ge (count + startIdx) (2 ^ w) with hlt | hge
    · rw [Nat.mod_eq_of_lt hlt]
      omega
    · rw [Nat.mod_eq_sub_mod hge, Nat.mod_eq_of_lt (by omega)]
      omega
  · obtain ⟨n, rfl⟩ := Int.eq_ofNat_of_zero_le (not_lt.mp hneg)
    rw [startIdx_of_nonneg hw hint (not_lt.mp hneg), Int.toNat_natCast, Nat.add_comm]
    norm_cast
  · have hzero : toSize w 0 = 0 := by
      rw [toSize, Int.zero_emod]
      rfl
    rw [hzero, Nat.add_zero, Nat.mod_eq_of_lt hcount]

end StartIndex

section Settle

variable {w : Nat} {converter : Converter} {numElements : Nat} {stack : Memory} {p : Mp}
  {src : JsonVariant Float} {elems : List (JsonVariant Float)} {start : Int}
  {lockRequest : LockRequest} {retSequenceNumber : Nat} {errorMsg : Option String}

theorem startIdx_of_request (hrequest : Request src elems start) :
    (src.getMember "start").intOr 0 = if JsonVariant.IsInt start then start else 0 := by
  rcases hrequest.start with hinteger | ⟨hnull, rfl⟩
  · rw [hinteger, JsonVariant.intOr]
  · cases hmember : src.getMember "start" with
    | null => rfl
    | _ => rw [hmember] at hnull; cases hnull

theorem fromJSON_of_request (hrequest : Request src elems start) :
    fromJSON w converter numElements stack p src lockRequest retSequenceNumber errorMsg =
      if numElements <
          (elems.length + toSize w (if JsonVariant.IsInt start then start else 0)) % 2 ^ w then
        some
          { result := false
            mp := p
            retSequenceNumber := retSequenceNumber
            errorMsg := report errorMsg
              ("Number of array elements ([" ++
                toString (toSize w (if JsonVariant.IsInt start then start else 0)) ++ "+" ++
                  toString elems.length ++ ")] exceeds the MP's element count (" ++
                  toString numElements ++ ")") }
      else
        storeElems w converter numElements stack elems
          (toSize w (if JsonVariant.IsInt start then start else 0)) lockRequest errorMsg
          elems.length p retSequenceNumber 0 elems.length := by
  simp only [fromJSON, hrequest.isObject, hrequest.elems, startIdx_of_request hrequest,
    Bool.true_eq_false, if_false]

/-- A wrong element among those that are checked fails the first chunk. -/
theorem storeElems_of_unchecked
    (hwrong : ∃ elem ∈ elems.take tempArrayNumElements, converter.checkJson elem = false)
    (startIdx : Nat) :
    ∃ r, storeElems w converter numElements stack elems startIdx lockRequest errorMsg
        elems.length p retSequenceNumber 0 elems.length = some r ∧
      r.result = false ∧ r.mp = p := by
  obtain ⟨elem, helem, hcheck⟩ := hwrong
  cases hlength : elems.length with
  | zero =>
      rw [List.length_eq_zero_iff.mp hlength] at helem
      cases helem
  | succ count =>
      have hall : (elems.take (min (count + 1) tempArrayNumElements)).all converter.checkJson =
          false := by
        rw [List.all_eq_false]
        refine ⟨elem, ?_, by rw [hcheck]; exact Bool.false_ne_true⟩
        rw [Nat.min_comm, ← hlength, ← List.take_eq_take_min]
        exact helem
      rw [storeElems, if_neg (Nat.succ_ne_zero count), if_pos hall]
      exact ⟨_, rfl, rfl, rfl⟩

theorem passes_of_isValid (hw : 32 ≤ w) (hnum : numElements < 2 ^ 31)
    (hvalid : IsValid converter numElements elems start) :
    JsonVariant.IsInt start ∧ toSize w start = start.toNat ∧
      ¬ (numElements : Int) < (start + elems.length) % 2 ^ w := by
  obtain ⟨-, hstart, hfit⟩ := hvalid
  have hpow : (2 : Int) ^ 32 ≤ 2 ^ w := pow_le_pow_right₀ (by decide) hw
  have hint : JsonVariant.IsInt start := ⟨by omega, by omega⟩
  refine ⟨hint, startIdx_of_nonneg hw hint hstart, ?_⟩
  rw [Int.emod_eq_of_lt (by omega) (by omega)]
  omega

theorem getElem?_stored {first : Nat} (hdata : p.data.length = numElements * converter.size)
    (hfit : first + elems.length ≤ numElements) (permitted : Bool) (i : Nat) :
    (if permitted = true then overwrite p.data (first * converter.size)
        (elems.flatMap converter.fromJson) else p.data)[i]? =
      if permitted = true ∧ first * converter.size ≤ i ∧
          i < (first + elems.length) * converter.size
      then (elems.flatMap converter.fromJson)[i - first * converter.size]? else p.data[i]? := by
  have hstart : first * converter.size ≤ p.data.length := by
    rw [hdata]
    exact Nat.mul_le_mul_right _ (by omega)
  cases permitted with
  | false => simp
  | true =>
      rw [if_pos rfl, getElem?_overwrite _ _ _ _ hstart, converter.length_flatMap_fromJson,
        Nat.add_mul]
      simp only [true_and]
      split_ifs <;> first | rfl | omega

theorem validates_of_turnedDown {r : FromJson}
    (hrun : fromJSON w converter numElements stack p src lockRequest retSequenceNumber errorMsg =
      some r)
    (hfalse : r.result = false) (hsame : r.mp = p)
    (hinvalid : ¬ IsValid converter numElements elems start) :
    ValidatesAndStores w converter numElements stack p src elems start lockRequest
      retSequenceNumber errorMsg := by
  refine ⟨r, hrun, iff_of_false ?_ hinvalid, fun _ => hsame, fun htrue => ?_⟩
  · rw [hfalse]
    exact Bool.false_ne_true
  · rw [hfalse] at htrue
    cases htrue

/-- The check of the limits turns the request down. -/
def Limited (w numElements : Nat) (elems : List (JsonVariant Float)) (start : Int) : Prop :=
  numElements < (elems.length + toSize w (if JsonVariant.IsInt start then start else 0)) % 2 ^ w

theorem settled_of_limited (hw : 32 ≤ w) (hnum : numElements < 2 ^ 31)
    (hcount : elems.length < 2 ^ w) (hlimit : Limited w numElements elems start) :
    Settled w converter numElements elems start := by
  rw [Limited, check_iff start hw hnum hcount] at hlimit
  refine .inr ?_
  split_ifs at hlimit ⊢ with hint hneg
  · exact hlimit
  · exact .inl hlimit
  · exact hlimit

theorem not_limited_of_isValid (hw : 32 ≤ w) (hnum : numElements < 2 ^ 31)
    (hcount : elems.length < 2 ^ w) (hvalid : IsValid converter numElements elems start) :
    ¬ Limited w numElements elems start := by
  obtain ⟨hint, -, hpass⟩ := passes_of_isValid hw hnum hvalid
  rw [Limited, check_iff start hw hnum hcount, if_pos hint, if_neg (not_lt.mpr hvalid.2.1)]
  exact hpass

theorem settled_of_isValid (hw : 32 ≤ w) (hnum : numElements < 2 ^ 31)
    (hvalid : IsValid converter numElements elems start) :
    Settled w converter numElements elems start := by
  obtain ⟨hint, -, -⟩ := passes_of_isValid hw hnum hvalid
  refine .inr ?_
  rw [if_pos hint, if_neg (not_lt.mpr hvalid.2.1)]
  exact .inr ⟨hvalid.2.2, fun elem helem => hvalid.1 elem (List.mem_of_mem_drop helem)⟩

/-- Behind both checks a request that is settled is valid. -/
theorem isValid_of_settled (hw : 32 ≤ w) (hnum : numElements < 2 ^ 31)
    (hcount : elems.length < 2 ^ w) (hlimit : ¬ Limited w numElements elems start)
    (hchecked : ∀ elem ∈ elems.take tempArrayNumElements, converter.checkJson elem = true)
    (hsettled : Settled w converter numElements elems start) :
    IsValid converter numElements elems start := by
  rw [Limited, check_iff start hw hnum hcount] at hlimit
  rcases hsettled with ⟨elem, helem, hwrong⟩ | hsettled
  · rw [hchecked elem helem] at hwrong
    cases hwrong
  split_ifs at hlimit hsettled with hint hneg
  · exact absurd hsettled hlimit
  · rcases hsettled with hover | ⟨hfit, hrest⟩
    · exact absurd hover hlimit
    refine ⟨fun elem helem => ?_, not_lt.mp hneg, hfit⟩
    rw [← List.take_append_drop tempArrayNumElements elems] at helem
    rcases List.mem_append.mp helem with hfirst | hlast
    · exact hchecked elem hfirst
    · exact hrest elem hlast
  · exact absurd hsettled hlimit

theorem validates_of_isValid (hw : 32 ≤ w) (hnum : numElements < 2 ^ 31)
    (hstorage : numElements * converter.size < 2 ^ w)
    (hdata : p.data.length = numElements * converter.size) (hcount : elems.length < 2 ^ w)
    (hrequest : Request src elems start) (hvalid : IsValid converter numElements elems start) :
    ValidatesAndStores w converter numElements stack p src elems start lockRequest
      retSequenceNumber errorMsg := by
  obtain ⟨hint, hidx, -⟩ := passes_of_isValid hw hnum hvalid
  have hlimit := not_limited_of_isValid hw hnum hcount hvalid
  rw [Limited] at hlimit
  have hchecked : ∀ elem ∈ elems.take tempArrayNumElements, converter.checkJson elem = true :=
    fun elem helem => hvalid.1 elem (List.mem_of_mem_take helem)
  have hfit : start.toNat + elems.length ≤ numElements := by
    obtain ⟨-, hstart, hfit⟩ := hvalid
    omega
  obtain ⟨r, hrun, hstored⟩ := storeElems_of_fit hstorage hchecked hfit hdata
    retSequenceNumber (Nat.zero_add elems.length) (Nat.le_refl _)
  have htrue := result_storeElems hchecked hrun
  refine ⟨r, ?_, iff_of_true htrue hvalid, fun hfalse => ?_, fun _ i => ?_⟩
  · rw [fromJSON_of_request hrequest, if_neg hlimit, if_pos hint, hidx]
    exact hrun
  · rw [htrue] at hfalse
    cases hfalse
  · rw [hstored, Nat.add_zero, List.drop_zero]
    exact getElem?_stored hdata hfit _ i

/-- A request is validated and stored as it should be, just when it is settled rightly: turned
down, or valid behind the elements that are checked. -/
theorem validatesAndStores_iff (hw : 32 ≤ w) (hnum : numElements < 2 ^ 31)
    (hstorage : numElements * converter.size < 2 ^ w)
    (hdata : p.data.length = numElements * converter.size) (hcount : elems.length < 2 ^ w)
    (hrequest : Request src elems start) :
    ValidatesAndStores w converter numElements stack p src elems start lockRequest
        retSequenceNumber errorMsg ↔
      Settled w converter numElements elems start := by
  have hcode : fromJSON w converter numElements stack p src lockRequest retSequenceNumber
      errorMsg = _ := fromJSON_of_request hrequest
  rcases Classical.em (Limited w numElements elems start) with hlimit | hlimit
  · -- the check of the limits turns it down
    rw [if_pos (by exact hlimit)] at hcode
    refine iff_of_true (validates_of_turnedDown hcode rfl rfl fun hvalid => ?_)
      (settled_of_limited hw hnum hcount hlimit)
    exact not_limited_of_isValid hw hnum hcount hvalid hlimit
  rw [if_neg (by exact hlimit)] at hcode
  rcases Classical.em (∃ elem ∈ elems.take tempArrayNumElements,
    converter.checkJson elem = false) with hwrong | hchecked
  · -- the first chunk turns it down
    obtain ⟨r, hrun, hfalse, hsame⟩ := storeElems_of_unchecked hwrong
      (toSize w (if JsonVariant.IsInt start then start else 0))
    refine iff_of_true (validates_of_turnedDown (hcode.trans hrun) hfalse hsame ?_) (.inl hwrong)
    rintro ⟨htyped, -⟩
    obtain ⟨elem, helem, hcheck⟩ := hwrong
    rw [htyped elem (List.mem_of_mem_take helem)] at hcheck
    cases hcheck
  · have hchecked' : ∀ elem ∈ elems.take tempArrayNumElements,
        converter.checkJson elem = true := by
      intro elem helem
      rw [← Bool.not_eq_false]
      exact fun hfalse => hchecked ⟨elem, helem, hfalse⟩
    constructor
    · rintro ⟨r, hrun, hresult, -, -⟩
      have htrue := result_storeElems hchecked' (hcode.symm.trans hrun)
      exact settled_of_isValid hw hnum (hresult.mp htrue)
    · intro hsettled
      have hvalid := isValid_of_settled hw hnum hcount hlimit hchecked' hsettled
      exact validates_of_isValid hw hnum hstorage hdata hcount hrequest hvalid

/-- Two elements into the middle of an array of four. -/
theorem validatesAndStores_two :
    Request (.object [("start", .integer 1), ("elems", .array [.integer 7, .integer 9])])
        [.integer 7, .integer 9] 1 ∧
      ValidatesAndStores 32 uint8 4 (fun _ => 0)
        { Point.init [0, 0, 0, 0] false with locked := false }
        (.object [("start", .integer 1), ("elems", .array [.integer 7, .integer 9])])
        [.integer 7, .integer 9] 1 .noRequest 0 none := by
  have hrequest : Request
      (.object [("start", .integer 1), ("elems", .array [.integer 7, .integer 9])])
      [.integer 7, .integer 9] 1 := ⟨rfl, rfl, .inl rfl⟩
  refine ⟨hrequest, (validatesAndStores_iff (by decide) (by decide) (by decide) rfl (by decide)
    hrequest).mpr ?_⟩
  refine .inr ?_
  rw [if_pos (by decide), if_neg (by decide)]
  refine .inr ⟨by decide, ?_⟩
  intro elem helem
  cases helem

/-- Nine elements, of which the ninth is no number: the request is accepted. -/
theorem not_validatesAndStores_nine :
    ¬ ValidatesAndStores 32 uint8 9 (fun _ => 0)
      { Point.init [0, 0, 0, 0, 0, 0, 0, 0, 0] false with locked := false }
      (.object [("start", .integer 0),
        ("elems", .array (List.replicate 8 (.integer 1) ++ [.boolean true]))])
      (List.replicate 8 (.integer 1) ++ [.boolean true]) 0 .noRequest 0 none := by
  rintro ⟨r, hrun, hresult, -, -⟩
  have haccepted := result_storeElems (w := 32) (r := r) (by decide) hrun
  obtain ⟨htyped, -⟩ := hresult.mp haccepted
  exact absurd (htyped (.boolean true) (by simp)) (by decide)

end Settle

end ColonyPico.Dm.NumericArrayJson
