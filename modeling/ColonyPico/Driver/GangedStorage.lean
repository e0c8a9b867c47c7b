import ColonyPico.Foundations.ByteStore
import ColonyPico.Foundations.TwoDigits

/-!
Several non-volatile storage drivers as one flat address space
(`Driver::NV::Gang`). Offsets and lengths are `size_t` numbers of `w` bits.
-/

namespace ColonyPico.Driver.GangedStorage

open ColonyPico.Foundations.ByteStore
open ColonyPico.Foundations.TwoDigits

/-- A storage driver as a byte array: `write()` and `read()` succeed inside it. -/
def driverStore (d : List UInt8) (dstOffset : Nat) (srcData : List UInt8) :
    Option (List UInt8) :=
  if dstOffset + srcData.length ≤ d.length then some (overwrite d dstOffset srcData) else none

def driverLoad (d : List UInt8) (srcOffset numBytesToRead : Nat) : Option (List UInt8) :=
  if srcOffset + numBytesToRead ≤ d.length then some (slice d srcOffset numBytesToRead) else none

/-- The members of a `Gang` that reading and writing use. -/
structure Gang where
  drivers : List (List UInt8)
  totalSize : Nat
  started : Bool

/-- The constructor, which adds the sizes up. -/
def construct (w : Nat) (drivers : List (List UInt8)) : Gang :=
  { drivers := drivers
    totalSize := drivers.foldl (fun total d => (total + d.length) % 2 ^ w) 0
    started := false }

def start (g : Gang) : Gang :=
  { g with started := true }

/-- `bytesThisDriver` of `driverWrite()` and `driverRead()`. -/
def bytesThisDriver (w size normalizedOffset numBytes : Nat) : Nat :=
  if size < (normalizedOffset + numBytes) % 2 ^ w then
    (size + 2 ^ w - normalizedOffset) % 2 ^ w
  else numBytes

/-- The inner loop of `write()`, from the starting driver on: whether no byte is
left, and the drivers. -/
def writeAcross (w : Nat) : List (List UInt8) → Nat → List UInt8 → Bool × List (List UInt8)
  | [], _, src => (src.isEmpty, [])
  | d :: ds, dstOffset, src =>
      if src.isEmpty then (true, d :: ds)
      else
        let n := bytesThisDriver w d.length dstOffset src.length
        match driverStore d dstOffset (src.take n) with
        | none => (false, d :: ds)
        | some d' =>
            let rest := writeAcross w ds 0 (src.drop n)
            (rest.1, d' :: rest.2)

/-- The outer loop of `write()`, which looks for the starting driver. -/
def writeFrom (w : Nat) (dstOffset : Nat) (src : List UInt8) :
    List (List UInt8) → Nat → Nat → Bool × List (List UInt8)
  | [], _, _ => (false, [])
  | d :: ds, beginOffset, endOffset =>
      if dstOffset < (endOffset + d.length) % 2 ^ w then
        writeAcross w (d :: ds) (dstOffset - beginOffset) src
      else
        let rest := writeFrom w dstOffset src ds ((beginOffset + d.length) % 2 ^ w)
          ((endOffset + d.length) % 2 ^ w)
        (rest.1, d :: rest.2)

def write (w : Nat) (g : Gang) (dstOffset : Nat) (src : List UInt8) : Bool × Gang :=
  if g.started = false ∨ g.totalSize < (dstOffset + src.length) % 2 ^ w then (false, g)
  else
    let result := writeFrom w dstOffset src g.drivers 0 0
    (result.1, { g with drivers := result.2 })

/-- The inner loop of `read()`: the bytes read, none when it fails. -/
def readAcross (w : Nat) : List (List UInt8) → Nat → Nat → Option (List UInt8)
  | [], _, numBytesToRead => if numBytesToRead = 0 then some [] else none
  | d :: ds, srcOffset, numBytesToRead =>
      if numBytesToRead = 0 then some []
      else
        let n := bytesThisDriver w d.length srcOffset numBytesToRead
        match driverLoad d srcOffset n with
        | none => none
        | some bytes => (readAcross w ds 0 (numBytesToRead - n)).map (bytes ++ ·)

/-- The outer loop of `read()`. -/
def readFrom (w : Nat) (srcOffset numBytesToRead : Nat) :
    List (List UInt8) → Nat → Nat → Option (List UInt8)
  | [], _, _ => none
  | d :: ds, beginOffset, endOffset =>
      if srcOffset < (endOffset + d.length) % 2 ^ w then
        readAcross w (d :: ds) (srcOffset - beginOffset) numBytesToRead
      else
        readFrom w srcOffset numBytesToRead ds ((beginOffset + d.length) % 2 ^ w)
          ((endOffset + d.length) % 2 ^ w)

def read (w : Nat) (g : Gang) (srcOffset numBytesToRead : Nat) : Option (List UInt8) :=
  if g.started = false ∨ g.totalSize < (srcOffset + numBytesToRead) % 2 ^ w then none
  else readFrom w srcOffset numBytesToRead g.drivers 0 0

/-- A call on the gang. -/
inductive Call where
  | read (srcOffset numBytesToRead : Nat)
  | write (dstOffset : Nat) (srcData : List UInt8)

/-- What a call returns; a read also its bytes. -/
inductive Result where
  | read (bytes : Option (List UInt8))
  | wrote (ok : Bool)
  deriving DecidableEq

def perform (w : Nat) (g : Gang) : Call → Result × Gang
  | .read srcOffset numBytesToRead => (.read (read w g srcOffset numBytesToRead), g)
  | .write dstOffset src => (.wrote (write w g dstOffset src).1, (write w g dstOffset src).2)

/-- The same call on one byte array. -/
def performFlat (store : List UInt8) : Call → Result × List UInt8
  | .read srcOffset numBytesToRead => (.read (driverLoad store srcOffset numBytesToRead), store)
  | .write dstOffset src =>
      (.wrote (driverStore store dstOffset src).isSome,
        (driverStore store dstOffset src).getD store)

/-- Calls on the gang return and store what they do on one byte array, at every
step. -/
def ActsAs (w : Nat) : Gang → List UInt8 → List Call → Prop
  | g, store, [] => g.drivers.flatten = store
  | g, store, call :: calls =>
      g.drivers.flatten = store ∧ (perform w g call).1 = (performFlat store call).1 ∧
        ActsAs w (perform w g call).2 (performFlat store call).2 calls

/-- The arguments are `size_t` numbers and the length is positive. -/
def Call.WellFormed (w : Nat) : Call → Prop
  | .read srcOffset numBytesToRead =>
      srcOffset < 2 ^ w ∧ 0 < numBytesToRead ∧ numBytesToRead < 2 ^ w
  | .write dstOffset src => dstOffset < 2 ^ w ∧ 0 < src.length ∧ src.length < 2 ^ w

/-- The offset inside the driver that an offset of the gang falls into. -/
def localOffset : List Nat → Nat → Nat
  | [], offset => offset
  | size :: sizes, offset =>
      if offset < size then offset else localOffset sizes (offset - size)

/-- The end of a range that starts inside drivers of these sizes wraps around
`size_t`, and counted from the driver it starts in it does not. -/
def Wraps (w : Nat) (sizes : List Nat) (offset numBytes : Nat) : Prop :=
  2 ^ w ≤ offset + numBytes ∧ offset < sizes.sum ∧ localOffset sizes offset + numBytes < 2 ^ w

/-- A write does not wrap around `size_t`, or only with bytes that the end of the
store holds already. -/
def Harmless (w : Nat) (sizes : List Nat) (store : List UInt8) : Call → Prop
  | .read _ _ => True
  | .write dstOffset src =>
      Wraps w sizes dstOffset src.length →
        store.drop dstOffset = src.take (store.length - dstOffset)

/-- Every write of a sequence of calls is harmless. -/
def AllHarmless (w : Nat) (sizes : List Nat) : List UInt8 → List Call → Prop
  | _, [] => True
  | store, call :: calls =>
      Harmless w sizes store call ∧ AllHarmless w sizes (performFlat store call).2 calls

section Across

variable {w : Nat}

/-- An offset at which a loop over the drivers can go on. -/
def StartsIn (offset : Nat) : List (List UInt8) → Prop
  | [] => offset = 0
  | d :: _ => offset ≤ d.length

theorem startsIn_zero (ds : List (List UInt8)) : StartsIn 0 ds := by
  cases ds with
  | nil => rfl
  | cons d ds => exact Nat.zero_le d.length

theorem bytesThisDriver_eq {size offset numBytes : Nat} (hoffset : offset ≤ size)
    (hsize : size < 2 ^ w) (hfits : offset + numBytes < 2 ^ w) :
    bytesThisDriver w size offset numBytes = min numBytes (size - offset) := by
  rw [bytesThisDriver, Nat.mod_eq_of_lt hfits]
  split_ifs with h
  · have hsub : (size + 2 ^ w - offset) % 2 ^ w = size - offset := difference_of_le hoffset hsize
    rw [hsub, Nat.min_eq_right (by omega)]
  · rw [Nat.min_eq_left (by omega)]

/-- As long as nothing wraps, the loop stores what fits behind the offset and
succeeds if that is all. -/
theorem writeAcross_eq (ds : List (List UInt8)) {offset : Nat} {src : List UInt8}
    (hstart : StartsIn offset ds) (hsize : ds.flatten.length < 2 ^ w)
    (hfits : offset + src.length < 2 ^ w) :
    (writeAcross w ds offset src).1 = decide (offset + src.length ≤ ds.flatten.length) ∧
      (writeAcross w ds offset src).2.flatten =
        overwrite ds.flatten offset (src.take (ds.flatten.length - offset)) ∧
      (writeAcross w ds offset src).2.map List.length = ds.map List.length := by
  induction ds generalizing offset src with
  | nil =>
      have hzero : offset = 0 := hstart
      subst hzero
      refine ⟨?_, by simp [writeAcross], rfl⟩
      cases src with
      | nil => rfl
      | cons b src => simp [writeAcross]
  | cons d ds ih =>
      have hoffset : offset ≤ d.length := hstart
      have hlen : (d :: ds).flatten.length = d.length + ds.flatten.length := by simp
      rw [hlen] at hsize ⊢
      by_cases hempty : src = []
      · subst hempty
        simp [writeAcross]
        omega
      · have hbytes := bytesThisDriver_eq hoffset (by omega : d.length < 2 ^ w) hfits
        have htake : src.take (min src.length (d.length - offset)) =
            src.take (d.length - offset) := by
          rw [← List.take_take, List.take_of_length_le (by simp)]
        have hdrop : src.drop (min src.length (d.length - offset)) =
            src.drop (d.length - offset) := by
          rcases Nat.le_total src.length (d.length - offset) with h | h
          · rw [Nat.min_eq_left h, List.drop_length, List.drop_of_length_le h]
          · rw [Nat.min_eq_right h]
        have hstore : driverStore d offset (src.take (d.length - offset)) =
            some (overwrite d offset (src.take (d.length - offset))) := by
          rw [driverStore, if_pos (by rw [List.length_take]; omega)]
        obtain ⟨hok, hflat, hsizes⟩ := @ih 0 (src.drop (d.length - offset)) (startsIn_zero ds)
          (by omega) (by rw [List.length_drop]; omega)
        have hstep : writeAcross w (d :: ds) offset src =
            ((writeAcross w ds 0 (src.drop (d.length - offset))).1,
              overwrite d offset (src.take (d.length - offset)) ::
                (writeAcross w ds 0 (src.drop (d.length - offset))).2) := by
          rw [writeAcross, if_neg (by simpa using hempty)]
          simp only [hbytes, htake, hdrop, hstore]
        rw [hstep]
        refine ⟨?_, ?_, ?_⟩
        · rw [hok, List.length_drop]
          congr 1
          apply propext
          omega
        · rw [List.flatten_cons, List.flatten_cons, hflat, overwrite_append_left _ _ _ _ hoffset,
            List.take_take, List.drop_take]
          congr 3
          · omega
          · omega
        · rw [List.map_cons, hsizes, length_overwrite _ _ _ (by rw [List.length_take]; omega),
            List.map_cons]

theorem readAcross_eq (ds : List (List UInt8)) {offset numBytes : Nat}
    (hstart : StartsIn offset ds) (hsize : ds.flatten.length < 2 ^ w)
    (hfits : offset + numBytes < 2 ^ w) :
    readAcross w ds offset numBytes =
      if offset + numBytes ≤ ds.flatten.length then some (slice ds.flatten offset numBytes)
      else none := by
  induction ds generalizing offset numBytes with
  | nil =>
      have hzero : offset = 0 := hstart
      subst hzero
      rw [readAcross]
      split_ifs with h1 h2 h2
      · rw [h1]
        rfl
      · exact absurd h1 (by simpa using h2)
      · exact absurd h2 (by simpa using h1)
      · rfl
  | cons d ds ih =>
      have hoffset : offset ≤ d.length := hstart
      have hlen : (d :: ds).flatten.length = d.length + ds.flatten.length := by simp
      rw [hlen] at hsize ⊢
      rw [readAcross]
      by_cases hzero : numBytes = 0
      · subst hzero
        rw [if_pos rfl, if_pos (by omega), slice, List.take_zero]
      · rw [if_neg hzero, bytesThisDriver_eq hoffset (by omega) hfits]
        simp only [driverLoad, if_pos (by omega :
          offset + min numBytes (d.length - offset) ≤ d.length)]
        rw [@ih 0 _ (startsIn_zero ds) (by omega) (by omega), List.flatten_cons,
          slice_append_left _ _ _ _ hoffset]
        by_cases hall : offset + numBytes ≤ d.length + ds.flatten.length
        · rw [if_pos hall, if_pos (by omega), Option.map_some,
            (by omega : numBytes - min numBytes (d.length - offset) =
              numBytes - (d.length - offset))]
        · rw [if_neg hall, if_neg (by omega), Option.map_none]

/-- A range whose local end wraps looks as if it fitted into the driver. -/
theorem bytesThisDriver_of_wrap {size offset numBytes : Nat} (hoffset : offset < size)
    (hsize : size < 2 ^ w) (hbytes : numBytes < 2 ^ w) (hwrap : 2 ^ w ≤ offset + numBytes) :
    bytesThisDriver w size offset numBytes = numBytes := by
  rw [bytesThisDriver, Nat.mod_eq_sub_mod hwrap, Nat.mod_eq_of_lt (by omega),
    if_neg (by omega)]

theorem writeAcross_of_wrap {d : List UInt8} (ds : List (List UInt8)) {offset : Nat}
    {src : List UInt8} (hoffset : offset < d.length) (hsize : d.length < 2 ^ w)
    (hbytes : src.length < 2 ^ w) (hwrap : 2 ^ w ≤ offset + src.length) :
    writeAcross w (d :: ds) offset src = (false, d :: ds) := by
  have hsome : ¬ src.isEmpty = true := by
    rw [List.isEmpty_iff]
    rintro rfl
    rw [List.length_nil] at hwrap
    omega
  rw [writeAcross, if_neg hsome]
  simp only [bytesThisDriver_of_wrap hoffset hsize hbytes hwrap, List.take_length, driverStore,
    if_neg (by omega : ¬ offset + src.length ≤ d.length)]

theorem readAcross_of_wrap {d : List UInt8} (ds : List (List UInt8)) {offset numBytes : Nat}
    (hoffset : offset < d.length) (hsize : d.length < 2 ^ w) (hbytes : numBytes < 2 ^ w)
    (hwrap : 2 ^ w ≤ offset + numBytes) : readAcross w (d :: ds) offset numBytes = none := by
  rw [readAcross, if_neg (by omega)]
  simp only [bytesThisDriver_of_wrap hoffset hsize hbytes hwrap, driverLoad,
    if_neg (by omega : ¬ offset + numBytes ≤ d.length)]

end Across

section From

variable {w : Nat}

/-- What the search for the starting driver does at a driver. -/
theorem writeFrom_cons (d : List UInt8) (ds : List (List UInt8)) {offset begin : Nat}
    (src : List UInt8) (hfit : begin + (d.length + ds.flatten.length) < 2 ^ w) :
    writeFrom w offset src (d :: ds) begin begin =
      if offset < begin + d.length then writeAcross w (d :: ds) (offset - begin) src
      else ((writeFrom w offset src ds (begin + d.length) (begin + d.length)).1,
        d :: (writeFrom w offset src ds (begin + d.length) (begin + d.length)).2) := by
  rw [writeFrom, Nat.mod_eq_of_lt (by omega)]

theorem readFrom_cons (d : List UInt8) (ds : List (List UInt8)) {offset begin numBytes : Nat}
    (hfit : begin + (d.length + ds.flatten.length) < 2 ^ w) :
    readFrom w offset numBytes (d :: ds) begin begin =
      if offset < begin + d.length then readAcross w (d :: ds) (offset - begin) numBytes
      else readFrom w offset numBytes ds (begin + d.length) (begin + d.length) := by
  rw [readFrom, Nat.mod_eq_of_lt (by omega)]

theorem length_flatten_cons (d : List UInt8) (ds : List (List UInt8)) :
    (d :: ds).flatten.length = d.length + ds.flatten.length := by
  rw [List.flatten_cons, List.length_append]

theorem writeFrom_outside (ds : List (List UInt8)) {offset begin : Nat} (src : List UInt8)
    (hfit : begin + ds.flatten.length < 2 ^ w) (hout : begin + ds.flatten.length ≤ offset) :
    writeFrom w offset src ds begin begin = (false, ds) := by
  induction ds generalizing begin with
  | nil => rfl
  | cons d ds ih =>
      rw [length_flatten_cons] at hfit hout
      rw [writeFrom_cons d ds src hfit, if_neg (by omega), ih (by omega) (by omega)]

theorem writeFrom_of_wrap (ds : List (List UInt8)) {offset begin : Nat} {src : List UInt8}
    (hfit : begin + ds.flatten.length < 2 ^ w) (hbegin : begin ≤ offset)
    (hin : offset < begin + ds.flatten.length) (hbytes : src.length < 2 ^ w)
    (hwrap : 2 ^ w ≤ localOffset (ds.map List.length) (offset - begin) + src.length) :
    writeFrom w offset src ds begin begin = (false, ds) := by
  induction ds generalizing begin with
  | nil => rfl
  | cons d ds ih =>
      rw [length_flatten_cons] at hfit hin
      rw [List.map_cons, localOffset] at hwrap
      rw [writeFrom_cons d ds src hfit]
      by_cases hhere : offset < begin + d.length
      · rw [if_pos (by omega)] at hwrap
        rw [if_pos hhere, writeAcross_of_wrap ds (by omega) (by omega) hbytes hwrap]
      · rw [if_neg (by omega), Nat.sub_sub] at hwrap
        rw [if_neg hhere, ih (by omega) (by omega) (by omega) hwrap]

theorem writeFrom_eq (ds : List (List UInt8)) {offset begin : Nat} {src : List UInt8}
    (hfit : begin + ds.flatten.length < 2 ^ w) (hbegin : begin ≤ offset)
    (hin : offset < begin + ds.flatten.length)
    (hlocal : localOffset (ds.map List.length) (offset - begin) + src.length < 2 ^ w) :
    (writeFrom w offset src ds begin begin).1 =
        decide (offset - begin + src.length ≤ ds.flatten.length) ∧
      (writeFrom w offset src ds begin begin).2.flatten =
        overwrite ds.flatten (offset - begin)
          (src.take (ds.flatten.length - (offset - begin))) ∧
      (writeFrom w offset src ds begin begin).2.map List.length = ds.map List.length := by
  induction ds generalizing begin with
  | nil =>
      rw [List.flatten_nil, List.length_nil] at hin
      omega
  | cons d ds ih =>
      rw [length_flatten_cons] at hfit hin
      rw [List.map_cons, localOffset] at hlocal
      rw [writeFrom_cons d ds src hfit]
      by_cases hhere : offset < begin + d.length
      · rw [if_pos (by omega)] at hlocal
        rw [if_pos hhere]
        exact writeAcross_eq (d :: ds) (by show _ ≤ d.length; omega)
          (by rw [length_flatten_cons]; omega) hlocal
      · rw [if_neg (by omega), Nat.sub_sub] at hlocal
        rw [if_neg hhere]
        obtain ⟨hok, hflat, hsizes⟩ := ih (by omega) (by omega) (by omega) hlocal
        have hsub : offset - (begin + d.length) = offset - begin - d.length := by omega
        refine ⟨?_, ?_, ?_⟩
        · rw [hok, length_flatten_cons]
          congr 1
          apply propext
          omega
        · rw [List.flatten_cons, List.flatten_cons, hflat,
            overwrite_append_right _ _ _ _ (by omega : d.length ≤ offset - begin), hsub,
            List.length_append]
          congr 3
          omega
        · rw [List.map_cons, List.map_cons, hsizes]

theorem readFrom_eq (ds : List (List UInt8)) {offset begin numBytes : Nat}
    (hfit : begin + ds.flatten.length < 2 ^ w) (hbegin : begin ≤ offset) (hpos : 0 < numBytes)
    (hbytes : numBytes < 2 ^ w) :
    readFrom w offset numBytes ds begin begin =
      if offset - begin + numBytes ≤ ds.flatten.length then
        some (slice ds.flatten (offset - begin) numBytes)
      else none := by
  induction ds generalizing begin with
  | nil =>
      rw [readFrom, if_neg (by rw [List.flatten_nil, List.length_nil]; omega)]
  | cons d ds ih =>
      rw [length_flatten_cons] at hfit ⊢
      rw [readFrom_cons d ds hfit]
      by_cases hhere : offset < begin + d.length
      · rw [if_pos hhere]
        by_cases hlocal : offset - begin + numBytes < 2 ^ w
        · have hacross := readAcross_eq (d :: ds) (by show offset - begin ≤ d.length; omega)
            (by rw [length_flatten_cons]; omega) hlocal
          rwa [length_flatten_cons] at hacross
        · rw [readAcross_of_wrap ds (by omega) (by omega) hbytes (by omega), if_neg (by omega)]
      · rw [if_neg hhere, ih (by omega) (by omega)]
        have hsub : offset - (begin + d.length) = offset - begin - d.length := by omega
        by_cases hall : offset - begin + numBytes ≤ d.length + ds.flatten.length
        · rw [if_pos hall, if_pos (by omega), List.flatten_cons,
            slice_append_right _ _ _ _ (by omega), hsub]
        · rw [if_neg hall, if_neg (by omega)]

end From

section Calls

variable {w : Nat} {g : Gang} {sizes : List Nat}

/-- A started gang of drivers of these sizes, which add up below `size_t`. -/
structure Ready (w : Nat) (sizes : List Nat) (g : Gang) : Prop where
  started : g.started = true
  sizes_eq : g.drivers.map List.length = sizes
  totalSize : g.totalSize = sizes.sum
  lt_size : sizes.sum < 2 ^ w

theorem Ready.length_flatten (h : Ready w sizes g) : g.drivers.flatten.length = sizes.sum := by
  rw [List.length_flatten, h.sizes_eq]

theorem Ready.total_lt (h : Ready w sizes g) : g.drivers.flatten.length < 2 ^ w := by
  rw [h.length_flatten]
  exact h.lt_size

theorem Ready.read_eq (h : Ready w sizes g) {srcOffset numBytes : Nat} (hpos : 0 < numBytes)
    (hbytes : numBytes < 2 ^ w) :
    read w g srcOffset numBytes = driverLoad g.drivers.flatten srcOffset numBytes := by
  have hlen := h.length_flatten
  have hlt := h.total_lt
  have hfrom := @readFrom_eq w g.drivers srcOffset 0 numBytes (by omega) (Nat.zero_le _) hpos
    hbytes
  rw [Nat.sub_zero] at hfrom
  rw [read, h.totalSize, driverLoad]
  by_cases hcheck : sizes.sum < (srcOffset + numBytes) % 2 ^ w
  · have hmod := Nat.mod_le (srcOffset + numBytes) (2 ^ w)
    rw [if_pos (.inr hcheck), if_neg (by omega)]
  · rw [if_neg (by simp [h.started, hcheck]), hfrom]

theorem localOffset_le (sizes : List Nat) (offset : Nat) : localOffset sizes offset ≤ offset := by
  induction sizes generalizing offset with
  | nil => exact Nat.le_refl offset
  | cons size sizes ih =>
      rw [localOffset]
      split_ifs
      · exact Nat.le_refl offset
      · exact Nat.le_trans (ih (offset - size)) (Nat.sub_le _ _)

/-- A write outside the storage that does not wrap is refused. -/
theorem Ready.write_refused (h : Ready w sizes g) {dstOffset : Nat} {src : List UInt8}
    (hbytes : src.length < 2 ^ w) (hout : sizes.sum < dstOffset + src.length)
    (hwraps : ¬ Wraps w sizes dstOffset src.length) : write w g dstOffset src = (false, g) := by
  have hlen := h.length_flatten
  have hlt := h.lt_size
  rw [write, h.totalSize]
  by_cases hcheck : sizes.sum < (dstOffset + src.length) % 2 ^ w
  · rw [if_pos (.inr hcheck)]
  · rw [if_neg (by simp [h.started, hcheck])]
    -- the check was passed, so the end of the range wrapped
    have hwrap : 2 ^ w ≤ dstOffset + src.length := by
      by_contra hno
      rw [Nat.mod_eq_of_lt (by omega)] at hcheck
      exact hcheck hout
    have hsame : writeFrom w dstOffset src g.drivers 0 0 = (false, g.drivers) := by
      by_cases hin : dstOffset < sizes.sum
      · have hlocal : 2 ^ w ≤ localOffset sizes dstOffset + src.length := by
          by_contra hno
          exact hwraps ⟨hwrap, hin, by omega⟩
        apply writeFrom_of_wrap g.drivers (by omega) (Nat.zero_le _) (by omega) hbytes
        rwa [h.sizes_eq, Nat.sub_zero]
      · exact writeFrom_outside g.drivers src (by omega) (by omega)
    rw [hsame, ← h.totalSize]

/-- A write inside the storage, or one that wraps, stores what fits behind its
offset and succeeds if that is all. -/
theorem Ready.write_stores (h : Ready w sizes g) {dstOffset : Nat} {src : List UInt8}
    (hpos : 0 < src.length) (hoffset : dstOffset < 2 ^ w) (hbytes : src.length < 2 ^ w)
    (hstores : dstOffset + src.length ≤ sizes.sum ∨ Wraps w sizes dstOffset src.length) :
    (write w g dstOffset src).1 = decide (dstOffset + src.length ≤ sizes.sum) ∧
      (write w g dstOffset src).2.drivers.flatten = overwrite g.drivers.flatten dstOffset
        (src.take (sizes.sum - dstOffset)) ∧
      Ready w sizes (write w g dstOffset src).2 := by
  have hlen := h.length_flatten
  have hlt := h.lt_size
  have hpasses : (dstOffset + src.length) % 2 ^ w ≤ sizes.sum ∧ dstOffset < sizes.sum ∧
      localOffset sizes dstOffset + src.length < 2 ^ w := by
    rcases hstores with hin | ⟨hwrap, hin, hlocal⟩
    · have hle := localOffset_le sizes dstOffset
      rw [Nat.mod_eq_of_lt (by omega)]
      exact ⟨hin, by omega, by omega⟩
    · rw [Nat.mod_eq_sub_mod hwrap, Nat.mod_eq_of_lt (by omega)]
      exact ⟨by omega, hin, hlocal⟩
  obtain ⟨hcheck, hin, hlocal⟩ := hpasses
  have hlocal' : localOffset (g.drivers.map List.length) (dstOffset - 0) + src.length < 2 ^ w := by
    rwa [h.sizes_eq, Nat.sub_zero]
  obtain ⟨hok, hflat, hsizes⟩ :=
    writeFrom_eq g.drivers (by omega) (Nat.zero_le _) (by omega) hlocal'
  rw [Nat.sub_zero, hlen] at hok hflat
  rw [write, h.totalSize, if_neg (by simp [h.started, hcheck])]
  exact ⟨hok, hflat,
    { started := h.started
      sizes_eq := hsizes.trans h.sizes_eq
      totalSize := rfl
      lt_size := h.lt_size }⟩

/-- Overwriting the end of a store leaves it as it is only if that is stored
there already. -/
theorem overwrite_end_eq_iff {store xs : List UInt8} {offset : Nat}
    (hend : offset + xs.length = store.length) :
    overwrite store offset xs = store ↔ store.drop offset = xs := by
  have hsplit : overwrite store offset xs = store.take offset ++ xs := by
    rw [overwrite, List.drop_of_length_le (by omega), List.append_nil]
  rw [hsplit]
  constructor
  · intro h
    have happend := h.trans (List.take_append_drop offset store).symm
    exact (List.append_cancel_left happend).symm
  · intro h
    rw [← h, List.take_append_drop]

/-- One call acts as on one byte array exactly if it is harmless. -/
theorem Ready.perform_spec (h : Ready w sizes g) {call : Call} (hcall : call.WellFormed w) :
    (perform w g call).1 = (performFlat g.drivers.flatten call).1 ∧
      Ready w sizes (perform w g call).2 ∧
      ((perform w g call).2.drivers.flatten = (performFlat g.drivers.flatten call).2 ↔
        Harmless w sizes g.drivers.flatten call) := by
  have hlen := h.length_flatten
  cases call with
  | read srcOffset numBytes =>
      obtain ⟨-, hpos, hbytes⟩ := hcall
      refine ⟨?_, h, iff_of_true rfl trivial⟩
      rw [perform, performFlat, h.read_eq hpos hbytes]
  | write dstOffset src =>
      obtain ⟨hoffset, hpos, hbytes⟩ := hcall
      rw [perform, performFlat, driverStore, Harmless, hlen]
      by_cases hin : dstOffset + src.length ≤ sizes.sum
      · obtain ⟨hok, hflat, hready⟩ := h.write_stores hpos hoffset hbytes (.inl hin)
        rw [if_pos hin]
        refine ⟨by rw [hok, decide_eq_true hin]; rfl, hready, iff_of_true ?_ ?_⟩
        · show (write w g dstOffset src).2.drivers.flatten = _
          rw [hflat, List.take_of_length_le (by omega)]
          rfl
        · rintro ⟨hwrap, -, -⟩
          have := h.lt_size
          omega
      · rw [if_neg hin]
        by_cases hwraps : Wraps w sizes dstOffset src.length
        · obtain ⟨hok, hflat, hready⟩ := h.write_stores hpos hoffset hbytes (.inr hwraps)
          refine ⟨by rw [hok, decide_eq_false hin]; rfl, hready, ?_⟩
          show (write w g dstOffset src).2.drivers.flatten = g.drivers.flatten ↔ _
          rw [hflat, overwrite_end_eq_iff]
          · exact ⟨fun hsame _ => hsame, fun hsame => hsame hwraps⟩
          · have := hwraps.2.1
            rw [List.length_take]
            omega
        · rw [h.write_refused hbytes (by omega) hwraps]
          exact ⟨rfl, h, iff_of_true rfl fun hw => absurd hw hwraps⟩

theorem ActsAs.flatten_eq {store : List UInt8} {calls : List Call}
    (h : ActsAs w g store calls) : g.drivers.flatten = store := by
  cases calls with
  | nil => exact h
  | cons call calls => exact h.1

theorem Ready.actsAs_iff (h : Ready w sizes g) (calls : List Call)
    (hcalls : ∀ call ∈ calls, call.WellFormed w) :
    ActsAs w g g.drivers.flatten calls ↔ AllHarmless w sizes g.drivers.flatten calls := by
  induction calls generalizing g with
  | nil => exact iff_of_true rfl trivial
  | cons call calls ih =>
      obtain ⟨hresult, hready, hstored⟩ := h.perform_spec (hcalls call List.mem_cons_self)
      have hrest := ih hready fun c hc => hcalls c (List.mem_cons_of_mem _ hc)
      rw [ActsAs, AllHarmless]
      constructor
      · rintro ⟨-, -, hacts⟩
        have hsame := hacts.flatten_eq
        rw [← hsame] at hacts ⊢
        exact ⟨hstored.mp hsame, hrest.mp hacts⟩
      · rintro ⟨hharmless, hall⟩
        have hsame := hstored.mpr hharmless
        rw [← hsame] at hall ⊢
        exact ⟨rfl, hresult, hrest.mpr hall⟩

theorem foldl_sizes (drivers : List (List UInt8)) {total : Nat}
    (hfit : total + (drivers.map List.length).sum < 2 ^ w) :
    drivers.foldl (fun total d => (total + d.length) % 2 ^ w) total =
      total + (drivers.map List.length).sum := by
  induction drivers generalizing total with
  | nil => rfl
  | cons d drivers ih =>
      rw [List.map_cons, List.sum_cons] at hfit ⊢
      rw [List.foldl_cons, Nat.mod_eq_of_lt (by omega), ih (by omega), Nat.add_assoc]

theorem ready_start (drivers : List (List UInt8))
    (hfit : (drivers.map List.length).sum < 2 ^ w) :
    Ready w (drivers.map List.length) (start (construct w drivers)) :=
  { started := rfl
    sizes_eq := rfl
    totalSize := by
      have hsum := @foldl_sizes w drivers 0 (by omega)
      rw [Nat.zero_add] at hsum
      exact hsum
    lt_size := hfit }

end Calls

/-- A started gang acts as the concatenation of its drivers, exactly if no write
wraps around `size_t` with other bytes than the end of the storage holds. -/
theorem actsAs_concatenation_iff (w : Nat) (drivers : List (List UInt8))
    (hfit : (drivers.map List.length).sum < 2 ^ w) (calls : List Call)
    (hcalls : ∀ call ∈ calls, call.WellFormed w) :
    ActsAs w (start (construct w drivers)) drivers.flatten calls ↔
      AllHarmless w (drivers.map List.length) drivers.flatten calls :=
  (ready_start drivers hfit).actsAs_iff calls hcalls

theorem actsAs_concatenation_iff_three_drivers :
    ActsAs 32 (start (construct 32 [[1, 2], [3], [4, 5, 6]])) [1, 2, 3, 4, 5, 6]
      [.write 1 [7, 8, 9], .read 0 6, .write 5 [1, 1], .read 2 1] := by
  apply (actsAs_concatenation_iff 32 [[1, 2], [3], [4, 5, 6]] (by decide) _ ?_).mpr
  · simp only [AllHarmless, Harmless, Wraps]
    decide
  · simp [Call.WellFormed]

/-- Two drivers that fill the address space but for two bytes: four bytes written
to the last place are refused, and one of them is stored. -/
theorem not_harmless_end_of_size_t {big : List UInt8} (hbig : big.length = 2 ^ 32 - 4) :
    ¬ AllHarmless 32 ([big, [0, 0]].map List.length) [big, [0, 0]].flatten
      [.write (2 ^ 32 - 3) [1, 1, 1, 1]] := by
  have hsizes : [big, [0, 0]].map List.length = [2 ^ 32 - 4, 2] := by
    simp [hbig]
  have hstore : [big, [0, 0]].flatten = big ++ [0, 0] := by simp
  have hwraps : Wraps 32 [2 ^ 32 - 4, 2] (2 ^ 32 - 3) 4 :=
    ⟨by decide, by decide, by decide⟩
  rintro ⟨hharmless, -⟩
  rw [hsizes, hstore, Harmless] at hharmless
  have hbyte := congrArg (fun bytes => bytes[0]?) (hharmless hwraps)
  rw [List.length_append, hbig] at hbyte
  simp only [List.getElem?_drop] at hbyte
  rw [List.getElem?_append_right (by omega), hbig] at hbyte
  exact absurd hbyte (by decide)

theorem not_actsAs_concatenation_end_of_size_t :
    ¬ ∀ (drivers : List (List UInt8)) (_ : (drivers.map List.length).sum < 2 ^ 32)
      (calls : List Call) (_ : ∀ call ∈ calls, call.WellFormed 32),
      ActsAs 32 (start (construct 32 drivers)) drivers.flatten calls := by
  intro h
  have hbig : (List.replicate (2 ^ 32 - 4) (0 : UInt8)).length = 2 ^ 32 - 4 :=
    List.length_replicate
  have hfit : ([List.replicate (2 ^ 32 - 4) (0 : UInt8), [0, 0]].map List.length).sum <
      2 ^ 32 := by
    rw [List.map_cons, hbig]
    decide
  have hcalls : ∀ call ∈ [Call.write (2 ^ 32 - 3) [1, 1, 1, 1]], call.WellFormed 32 := by
    simp [Call.WellFormed]
  have hacts := h _ hfit _ hcalls
  exact not_harmless_end_of_size_t hbig
    (((ready_start _ hfit).actsAs_iff _ hcalls).mp hacts)

end ColonyPico.Driver.GangedStorage
