import ColonyPico.Driver.GangedStorage
import ColonyPico.Foundations.Runs
import ColonyPico.Foundations.StoreRegions

/-!
Regions on a non-volatile storage driver (`Cpl::Persistent::NVAdapter`).
Offsets and lengths are `size_t` numbers of `w` bits.
-/

namespace ColonyPico.Persistent.RegionAdapters

open ColonyPico.Driver.GangedStorage
open ColonyPico.Foundations.ByteStore
open ColonyPico.Foundations.Runs
open ColonyPico.Foundations.StoreRegions

/-- A driver is a byte array that checks ranges in `size_t` arithmetic; this is what it makes of a
range that wraps around and that its check lets through all the same. -/
structure Driver where
  writeWrapped : List UInt8 → Nat → List UInt8 → List UInt8
  readWrapped : List UInt8 → Nat → Nat → List UInt8
  length_writeWrapped : ∀ d dstOffset src, (writeWrapped d dstOffset src).length = d.length
  length_readWrapped : ∀ d srcOffset numBytesToRead,
    (readWrapped d srcOffset numBytesToRead).length = numBytesToRead

/-- What the transfer of bytes to a range that passed the check leaves in the driver. -/
def Driver.store (driver : Driver) (d : List UInt8) (dstOffset : Nat) (src : List UInt8) :
    List UInt8 :=
  if dstOffset + src.length ≤ d.length then overwrite d dstOffset src
  else driver.writeWrapped d dstOffset src

/-- `write()` of a driver; when the transfer fails, the first bytes of the range may be stored. -/
def driverWrite (w : Nat) (driver : Driver) (d : List UInt8) (dstOffset : Nat)
    (src : List UInt8) (fault : Option Nat) : Bool × List UInt8 :=
  if d.length < (dstOffset + src.length) % 2 ^ w then (false, d)
  else (fault.isNone, driver.store d dstOffset (src.take (fault.getD src.length)))

def driverRead (w : Nat) (driver : Driver) (d : List UInt8) (srcOffset numBytesToRead : Nat)
    (fault : Option Nat) : Option (List UInt8) :=
  if fault.isSome ∨ d.length < (srcOffset + numBytesToRead) % 2 ^ w then none
  else if srcOffset + numBytesToRead ≤ d.length then some (slice d srcOffset numBytesToRead)
  else some (driver.readWrapped d srcOffset numBytesToRead)

/-- `NVAdapter::write()`. -/
def nvWrite (w : Nat) (driver : Driver) (r : Region) (d : List UInt8) (offset : Nat)
    (src : List UInt8) (fault : Option Nat) : Bool × List UInt8 :=
  if r.length < (offset + src.length) % 2 ^ w then (false, d)
  else driverWrite w driver d ((offset + r.start) % 2 ^ w) src fault

/-- `NVAdapter::read()`: the bytes read, none of them when it returns zero. -/
def nvRead (w : Nat) (driver : Driver) (r : Region) (d : List UInt8) (offset bytesToRead : Nat)
    (fault : Option Nat) : List UInt8 :=
  if r.length < (offset + bytesToRead) % 2 ^ w then []
  else (driverRead w driver d ((offset + r.start) % 2 ^ w) bytesToRead fault).getD []

/-- What a call on a region returns. -/
inductive Result where
  | wrote (ok : Bool)
  | read (bytes : List UInt8)
  deriving DecidableEq, Repr

def Result.accepted : Result → Bool
  | .wrote ok => ok
  | .read bytes => !bytes.isEmpty

def nvPerform (w : Nat) (driver : Driver) (r : Region) (d : List UInt8) (call : Call)
    (fault : Option Nat) : Result × List UInt8 :=
  match call with
  | .read srcOffset numBytesToRead =>
      (.read (nvRead w driver r d srcOffset numBytesToRead fault), d)
  | .write dstOffset src =>
      let written := nvWrite w driver r d dstOffset src fault
      (.wrote written.1, written.2)

def offset : Call → Nat
  | .read srcOffset _ => srcOffset
  | .write dstOffset _ => dstOffset

def numBytes : Call → Nat
  | .read _ numBytesToRead => numBytesToRead
  | .write _ src => src.length

/-- What a store answers to a call at an address inside it. -/
def answer (store : List UInt8) (address : Nat) : Call → Result × List UInt8
  | .read _ n => (.read (slice store address n), store)
  | .write _ src => (.wrote true, overwrite store address src)

/-- The call lies inside a region. -/
def Inside (r : Region) (call : Call) : Prop :=
  offset call + numBytes call ≤ r.length

/-- A call on one of the regions, and what becomes of it in the driver. -/
structure Access (ι : Type*) where
  region : ι
  call : Call
  fault : Option Nat

variable {ι : Type*}

def step (w : Nat) (driver : Driver) (regions : ι → Region) (d : List UInt8)
    (access : Access ι) : Option (List UInt8) :=
  some (nvPerform w driver (regions access.region) d access.call access.fault).2

/-- Whatever becomes of the call in the driver, it is accepted only inside its region, it is
refused without effect outside of it, and it changes no other region. -/
def Isolated (w : Nat) (driver : Driver) (regions : ι → Region) (d : List UInt8)
    (access : Access ι) : Prop :=
  ∀ fault, let done := nvPerform w driver (regions access.region) d access.call fault
    (done.1.accepted = true → Inside (regions access.region) access.call) ∧
    (¬Inside (regions access.region) access.call → done.1.accepted = false ∧ done.2 = d) ∧
    ∀ j, j ≠ access.region → (regions j).content done.2 = (regions j).content d

/-- The end of the range does not wrap around `size_t`, or it lies behind the region all the
same. -/
def Safe (w : Nat) (r : Region) (call : Call) : Prop :=
  offset call + numBytes call < 2 ^ w ∨ r.length < (offset call + numBytes call) % 2 ^ w

section Driver

variable {w : Nat} {driver : Driver} {d : List UInt8} {dstOffset : Nat} {src : List UInt8}
  {fault : Option Nat}

theorem length_store : (driver.store d dstOffset src).length = d.length := by
  rw [Driver.store]
  split_ifs with hfit
  · exact length_overwrite _ _ _ hfit
  · exact driver.length_writeWrapped _ _ _

theorem length_driverWrite : (driverWrite w driver d dstOffset src fault).2.length = d.length := by
  rw [driverWrite]
  split_ifs
  · rfl
  · exact length_store

theorem driverRead_of_check {srcOffset n : Nat} (hcheck : ¬d.length < (srcOffset + n) % 2 ^ w) :
    driverRead w driver d srcOffset n none =
      some (if srcOffset + n ≤ d.length then slice d srcOffset n
        else driver.readWrapped d srcOffset n) := by
  simp only [driverRead, Option.isSome_none, Bool.false_eq_true, false_or, if_neg hcheck]
  split_ifs <;> rfl

/-- A range that fits shares no cell with a disjoint one, whether or not the transfer fails. -/
theorem content_driverWrite {r : Region} (hfit : dstOffset + src.length ≤ d.length)
    (h : dstOffset + src.length ≤ r.start ∨ r.stop ≤ dstOffset) :
    r.content (driverWrite w driver d dstOffset src fault).2 = r.content d := by
  have htake : (src.take (fault.getD src.length)).length ≤ src.length :=
    List.length_take_le' _ _
  rw [driverWrite]
  split_ifs
  · rfl
  · rw [Driver.store, if_pos (by omega)]
    exact content_overwrite_of_disjoint (by omega) (by omega)

end Driver

section Calls

variable {w : Nat} {driver : Driver} {r : Region} {d : List UInt8} {call : Call}
  {fault : Option Nat}

/-- A call leaves the storage as it is, or as the driver does behind a write. -/
theorem storage_nvPerform :
    (nvPerform w driver r d call fault).2 = d ∨ ∃ dstOffset src, call = .write dstOffset src ∧
      (nvPerform w driver r d call fault).2 =
        (driverWrite w driver d ((dstOffset + r.start) % 2 ^ w) src fault).2 := by
  cases call with
  | read srcOffset n => exact .inl rfl
  | write dstOffset src =>
      rw [nvPerform, nvWrite]
      dsimp only
      by_cases hcheck : r.length < (dstOffset + src.length) % 2 ^ w
      · rw [if_pos hcheck]
        exact .inl rfl
      · rw [if_neg hcheck]
        exact .inr ⟨dstOffset, src, rfl, rfl⟩

theorem length_nvPerform : (nvPerform w driver r d call fault).2.length = d.length := by
  rcases @storage_nvPerform w driver r d call fault with hsame | ⟨_, _, -, hwritten⟩
  · rw [hsame]
  · rw [hwritten]
    exact length_driverWrite

theorem nvPerform_of_refused (h : r.length < (offset call + numBytes call) % 2 ^ w) :
    (nvPerform w driver r d call fault).1.accepted = false ∧
      (nvPerform w driver r d call fault).2 = d := by
  cases call with
  | read srcOffset n =>
      have hread : nvRead w driver r d srcOffset n fault = [] := if_pos h
      rw [nvPerform, hread]
      exact ⟨rfl, rfl⟩
  | write dstOffset src =>
      have hwrite : nvWrite w driver r d dstOffset src fault = (false, d) := if_pos h
      rw [nvPerform, hwrite]
      exact ⟨rfl, rfl⟩

/-- What passes the checks of the adapter and of the driver is accepted by a driver that does not
fail. -/
theorem accepted_of_checks (hcheck : ¬r.length < (offset call + numBytes call) % 2 ^ w)
    (hdriver : ¬d.length < ((offset call + r.start) % 2 ^ w + numBytes call) % 2 ^ w)
    (hpos : 0 < numBytes call) : (nvPerform w driver r d call none).1.accepted = true := by
  cases call with
  | read srcOffset n =>
      have hload : ∃ bytes, driverRead w driver d ((srcOffset + r.start) % 2 ^ w) n none =
          some bytes ∧ bytes.length = n := by
        refine ⟨_, driverRead_of_check hdriver, ?_⟩
        split_ifs with hfit
        · exact length_slice _ _ _ hfit
        · exact driver.length_readWrapped _ _ _
      obtain ⟨bytes, hbytes, hlen⟩ := hload
      have hread : nvRead w driver r d srcOffset n none = bytes :=
        (if_neg hcheck).trans (by rw [hbytes, Option.getD_some])
      rw [nvPerform, hread]
      show (!bytes.isEmpty) = true
      rw [Bool.not_eq_true', List.isEmpty_eq_false_iff, ← List.length_pos_iff, hlen]
      exact hpos
  | write dstOffset src =>
      have hwrite : nvWrite w driver r d dstOffset src none =
          (true, driver.store d ((dstOffset + r.start) % 2 ^ w) (src.take src.length)) :=
        (if_neg hcheck).trans (if_neg hdriver)
      rw [nvPerform, hwrite]
      rfl

theorem content_nvPerform {other : Region}
    (hfit : (offset call + r.start) % 2 ^ w + numBytes call ≤ d.length)
    (h : (offset call + r.start) % 2 ^ w + numBytes call ≤ other.start ∨
      other.stop ≤ (offset call + r.start) % 2 ^ w) :
    other.content (nvPerform w driver r d call fault).2 = other.content d := by
  rcases @storage_nvPerform w driver r d call fault with hsame | ⟨dstOffset, src, rfl, hwritten⟩
  · rw [hsame]
  · rw [hwritten]
    exact content_driverWrite hfit h

theorem WellFormed.bounds (h : call.WellFormed w) :
    offset call < 2 ^ w ∧ 0 < numBytes call ∧ numBytes call < 2 ^ w := by
  cases call <;> exact h

end Calls

section Isolation

variable {w : Nat} {driver : Driver} {regions : ι → Region} {d : List UInt8}

theorem isolated_of_inside (hlayout : Layout d.length regions) (hd : d.length < 2 ^ w)
    {access : Access ι} (h : Inside (regions access.region) access.call) :
    Isolated w driver regions d access := by
  intro fault
  have hfits := hlayout.fits access.region
  refine ⟨fun _ => h, fun hnot => absurd h hnot, fun j hj => ?_⟩
  have hdisjoint := hlayout.disjoint access.region j (Ne.symm hj)
  simp only [Inside, Region.stop] at h hfits hdisjoint
  have haddress : (offset access.call + (regions access.region).start) % 2 ^ w =
      offset access.call + (regions access.region).start := Nat.mod_eq_of_lt (by omega)
  refine content_nvPerform ?_ ?_
  · rw [haddress]
    omega
  · rw [haddress, Region.stop]
    omega

/-- A range whose end wraps around `size_t` into the region ends inside the driver as well. -/
theorem driver_lets_through (hlayout : Layout d.length regions) (hd : d.length < 2 ^ w)
    {access : Access ι} (hcheck : ¬(regions access.region).length <
      (offset access.call + numBytes access.call) % 2 ^ w) :
    ¬d.length < ((offset access.call + (regions access.region).start) % 2 ^ w +
      numBytes access.call) % 2 ^ w := by
  have hfits := hlayout.fits access.region
  simp only [Region.stop] at hfits
  have hend : ((offset access.call + (regions access.region).start) % 2 ^ w +
        numBytes access.call) % 2 ^ w =
      ((offset access.call + numBytes access.call) % 2 ^ w +
        (regions access.region).start) % 2 ^ w := by
    rw [Nat.mod_add_mod, Nat.mod_add_mod, Nat.add_right_comm]
  rw [hend, Nat.mod_eq_of_lt (by omega)]
  omega

/-- A call is isolated just when the end of its range does not wrap around `size_t` into the
region. -/
theorem isolated_iff (hlayout : Layout d.length regions) (hd : d.length < 2 ^ w)
    {access : Access ι} (hcall : access.call.WellFormed w) :
    Isolated w driver regions d access ↔ Safe w (regions access.region) access.call := by
  obtain ⟨hoffset, hpos, hnum⟩ := WellFormed.bounds hcall
  have hfits := hlayout.fits access.region
  simp only [Region.stop] at hfits
  constructor
  · intro h
    by_contra hunsafe
    rw [Safe, not_or] at hunsafe
    obtain ⟨hwraps, hcheck⟩ := hunsafe
    have haccepted := @accepted_of_checks w driver _ _ _ hcheck
      (driver_lets_through hlayout hd hcheck) hpos
    have hinside := (h none).1 haccepted
    rw [Inside] at hinside
    omega
  · intro hsafe
    by_cases hcheck : (regions access.region).length <
        (offset access.call + numBytes access.call) % 2 ^ w
    · intro fault
      obtain ⟨hrefused, hsame⟩ := @nvPerform_of_refused w driver _ d access.call fault hcheck
      dsimp only
      rw [hrefused, hsame]
      exact ⟨fun haccepted => absurd haccepted Bool.false_ne_true, fun _ => ⟨rfl, rfl⟩,
        fun _ _ => rfl⟩
    · have hnowrap := hsafe.resolve_right hcheck
      rw [Nat.mod_eq_of_lt hnowrap] at hcheck
      exact isolated_of_inside hlayout hd (Nat.le_of_not_lt hcheck)

/-- Over every sequence of calls: each is isolated just when each is safe. -/
theorem isolated_always_iff (driver : Driver) (hlayout : Layout d.length regions)
    (hd : d.length < 2 ^ w) (accesses : List (Access ι))
    (hcalls : ∀ access ∈ accesses, access.call.WellFormed w) :
    AllSteps (step w driver regions) (Isolated w driver regions) d accesses ↔
      ∀ access ∈ accesses, Safe w (regions access.region) access.call := by
  induction accesses generalizing d with
  | nil => exact iff_of_true trivial fun _ h => by cases h
  | cons access rest ih =>
      have hlen : (nvPerform w driver (regions access.region) d access.call
          access.fault).2.length = d.length := length_nvPerform
      have hrest := ih
        (d := (nvPerform w driver (regions access.region) d access.call access.fault).2)
        (by rw [hlen]; exact hlayout) (by rw [hlen]; exact hd)
        fun next hnext => hcalls next (List.mem_cons_of_mem _ hnext)
      rw [allSteps_cons rfl, isolated_iff hlayout hd (hcalls access List.mem_cons_self), hrest,
        List.forall_mem_cons]

end Isolation

section Cyclic

/-- The bytes stored one by one at addresses modulo the size. -/
def storeCyclic (d : List UInt8) (dstOffset : Nat) : List UInt8 → List UInt8
  | [] => d
  | byte :: bytes => storeCyclic (d.set (dstOffset % d.length) byte) (dstOffset + 1) bytes

theorem length_storeCyclic (d : List UInt8) (dstOffset : Nat) (src : List UInt8) :
    (storeCyclic d dstOffset src).length = d.length := by
  induction src generalizing d dstOffset with
  | nil => rfl
  | cons byte bytes ih => rw [storeCyclic, ih, List.length_set]

/-- A driver that sends its addresses to a device of that many address bits, which drops the
others. -/
def Driver.cyclic : Driver where
  writeWrapped := storeCyclic
  readWrapped d srcOffset numBytesToRead :=
    (List.range numBytesToRead).map fun i => d.getD ((srcOffset + i) % d.length) 0
  length_writeWrapped := length_storeCyclic
  length_readWrapped d srcOffset numBytesToRead := by rw [List.length_map, List.length_range]

end Cyclic

/-- Two neighbouring regions of four bytes. -/
def halves : Bool → Region
  | false => ⟨0, 4⟩
  | true => ⟨4, 4⟩

theorem halves_layout : Layout 8 halves := by
  refine ⟨fun i => ?_, fun i j hne => ?_⟩
  · cases i <;> decide
  · cases i <;> cases j <;> first | exact absurd rfl hne | decide

theorem isolated_always_halves :
    AllSteps (step 32 .cyclic halves) (Isolated 32 .cyclic halves) (List.replicate 8 0)
      [⟨false, .write 0 [1, 2, 3, 4], none⟩, ⟨true, .write 0 [5, 6, 7, 8], none⟩] :=
  (isolated_always_iff .cyclic
    (show Layout (List.replicate 8 (0 : UInt8)).length halves from halves_layout)
    (by decide) _ (by simp [Call.WellFormed])).mpr (by simp [Safe, offset, numBytes])

/-- A write of eight bytes four bytes before the top of `size_t`. -/
theorem not_isolated_wrap :
    ¬∀ (w : Nat) (driver : Driver) (regions : Bool → Region) (d : List UInt8)
      (accesses : List (Access Bool)),
      Layout d.length regions → d.length < 2 ^ w →
        (∀ access ∈ accesses, access.call.WellFormed w) →
          AllSteps (step w driver regions) (Isolated w driver regions) d accesses := by
  intro h
  have hall := h 32 .cyclic halves (List.replicate 8 0)
    [⟨true, .write (2 ^ 32 - 4) [1, 2, 3, 4, 5, 6, 7, 8], none⟩] halves_layout (by decide)
    (by simp [Call.WellFormed])
  have hkept := (hall.1 none).2.2 false (by decide)
  exact absurd hkept (by decide)

end ColonyPico.Persistent.RegionAdapters
