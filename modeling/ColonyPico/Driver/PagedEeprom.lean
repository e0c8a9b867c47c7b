import Mathlib.Algebra.Group.Nat.Defs
import ColonyPico.Foundations.ByteMemory

/-!
The page writes of an I2C EEPROM (`Driver::NV::Onsemi::CAT24C512::Api`). Offsets and
lengths are `size_t` numbers of `w` bits.
-/

namespace ColonyPico.Driver.PagedEeprom

open ColonyPico.Foundations.ByteMemory

/-- `OPTION_DRIVER_NV_ONSEMI_CAT24C512_NUM_PAGES`. -/
def numPages : Nat := 512

/-- `OPTION_DRIVER_NV_ONSEMI_CAT24C512_BYTES_PER_PAGE`. -/
def bytesPerPage : Nat := 128

/-- `OPTION_DRIVER_NV_ONSEMI_CAT24C512_MAX_WAIT_RETRIES`. -/
def maxWaitRetries : Nat := 6

/-! ### The device -/

/-- The address after one in its page, the last followed by the first. -/
def nextInPage (address : Nat) : Nat :=
  address - address % bytesPerPage + (address % bytesPerPage + 1) % bytesPerPage

/-- A page write of the device. -/
def pageWrite (memory : Memory) (address : Nat) : List UInt8 → Memory
  | [] => memory
  | byte :: bytes => pageWrite (store memory address [byte]) (nextInPage address) bytes

def addressOf (hi lo : UInt8) : Nat :=
  hi.toNat * 256 + lo.toNat

/-- A transaction: two address bytes, then the data. -/
def receive (memory : Memory) : List UInt8 → Memory
  | hi :: lo :: data => pageWrite memory (addressOf hi lo) data
  | _ => memory

/-- The EEPROM, the transactions it was sent, and whether the driver is started. -/
structure State where
  memory : Memory
  transactions : List (List UInt8)
  started : Bool

/-! ### The driver -/

/-- `writeToDevice()` of the I2C master. The device acknowledges the transaction with this number,
or refuses it, at once or after some of the data. -/
def writeToDevice (refuses : Nat → Option Nat) (s : State) (buffer : List UInt8) : Bool × State :=
  match refuses s.transactions.length with
  | none =>
      (true, { s with
        memory := receive s.memory buffer
        transactions := s.transactions ++ [buffer] })
  | some taken =>
      (false, { s with
        memory := receive s.memory (buffer.take (2 + taken))
        transactions := s.transactions ++ [buffer] })

/-- The loop of `writePage()`. -/
def attempts (refuses : Nat → Option Nat) (pageBuffer : List UInt8) : Nat → State → Bool × State
  | 0, s => writeToDevice refuses s pageBuffer
  | retryCount + 1, s =>
      let sent := writeToDevice refuses s pageBuffer
      if sent.1 then sent else attempts refuses pageBuffer retryCount sent.2

/-- `pageBuffer` of `writePage()`. -/
def pageBuffer (offset : Nat) (src : List UInt8) : List UInt8 :=
  UInt8.ofNat (offset / 256 % 256) :: UInt8.ofNat (offset % 256) :: src

def writePage (refuses : Nat → Option Nat) (s : State) (offset : Nat) (src : List UInt8) :
    Bool × State :=
  attempts refuses (pageBuffer offset src) maxWaitRetries s

/-- The loop of `write()`. Each pass writes at least one byte, so as many passes as bytes do. -/
def writePages (refuses : Nat → Option Nat) :
    Nat → State → Nat → List UInt8 → Nat → Bool × State
  | 0, s, _, src, _ => (src.isEmpty, s)
  | fuel + 1, s, dstOffset, src, bytesRemainingInPage =>
      if src.isEmpty then (true, s)
      else
        let bytesToWrite :=
          if bytesRemainingInPage < src.length then bytesRemainingInPage else src.length
        let page := writePage refuses s dstOffset (src.take bytesToWrite)
        if page.1 then
          writePages refuses fuel page.2 (dstOffset + bytesToWrite) (src.drop bytesToWrite)
            bytesPerPage
        else (false, page.2)

def write (w : Nat) (refuses : Nat → Option Nat) (s : State) (dstOffset : Nat)
    (src : List UInt8) : Bool × State :=
  if s.started = false ∨ numPages * bytesPerPage < (dstOffset + src.length) % 2 ^ w then (false, s)
  else
    let startPage := dstOffset / bytesPerPage
    let bytesRemainingInPage := (startPage + 1) * bytesPerPage - dstOffset
    writePages refuses src.length s dstOffset src bytesRemainingInPage

/-! ### Inside a page -/

/-- A page write that stays inside its page does not wrap. -/
theorem pageWrite_eq_store (memory : Memory) (address : Nat) (data : List UInt8)
    (h : address % bytesPerPage + data.length ≤ bytesPerPage) :
    pageWrite memory address data = store memory address data := by
  induction data generalizing memory address with
  | nil => exact (store_nil memory address).symm
  | cons byte bytes ih =>
      rw [List.length_cons] at h
      cases bytes with
      | nil => rfl
      | cons next rest =>
          rw [List.length_cons] at h
          have hnext : nextInPage address = address + 1 := by
            simp only [nextInPage, bytesPerPage] at h ⊢
            omega
          have hsame : (address + 1) % bytesPerPage = address % bytesPerPage + 1 := by
            simp only [bytesPerPage] at h ⊢
            omega
          rw [pageWrite, hnext, ih _ _ (by rw [hsame, List.length_cons]; omega)]
          exact store_store memory address [byte] (next :: rest)

theorem addressOf_pageBuffer {offset : Nat} (h : offset < numPages * bytesPerPage) :
    addressOf (UInt8.ofNat (offset / 256 % 256)) (UInt8.ofNat (offset % 256)) = offset := by
  simp only [numPages, bytesPerPage] at h
  rw [addressOf]
  simp
  omega

/-- The data of a transaction lie in one page. -/
def WithinPage (transaction : List UInt8) : Prop :=
  ∃ hi lo data, transaction = hi :: lo :: data ∧
    addressOf hi lo % bytesPerPage + data.length ≤ bytesPerPage

section Page

variable {offset : Nat} {data : List UInt8}

theorem withinPage_pageBuffer (hoffset : offset < numPages * bytesPerPage)
    (hpage : offset % bytesPerPage + data.length ≤ bytesPerPage) :
    WithinPage (pageBuffer offset data) :=
  ⟨_, _, _, rfl, by rw [addressOf_pageBuffer hoffset]; exact hpage⟩

theorem receive_take_pageBuffer (hoffset : offset < numPages * bytesPerPage)
    (hpage : offset % bytesPerPage + data.length ≤ bytesPerPage) (memory : Memory) (taken : Nat) :
    receive memory ((pageBuffer offset data).take (2 + taken)) =
      store memory offset (data.take taken) := by
  have hlen : (data.take taken).length ≤ data.length := List.length_take_le' _ _
  rw [Nat.add_comm 2 taken, pageBuffer, List.take_succ_cons, List.take_succ_cons, receive,
    addressOf_pageBuffer hoffset, pageWrite_eq_store _ _ _ (by omega)]

theorem receive_pageBuffer (hoffset : offset < numPages * bytesPerPage)
    (hpage : offset % bytesPerPage + data.length ≤ bytesPerPage) (memory : Memory) :
    receive memory (pageBuffer offset data) = store memory offset data := by
  have htake := receive_take_pageBuffer hoffset hpage memory data.length
  rwa [List.take_length, List.take_of_length_le (by simp [pageBuffer]; omega)] at htake

/-- What one step of a write leaves: `memory` with a prefix of `data`, all of it on success, after
further transactions that each stay in a page. -/
structure Leaves (memory : Memory) (offset : Nat) (data : List UInt8) (s : State)
    (done : Bool × State) : Prop where
  whole : done.1 = true → done.2.memory = store memory offset data
  part : ∃ k, done.2.memory = store memory offset (data.take k)
  log : ∃ sent, done.2.transactions = s.transactions ++ sent ∧ ∀ t ∈ sent, WithinPage t

theorem writeToDevice_leaves (refuses : Nat → Option Nat)
    (hoffset : offset < numPages * bytesPerPage)
    (hpage : offset % bytesPerPage + data.length ≤ bytesPerPage) {memory : Memory} {s : State}
    {k : Nat} (hs : s.memory = store memory offset (data.take k)) :
    Leaves memory offset data s (writeToDevice refuses s (pageBuffer offset data)) := by
  have hwithin := withinPage_pageBuffer hoffset hpage
  rw [writeToDevice]
  cases refuses s.transactions.length with
  | none =>
      have hall : receive s.memory (pageBuffer offset data) = store memory offset data := by
        have hover := store_take_store_take memory offset data k data.length
        rw [receive_pageBuffer hoffset hpage, hs]
        rwa [List.take_length, List.take_of_length_le (Nat.le_max_right k data.length)] at hover
      refine ⟨fun _ => hall, ⟨data.length, ?_⟩, [pageBuffer offset data], rfl, by simpa using hwithin⟩
      rw [List.take_length]
      exact hall
  | some taken =>
      refine ⟨fun h => absurd h Bool.false_ne_true, ⟨max k taken, ?_⟩, [pageBuffer offset data],
        rfl, by simpa using hwithin⟩
      show receive s.memory _ = _
      rw [receive_take_pageBuffer hoffset hpage, hs, store_take_store_take]

theorem attempts_leaves (refuses : Nat → Option Nat) (hoffset : offset < numPages * bytesPerPage)
    (hpage : offset % bytesPerPage + data.length ≤ bytesPerPage) {memory : Memory}
    (retryCount : Nat) {s : State} {k : Nat}
    (hs : s.memory = store memory offset (data.take k)) :
    Leaves memory offset data s (attempts refuses (pageBuffer offset data) retryCount s) := by
  induction retryCount generalizing s k with
  | zero => exact writeToDevice_leaves refuses hoffset hpage hs
  | succ retryCount ih =>
      have hsent := writeToDevice_leaves refuses hoffset hpage hs
      rw [attempts]
      split_ifs with hok
      · exact hsent
      · obtain ⟨j, hj⟩ := hsent.part
        obtain ⟨sent, hlog, hwithin⟩ := hsent.log
        have hrest := ih hj
        obtain ⟨later, hlater, hwithin'⟩ := hrest.log
        refine ⟨hrest.whole, hrest.part, sent ++ later, ?_, fun t ht => ?_⟩
        · rw [hlater, hlog, List.append_assoc]
        · rcases List.mem_append.mp ht with ht | ht
          · exact hwithin t ht
          · exact hwithin' t ht

theorem writePage_leaves (refuses : Nat → Option Nat) (hoffset : offset < numPages * bytesPerPage)
    (hpage : offset % bytesPerPage + data.length ≤ bytesPerPage) (s : State) :
    Leaves s.memory offset data s (writePage refuses s offset data) :=
  attempts_leaves refuses hoffset hpage maxWaitRetries (k := 0) (by rw [List.take_zero, store_nil])

end Page

/-! ### Across pages -/

/-- A part that is written whole, followed by what the rest leaves. -/
theorem Leaves.append {memory : Memory} {dstOffset : Nat} {src : List UInt8} {n : Nat}
    {s : State} {page done : Bool × State} (hn : n ≤ src.length)
    (hpage : Leaves memory dstOffset (src.take n) s page) (hok : page.1 = true)
    (hrest : Leaves page.2.memory (dstOffset + n) (src.drop n) page.2 done) :
    Leaves memory dstOffset src s done := by
  have hlen : (src.take n).length = n := by
    rw [List.length_take]
    omega
  have hmemory := hpage.whole hok
  have hjoin : ∀ rest, store page.2.memory (dstOffset + n) rest =
      store memory dstOffset (src.take n ++ rest) := by
    intro rest
    have hstore := store_store memory dstOffset (src.take n) rest
    rwa [hlen, ← hmemory] at hstore
  obtain ⟨k, hk⟩ := hrest.part
  obtain ⟨sent, hlog, hwithin⟩ := hpage.log
  obtain ⟨later, hlater, hwithin'⟩ := hrest.log
  refine ⟨fun hdone => ?_, ⟨n + k, ?_⟩, sent ++ later, ?_, fun t ht => ?_⟩
  · rw [hrest.whole hdone, hjoin, List.take_append_drop]
  · rw [hk, hjoin, List.take_add]
  · rw [hlater, hlog, List.append_assoc]
  · rcases List.mem_append.mp ht with ht | ht
    · exact hwithin t ht
    · exact hwithin' t ht

theorem Leaves.of_take {memory : Memory} {dstOffset : Nat} {src : List UInt8} {n : Nat}
    {s : State} {page : Bool × State} (hpage : Leaves memory dstOffset (src.take n) s page)
    (hfailed : page.1 = false) : Leaves memory dstOffset src s page := by
  obtain ⟨k, hk⟩ := hpage.part
  refine ⟨fun hok => absurd (hok.symm.trans hfailed) (by decide), ⟨min k n, ?_⟩, hpage.log⟩
  rw [hk, List.take_take]

theorem leaves_refl {dstOffset : Nat} {src : List UInt8} {s : State} {ok : Bool}
    (h : ok = true → src = []) : Leaves s.memory dstOffset src s (ok, s) := by
  refine ⟨fun hok => ?_, ⟨0, ?_⟩, [], (List.append_nil _).symm, by simp⟩
  · rw [h hok, store_nil]
  · rw [List.take_zero, store_nil]

theorem writePages_leaves (refuses : Nat → Option Nat) (fuel : Nat) (s : State) (dstOffset : Nat)
    (src : List UInt8) (bytesRemainingInPage : Nat) (hfuel : src.length ≤ fuel)
    (hrange : dstOffset + src.length ≤ numPages * bytesPerPage)
    (hremaining : src ≠ [] → dstOffset % bytesPerPage + bytesRemainingInPage = bytesPerPage) :
    Leaves s.memory dstOffset src s
      (writePages refuses fuel s dstOffset src bytesRemainingInPage) := by
  induction fuel generalizing s dstOffset src bytesRemainingInPage with
  | zero =>
      have hempty : src = [] := List.length_eq_zero_iff.mp (by omega)
      exact leaves_refl fun _ => hempty
  | succ fuel ih =>
      rw [writePages]
      by_cases hempty : src = []
      · rw [if_pos (by simp [hempty])]
        exact leaves_refl fun _ => hempty
      · rw [if_neg (by simpa using hempty)]
        have hpos : 0 < src.length := List.length_pos_iff.mpr hempty
        have hpage := hremaining hempty
        have hmod : dstOffset % bytesPerPage < bytesPerPage := Nat.mod_lt _ (by decide)
        dsimp only
        generalize hn : (if bytesRemainingInPage < src.length then bytesRemainingInPage
          else src.length) = n
        have hcases : n = min bytesRemainingInPage src.length := by
          rw [← hn]
          split_ifs <;> omega
        have hleaves : Leaves s.memory dstOffset (src.take n) s
            (writePage refuses s dstOffset (src.take n)) :=
          writePage_leaves refuses (by omega) (by rw [List.length_take]; omega) s
        by_cases hok : (writePage refuses s dstOffset (src.take n)).1 = true
        · rw [if_pos hok]
          refine hleaves.append (by omega) hok (ih _ _ _ _ ?_ ?_ fun hmore => ?_)
          · rw [List.length_drop]
            omega
          · rw [List.length_drop]
            omega
          · -- bytes are left, so the page was filled to its end
            have hleft : 0 < (src.drop n).length := List.length_pos_iff.mpr hmore
            rw [List.length_drop] at hleft
            have hfilled : n = bytesRemainingInPage := by omega
            simp only [bytesPerPage] at hpage ⊢
            omega
        · have hfailed := Bool.eq_false_iff.mpr hok
          rw [if_neg hok, show (false, (writePage refuses s dstOffset (src.take n)).2) = _ from
            Prod.ext hfailed.symm rfl]
          exact hleaves.of_take hfailed

/-- A write inside the memory that returns true splices the data in, one that returns false has
stored at most a prefix of them, and no transaction of it crosses a page boundary. -/
theorem write_leaves (w : Nat) (refuses : Nat → Option Nat) (s : State)
    (dstOffset : Nat) (src : List UInt8)
    (hrange : dstOffset + src.length ≤ numPages * bytesPerPage) :
    let done := write w refuses s dstOffset src
    (done.1 = true → done.2.memory = store s.memory dstOffset src) ∧
      (done.1 = false → ∃ k, done.2.memory = store s.memory dstOffset (src.take k)) ∧
      ∃ sent, done.2.transactions = s.transactions ++ sent ∧ ∀ t ∈ sent, WithinPage t := by
  have hleaves : Leaves s.memory dstOffset src s (write w refuses s dstOffset src) := by
    rw [write]
    split_ifs with hrefused
    · exact leaves_refl fun h => by cases h
    · refine writePages_leaves refuses _ s dstOffset src _ (Nat.le_refl _) hrange fun _ => ?_
      simp only [bytesPerPage]
      omega
  exact ⟨hleaves.whole, fun _ => hleaves.part, hleaves.log⟩

section Acknowledged

variable {refuses : Nat → Option Nat} (hall : ∀ n, refuses n = none)
include hall

theorem writePage_of_acknowledged (s : State) (offset : Nat) (data : List UInt8) :
    (writePage refuses s offset data).1 = true := by
  have hsent : (writeToDevice refuses s (pageBuffer offset data)).1 = true := by
    rw [writeToDevice, hall]
  rw [writePage, maxWaitRetries, attempts, if_pos hsent]
  exact hsent

theorem writePages_of_acknowledged (fuel : Nat) (s : State) (dstOffset : Nat) (src : List UInt8)
    (bytesRemainingInPage : Nat) (hfuel : src.length ≤ fuel) (hpos : 0 < bytesRemainingInPage) :
    (writePages refuses fuel s dstOffset src bytesRemainingInPage).1 = true := by
  induction fuel generalizing s dstOffset src bytesRemainingInPage with
  | zero =>
      rw [writePages, List.length_eq_zero_iff.mp (Nat.le_zero.mp hfuel)]
      rfl
  | succ fuel ih =>
      rw [writePages]
      by_cases hempty : src.isEmpty = true
      · rw [if_pos hempty]
      · rw [if_neg hempty]
        dsimp only
        rw [if_pos (writePage_of_acknowledged hall _ _ _)]
        refine ih _ _ _ _ ?_ (by decide)
        have hlen : 0 < src.length := List.length_pos_iff.mpr (by simpa using hempty)
        rw [List.length_drop]
        split_ifs <;> omega

/-- A device that acknowledges every transaction is written to. -/
theorem write_of_acknowledged {w : Nat} (hw : 16 < w) {s : State} (hs : s.started = true)
    {dstOffset : Nat} {src : List UInt8}
    (hrange : dstOffset + src.length ≤ numPages * bytesPerPage) :
    (write w refuses s dstOffset src).1 = true := by
  have hlow : dstOffset + src.length < 2 ^ w :=
    calc dstOffset + src.length ≤ 2 ^ 16 := hrange
      _ < 2 ^ w := Nat.pow_lt_pow_right (by decide) hw
  rw [write, if_neg (by rw [hs, Nat.mod_eq_of_lt hlow]; simpa using hrange)]
  refine writePages_of_acknowledged hall _ _ _ _ _ (Nat.le_refl _) ?_
  simp only [bytesPerPage]
  omega

end Acknowledged

/-- The second transaction is refused, as during the write cycle of the first. -/
def refusesOnce (n : Nat) : Option Nat :=
  if n = 1 then some 0 else none

def blank : State where
  memory _ := 0xFF
  transactions := []
  started := true

theorem write_leaves_across :
    (write 32 refusesOnce blank 126 [1, 2, 3, 4]).2.memory =
      store blank.memory 126 [1, 2, 3, 4] :=
  (write_leaves 32 refusesOnce blank 126 [1, 2, 3, 4] (by decide)).1 (by decide)

end ColonyPico.Driver.PagedEeprom
