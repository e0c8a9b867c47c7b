import ColonyPico.Dm.LockRule
import ColonyPico.Foundations.TerminatedText

/-!
Writing a string model point from a buffer of a given length and reading it
(`StringBase_::write()`, `StringBase_::read()`).
-/

namespace ColonyPico.Dm.StringWrites

open ColonyPico.Foundations.ByteStore
open ColonyPico.Foundations.ByteMemory
open ColonyPico.Foundations.TerminatedText (text Holds holds_text zero_notMem_text text_eq_self
  text_cons text_append_of_mem text_append_zero
  text_append_singleton text_take)
open ColonyPico.Dm.ModelPoint
open ColonyPico.Dm.LockState
open ColonyPico.Dm.LockRule (Terminated terminated_set length_writeData)

/-- `copyDataFrom_()`: the size is only asserted, the copy fills the storage. -/
def copyDataFrom (data : List UInt8) (srcData : Memory) (srcSize : Nat) : List UInt8 :=
  if srcSize ≤ data.length then load srcData data.length else data

def write (p : Mp) (srcData : Option Memory) (srcLen : Nat) (lockRequest : LockRequest) : Mp :=
  match srcData with
  | none => p
  | some src =>
      let srcLen := if p.data.length < srcLen then p.data.length else srcLen
      StringBase.terminate
        (writeData StringBase.isDataEqual (fun data src => copyDataFrom data src srcLen) p
          (some src) lockRequest)

/-- `read()`: the valid state and the caller's buffer. -/
def read (p : Mp) (dstData : List UInt8) : Bool × List UInt8 :=
  let size := if p.data.length < dstData.length then p.data.length else dstData.length
  let dst := if p.valid then overwrite dstData 0 (p.data.take size) else dstData
  (p.valid, dst.set (size - 1) 0)

def getMaxLength (p : Mp) : Nat :=
  p.data.length - 1

/-- The characters that a write of `n` bytes has to leave. -/
def written (p : Mp) (src : Memory) (n : Nat) : List UInt8 :=
  text (load src (min n (getMaxLength p)))

/-- A write leaves its characters, terminated, for every reader; it advances the sequence number
just when the value differs; and the bytes behind the `n` given have no part in it. -/
structure WritesText (p : Mp) (src : Memory) (n : Nat) (lockRequest : LockRequest) : Prop where
  terminated : Terminated (write p (some src) n lockRequest).data
  stored : (testAndUpdateLock p.locked lockRequest).2 = true →
    text (write p (some src) n lockRequest).data = written p src n
  reads : (testAndUpdateLock p.locked lockRequest).2 = true → ∀ dst, 0 < dst.length →
    (read (write p (some src) n lockRequest) dst).1 = true ∧
      text (read (write p (some src) n lockRequest) dst).2 =
        (written p src n).take (dst.length - 1)
  seqNum : (testAndUpdateLock p.locked lockRequest).2 = true →
    (write p (some src) n lockRequest).seqNum =
      if p.valid = true ∧ text p.data = written p src n then p.seqNum
      else advanceSequenceNumber p.seqNum
  independent : ∀ src', (∀ i, i < n → src' i = src i) →
    text (write p (some src') n lockRequest).data =
        text (write p (some src) n lockRequest).data ∧
      (write p (some src') n lockRequest).seqNum = (write p (some src) n lockRequest).seqNum

/-- The source ends inside the `n` bytes or they fill the storage; and where it does not end
inside the storage either, the comparison with the stored text does not depend on its end. -/
def EndsInside (p : Mp) (src : Memory) (n : Nat) : Prop :=
  (0 ∈ load src n ∨ getMaxLength p ≤ n) ∧
    (0 ∈ load src (min n p.data.length) ∨ p.valid = false ∨
      text p.data ≠ load src (getMaxLength p))

section Stored

variable {p : Mp} {src : Memory} {n : Nat} {lockRequest : LockRequest}

theorem copyDataFrom_eq (data : List UInt8) (srcData : Memory) (srcLen : Nat) :
    copyDataFrom data srcData (if data.length < srcLen then data.length else srcLen) =
      LockState.copyDataFrom data srcData := by
  refine if_pos ?_
  split_ifs <;> omega

theorem write_eq (srcData : Option Memory) :
    write p srcData n lockRequest = StringBase.write p srcData lockRequest := by
  cases srcData with
  | none => rfl
  | some src =>
      show StringBase.terminate (lockedUpdate p lockRequest fun q => q.write _
          (copyDataFrom q.data src _)) =
        StringBase.terminate (lockedUpdate p lockRequest fun q => q.write _
          (LockState.copyDataFrom q.data src))
      simp only [lockedUpdate, copyDataFrom_eq p.data src n]

theorem length_of_terminated (hdata : Terminated p.data) :
    p.data.length = getMaxLength p + 1 := by
  have hpos := hdata.ne_nil
  rw [getMaxLength]
  omega

theorem holds_of_terminated {data : List UInt8} (hdata : Terminated data) :
    Holds data (text data) := by
  rw [Terminated] at hdata
  exact holds_text (List.mem_of_getElem? hdata)

theorem strlen_eq (data : List UInt8) : StringBase.strlen data = (text data).length := by
  induction data with
  | nil => rfl
  | cons c data ih =>
      rcases eq_or_ne c 0 with rfl | hc
      · rw [StringBase.strlen, List.findIdx_cons]
        simp [text]
      · rw [text_cons hc, List.length_cons, ← ih, StringBase.strlen, List.findIdx_cons,
          beq_false_of_ne hc]
        rfl

theorem startsWith_iff {m : Memory} {bytes : List UInt8} :
    StartsWith m bytes ↔ ∀ i, i < bytes.length → bytes[i]? = some (m i) := by
  rw [StartsWith]
  constructor
  · intro hload i hi
    rw [← hload, getElem?_load m hi]
  · intro hbytes
    apply List.ext_getElem?
    intro i
    rcases Nat.lt_or_ge i bytes.length with hi | hi
    · rw [getElem?_load m hi, hbytes i hi]
    · rw [List.getElem?_eq_none (by rwa [length_load]), List.getElem?_eq_none hi]

theorem holds_load_iff {t : List UInt8} (hfree : 0 ∉ t) {m : Nat} (hm : t.length < m) :
    Holds (load src m) t ↔ StartsWith src (t ++ [0]) := by
  obtain ⟨more, rfl⟩ : ∃ more, m = (t ++ [0]).length + more :=
    ⟨m - (t.length + 1), by rw [List.length_append, List.length_singleton]; omega⟩
  rw [load_add, StartsWith]
  constructor
  · rintro ⟨-, junk, hjunk⟩
    rw [List.append_cons t 0 junk] at hjunk
    exact (List.append_inj hjunk (length_load _ _)).1
  · intro hload
    refine ⟨hfree, load (suffix src (t ++ [0]).length) more, ?_⟩
    rw [hload, List.append_assoc]
    rfl

theorem isDataEqual_iff {data : List UInt8} (hdata : Terminated data) :
    StringBase.isDataEqual data src = true ↔ Holds (load src data.length) (text data) := by
  have hholds := holds_of_terminated hdata
  have hlast : StartsWith (suffix src (text data).length) [0] ↔ src (text data).length = 0 := by
    simp [StartsWith, load, suffix]
  rw [holds_load_iff (zero_notMem_text data) hholds.length_lt, startsWith_append, hlast,
    StringBase.isDataEqual, Bool.and_eq_true, strlen_eq, beq_iff_eq, List.all_eq_true,
    startsWith_iff]
  refine and_congr_left fun _ => ?_
  constructor
  · intro hall i hi
    rw [← hholds.getElem?_eq hi]
    exact eq_of_beq (hall i (List.mem_range.mpr hi))
  · intro hall i hi
    rw [hholds.getElem?_eq (List.mem_range.mp hi), hall i (List.mem_range.mp hi)]
    exact beq_self_eq_true _

theorem write_permitted (hdata : Terminated p.data)
    (hpermit : (testAndUpdateLock p.locked lockRequest).2 = true) :
    (write p (some src) n lockRequest).toPoint =
      if p.valid = true ∧ StringBase.isDataEqual p.data src = true then p.toPoint
      else
        { data := load src (getMaxLength p) ++ [0]
          valid := true
          seqNum := advanceSequenceNumber p.seqNum } := by
  have hload : (load src p.data.length).set (getMaxLength p) 0 = load src (getMaxLength p) ++ [0] := by
    rw [length_of_terminated hdata, load_succ, List.set_append_right _ _ (by simp)]
    simp
  have hchanged : (p.valid = false ∨ StringBase.isDataEqual p.data src = false) ↔
      ¬ (p.valid = true ∧ StringBase.isDataEqual p.data src = true) := by
    rw [not_and_or, Bool.not_eq_true, Bool.not_eq_true]
  rw [write_eq]
  show (StringBase.terminate (lockedUpdate p lockRequest fun q => q.write _ _)).toPoint = _
  rw [lockedUpdate, if_pos hpermit, Point.write, StringBase.terminate, if_congr hchanged rfl rfl,
    ite_not]
  split_ifs
  · show Point.mk (p.data.set _ 0) _ _ = _
    rw [hdata.set_eq]
  · show Point.mk ((load src p.data.length).set ((load src p.data.length).length - 1) 0) _ _ = _
    rw [length_load, ← getMaxLength, hload]

theorem text_write (hdata : Terminated p.data)
    (hpermit : (testAndUpdateLock p.locked lockRequest).2 = true) :
    text (write p (some src) n lockRequest).data = text (load src (getMaxLength p)) := by
  rw [write_permitted hdata hpermit]
  split_ifs with hkept
  · have hholds := (isDataEqual_iff hdata).mp hkept.2
    rw [length_of_terminated hdata, load_succ] at hholds
    rw [← hholds.text_eq]
    exact text_append_singleton hholds.mem
  · exact text_append_zero _ []

theorem valid_write (hdata : Terminated p.data)
    (hpermit : (testAndUpdateLock p.locked lockRequest).2 = true) :
    (write p (some src) n lockRequest).valid = true := by
  rw [write_permitted hdata hpermit]
  split_ifs with hkept
  · exact hkept.1
  · rfl

theorem terminated_write (hdata : Terminated p.data) :
    Terminated (write p (some src) n lockRequest).data := by
  rw [write_eq]
  exact LockRule.terminated_write hdata (some src) lockRequest

theorem text_read (hdata : Terminated p.data) (hvalid : p.valid = true) {dst : List UInt8}
    (hdst : 0 < dst.length) :
    (read p dst).1 = true ∧ text (read p dst).2 = (text p.data).take (dst.length - 1) := by
  have hlen := length_of_terminated hdata
  have htext := (holds_of_terminated hdata).length_lt
  have hsize : (if p.data.length < dst.length then p.data.length else dst.length) =
      min p.data.length dst.length := by
    split_ifs <;> omega
  obtain ⟨last, hlast⟩ : ∃ last, min p.data.length dst.length = last + 1 :=
    ⟨min p.data.length dst.length - 1, by omega⟩
  have hcopied : (p.data.take (last + 1)).length = last + 1 := by
    rw [List.length_take]
    omega
  have hfirst : (overwrite dst 0 (p.data.take (last + 1))).take last = p.data.take last := by
    rw [overwrite, List.take_zero, List.nil_append, List.take_append_of_le_length (by omega),
      List.take_take, Nat.min_eq_left (by omega)]
  have hfits : last < (overwrite dst 0 (p.data.take (last + 1))).length := by
    rw [length_overwrite _ _ _ (by omega)]
    omega
  refine ⟨hvalid, ?_⟩
  simp only [read, hvalid, if_true, hsize, hlast, Nat.add_sub_cancel]
  rw [List.set_eq_take_append_cons_drop, if_pos hfits, text_append_zero, hfirst, text_take]
  rcases Nat.le_total dst.length p.data.length with hle | hle
  · congr 1
    omega
  · rw [List.take_of_length_le (by omega), List.take_of_length_le (by omega)]

theorem write_refused (hdata : Terminated p.data)
    (hrefused : (testAndUpdateLock p.locked lockRequest).2 = false) :
    (write p (some src) n lockRequest).toPoint = p.toPoint := by
  rw [write_eq]
  show (StringBase.terminate (lockedUpdate p lockRequest fun q => q.write _ _)).toPoint = _
  rw [lockedUpdate, hrefused, StringBase.terminate]
  show Point.mk (p.data.set (p.data.length - 1) 0) p.valid p.seqNum = p.toPoint
  rw [hdata.set_eq]

end Stored

section Exact

variable {p : Mp} {src src' : Memory} {n : Nat} {lockRequest : LockRequest}

theorem mem_load_of_le {m k : Nat} (hle : m ≤ k) (hmem : 0 ∈ load src m) : 0 ∈ load src k := by
  obtain ⟨more, rfl⟩ := Nat.exists_eq_add_of_le hle
  rw [load_add]
  exact List.mem_append_left _ hmem

theorem written_of_inside (hinside : 0 ∈ load src n ∨ getMaxLength p ≤ n) :
    written p src n = text (load src (getMaxLength p)) := by
  rw [written]
  rcases Nat.le_total (getMaxLength p) n with hle | hle
  · rw [Nat.min_eq_right hle]
  · rcases hinside with hmem | hfull
    · obtain ⟨more, hmore⟩ := Nat.exists_eq_add_of_le hle
      rw [Nat.min_eq_left hle, hmore, load_add, text_append_of_mem hmem]
    · rw [Nat.min_eq_right hfull]

theorem text_load_capacity (hdata : Terminated p.data) (hmem : 0 ∈ load src p.data.length) :
    text (load src p.data.length) = text (load src (getMaxLength p)) := by
  rw [length_of_terminated hdata, load_succ] at hmem ⊢
  exact text_append_singleton hmem

theorem kept_iff (hdata : Terminated p.data) (hends : EndsInside p src n) :
    (p.valid = true ∧ StringBase.isDataEqual p.data src = true) ↔
      p.valid = true ∧ text p.data = written p src n := by
  rw [isDataEqual_iff hdata, written_of_inside hends.1]
  refine and_congr_right fun hvalid => ?_
  constructor
  · intro hholds
    rw [← text_load_capacity hdata hholds.mem, hholds.text_eq]
  · intro htext
    have hmem : 0 ∈ load src p.data.length := by
      rcases hends.2 with hmem | hinvalid | hne
      · exact mem_load_of_le (Nat.min_le_right _ _) hmem
      · rw [hvalid] at hinvalid
        cases hinvalid
      · by_contra hfree
        have hcapacity : 0 ∉ load src (getMaxLength p) :=
          fun hmem => hfree (mem_load_of_le (by rw [getMaxLength]; omega) hmem)
        exact hne (htext.trans (text_eq_self hcapacity))
    rw [htext, ← text_load_capacity hdata hmem]
    exact holds_text hmem

theorem EndsInside.congr (hends : EndsInside p src n) (hsame : ∀ i, i < n → src' i = src i) :
    EndsInside p src' n := by
  have hload : ∀ m, m ≤ n → load src' m = load src m :=
    fun m hm => load_congr fun i hi => hsame i (by omega)
  obtain ⟨hinside, hcompare⟩ := hends
  refine ⟨by rwa [hload n (Nat.le_refl n)], ?_⟩
  rw [hload _ (Nat.min_le_left _ _)]
  rcases Nat.le_total (getMaxLength p) n with hle | hle
  · rwa [hload _ hle]
  · rcases hinside with hmem | hfull
    · refine .inl (mem_load_of_le (Nat.le_min.mpr ⟨Nat.le_refl n, ?_⟩) hmem)
      rw [getMaxLength] at hle
      omega
    · rwa [hload _ hfull]

theorem written_congr (hsame : ∀ i, i < n → src' i = src i) :
    written p src' n = written p src n := by
  rw [written, written]
  exact congrArg text (load_congr fun i hi => hsame i (by omega))

theorem seqNum_write (hdata : Terminated p.data) (hends : EndsInside p src n)
    (hpermit : (testAndUpdateLock p.locked lockRequest).2 = true) :
    (write p (some src) n lockRequest).seqNum =
      if p.valid = true ∧ text p.data = written p src n then p.seqNum
      else advanceSequenceNumber p.seqNum := by
  rw [write_permitted hdata hpermit, if_congr (kept_iff hdata hends) rfl rfl]
  split_ifs <;> rfl

theorem writesText_of_endsInside (hdata : Terminated p.data)
    (hends : (testAndUpdateLock p.locked lockRequest).2 = true → EndsInside p src n) :
    WritesText p src n lockRequest := by
  have hstored : (testAndUpdateLock p.locked lockRequest).2 = true → ∀ {src' : Memory},
      (∀ i, i < n → src' i = src i) →
        text (write p (some src') n lockRequest).data = written p src n := by
    intro hpermit src' hsame
    rw [text_write hdata hpermit, ← written_congr hsame,
      written_of_inside ((hends hpermit).congr hsame).1]
  refine ⟨terminated_write hdata, fun hpermit => hstored hpermit fun _ _ => rfl, ?_,
    fun hpermit => seqNum_write hdata (hends hpermit) hpermit, ?_⟩
  · intro hpermit dst hdst
    rw [← hstored hpermit fun _ _ => rfl]
    exact text_read (terminated_write hdata) (valid_write hdata hpermit) hdst
  · intro src' hsame
    cases hpermit : (testAndUpdateLock p.locked lockRequest).2 with
    | false =>
        rw [write_refused hdata hpermit, write_refused hdata hpermit]
        exact ⟨rfl, rfl⟩
    | true =>
        refine ⟨(hstored hpermit hsame).trans (hstored hpermit fun _ _ => rfl).symm, ?_⟩
        rw [seqNum_write hdata (hends hpermit) hpermit,
          seqNum_write hdata ((hends hpermit).congr hsame) hpermit, written_congr hsame]

/-- A source that does not end inside the length is told from one that does. -/
theorem inside_of_writesText (hdata : Terminated p.data)
    (hpermit : (testAndUpdateLock p.locked lockRequest).2 = true)
    (hwrites : WritesText p src n lockRequest) : 0 ∈ load src n ∨ getMaxLength p ≤ n := by
  by_contra hnot
  obtain ⟨hfree, hshort⟩ := not_or.mp hnot
  -- what is stored of a source that continues behind the length with `more` and its end
  have hcontinued : ∀ more : List UInt8, 0 ∉ more → n + more.length ≤ getMaxLength p →
      text (write p (some src) n lockRequest).data = load src n ++ more := by
    intro more hmore hfits
    have hsame : ∀ i, i < n → memoryOf (load src n ++ more ++ [0]) (fun _ => 0) i = src i := by
      intro i hi
      refine memoryOf_apply ?_ _
      rw [List.append_assoc, List.getElem?_append_left (by simpa using hi), getElem?_load src hi]
    have htext : 0 ∉ load src n ++ more := by
      rw [List.mem_append, not_or]
      exact ⟨hfree, hmore⟩
    have hholds : Holds (load (memoryOf (load src n ++ more ++ [0]) fun _ => 0)
        (getMaxLength p + 1)) (load src n ++ more) := by
      refine (holds_load_iff htext ?_).mpr (startsWith_memoryOf _ _)
      rw [List.length_append, length_load]
      omega
    rw [load_succ] at hholds
    rw [← (hwrites.independent _ hsame).1, text_write hdata hpermit,
      ← text_append_singleton hholds.mem]
    exact hholds.text_eq
  have hnone := hcontinued [] (by simp) (by rw [List.length_nil]; omega)
  have hone := hcontinued [1] (by decide) (by rw [List.length_singleton]; omega)
  rw [hnone] at hone
  have hlength := congrArg List.length hone
  simp at hlength

/-- An equal value whose end is not among the bytes given is taken for a change. -/
theorem endsInside_of_writesText (hdata : Terminated p.data)
    (hpermit : (testAndUpdateLock p.locked lockRequest).2 = true)
    (hwrites : WritesText p src n lockRequest) : EndsInside p src n := by
  have hinside := inside_of_writesText hdata hpermit hwrites
  refine ⟨hinside, ?_⟩
  by_contra hnot
  obtain ⟨hfree, hnot⟩ := not_or.mp hnot
  obtain ⟨hvalid, htext⟩ := not_or.mp hnot
  rw [Bool.not_eq_false] at hvalid
  rw [not_not] at htext
  have hlen := length_of_terminated hdata
  have hfull : getMaxLength p ≤ n := by
    rcases hinside with hmem | hfull
    · by_contra hshort
      rw [Nat.min_eq_left (by omega)] at hfree
      exact hfree hmem
    · exact hfull
  have hseq := hwrites.seqNum hpermit
  have hwritten : text p.data = written p src n := by
    rw [written_of_inside hinside, ← htext, text_eq_self (zero_notMem_text p.data)]
  rw [if_pos ⟨hvalid, hwritten⟩] at hseq
  -- a source with the same `n` bytes and no end inside the storage
  obtain ⟨src', hsame, hendless⟩ : ∃ src' : Memory, (∀ i, i < n → src' i = src i) ∧
      0 ∉ load src' p.data.length := by
    rcases Nat.lt_or_ge n p.data.length with hlt | hge
    · obtain rfl : n = getMaxLength p := by omega
      rw [Nat.min_eq_left (by omega)] at hfree
      have hstarts := startsWith_memoryOf (load src (getMaxLength p) ++ [1]) fun _ => 0
      rw [StartsWith, List.length_append, length_load, List.length_singleton, ← hlen] at hstarts
      refine ⟨memoryOf (load src (getMaxLength p) ++ [1]) fun _ => 0, ?_, ?_⟩
      · intro i hi
        refine memoryOf_apply ?_ _
        rw [List.getElem?_append_left (by simpa using hi), getElem?_load src hi]
      · rw [hstarts, List.mem_append, not_or]
        exact ⟨hfree, by decide⟩
    · rw [Nat.min_eq_right hge] at hfree
      exact ⟨src, fun _ _ => rfl, hfree⟩
  have hadvanced : (write p (some src') n lockRequest).seqNum =
      advanceSequenceNumber p.seqNum := by
    rw [write_permitted hdata hpermit, if_neg]
    rintro ⟨-, hequal⟩
    exact hendless ((isDataEqual_iff hdata).mp hequal).mem
  rw [(hwrites.independent src' hsame).2, hseq] at hadvanced
  exact advanceSequenceNumber_ne _ hadvanced.symm

/-- A write does what it should, just when the lock refuses it or its source ends inside the bytes
given, or else fills the storage and is not what the point holds. -/
theorem writesText_iff (hdata : Terminated p.data) :
    WritesText p src n lockRequest ↔
      ((testAndUpdateLock p.locked lockRequest).2 = true → EndsInside p src n) :=
  ⟨fun hwrites hpermit => endsInside_of_writesText hdata hpermit hwrites,
    writesText_of_endsInside hdata⟩

/-- Three bytes with their terminator, into a string of eight characters. -/
theorem writesText_abc :
    Terminated (List.replicate 9 0) ∧
      WritesText { Point.init (List.replicate 9 0) false with locked := false }
        (memoryOf [97, 98, 99, 0] fun _ => 88) 4 .noRequest := by
  have hdata : Terminated (List.replicate 9 0) := rfl
  refine ⟨hdata, (writesText_iff (p := { Point.init (List.replicate 9 0) false with
    locked := false }) hdata).mpr fun _ => ⟨.inl ?_, .inl ?_⟩⟩
  · decide
  · decide

/-- Two bytes of a longer text: what is behind them is stored as well. -/
theorem not_writesText_ab :
    ¬ WritesText { Point.init (List.replicate 9 0) false with locked := false }
      (memoryOf [97, 98, 99, 0] fun _ => 88) 2 .noRequest := by
  intro hwrites
  have hstored := hwrites.stored rfl
  exact absurd hstored (by decide)

end Exact

end ColonyPico.Dm.StringWrites
