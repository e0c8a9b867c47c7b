import ColonyPico.Foundations.TerminatedText
import Mathlib.Algebra.Group.Nat.Defs
import Mathlib.Data.BitVec

/-!
The iterated hash of a password (`Driver::Crypto::PasswordHash`).
-/

namespace ColonyPico.Driver.PasswordHash

open ColonyPico.Foundations.TerminatedText

/-- The `DRIVER_CRYPTO_PASSWORD_` results. -/
inductive Status where
  | success
  | outputBadSize
  | workBufferBadSize
  | workDigestBadSize
  | hashFunctionError
  deriving DecidableEq

/-- Bytes whose number is a `size_t` of `w` bits. -/
structure Buffer (w : Nat) where
  bytes : List UInt8
  length_lt : bytes.length < 2 ^ w

variable {w : Nat}

def Buffer.size (b : Buffer w) : BitVec w :=
  .ofNat w b.bytes.length

/-- `digest` is what `finalize()` stores behind the accumulated bytes; none where it fails. -/
structure Hash (w : Nat) where
  digestSize : BitVec w
  digest : List UInt8 → Option (List UInt8)

/-- The buffers, which do not overlap each other. -/
structure Arguments (w : Nat) where
  plaintext : Buffer w
  salt : Buffer w
  workBuffer : Buffer w
  workDigest : Buffer w
  numIterations : BitVec w
  dstOutputBuffer : Buffer w

/-- What the buffers of a call hold. -/
structure Memory where
  workBuffer : List UInt8
  workDigest : List UInt8
  dstOutputBuffer : List UInt8

/-- Copies the plaintext and the bytes behind it to the work buffer; like every function here, it
has no result when it writes outside a buffer. -/
def fill (plaintext bytes : List UInt8) (mem : Memory) : Option Memory := do
  let workBuffer ← write mem.workBuffer 0 plaintext
  let workBuffer ← write workBuffer plaintext.length bytes
  pure { mem with workBuffer := workBuffer }

/-- `reset()`, `accumulate()` of the start of the work buffer and `finalize()` to the work digest;
true for a failure. -/
def accumulateAndFinalize (hf : Hash w) (numbytes : BitVec w) (mem : Memory) :
    Option (Bool × Memory) :=
  (hf.digest (mem.workBuffer.take numbytes.toNat)).elim (some (true, mem)) fun digest => do
    let workDigest ← write mem.workDigest 0 digest
    pure (false, { mem with workDigest := workDigest })

/-- The loop over `idx` that combines the output with the digest, with the passes that remain. -/
def xorLoop (workDigest : List UInt8) : Nat → Nat → List UInt8 → Option (List UInt8)
  | 0, _, out => some out
  | remaining + 1, idx, out => do
      let x ← out[idx]?
      let u ← workDigest[idx]?
      let out ← poke out idx (x ^^^ u)
      xorLoop workDigest remaining (idx + 1) out

/-- The loop over `c`, with the passes that remain. -/
def iterations (hf : Hash w) (plaintext : Buffer w) : Nat → Memory → Option (Status × Memory)
  | 0, mem => some (.success, mem)
  | remaining + 1, mem => do
      let mem ← fill plaintext.bytes (mem.workDigest.take hf.digestSize.toNat) mem
      let (failed, mem) ← accumulateAndFinalize hf (plaintext.size + hf.digestSize) mem
      if failed then pure (.hashFunctionError, mem)
      else
        let out ← xorLoop mem.workDigest hf.digestSize.toNat 0 mem.dstOutputBuffer
        iterations hf plaintext remaining { mem with dstOutputBuffer := out }

def Arguments.memory (a : Arguments w) : Memory :=
  ⟨a.workBuffer.bytes, a.workDigest.bytes, a.dstOutputBuffer.bytes⟩

/-- What follows the checks of the sizes. -/
def hashChecked (hf : Hash w) (a : Arguments w) : Option (Status × Memory) := do
  let mem ← fill a.plaintext.bytes a.salt.bytes a.memory
  let (failed, mem) ← accumulateAndFinalize hf (a.plaintext.size + a.salt.size) mem
  if failed then pure (.hashFunctionError, mem)
  else
    let out ← write mem.dstOutputBuffer 0 (mem.workDigest.take hf.digestSize.toNat)
    iterations hf a.plaintext (a.numIterations.toNat - 1) { mem with dstOutputBuffer := out }

def hash (hf : Hash w) (a : Arguments w) : Option (Status × Memory) :=
  if a.dstOutputBuffer.size < hf.digestSize then some (.outputBadSize, a.memory)
  else if a.plaintext.size + a.salt.size > a.workBuffer.size ∨
      a.plaintext.size + hf.digestSize > a.workBuffer.size then
    some (.workBufferBadSize, a.memory)
  else if a.workDigest.size < hf.digestSize then some (.workDigestBadSize, a.memory)
  else hashChecked hf a

/-! The documented function -/

section Function

variable (H : List UInt8 → List UInt8) (plaintext salt : List UInt8)

/-- `U1`, `U2` and so on, from 0. -/
def u : Nat → List UInt8
  | 0 => H (plaintext ++ salt)
  | i + 1 => H (plaintext ++ u i)

/-- `U1 ^ U2 ^ ...`, up to the value of that index. -/
def combined : Nat → List UInt8
  | 0 => u H plaintext salt 0
  | i + 1 => List.zipWith (· ^^^ ·) (combined i) (u H plaintext salt (i + 1))

end Function

/-- A hash function that computes `H` and does not fail. -/
structure Hash.Computes (hf : Hash w) (H : List UInt8 → List UInt8) : Prop where
  digest (bytes : List UInt8) : hf.digest bytes = some (H bytes)
  length (bytes : List UInt8) : (H bytes).length = hf.digestSize.toNat

/-- The documented sizes of the buffers. -/
structure Documented (hf : Hash w) (a : Arguments w) : Prop where
  output : hf.digestSize.toNat ≤ a.dstOutputBuffer.bytes.length
  workBuffer_salt : a.plaintext.bytes.length + a.salt.bytes.length ≤ a.workBuffer.bytes.length
  workBuffer_digest :
    a.plaintext.bytes.length + hf.digestSize.toNat ≤ a.workBuffer.bytes.length
  workDigest : hf.digestSize.toNat ≤ a.workDigest.bytes.length

/-- What is promised of a call. -/
def HashesAsDocumented (H : List UInt8 → List UInt8) (hf : Hash w) (a : Arguments w) : Prop :=
  ∃ status mem, hash hf a = some (status, mem) ∧ (status = .success ↔ Documented hf a) ∧
    (status = .success → mem.dstOutputBuffer =
      combined H a.plaintext.bytes a.salt.bytes (a.numIterations.toNat - 1) ++
        a.dstOutputBuffer.bytes.drop hf.digestSize.toNat)

/-- The checks of the sizes, as they are computed. -/
structure Accepted (hf : Hash w) (a : Arguments w) : Prop where
  output : hf.digestSize ≤ a.dstOutputBuffer.size
  workBuffer_salt : a.plaintext.size + a.salt.size ≤ a.workBuffer.size
  workBuffer_digest : a.plaintext.size + hf.digestSize ≤ a.workBuffer.size
  workDigest : hf.digestSize ≤ a.workDigest.size

/-- No sum of sizes exceeds `size_t` unless the checks refuse the sizes all the same. -/
def SumsFit (hf : Hash w) (a : Arguments w) : Prop :=
  Accepted hf a → a.plaintext.bytes.length + a.salt.bytes.length < 2 ^ w ∧
    a.plaintext.bytes.length + hf.digestSize.toNat < 2 ^ w

/-! The sizes -/

theorem Buffer.toNat_size (b : Buffer w) : b.size.toNat = b.bytes.length := by
  rw [Buffer.size, BitVec.toNat_ofNat, Nat.mod_eq_of_lt b.length_lt]

theorem size_le_iff {n : BitVec w} {b : Buffer w} : n ≤ b.size ↔ n.toNat ≤ b.bytes.length := by
  rw [BitVec.le_def, b.toNat_size]

/-- A sum of sizes that fits a buffer is the sum of the sizes. -/
theorem toNat_sum {m n : BitVec w} (hfits : m.toNat + n.toNat < 2 ^ w) :
    (m + n).toNat = m.toNat + n.toNat := by
  rw [BitVec.toNat_add, Nat.mod_eq_of_lt hfits]

section Sizes

variable {hf : Hash w} {a : Arguments w}

theorem Documented.fits (h : Documented hf a) :
    a.plaintext.bytes.length + a.salt.bytes.length < 2 ^ w ∧
      a.plaintext.bytes.length + hf.digestSize.toNat < 2 ^ w :=
  ⟨h.workBuffer_salt.trans_lt a.workBuffer.length_lt,
    h.workBuffer_digest.trans_lt a.workBuffer.length_lt⟩

theorem toNat_plaintext_salt
    (hfits : a.plaintext.bytes.length + a.salt.bytes.length < 2 ^ w) :
    (a.plaintext.size + a.salt.size).toNat =
      a.plaintext.bytes.length + a.salt.bytes.length := by
  rw [← a.plaintext.toNat_size, ← a.salt.toNat_size] at hfits ⊢
  exact toNat_sum hfits

theorem toNat_plaintext_digest
    (hfits : a.plaintext.bytes.length + hf.digestSize.toNat < 2 ^ w) :
    (a.plaintext.size + hf.digestSize).toNat =
      a.plaintext.bytes.length + hf.digestSize.toNat := by
  rw [← a.plaintext.toNat_size] at hfits ⊢
  exact toNat_sum hfits

theorem Documented.accepted (h : Documented hf a) : Accepted hf a := by
  obtain ⟨hsalt, hdigest⟩ := h.fits
  refine ⟨size_le_iff.mpr h.output, size_le_iff.mpr ?_, size_le_iff.mpr ?_,
    size_le_iff.mpr h.workDigest⟩
  · rw [toNat_plaintext_salt hsalt]
    exact h.workBuffer_salt
  · rw [toNat_plaintext_digest hdigest]
    exact h.workBuffer_digest

theorem Accepted.documented (h : Accepted hf a)
    (hfits : a.plaintext.bytes.length + a.salt.bytes.length < 2 ^ w ∧
      a.plaintext.bytes.length + hf.digestSize.toNat < 2 ^ w) : Documented hf a := by
  have hsalt := size_le_iff.mp h.workBuffer_salt
  have hdigest := size_le_iff.mp h.workBuffer_digest
  rw [toNat_plaintext_salt hfits.1] at hsalt
  rw [toNat_plaintext_digest hfits.2] at hdigest
  exact ⟨size_le_iff.mp h.output, hsalt, hdigest, size_le_iff.mp h.workDigest⟩

theorem sumsFit_iff : SumsFit hf a ↔ (Accepted hf a → Documented hf a) := by
  constructor
  · exact fun hfit h => h.documented (hfit h)
  · exact fun hdocumented h => (hdocumented h).fits

theorem hash_of_accepted (h : Accepted hf a) : hash hf a = hashChecked hf a := by
  rw [hash, if_neg (BitVec.not_lt.mpr h.output), if_neg, if_neg (BitVec.not_lt.mpr h.workDigest)]
  rintro (hbig | hbig)
  · exact BitVec.not_lt.mpr h.workBuffer_salt hbig
  · exact BitVec.not_lt.mpr h.workBuffer_digest hbig

/-- A call that the checks refuse writes nothing. -/
theorem hash_of_refused (h : ¬Accepted hf a) :
    ∃ status, hash hf a = some (status, a.memory) ∧ status ≠ .success := by
  unfold hash
  split_ifs with houtput hwork hdigest
  · exact ⟨_, rfl, Status.noConfusion⟩
  · exact ⟨_, rfl, Status.noConfusion⟩
  · exact ⟨_, rfl, Status.noConfusion⟩
  · obtain ⟨hsalt, hbehind⟩ := not_or.mp hwork
    exact absurd ⟨BitVec.not_lt.mp houtput, BitVec.not_lt.mp hsalt, BitVec.not_lt.mp hbehind,
      BitVec.not_lt.mp hdigest⟩ h

end Sizes

/-! The steps -/

theorem fill_eq (plaintext bytes : List UInt8) (mem : Memory)
    (hroom : plaintext.length + bytes.length ≤ mem.workBuffer.length) :
    ∃ junk, (plaintext ++ bytes ++ junk).length = mem.workBuffer.length ∧
      fill plaintext bytes mem = some { mem with workBuffer := plaintext ++ bytes ++ junk } := by
  obtain ⟨old, junk, hsplit, hold⟩ := exists_split mem.workBuffer hroom
  obtain ⟨first, second, rfl, hfirst⟩ := exists_split old (Nat.le_of_add_right_le hold.ge)
  have hsecond : second.length = bytes.length := by
    rw [List.length_append, hfirst] at hold
    exact Nat.add_left_cancel hold
  have hwriteFirst : write mem.workBuffer 0 plaintext = some (plaintext ++ (second ++ junk)) := by
    rw [hsplit, List.append_assoc]
    exact write_append (a := []) rfl hfirst
  refine ⟨junk, ?_, ?_⟩
  · simp only [hsplit, List.length_append, hfirst, hsecond]
  · rw [fill, hwriteFirst, List.append_assoc]
    show (write (plaintext ++ (second ++ junk)) plaintext.length bytes).bind _ = _
    rw [write_append rfl hsecond]
    rfl

theorem fill_none (plaintext bytes : List UInt8) {mem : Memory}
    (hbig : mem.workBuffer.length < plaintext.length + bytes.length) :
    fill plaintext bytes mem = none := by
  refine Option.bind_eq_none_iff.mpr fun workBuffer hwrite => ?_
  rw [← length_of_write hwrite] at hbig
  show (write workBuffer plaintext.length bytes).bind _ = none
  rw [write, if_neg (Nat.not_le_of_gt hbig)]
  rfl

theorem accumulateAndFinalize_eq {hf : Hash w} {H : List UInt8 → List UInt8} (hH : hf.Computes H)
    (numbytes : BitVec w) (mem : Memory) {bytes junk old rest : List UInt8}
    (hbytes : mem.workBuffer = bytes ++ junk) (hlen : numbytes.toNat = bytes.length)
    (hdigest : mem.workDigest = old ++ rest) (hold : old.length = hf.digestSize.toNat) :
    accumulateAndFinalize hf numbytes mem =
      some (false, { mem with workDigest := H bytes ++ rest }) := by
  have hwrite : write mem.workDigest 0 (H bytes) = some (H bytes ++ rest) := by
    rw [hdigest]
    exact write_append (a := []) rfl (hold.trans (hH.length bytes).symm)
  rw [accumulateAndFinalize, hbytes, hlen, List.take_left, hH.digest]
  show (write mem.workDigest 0 (H bytes)).bind _ = _
  rw [hwrite]
  rfl

/-- The loop works through the bytes of the output one by one. -/
theorem xorLoop_eq {a b c x y z : List UInt8} (hbefore : a.length = x.length)
    (hlen : b.length = y.length) :
    xorLoop (x ++ (y ++ z)) b.length a.length (a ++ (b ++ c)) =
      some (a ++ (List.zipWith (· ^^^ ·) b y ++ c)) := by
  induction b generalizing a x y with
  | nil => rfl
  | cons byte b ih =>
      cases y with
      | nil => cases hlen
      | cons digestByte y =>
          have hout : (a ++ (byte :: b ++ c))[a.length]? = some byte := by
            rw [List.getElem?_append_right (Nat.le_refl _), Nat.sub_self]
            rfl
          have hdigest : (x ++ (digestByte :: y ++ z))[a.length]? = some digestByte := by
            rw [hbefore, List.getElem?_append_right (Nat.le_refl _), Nat.sub_self]
            rfl
          have hpoke : poke (a ++ (byte :: b ++ c)) a.length (byte ^^^ digestByte) =
              some (a ++ [byte ^^^ digestByte] ++ (b ++ c)) := by
            rw [List.append_assoc]
            exact poke_append rfl
          have hrest := ih (a := a ++ [byte ^^^ digestByte]) (x := x ++ [digestByte])
            (by simpa using hbefore) (Nat.succ.inj hlen)
          rw [List.length_append, List.append_assoc x] at hrest
          rw [List.length_cons, xorLoop, hout, hdigest]
          show (poke (a ++ (byte :: b ++ c)) a.length (byte ^^^ digestByte)).bind _ = _
          rw [hpoke]
          show xorLoop _ b.length (a.length + 1) _ = _
          refine hrest.trans ?_
          rw [List.append_assoc]
          rfl

/-! The iterations -/

variable {H : List UInt8 → List UInt8} {plaintext salt digestRest outRest : List UInt8}
  {size k : Nat}

/-- The memory behind the iteration that computes the value of that index. -/
structure Iterated (H : List UInt8 → List UInt8) (plaintext salt digestRest outRest : List UInt8)
    (size k : Nat) (mem : Memory) : Prop where
  workBuffer : mem.workBuffer.length = size
  workDigest : mem.workDigest = u H plaintext salt k ++ digestRest
  dstOutputBuffer : mem.dstOutputBuffer = combined H plaintext salt k ++ outRest

section Values

variable {hf : Hash w} (hH : hf.Computes H)
include hH

theorem length_u (plaintext salt : List UInt8) (k : Nat) :
    (u H plaintext salt k).length = hf.digestSize.toNat := by
  cases k with
  | zero => exact hH.length _
  | succ k => exact hH.length _

theorem length_combined (plaintext salt : List UInt8) (k : Nat) :
    (combined H plaintext salt k).length = hf.digestSize.toNat := by
  induction k with
  | zero => exact length_u hH plaintext salt 0
  | succ k ih => rw [combined, List.length_zipWith, ih, length_u hH, Nat.min_self]

/-- The digest of the plaintext and the bytes behind it goes to the work digest. -/
theorem fill_digest {p bytes old rest : List UInt8} (mem : Memory) {numbytes : BitVec w}
    (hroom : p.length + bytes.length ≤ mem.workBuffer.length)
    (hsum : numbytes.toNat = (p ++ bytes).length) (hdigest : mem.workDigest = old ++ rest)
    (hold : old.length = hf.digestSize.toNat) :
    ∃ junk, (p ++ bytes ++ junk).length = mem.workBuffer.length ∧
      ∀ k : Bool × Memory → Option (Status × Memory),
        ((fill p bytes mem).bind fun mem => (accumulateAndFinalize hf numbytes mem).bind k) =
          k (false, ⟨p ++ bytes ++ junk, H (p ++ bytes) ++ rest, mem.dstOutputBuffer⟩) := by
  obtain ⟨junk, hlength, hfill⟩ := fill_eq p bytes mem hroom
  refine ⟨junk, hlength, fun k => ?_⟩
  rw [hfill, Option.bind_some, accumulateAndFinalize_eq hH numbytes
    { mem with workBuffer := p ++ bytes ++ junk } rfl hsum hdigest hold]
  rfl

/-- Where the digest was stored, it did not fail. -/
theorem digested_of_some {p bytes : List UInt8} {mem : Memory} {numbytes : BitVec w}
    {k : Bool × Memory → Option (Status × Memory)} {result : Status × Memory}
    (h : ((fill p bytes mem).bind fun mem => (accumulateAndFinalize hf numbytes mem).bind k) =
      some result) : ∃ final, k (false, final) = some result := by
  obtain ⟨filled, -, hfilled⟩ := Option.bind_eq_some_iff.mp h
  obtain ⟨⟨failed, final⟩, hfinal, hrest⟩ := Option.bind_eq_some_iff.mp hfilled
  rw [accumulateAndFinalize, hH.digest] at hfinal
  obtain ⟨workDigest, -, hresult⟩ := Option.bind_eq_some_iff.mp hfinal
  cases hresult
  exact ⟨_, hrest⟩

/-- One pass computes the next value in place and combines the output with it. -/
theorem iterations_succ {p : Buffer w} {mem : Memory}
    (h : Iterated H p.bytes salt digestRest outRest size k mem)
    (hroom : p.bytes.length + hf.digestSize.toNat ≤ size) (hsize : size < 2 ^ w)
    (remaining : Nat) :
    ∃ next, iterations hf p (remaining + 1) mem = iterations hf p remaining next ∧
      Iterated H p.bytes salt digestRest outRest size (k + 1) next := by
  have hu := length_u hH p.bytes salt k
  have hcopied : mem.workDigest.take hf.digestSize.toNat = u H p.bytes salt k := by
    rw [h.workDigest, ← hu, List.take_left]
  have hsum : (p.size + hf.digestSize).toNat = (p.bytes ++ u H p.bytes salt k).length := by
    rw [toNat_sum (by rw [p.toNat_size]; exact hroom.trans_lt hsize), p.toNat_size,
      List.length_append, hu]
  obtain ⟨junk, hlength, hdigested⟩ := fill_digest hH mem (by rwa [hu, h.workBuffer]) hsum
    h.workDigest hu
  have hxor := xorLoop_eq (a := []) (x := []) (c := outRest) (z := digestRest) rfl
    ((length_combined hH p.bytes salt k).trans (length_u hH p.bytes salt (k + 1)).symm)
  refine ⟨⟨p.bytes ++ u H p.bytes salt k ++ junk, u H p.bytes salt (k + 1) ++ digestRest,
    combined H p.bytes salt (k + 1) ++ outRest⟩, ?_, hlength.trans h.workBuffer, rfl, rfl⟩
  rw [iterations, hcopied]
  refine (hdigested _).trans ?_
  show (xorLoop (u H p.bytes salt (k + 1) ++ digestRest) hf.digestSize.toNat 0
    mem.dstOutputBuffer).bind _ = _
  rw [h.dstOutputBuffer, ← length_combined hH p.bytes salt k]
  exact (congrArg (Option.bind · _) hxor).trans rfl

theorem iterations_eq {p : Buffer w} {mem : Memory}
    (h : Iterated H p.bytes salt digestRest outRest size k mem)
    (hroom : p.bytes.length + hf.digestSize.toNat ≤ size) (hsize : size < 2 ^ w)
    (remaining : Nat) :
    ∃ last, iterations hf p remaining mem = some (.success, last) ∧
      Iterated H p.bytes salt digestRest outRest size (k + remaining) last := by
  induction remaining generalizing k mem with
  | zero => exact ⟨mem, rfl, h⟩
  | succ remaining ih =>
      obtain ⟨next, heq, hnext⟩ := iterations_succ hH h hroom hsize remaining
      obtain ⟨last, hlast, hiterated⟩ := ih hnext
      refine ⟨last, heq.trans hlast, ?_⟩
      rwa [Nat.add_assoc, Nat.add_comm 1] at hiterated

/-- With buffers of the documented sizes the call computes the documented function. -/
theorem hashChecked_eq {a : Arguments w} (h : Documented hf a) :
    ∃ last, hashChecked hf a = some (.success, last) ∧
      Iterated H a.plaintext.bytes a.salt.bytes (a.workDigest.bytes.drop hf.digestSize.toNat)
        (a.dstOutputBuffer.bytes.drop hf.digestSize.toNat) a.workBuffer.bytes.length
        (a.numIterations.toNat - 1) last := by
  have hu := length_u hH a.plaintext.bytes a.salt.bytes 0
  have hsum : (a.plaintext.size + a.salt.size).toNat =
      (a.plaintext.bytes ++ a.salt.bytes).length := by
    rw [toNat_plaintext_salt h.fits.1, List.length_append]
  obtain ⟨junk, hlength, hdigested⟩ := fill_digest hH a.memory h.workBuffer_salt hsum
    (List.take_append_drop hf.digestSize.toNat a.workDigest.bytes).symm
    (List.length_take_of_le h.workDigest)
  have hwrite : write a.dstOutputBuffer.bytes 0 (u H a.plaintext.bytes a.salt.bytes 0) =
      some (u H a.plaintext.bytes a.salt.bytes 0 ++
        a.dstOutputBuffer.bytes.drop hf.digestSize.toNat) := by
    have hsplit := List.take_append_drop hf.digestSize.toNat a.dstOutputBuffer.bytes
    conv_lhs => rw [← hsplit]
    exact write_append (a := []) rfl ((List.length_take_of_le h.output).trans hu.symm)
  have hfirst : Iterated H a.plaintext.bytes a.salt.bytes
      (a.workDigest.bytes.drop hf.digestSize.toNat)
      (a.dstOutputBuffer.bytes.drop hf.digestSize.toNat) a.workBuffer.bytes.length 0
      ⟨a.plaintext.bytes ++ a.salt.bytes ++ junk,
        u H a.plaintext.bytes a.salt.bytes 0 ++ a.workDigest.bytes.drop hf.digestSize.toNat,
        u H a.plaintext.bytes a.salt.bytes 0 ++
          a.dstOutputBuffer.bytes.drop hf.digestSize.toNat⟩ := ⟨hlength, rfl, rfl⟩
  obtain ⟨last, hlast, hiterated⟩ := iterations_eq hH hfirst h.workBuffer_digest
    a.workBuffer.length_lt (a.numIterations.toNat - 1)
  rw [Nat.zero_add] at hiterated
  refine ⟨last, ?_, hiterated⟩
  rw [hashChecked]
  refine (hdigested _).trans ?_
  show (write a.dstOutputBuffer.bytes 0 ((u H a.plaintext.bytes a.salt.bytes 0 ++
    a.workDigest.bytes.drop hf.digestSize.toNat).take hf.digestSize.toNat)).bind _ = _
  rw [← hu, List.take_left, hu, hwrite]
  exact hlast

theorem status_of_iterations {p : Buffer w} {remaining : Nat} {mem mem' : Memory} {status : Status}
    (h : iterations hf p remaining mem = some (status, mem')) : status = .success := by
  induction remaining generalizing mem with
  | zero =>
      cases h
      rfl
  | succ remaining ih =>
      obtain ⟨final, hrest⟩ := digested_of_some hH h
      obtain ⟨out, -, hout⟩ := Option.bind_eq_some_iff.mp hrest
      exact ih hout

/-- Behind the checks a call that writes inside its buffers reports a success. -/
theorem status_of_hashChecked {a : Arguments w} {mem : Memory} {status : Status}
    (h : hashChecked hf a = some (status, mem)) : status = .success := by
  obtain ⟨final, hrest⟩ := digested_of_some hH h
  obtain ⟨out, -, hout⟩ := Option.bind_eq_some_iff.mp hrest
  exact status_of_iterations hH hout

omit hH in
theorem hashes_of_refused {a : Arguments w} (h : ¬Accepted hf a) : HashesAsDocumented H hf a := by
  obtain ⟨status, hhash, hstatus⟩ := hash_of_refused h
  refine ⟨status, a.memory, hhash, ?_, fun hsuccess => absurd hsuccess hstatus⟩
  exact iff_of_false hstatus (mt Documented.accepted h)

theorem hashes_of_documented {a : Arguments w} (h : Documented hf a) :
    HashesAsDocumented H hf a := by
  obtain ⟨last, hhash, hlast⟩ := hashChecked_eq hH h
  refine ⟨.success, last, (hash_of_accepted h.accepted).trans hhash, ?_, ?_⟩
  · exact iff_of_true rfl h
  · exact fun _ => hlast.dstOutputBuffer

theorem documented_of_hashes {a : Arguments w} (haccepted : Accepted hf a)
    (h : HashesAsDocumented H hf a) : Documented hf a := by
  obtain ⟨status, mem, hhash, hiff, -⟩ := h
  rw [hash_of_accepted haccepted] at hhash
  exact hiff.mp (status_of_hashChecked hH hhash)

end Values

/-- A call does what is promised just when no sum of sizes wraps and passes the checks. -/
theorem hashesAsDocumented_iff (H : List UInt8 → List UInt8) (hf : Hash w) (hH : hf.Computes H)
    (a : Arguments w) : HashesAsDocumented H hf a ↔ SumsFit hf a := by
  rw [sumsFit_iff]
  constructor
  · exact fun hhashes haccepted => documented_of_hashes hH haccepted hhashes
  · intro hdocumented
    by_cases haccepted : Accepted hf a
    · exact hashes_of_documented hH (hdocumented haccepted)
    · exact hashes_of_refused haccepted

/-- So many zeros. -/
def zeros (n : Nat) (h : n < 2 ^ w) : Buffer w :=
  ⟨List.replicate n 0, by rwa [List.length_replicate]⟩

theorem size_zeros (n : Nat) (h : n < 2 ^ w) : (zeros n h).size = .ofNat w n :=
  congrArg (BitVec.ofNat w) List.length_replicate

/-- The number of the bytes, 32 times. -/
def lengthDigest (bytes : List UInt8) : List UInt8 :=
  List.replicate 32 (.ofNat bytes.length)

def lengthHash : Hash 32 where
  digestSize := 32
  digest bytes := some (lengthDigest bytes)

theorem lengthHash_computes : lengthHash.Computes lengthDigest where
  digest _ := rfl
  length _ := List.length_replicate

/-- Buffers of the smallest documented sizes. -/
def exactArguments : Arguments 32 where
  plaintext := zeros 16 (by decide)
  salt := zeros 8 (by decide)
  workBuffer := zeros 48 (by decide)
  workDigest := zeros 32 (by decide)
  numIterations := 128
  dstOutputBuffer := zeros 32 (by decide)

theorem hashesAsDocumented_iff_exact : HashesAsDocumented lengthDigest lengthHash exactArguments :=
  (hashesAsDocumented_iff lengthDigest lengthHash lengthHash_computes exactArguments).mpr
    fun _ => ⟨by decide, by decide⟩

/-- The same buffers, with a salt of the largest size. -/
def longSalt : Arguments 32 :=
  { exactArguments with salt := zeros 4294967295 (by decide) }

/-- The checks accept the long salt, and its copy leaves the work buffer. -/
theorem not_hashesAsDocumented_long_salt :
    hash lengthHash longSalt = none ∧ ¬HashesAsDocumented lengthDigest lengthHash longSalt := by
  have haccepted : Accepted lengthHash longSalt := by
    refine ⟨by decide, ?_, by decide, by decide⟩
    have hsum : BitVec.ofNat 32 16 + BitVec.ofNat 32 4294967295 ≤ BitVec.ofNat 32 48 := by decide
    rw [← size_zeros 16 (by decide), ← size_zeros 4294967295 (by decide),
      ← size_zeros 48 (by decide)] at hsum
    exact hsum
  have hsalt : longSalt.salt.bytes.length = 4294967295 := List.length_replicate
  have hbig : longSalt.memory.workBuffer.length <
      longSalt.plaintext.bytes.length + longSalt.salt.bytes.length := by
    rw [hsalt]
    decide
  have hnone : hash lengthHash longSalt = none := by
    rw [hash_of_accepted haccepted, hashChecked, fill_none _ _ hbig]
    rfl
  refine ⟨hnone, ?_⟩
  rintro ⟨status, mem, hhash, -⟩
  rw [hnone] at hhash
  cases hhash

end ColonyPico.Driver.PasswordHash
