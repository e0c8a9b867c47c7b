import Mathlib.Data.List.Forall2
import ColonyPico.Foundations.TwoDigits
import ColonyPico.Dm.LockRule

/-!
A record of model points (`Cpl::Dm::Persistent::Record`): how it is written to a
buffer and read back.
-/

namespace ColonyPico.Dm.PersistentRecord

open ColonyPico.Foundations.ByteStore
open ColonyPico.Foundations.ByteMemory
open ColonyPico.Foundations.TwoDigits
open ColonyPico.Dm.ModelPoint
open ColonyPico.Dm.LockState
open ColonyPico.Dm.LockRule

/-- An entry of the item list. -/
structure Item where
  kind : Kind
  mp : Mp

structure Record where
  items : List Item
  major : UInt8
  minor : UInt8

section Code

variable (sizeofSizeT : Nat)

/-- `getExternalSize()` as the record calls it, without the lock state. -/
def Item.externalSize (item : Item) : Nat :=
  getExternalSize sizeofSizeT item.kind item.mp false

def getRecordSize (r : Record) : Nat :=
  r.items.foldl
    (fun byteCount item => (byteCount + item.externalSize sizeofSizeT) % 256 ^ sizeofSizeT) 2

/-- `exportData()` of an item to memory: the bytes exported, none without room. -/
def exportTo (item : Item) (m : Memory) (dstDataStream maxDstLength : Nat) : Nat × Memory :=
  if item.externalSize sizeofSizeT ≤ maxDstLength then
    (item.externalSize sizeofSizeT,
      store m dstDataStream (exportData sizeofSizeT item.kind item.mp false))
  else (0, m)

/-- The loop of `getData()`. -/
def exportItems : List Item → Memory → Nat → Nat → Nat → Nat × Memory
  | [], m, _, _, bytesWritten => (bytesWritten, m)
  | item :: items, m, buffer, maxDstLen, bytesWritten =>
      let mpDataSize := item.externalSize sizeofSizeT
      if maxDstLen < mpDataSize then (0, m)
      else
        let result := exportTo sizeofSizeT item m buffer maxDstLen
        if result.1 = 0 then (0, result.2)
        else
          exportItems items result.2 (buffer + mpDataSize) (maxDstLen - mpDataSize)
            ((bytesWritten + mpDataSize) % 256 ^ sizeofSizeT)

/-- What `maxDstLen -= 2` and `srcLen -= 2` leave. The assertions in front of them, that there
is more than the schema identifiers, are empty in the builds of the record. -/
def afterSchema (length : Nat) : Nat :=
  (length + 256 ^ sizeofSizeT - 2) % 256 ^ sizeofSizeT

/-- `getData()`: the bytes written and the memory. -/
def getData (r : Record) (m : Memory) (dst maxDstLen : Nat) : Nat × Memory :=
  exportItems sizeofSizeT r.items (store m dst [r.major, r.minor]) (dst + 2)
    (afterSchema sizeofSizeT maxDstLen) 2

/-- The loop of `putData()`: whether every item was imported, and the items. -/
def importItems : List Item → Memory → Nat → Bool × List Item
  | [], _, _ => (true, [])
  | item :: items, buffer, srcLen =>
      let mpDataSize := item.externalSize sizeofSizeT
      if srcLen < mpDataSize then (false, item :: items)
      else
        let result := importData sizeofSizeT item.kind item.mp buffer srcLen false
        if result.1 = 0 then (false, { item with mp := result.2 } :: items)
        else
          let rest := importItems items (suffix buffer mpDataSize) (srcLen - mpDataSize)
          (rest.1, { item with mp := result.2 } :: rest.2)

/-- `putData()`, with what the child class makes of another schema. -/
def putData (schemaChange : Record → UInt8 → UInt8 → Memory → Nat → Bool × Record) (r : Record)
    (src : Memory) (srcLen : Nat) : Bool × Record :=
  let major := src 0
  let minor := src 1
  if major ≠ r.major ∨ minor ≠ r.minor then
    schemaChange r major minor (suffix src 2) (afterSchema sizeofSizeT srcLen)
  else
    let result := importItems sizeofSizeT r.items (suffix src 2) (afterSchema sizeofSizeT srcLen)
    (result.1, { r with items := result.2 })

end Code

/-- `schemaChange()` of a record that does not override it. -/
def noSchemaChange (r : Record) (_ _ : UInt8) (_ : Memory) (_ : Nat) : Bool × Record :=
  (false, r)

/-- The dimensions of an array are `size_t` numbers. -/
def Item.WellTyped (sizeofSizeT : Nat) (item : Item) : Prop :=
  match item.kind with
  | .array n size => n < 256 ^ sizeofSizeT ∧ size < 256 ^ sizeofSizeT
  | _ => True

/-- Two items of the same type: of one class, with storage of one size. -/
def Item.SameType (item other : Item) : Prop :=
  item.kind = other.kind ∧ item.mp.data.length = other.mp.data.length

/-- The validity and the data of two items agree. -/
def Item.Agrees (item other : Item) : Prop :=
  item.mp.valid = other.mp.valid ∧ item.mp.data = other.mp.data

section Specification

variable (sizeofSizeT : Nat)

/-- What `getData()` puts into the buffer. -/
def encode (r : Record) : List UInt8 :=
  [r.major, r.minor] ++ r.items.flatMap fun item => exportData sizeofSizeT item.kind item.mp false

/-- The schema header and the external sizes of the model points. -/
def encodedSize (r : Record) : Nat :=
  2 + (r.items.map (Item.externalSize sizeofSizeT)).sum

/-- From a buffer with room for it, the record comes back on model points of the same types,
and each item is read from as many bytes as it was written to. -/
def RoundTrips (schemaChange : Record → UInt8 → UInt8 → Memory → Nat → Bool × Record)
    (r fresh : Record) (maxDstLen : Nat) : Prop :=
  (encodedSize sizeofSizeT r ≤ maxDstLen →
    getRecordSize sizeofSizeT r = encodedSize sizeofSizeT r ∧
      ∀ (m : Memory) (dst : Nat), ∃ m' restored,
        getData sizeofSizeT r m dst maxDstLen = (encodedSize sizeofSizeT r, m') ∧
          putData sizeofSizeT schemaChange fresh (suffix m' dst) (encodedSize sizeofSizeT r) =
            (true, restored) ∧
          List.Forall₂ Item.Agrees r.items restored.items) ∧
  ∀ (m : Memory) (dst : Nat), List.Forall₂ (fun item other => ∀ length,
    item.externalSize sizeofSizeT ≤ length →
      (importData sizeofSizeT other.kind other.mp
        (suffix (exportTo sizeofSizeT item m dst length).2 dst) length false).1 =
          (exportTo sizeofSizeT item m dst length).1) r.items fresh.items

/-- A buffer that is too small is answered with zero, and only bytes of it are written. -/
def RefusesShort (r : Record) (maxDstLen : Nat) : Prop :=
  maxDstLen < encodedSize sizeofSizeT r → ∀ (m : Memory) (dst : Nat),
    ∃ m', getData sizeofSizeT r m dst maxDstLen = (0, m') ∧
      ∀ i, i < dst ∨ dst + maxDstLen ≤ i → m' i = m i

end Specification

variable {sizeofSizeT : Nat}

theorem length_exportData (k : Kind) (p : Mp) (includeLockedState : Bool) :
    (exportData sizeofSizeT k p includeLockedState).length =
      getExternalSize sizeofSizeT k p includeLockedState := by
  cases includeLockedState with
  | false => simp [exportData, getExternalSize]; omega
  | true => simp [exportData, getExternalSize]; omega

theorem Item.externalSize_pos (item : Item) : 0 < item.externalSize sizeofSizeT := by
  rw [Item.externalSize, getExternalSize]
  omega

theorem getRecordSize_eq (r : Record) (hsize : encodedSize sizeofSizeT r < 256 ^ sizeofSizeT) :
    getRecordSize sizeofSizeT r = encodedSize sizeofSizeT r := by
  have hfold : ∀ (items : List Item) (byteCount : Nat),
      byteCount + (items.map (Item.externalSize sizeofSizeT)).sum < 256 ^ sizeofSizeT →
        items.foldl (fun byteCount item =>
            (byteCount + item.externalSize sizeofSizeT) % 256 ^ sizeofSizeT) byteCount =
          byteCount + (items.map (Item.externalSize sizeofSizeT)).sum := by
    intro items
    induction items with
    | nil =>
        intro byteCount _
        rfl
    | cons item items ih =>
        intro byteCount hsum
        rw [List.map_cons, List.sum_cons] at hsum ⊢
        rw [List.foldl_cons, Nat.mod_eq_of_lt (by omega), ih _ (by omega), Nat.add_assoc]
  exact hfold r.items 2 hsize

theorem length_flatMap_exportData (items : List Item) :
    (items.flatMap fun item => exportData sizeofSizeT item.kind item.mp false).length =
      (items.map (Item.externalSize sizeofSizeT)).sum := by
  induction items with
  | nil => rfl
  | cons item items ih =>
      rw [List.flatMap_cons, List.length_append, ih, length_exportData, List.map_cons,
        List.sum_cons, Item.externalSize]

theorem length_encode (r : Record) :
    (encode sizeofSizeT r).length = encodedSize sizeofSizeT r := by
  rw [encodedSize, encode, List.length_append, length_flatMap_exportData]
  rfl

theorem two_le_encodedSize (r : Record) : 2 ≤ encodedSize sizeofSizeT r :=
  Nat.le_add_right 2 _

/-- With the schema identifiers in the buffer, the subtraction does not wrap. -/
theorem afterSchema_of_le {length : Nat} (htwo : 2 ≤ length)
    (hlength : length < 256 ^ sizeofSizeT) : afterSchema sizeofSizeT length = length - 2 :=
  difference_of_le htwo hlength

theorem afterSchema_of_lt {length : Nat} (hshort : length < 2) (htwo : 2 < 256 ^ sizeofSizeT) :
    afterSchema sizeofSizeT length = length + 256 ^ sizeofSizeT - 2 :=
  difference_of_lt hshort htwo.le

section Export

/-- One item that the buffer has room for. -/
theorem exportItems_cons {item : Item} (items : List Item) (m : Memory)
    {buffer maxDstLen bytesWritten : Nat} (hroom : item.externalSize sizeofSizeT ≤ maxDstLen) :
    exportItems sizeofSizeT (item :: items) m buffer maxDstLen bytesWritten =
      exportItems sizeofSizeT items
        (store m buffer (exportData sizeofSizeT item.kind item.mp false))
        (buffer + item.externalSize sizeofSizeT) (maxDstLen - item.externalSize sizeofSizeT)
        ((bytesWritten + item.externalSize sizeofSizeT) % 256 ^ sizeofSizeT) := by
  have hpos := @Item.externalSize_pos sizeofSizeT item
  rw [exportItems]
  simp only [exportTo, if_neg (Nat.not_lt.mpr hroom), if_pos hroom,
    if_neg (Nat.ne_of_gt hpos)]

theorem exportItems_cons_of_lt {item : Item} (items : List Item) (m : Memory)
    {buffer maxDstLen bytesWritten : Nat} (hroom : maxDstLen < item.externalSize sizeofSizeT) :
    exportItems sizeofSizeT (item :: items) m buffer maxDstLen bytesWritten = (0, m) := by
  rw [exportItems, if_pos hroom]

/-- With room for all items, the loop writes them one behind the other. -/
theorem exportItems_eq (items : List Item) (m : Memory) (buffer maxDstLen bytesWritten : Nat)
    (hroom : (items.map (Item.externalSize sizeofSizeT)).sum ≤ maxDstLen)
    (hsize : bytesWritten + (items.map (Item.externalSize sizeofSizeT)).sum <
      256 ^ sizeofSizeT) :
    exportItems sizeofSizeT items m buffer maxDstLen bytesWritten =
      (bytesWritten + (items.map (Item.externalSize sizeofSizeT)).sum,
        store m buffer
          (items.flatMap fun item => exportData sizeofSizeT item.kind item.mp false)) := by
  induction items generalizing m buffer maxDstLen bytesWritten with
  | nil => rw [exportItems, List.flatMap_nil, store_nil, List.map_nil, List.sum_nil, Nat.add_zero]
  | cons item items ih =>
      rw [List.map_cons, List.sum_cons] at hroom hsize ⊢
      rw [exportItems_cons items m (by omega), Nat.mod_eq_of_lt (by omega),
        ih _ _ _ _ (by omega) (by omega), List.flatMap_cons, ← store_store, length_exportData,
        Nat.add_assoc]
      rfl

/-- Without room for all items, the loop gives up and has written inside the
buffer only. -/
theorem exportItems_short (items : List Item) (m : Memory) (buffer maxDstLen bytesWritten : Nat)
    (hroom : maxDstLen < (items.map (Item.externalSize sizeofSizeT)).sum) :
    (exportItems sizeofSizeT items m buffer maxDstLen bytesWritten).1 = 0 ∧
      ∀ i, i < buffer ∨ buffer + maxDstLen ≤ i →
        (exportItems sizeofSizeT items m buffer maxDstLen bytesWritten).2 i = m i := by
  induction items generalizing m buffer maxDstLen bytesWritten with
  | nil => exact absurd hroom (Nat.not_lt_zero _)
  | cons item items ih =>
      rw [List.map_cons, List.sum_cons] at hroom
      rcases Nat.lt_or_ge maxDstLen (item.externalSize sizeofSizeT) with hitem | hitem
      · rw [exportItems_cons_of_lt items m hitem]
        exact ⟨rfl, fun _ _ => rfl⟩
      · rw [exportItems_cons items m hitem]
        obtain ⟨hzero, houtside⟩ := ih
          (store m buffer (exportData sizeofSizeT item.kind item.mp false))
          (buffer + item.externalSize sizeofSizeT) (maxDstLen - item.externalSize sizeofSizeT)
          ((bytesWritten + item.externalSize sizeofSizeT) % 256 ^ sizeofSizeT) (by omega)
        refine ⟨hzero, ?_⟩
        intro i hi
        rw [houtside i (by omega)]
        apply store_outside
        rw [length_exportData, ← Item.externalSize]
        omega

/-- The loop writes nothing in front of its buffer, whatever room it is told of. -/
theorem exportItems_before (items : List Item) (m : Memory)
    (buffer maxDstLen bytesWritten : Nat) {i : Nat} (hi : i < buffer) :
    (exportItems sizeofSizeT items m buffer maxDstLen bytesWritten).2 i = m i := by
  induction items generalizing m buffer maxDstLen bytesWritten with
  | nil => rfl
  | cons item items ih =>
      rcases Nat.lt_or_ge maxDstLen (item.externalSize sizeofSizeT) with hitem | hitem
      · rw [exportItems_cons_of_lt items m hitem]
      · rw [exportItems_cons items m hitem, ih _ _ _ _ (by omega)]
        exact store_outside _ _ _ (.inl hi)

end Export

section Import

theorem importMetadata_of_export {item : Item} (htyped : item.WellTyped sizeofSizeT)
    {stream : Memory} (hstream : StartsWith stream (exportMetadata sizeofSizeT item.kind)) :
    importMetadata sizeofSizeT item.kind stream =
      some (exportMetadata sizeofSizeT item.kind).length := by
  rcases item with ⟨kind, mp⟩
  cases kind with
  | array n size =>
      obtain ⟨hn, hsize⟩ := startsWith_append.mp hstream
      rw [StartsWith, length_toBytes] at hn
      rw [StartsWith, length_toBytes, length_toBytes] at hsize
      have hdecode : ofBytes (load stream sizeofSizeT) = n := by
        rw [hn]
        exact ofBytes_toBytes _ _ htyped.1
      have hdecode' : ofBytes (load (fun i => stream (sizeofSizeT + i)) sizeofSizeT) = size := by
        show ofBytes (load (suffix stream sizeofSizeT) sizeofSizeT) = size
        rw [hsize]
        exact ofBytes_toBytes _ _ htyped.2
      rw [importMetadata, hdecode, hdecode', if_neg (by simp)]
      simp [exportMetadata]
  | common => rfl
  | string => rfl
  | numeric plus minus => rfl
  | refCounter => rfl

/-- The import of an export, with the same choice on the lock state. -/
theorem importData_of_startsWith {item : Item} (htyped : item.WellTyped sizeofSizeT) {mp : Mp}
    (hsize : mp.data.length = item.mp.data.length) {includeLockedState : Bool} {stream : Memory}
    (hstream : StartsWith stream (exportData sizeofSizeT item.kind item.mp includeLockedState))
    {srcLength : Nat} (hroom : getExternalSize sizeofSizeT item.kind mp false ≤ srcLength) :
    importData sizeofSizeT item.kind mp stream srcLength includeLockedState =
      (getExternalSize sizeofSizeT item.kind item.mp includeLockedState,
        { data := item.mp.data
          valid := item.mp.valid
          seqNum := advanceSequenceNumber mp.seqNum
          locked := if includeLockedState then item.mp.locked else mp.locked }) := by
  obtain ⟨hmetadata, hbody⟩ := startsWith_append.mp hstream
  obtain ⟨hdata, hstates⟩ := startsWith_append.mp hbody
  have himport := importMetadata_of_export htyped hmetadata
  have hflag : ∀ b : Bool, (b.toUInt8 != 0) = b := by decide
  have hvalid : suffix stream (exportMetadata sizeofSizeT item.kind).length item.mp.data.length =
      item.mp.valid.toUInt8 := hstates.head
  have hlocked : includeLockedState = true →
      suffix stream (exportMetadata sizeofSizeT item.kind).length (item.mp.data.length + 1) =
        item.mp.locked.toUInt8 := by
    rintro rfl
    have hboth : StartsWith
        (suffix (suffix stream (exportMetadata sizeofSizeT item.kind).length) item.mp.data.length)
        ([item.mp.valid.toUInt8] ++ [item.mp.locked.toUInt8]) := hstates
    exact (startsWith_append.mp hboth).2.head
  have hbytes : load (suffix stream (exportMetadata sizeofSizeT item.kind).length)
      item.mp.data.length =
      item.mp.data := hdata
  rw [importData, if_pos hroom, himport]
  simp only [getExternalSize, hsize]
  refine Prod.ext rfl ?_
  show LockablePoint.mk (Point.mk (load (suffix stream _) item.mp.data.length)
    (suffix stream _ item.mp.data.length != 0) _) _ = _
  rw [hbytes, hvalid, hflag]
  cases includeLockedState with
  | false => rfl
  | true =>
      show LockablePoint.mk _ (suffix stream _ (item.mp.data.length + 1) != 0) = _
      rw [hlocked rfl, hflag]
      rfl

/-- Importing what an item of the same type exported. -/
theorem importData_of_export {item other : Item} (htyped : item.WellTyped sizeofSizeT)
    (htype : item.SameType other) {stream : Memory}
    (hstream : StartsWith stream (exportData sizeofSizeT item.kind item.mp false)) {srcLength : Nat}
    (hroom : other.externalSize sizeofSizeT ≤ srcLength) :
    importData sizeofSizeT other.kind other.mp stream srcLength false =
      (item.externalSize sizeofSizeT,
        { data := item.mp.data
          valid := item.mp.valid
          seqNum := advanceSequenceNumber other.mp.seqNum
          locked := other.mp.locked }) := by
  obtain ⟨hkind, hlen⟩ := htype
  rw [Item.externalSize, ← hkind] at hroom
  rw [← hkind, importData_of_startsWith htyped hlen.symm hstream hroom]
  rfl

theorem externalSize_of_sameType {item other : Item} (h : item.SameType other) :
    other.externalSize sizeofSizeT = item.externalSize sizeofSizeT := by
  rw [Item.externalSize, Item.externalSize, getExternalSize, getExternalSize, h.1, h.2]

/-- The loop over items of the same types restores what the others exported. -/
theorem importItems_of_export {items others : List Item}
    (htyped : ∀ item ∈ items, item.WellTyped sizeofSizeT)
    (htypes : List.Forall₂ Item.SameType items others) {buffer : Memory} {srcLen : Nat}
    (hbuffer : StartsWith buffer
      (items.flatMap fun item => exportData sizeofSizeT item.kind item.mp false))
    (hlen : (items.map (Item.externalSize sizeofSizeT)).sum ≤ srcLen) :
    (importItems sizeofSizeT others buffer srcLen).1 = true ∧
      List.Forall₂ Item.Agrees items (importItems sizeofSizeT others buffer srcLen).2 := by
  induction htypes generalizing buffer srcLen with
  | nil => exact ⟨rfl, .nil⟩
  | @cons item other items others htype _ ih =>
      rw [List.map_cons, List.sum_cons] at hlen
      rw [List.flatMap_cons, startsWith_append, length_exportData, ← Item.externalSize] at hbuffer
      have hsize := @externalSize_of_sameType sizeofSizeT _ _ htype
      have hpos := @Item.externalSize_pos sizeofSizeT item
      have himport := importData_of_export (htyped item List.mem_cons_self) htype hbuffer.1
        (by omega : other.externalSize sizeofSizeT ≤ srcLen)
      obtain ⟨hrest, hagree⟩ := ih (fun i hi => htyped i (List.mem_cons_of_mem _ hi)) hbuffer.2
        (by omega : _ ≤ srcLen - item.externalSize sizeofSizeT)
      rw [importItems, hsize, if_neg (by omega)]
      simp only [himport, if_neg (by omega : ¬ item.externalSize sizeofSizeT = 0)]
      exact ⟨hrest, .cons ⟨rfl, rfl⟩ hagree⟩

end Import

section Record

variable {r : Record}

theorem getData_of_room (m : Memory) (dst : Nat) {maxDstLen : Nat}
    (hsize : encodedSize sizeofSizeT r < 256 ^ sizeofSizeT)
    (hroom : encodedSize sizeofSizeT r ≤ 2 + afterSchema sizeofSizeT maxDstLen) :
    getData sizeofSizeT r m dst maxDstLen =
      (encodedSize sizeofSizeT r, store m dst (encode sizeofSizeT r)) := by
  rw [encodedSize] at hsize hroom
  rw [getData, exportItems_eq _ _ _ _ _ (by omega) hsize]
  exact congrArg (Prod.mk _) (store_store m dst [r.major, r.minor] _)

theorem getData_eq (m : Memory) (dst : Nat) {maxDstLen : Nat}
    (hlen : maxDstLen < 256 ^ sizeofSizeT) (hroom : encodedSize sizeofSizeT r ≤ maxDstLen) :
    getData sizeofSizeT r m dst maxDstLen =
      (encodedSize sizeofSizeT r, store m dst (encode sizeofSizeT r)) := by
  have htwo := @two_le_encodedSize sizeofSizeT r
  exact getData_of_room m dst (by omega) (by rw [afterSchema_of_le (by omega) hlen]; omega)

/-- The subtraction wraps, and the whole record goes into a buffer of one byte. -/
theorem getData_of_lt_two (m : Memory) (dst : Nat) {maxDstLen : Nat} (hshort : maxDstLen < 2)
    (hsize : encodedSize sizeofSizeT r < 256 ^ sizeofSizeT) :
    getData sizeofSizeT r m dst maxDstLen =
      (encodedSize sizeofSizeT r, store m dst (encode sizeofSizeT r)) := by
  have htwo := @two_le_encodedSize sizeofSizeT r
  exact getData_of_room m dst hsize (by rw [afterSchema_of_lt hshort (by omega)]; omega)

theorem getData_short (m : Memory) (dst : Nat) {maxDstLen : Nat} (htwo : 2 ≤ maxDstLen)
    (hlen : maxDstLen < 256 ^ sizeofSizeT) (hroom : maxDstLen < encodedSize sizeofSizeT r) :
    (getData sizeofSizeT r m dst maxDstLen).1 = 0 ∧
      ∀ i, i < dst ∨ dst + maxDstLen ≤ i →
        (getData sizeofSizeT r m dst maxDstLen).2 i = m i := by
  rw [encodedSize] at hroom
  rw [getData, afterSchema_of_le htwo hlen]
  obtain ⟨hzero, houtside⟩ := @exportItems_short sizeofSizeT r.items
    (store m dst [r.major, r.minor]) (dst + 2) (maxDstLen - 2) 2 (by omega)
  refine ⟨hzero, ?_⟩
  intro i hi
  rw [houtside i (by omega)]
  apply store_outside
  simp only [List.length_cons, List.length_nil]
  omega

/-- The second schema identifier is written without a look at the room. -/
theorem getData_minor (r : Record) (m : Memory) (dst maxDstLen : Nat) :
    (getData sizeofSizeT r m dst maxDstLen).2 (dst + 1) = r.minor := by
  rw [getData, exportItems_before _ _ _ _ _ (by omega), store, if_pos (by omega),
    Nat.add_sub_cancel_left]
  rfl

theorem putData_of_encode {fresh : Record} (hmajor : fresh.major = r.major)
    (hminor : fresh.minor = r.minor) (htyped : ∀ item ∈ r.items, item.WellTyped sizeofSizeT)
    (htypes : List.Forall₂ Item.SameType r.items fresh.items)
    (schemaChange : Record → UInt8 → UInt8 → Memory → Nat → Bool × Record) {src : Memory}
    (hsrc : StartsWith src (encode sizeofSizeT r))
    (hsize : encodedSize sizeofSizeT r < 256 ^ sizeofSizeT) :
    ∃ restored, putData sizeofSizeT schemaChange fresh src (encodedSize sizeofSizeT r) =
        (true, restored) ∧
      List.Forall₂ Item.Agrees r.items restored.items := by
  obtain ⟨hschema, hitems⟩ := startsWith_append.mp hsrc
  obtain ⟨hfirst, hsecond⟩ := @startsWith_append _ [r.major] [r.minor] |>.mp hschema
  have hremaining := afterSchema_of_le (two_le_encodedSize r) hsize
  obtain ⟨hok, hagree⟩ := importItems_of_export htyped htypes hitems
    (by rw [hremaining, encodedSize]; omega :
      _ ≤ afterSchema sizeofSizeT (encodedSize sizeofSizeT r))
  refine ⟨{ fresh with items := (importItems sizeofSizeT fresh.items (suffix src 2)
    (afterSchema sizeofSizeT (encodedSize sizeofSizeT r))).2 }, ?_, hagree⟩
  have hsame : ¬ (src 0 ≠ fresh.major ∨ src 1 ≠ fresh.minor) := by
    have h0 : src 0 = r.major := hfirst.head
    have h1 : src 1 = r.minor := hsecond.head
    simp [h0, h1, hmajor, hminor]
  rw [putData]
  simp only [if_neg hsame]
  exact Prod.ext hok rfl

theorem importData_exportTo {fresh : Record}
    (htyped : ∀ item ∈ r.items, item.WellTyped sizeofSizeT)
    (htypes : List.Forall₂ Item.SameType r.items fresh.items) (m : Memory) (dst : Nat) :
    List.Forall₂ (fun item other => ∀ length, item.externalSize sizeofSizeT ≤ length →
      (importData sizeofSizeT other.kind other.mp
        (suffix (exportTo sizeofSizeT item m dst length).2 dst) length false).1 =
          (exportTo sizeofSizeT item m dst length).1) r.items fresh.items := by
  apply ((List.forall₂_and_left _ _).mpr ⟨htyped, htypes⟩).imp
  rintro item other ⟨hitem, htype⟩ length hlength
  have hsize := @externalSize_of_sameType sizeofSizeT _ _ htype
  simp only [exportTo, if_pos hlength]
  rw [importData_of_export hitem htype (startsWith_store m dst _) (by omega)]

theorem refusesShort_of_two_le {maxDstLen : Nat} (htwo : 2 ≤ maxDstLen)
    (hlen : maxDstLen < 256 ^ sizeofSizeT) : RefusesShort sizeofSizeT r maxDstLen := by
  intro hroom m dst
  obtain ⟨hzero, houtside⟩ := getData_short m dst htwo hlen hroom
  exact ⟨(getData sizeofSizeT r m dst maxDstLen).2, Prod.ext hzero rfl, houtside⟩

theorem not_refusesShort_of_lt_two {maxDstLen : Nat} (hshort : maxDstLen < 2) :
    ¬ RefusesShort sizeofSizeT r maxDstLen := by
  intro hrefuses
  have htwo := @two_le_encodedSize sizeofSizeT r
  have hother : (if r.minor = 0 then 1 else 0) ≠ r.minor := by
    split_ifs with hzero
    · rw [hzero]
      decide
    · exact Ne.symm hzero
  obtain ⟨m', hdata, houtside⟩ := hrefuses (by omega) (fun _ => if r.minor = 0 then 1 else 0) 0
  have hcell := houtside (0 + 1) (by omega)
  have hminor := @getData_minor sizeofSizeT r (fun _ => if r.minor = 0 then 1 else 0) 0 maxDstLen
  rw [hdata] at hminor
  exact hother (hcell.symm.trans hminor)

end Record

/-- A record comes back from its buffer on model points of the same types, and is not written
to a buffer that is too small for it, exactly if the buffer takes the schema identifiers. -/
theorem roundTrips_and_refusesShort_iff (sizeofSizeT : Nat) (r fresh : Record)
    (htyped : ∀ item ∈ r.items, item.WellTyped sizeofSizeT) (hmajor : fresh.major = r.major)
    (hminor : fresh.minor = r.minor) (htypes : List.Forall₂ Item.SameType r.items fresh.items)
    (schemaChange : Record → UInt8 → UInt8 → Memory → Nat → Bool × Record) {maxDstLen : Nat}
    (hlen : maxDstLen < 256 ^ sizeofSizeT) :
    RoundTrips sizeofSizeT schemaChange r fresh maxDstLen ∧
        RefusesShort sizeofSizeT r maxDstLen ↔
      2 ≤ maxDstLen := by
  constructor
  · rintro ⟨-, hrefuses⟩
    by_contra hshort
    exact not_refusesShort_of_lt_two (by omega) hrefuses
  · intro htwo
    refine ⟨⟨?_, importData_exportTo htyped htypes⟩, refusesShort_of_two_le htwo hlen⟩
    intro hroom
    refine ⟨getRecordSize_eq r (by omega), ?_⟩
    intro m dst
    obtain ⟨restored, hput, hagree⟩ := putData_of_encode hmajor hminor htyped htypes
      schemaChange (startsWith_store m dst (encode sizeofSizeT r)) (by omega)
    exact ⟨_, restored, getData_eq m dst hlen hroom, hput, hagree⟩

/-- Two model points that were written, and two fresh ones. -/
def writtenItems : List Item :=
  [⟨.array 2 1, { Point.init [7, 8] true with locked := true }⟩,
    ⟨.refCounter, { Point.init [1, 0, 0, 0] false with locked := false }⟩]

def freshItems : List Item :=
  [⟨.array 2 1, { Point.init [0, 0] false with locked := false }⟩,
    ⟨.refCounter, { Point.init [0, 0, 0, 0] false with locked := false }⟩]

theorem roundTrips_and_refusesShort_two_points :
    RoundTrips 4 noSchemaChange ⟨writtenItems, 1, 2⟩ ⟨freshItems, 1, 2⟩ 64 ∧
      RefusesShort 4 ⟨writtenItems, 1, 2⟩ 64 :=
  (roundTrips_and_refusesShort_iff 4 ⟨writtenItems, 1, 2⟩ ⟨freshItems, 1, 2⟩
    (by simp [writtenItems, Item.WellTyped]) rfl rfl
    (.cons ⟨rfl, rfl⟩ (.cons ⟨rfl, rfl⟩ .nil)) noSchemaChange (by decide)).mpr (by decide)

/-- One counter in a buffer of one byte: seven bytes are written. -/
theorem not_refusesShort_one_byte :
    ¬ RefusesShort 4
      ⟨[⟨.refCounter, { Point.init [1, 0, 0, 0] true with locked := false }⟩], 1, 2⟩ 1 := by
  intro hrefuses
  obtain ⟨m', hdata, -⟩ := hrefuses (by decide) (fun _ => 0) 0
  have hseven : 7 = 0 := congrArg Prod.fst hdata
  exact absurd hseven (by decide)

end ColonyPico.Dm.PersistentRecord
