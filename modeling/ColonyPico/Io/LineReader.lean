import ColonyPico.Foundations.SeparatedText
import ColonyPico.Foundations.TextOrder
import ColonyPico.Text.StringAppend

/-!
The line reader (`Cpl::Io::LineReader`): lines of a byte stream in strings of a bounded capacity,
for a newline of one or two characters.
-/

namespace ColonyPico.Io.LineReader

open ColonyPico.Foundations.SeparatedText
open ColonyPico.Foundations.TerminatedText
open ColonyPico.Foundations.TextOrder
open ColonyPico.Text.StringAppend
open ColonyPico.Text.StringEdits
open ColonyPico.Text.StringRefinement

/-! Strings -/

def startsWith (s : FString) (string : CString) : Bool :=
  let len := strlen s.strPtr
  let len2 := string.chars.length
  if len2 > len ∨ len2 = 0 then false else strncmp len2 s.strPtr string.chars = 0

def endsWith (s : FString) (string : CString) : Bool :=
  let len := strlen s.strPtr
  let len2 := string.chars.length
  if len2 > len ∨ len2 = 0 then false
  else strncmp len2 (s.strPtr.drop (len - len2)) string.chars = 0

/-- A new `FString<2>` of one character; its last cell is not initialised. -/
def ofChar (c uninitialised : UInt8) : FString :=
  { strPtr := [c, 0, uninitialised], internalMaxlen := 2, truncated := false }

def trimRight (s : FString) (n : Nat) : Option FString :=
  s.apply (.trimRight n)

def trimLeft (s : FString) (n : Nat) : Option FString :=
  s.apply (.cut 0 (n - 1))

/-! Reading -/

/-- The stream: the bytes that are left, and how often it was asked for its end. -/
structure Input where
  bytes : List UInt8
  asked : Nat

/-- What the stream answers to `isEos()`; it may miss the end, but reports it only there. -/
structure IsEos where
  answer : Nat → List UInt8 → Bool
  sound : ∀ asked bytes, answer asked bytes = true → bytes = []

/-- The loop of `discardRemainingLine_` for a newline of one character. -/
def drain (newline : UInt8) : UInt8 → List UInt8 → Bool × List UInt8
  | overflowChar, [] => (overflowChar = newline, [])
  | overflowChar, c :: bytes =>
      if overflowChar = newline then (true, c :: bytes) else drain newline c bytes

/-- The loop of `discardRemainingLine_` for a newline of two characters. -/
def search (newline : CString) : FString → List UInt8 → Option (Bool × List UInt8)
  -- behind a failed read the buffer gets a character that nothing looks at
  | buffer, [] => some (startsWith buffer newline, [])
  | buffer, inChar :: bytes =>
      if startsWith buffer newline then some (true, inChar :: bytes)
      else do
        let buffer ← trimLeft buffer 1
        let buffer ← appendChar buffer inChar
        search newline buffer bytes

def discardRemainingLine_ (newline : CString) (uninitialised : UInt8) (bytes : List UInt8)
    (destString : FString) (lastChar overflowChar : UInt8) :
    Option (Bool × List UInt8 × FString) :=
  if newline.chars.length = 1 then do
    let first ← newline.chars[0]?
    let (io, bytes) := drain first overflowChar bytes
    some (io, bytes, destString)
  else do
    let buffer ← appendChar (ofChar lastChar uninitialised) overflowChar
    if startsWith buffer newline then do
      let destString ← trimRight destString 1
      some (true, bytes, destString)
    else do
      let (io, bytes) ← search newline buffer bytes
      some (io, bytes, destString)

def readLoop (isEos : IsEos) (newline : CString) (uninitialised : UInt8) :
    List UInt8 → Nat → UInt8 → FString → Option (Bool × Input × FString)
  | [], asked, _, destString => some (false, ⟨[], asked⟩, destString)
  | nextChar :: bytes, asked, prevChar, destString => do
      let destString ← appendChar destString nextChar
      if destString.truncated then do
        let (io, bytes, destString) ←
          discardRemainingLine_ newline uninitialised bytes destString prevChar nextChar
        some (io, ⟨bytes, asked⟩, destString)
      else if endsWith destString newline then do
        let destString ← trimRight destString newline.chars.length
        some (true, ⟨bytes, asked⟩, destString)
      else if isEos.answer asked bytes then some (false, ⟨bytes, asked + 1⟩, destString)
      else readLoop isEos newline uninitialised bytes (asked + 1) nextChar destString

def readln (isEos : IsEos) (newline : CString) (uninitialised : UInt8) (input : Input)
    (destString : FString) : Option (Bool × Input × FString) := do
  let destString ← clear destString
  readLoop isEos newline uninitialised input.bytes input.asked 32 destString

/-- Successive calls, each with a string of its own. -/
def readlns (isEos : IsEos) (newline : CString) (uninitialised : UInt8) :
    Input → List FString → Option (List (Bool × FString))
  | _, [] => some []
  | input, destString :: rest => do
      let (io, input, destString) ← readln isEos newline uninitialised input destString
      let results ← readlns isEos newline uninitialised input rest
      some ((io, destString) :: results)

/-! What the strings do -/

variable {s buffer destString : FString} {t junk seen bytes : List UInt8} {newline : CString}
  {maxlen : Nat}

theorem strncmp_eq_zero {xs ys : List UInt8} (hlength : xs.length = ys.length)
    (hfree : (0 : UInt8) ∉ ys) (junk : List UInt8) :
    strncmp ys.length (xs ++ junk) ys = 0 ↔ xs = ys := by
  induction ys generalizing xs with
  | nil =>
      obtain rfl := List.length_eq_zero_iff.mp hlength
      exact iff_of_true (by cases junk <;> rfl) rfl
  | cons y ys ih =>
      obtain ⟨x, xs, rfl⟩ := List.exists_cons_of_length_eq_add_one hlength
      rw [List.length_cons, List.cons_append, strncmp_cons]
      rcases eq_or_ne x y with rfl | hne
      · have hx : x ≠ 0 := fun hzero => hfree (hzero ▸ List.mem_cons_self)
        rw [if_pos rfl, if_neg hx, ih (Nat.succ.inj hlength) fun hmem =>
          hfree (List.mem_cons_of_mem x hmem)]
        exact (List.cons_inj_right x).symm
      · have htoNat : x.toNat ≠ y.toNat := fun heq => hne (UInt8.toNat_inj.mp heq)
        rw [if_neg hne]
        exact iff_of_false (by omega) fun heq => hne (List.cons.inj heq).1

theorem startsWith_iff (h : s.Valid t) (hnewline : newline.chars ≠ []) :
    startsWith s newline = true ↔ newline.chars <+: t := by
  obtain ⟨junk, hcells⟩ := h.holds.split
  have hpos : newline.chars.length ≠ 0 := fun hzero => hnewline (List.length_eq_zero_iff.mp hzero)
  unfold startsWith
  rw [h.holds.strlen_eq]
  dsimp only
  split_ifs with hshort
  · refine iff_of_false id fun hfront => ?_
    have hle := hfront.length_le
    omega
  · have hle : newline.chars.length ≤ t.length := by omega
    have hsplit : s.strPtr =
        t.take newline.chars.length ++ (t.drop newline.chars.length ++ 0 :: junk) := by
      rw [hcells, ← List.append_assoc, List.take_append_drop]
    rw [decide_eq_true_iff, hsplit,
      strncmp_eq_zero (List.length_take_of_le hle) newline.nonzero, List.prefix_iff_eq_take]
    exact eq_comm

theorem endsWith_iff (h : s.Valid t) (hnewline : newline.chars ≠ []) :
    endsWith s newline = true ↔ newline.chars <:+ t := by
  obtain ⟨junk, hcells⟩ := h.holds.split
  have hpos : newline.chars.length ≠ 0 := fun hzero => hnewline (List.length_eq_zero_iff.mp hzero)
  unfold endsWith
  rw [h.holds.strlen_eq]
  dsimp only
  split_ifs with hshort
  · refine iff_of_false id fun hsuffix => ?_
    have hle := hsuffix.length_le
    omega
  · have hlength : (t.drop (t.length - newline.chars.length)).length = newline.chars.length := by
      rw [List.length_drop]
      omega
    have hsplit : s.strPtr.drop (t.length - newline.chars.length) =
        t.drop (t.length - newline.chars.length) ++ 0 :: junk := by
      rw [hcells]
      exact List.drop_append_of_le_length (Nat.sub_le _ _)
    rw [decide_eq_true_iff, hsplit, strncmp_eq_zero hlength newline.nonzero,
      List.suffix_iff_eq_drop]
    exact eq_comm

theorem valid_of_meets {op : TextOp} {s' : FString} (h : s.Valid t)
    (hmeets : FString.Meets op s s') : s'.Valid ((ideal op t).take s.internalMaxlen) := by
  have hholds := hmeets.holds
  rw [h.holds.text_eq] at hholds
  refine ⟨hholds, ?_⟩
  rw [hmeets.sized, hmeets.capacity]

theorem trimRight_valid (h : s.Valid t) {n : Nat} (hn : n ≤ t.length) :
    ∃ s', trimRight s n = some s' ∧ s'.Valid (t.take (t.length - n)) ∧
      s'.internalMaxlen = s.internalMaxlen := by
  obtain ⟨s', htrim, hmeets⟩ :=
    @FString.apply_meets s t h (.trimRight n) trivial (.inr fun habsurd => nomatch habsurd)
  refine ⟨s', htrim, ?_, hmeets.capacity⟩
  have hideal : (ideal (.trimRight n) t).take s.internalMaxlen = t.take (t.length - n) := by
    have hle := h.length_le
    rw [ideal, if_pos ⟨Int.natCast_nonneg n, Int.ofNat_le.mpr hn⟩, Int.toNat_natCast,
      List.take_take, Nat.min_eq_right (by omega)]
  rw [← hideal]
  exact valid_of_meets h hmeets

theorem appendChar_full (h : Holding maxlen t s) {c : UInt8} (hc : c ≠ 0)
    (hfull : t.length = maxlen) :
    ∃ s', appendChar s c = some s' ∧ s'.Valid t ∧ s'.internalMaxlen = maxlen ∧
      s'.truncated = true := by
  have hchars : (cstring [c]).chars = [c] :=
    chars_cstring (by rw [List.mem_singleton]; exact hc.symm)
  have within : (1 : Int) ≤ (cstring [c]).chars.length := by
    rw [hchars]
    exact Int.le_refl 1
  have hideal : ideal (.appendTo (cstring [c]) 1 within) t = t ++ [c] := by
    rw [ideal, hchars]
    rfl
  obtain ⟨s', happend, hmeets⟩ :=
    @FString.appendTo_meets s t h.valid (cstring [c]) (.appendTo (cstring [c]) 1 within) 1
      (Int.ofNat_le.mp within) rfl
  have hvalid := valid_of_meets h.valid hmeets
  have htruncated := hmeets.truncated
  rw [hideal, h.capacity, ← hfull, List.take_left] at hvalid
  rw [h.valid.holds.text_eq, hideal, h.capacity, List.length_append, hfull] at htruncated
  exact ⟨s', happend, hvalid, hmeets.capacity.trans h.capacity,
    htruncated.mpr (Nat.lt_succ_self maxlen)⟩

theorem window_next {x y c : UInt8} (h : Holding 2 [x, y] buffer) (hc : c ≠ 0) :
    ∃ moved buffer', trimLeft buffer 1 = some moved ∧ appendChar moved c = some buffer' ∧
      Holding 2 [y, c] buffer' := by
  obtain ⟨moved, htrim, hmeets⟩ :=
    @FString.apply_meets buffer [x, y] h.valid (.cut 0 (1 - 1)) trivial
      (.inr fun habsurd => nomatch habsurd)
  have hvalid := valid_of_meets h.valid hmeets
  have htruncated := hmeets.truncated
  rw [h.valid.holds.text_eq] at htruncated
  rw [h.capacity] at hvalid htruncated
  have hholding : Holding 2 [y] moved := by
    refine ⟨hvalid, hmeets.capacity.trans h.capacity, ?_⟩
    refine Bool.eq_false_iff.mpr fun htrue => absurd (htruncated.mp htrue) ?_
    exact Nat.not_lt.mpr (Nat.le_succ 1)
  obtain ⟨buffer', happend, hbuffer'⟩ := appendChar_holding hholding hc (Nat.lt_succ_self 1)
  exact ⟨moved, buffer', htrim, happend, hbuffer'⟩

theorem window_start {x y : UInt8} (hx : x ≠ 0) (hy : y ≠ 0) (uninitialised : UInt8) :
    ∃ buffer, appendChar (ofChar x uninitialised) y = some buffer ∧ Holding 2 [x, y] buffer := by
  have hholding : Holding 2 [x] (ofChar x uninitialised) := by
    refine ⟨⟨⟨?_, [uninitialised], rfl⟩, rfl⟩, rfl, rfl⟩
    rw [List.mem_singleton]
    exact hx.symm
  exact appendChar_holding hholding hy (Nat.lt_succ_self 1)

/-! What a call takes from the stream -/

/-- The result of a call at the symbols `seen` of its line: the status, what is left of the stream,
and the line. -/
def outcome (sep seen bytes : List UInt8) : Bool × List UInt8 × List UInt8 :=
  match scan sep seen bytes with
  | some (line, rest) => (true, rest, line)
  | none => (false, [], seen ++ bytes)

variable {sep : List UInt8} {c : UInt8}

theorem outcome_found (hsuffix : sep <:+ seen ++ [c]) (rest : List UInt8) :
    outcome sep seen (c :: rest) =
      (true, rest, (seen ++ [c]).take ((seen ++ [c]).length - sep.length)) := by
  rw [outcome, scan_found hsuffix]

theorem outcome_next (hsuffix : ¬sep <:+ seen ++ [c]) (rest : List UInt8) :
    outcome sep seen (c :: rest) = outcome sep (seen ++ [c]) rest := by
  rw [outcome, outcome, scan_next hsuffix, List.append_assoc]
  rfl

theorem outcome_nil (sep seen : List UInt8) : outcome sep seen [] = (false, [], seen) := by
  rw [outcome, scan, List.append_nil]

/-- Behind symbols that do not end with the separator, the line of the call starts with all but the
separator's length of them. -/
theorem outcome_line (hsep : sep ≠ []) (hfree : ¬sep <:+: seen) (bytes : List UInt8) :
    (outcome sep seen bytes).2.2.take (seen.length + 1 - sep.length) =
      seen.take (seen.length + 1 - sep.length) := by
  have hpos : 0 < sep.length := List.length_pos_iff.mpr hsep
  rcases hscan : scan sep seen bytes with _ | ⟨line, rest⟩
  · rw [outcome, hscan]
    exact List.take_append_of_le_length (by omega)
  · obtain ⟨hjoin, -, hlength⟩ := scan_some hsep hfree hscan
    rw [outcome, hscan]
    show line.take _ = _
    have htake := congrArg (List.take (seen.length + 1 - sep.length)) hjoin
    rwa [List.take_append_of_le_length (by omega), List.take_append_of_le_length (by omega)]
      at htake

theorem singleton_suffix {a : UInt8} : [a] <:+ seen ++ [c] ↔ c = a := by
  constructor
  · rintro ⟨front, hfront⟩
    exact (List.singleton_inj.mp (List.append_inj' hfront rfl).2).symm
  · rintro rfl
    exact List.suffix_append seen [c]

theorem pair_suffix {x : UInt8} (hsep : sep.length = 2) :
    sep <:+ seen ++ [x] ++ [c] ↔ sep <+: [x, c] := by
  rw [List.append_assoc]
  constructor
  · rintro ⟨front, hfront⟩
    exact ((List.append_inj' hfront hsep).2 ▸ List.prefix_refl sep)
  · intro hfront
    rw [hfront.eq_of_length hsep]
    exact List.suffix_append seen [x, c]

/-! Calls -/

theorem drain_spec (a c : UInt8) (seen bytes : List UInt8) :
    drain a c bytes =
      ((outcome [a] seen (c :: bytes)).1, (outcome [a] seen (c :: bytes)).2.1) := by
  induction bytes generalizing c seen with
  | nil =>
      rcases eq_or_ne c a with rfl | hne
      · rw [outcome_found (singleton_suffix.mpr rfl), drain, decide_eq_true rfl]
      · rw [outcome_next (mt singleton_suffix.mp hne), outcome_nil, drain, decide_eq_false hne]
  | cons next bytes ih =>
      rcases eq_or_ne c a with rfl | hne
      · rw [outcome_found (singleton_suffix.mpr rfl), drain, if_pos rfl]
      · rw [outcome_next (mt singleton_suffix.mp hne), drain, if_neg hne]
        exact ih next (seen ++ [c])

theorem search_spec (hnewline : newline.chars.length = 2) {x y : UInt8}
    (h : Holding 2 [x, y] buffer) (seen : List UInt8) (hbytes : (0 : UInt8) ∉ bytes) :
    search newline buffer bytes =
      some ((outcome newline.chars (seen ++ [x]) (y :: bytes)).1,
        (outcome newline.chars (seen ++ [x]) (y :: bytes)).2.1) := by
  have hne : newline.chars ≠ [] := fun hnil => by rw [hnil] at hnewline; cases hnewline
  induction bytes generalizing buffer x y seen with
  | nil =>
      have hstarts := startsWith_iff h.valid hne
      rcases Decidable.em (newline.chars <+: [x, y]) with hfront | hfront
      · rw [outcome_found ((pair_suffix hnewline).mpr hfront), search, hstarts.mpr hfront]
      · rw [outcome_next (mt (pair_suffix hnewline).mp hfront), outcome_nil, search,
          Bool.eq_false_iff.mpr (mt hstarts.mp hfront)]
  | cons c bytes ih =>
      have hstarts := startsWith_iff h.valid hne
      rcases Decidable.em (newline.chars <+: [x, y]) with hfront | hfront
      · rw [outcome_found ((pair_suffix hnewline).mpr hfront), search,
          if_pos (hstarts.mpr hfront)]
      · have hc : c ≠ 0 := fun hzero => hbytes (hzero ▸ List.mem_cons_self)
        obtain ⟨moved, buffer', htrim, happend, hbuffer'⟩ := window_next h hc
        rw [outcome_next (mt (pair_suffix hnewline).mp hfront), search,
          if_neg (mt hstarts.mp hfront), htrim, Option.bind_eq_bind, Option.bind_some, happend,
          Option.bind_some]
        exact ih hbuffer' (seen ++ [x]) fun hmem => hbytes (List.mem_cons_of_mem c hmem)

/-- The newlines that the reader can be made for. -/
def Newline (newline : CString) : Prop :=
  newline.chars.length = 1 ∨ newline.chars.length = 2

theorem Newline.ne_nil (hnewline : Newline newline) : newline.chars ≠ [] := by
  intro hnil
  rw [Newline, hnil] at hnewline
  rcases hnewline with habsurd | habsurd <;> cases habsurd

/-- From a full string the rest of the line is taken from the stream, and a first character of the
newline from the string. -/
theorem discard_spec (hnewline : Newline newline) (uninitialised : UInt8) {last c : UInt8}
    (h : destString.Valid (seen ++ [last])) (hcapacity : destString.internalMaxlen = maxlen)
    (hfull : (seen ++ [last]).length = maxlen) (hfree : ¬newline.chars <:+: seen ++ [last])
    (hbytes : (0 : UInt8) ∉ c :: bytes) :
    ∃ destString',
      discardRemainingLine_ newline uninitialised bytes destString last c =
        some ((outcome newline.chars (seen ++ [last]) (c :: bytes)).1,
          (outcome newline.chars (seen ++ [last]) (c :: bytes)).2.1, destString') ∧
      destString'.internalMaxlen = maxlen ∧
      destString'.Valid
        ((outcome newline.chars (seen ++ [last]) (c :: bytes)).2.2.take maxlen) := by
  have hc : c ≠ 0 := fun hzero => hbytes (hzero ▸ List.mem_cons_self)
  have hrest : (0 : UInt8) ∉ bytes := fun hmem => hbytes (List.mem_cons_of_mem c hmem)
  have hlength : (seen ++ [last] ++ [c]).length = maxlen + 1 := by
    rw [List.length_append, hfull, List.length_singleton]
  have hkept : ∀ hnext : ¬newline.chars <:+ seen ++ [last] ++ [c],
      (outcome newline.chars (seen ++ [last]) (c :: bytes)).2.2.take maxlen = seen ++ [last] := by
    intro hnext
    have hfree' : ¬newline.chars <:+: seen ++ [last] ++ [c] :=
      fun hinfix => (List.infix_concat_iff.mp hinfix).elim hnext hfree
    have hline := congrArg (List.take maxlen) (outcome_line hnewline.ne_nil hfree' bytes)
    have hroom : maxlen ≤ (seen ++ [last] ++ [c]).length + 1 - newline.chars.length := by
      rcases hnewline with hone | htwo <;> omega
    rw [List.take_take, List.take_take, Nat.min_eq_left hroom] at hline
    rw [outcome_next hnext, hline, ← hfull, List.take_left]
  rcases hnewline with hone | htwo
  · obtain ⟨a, ha⟩ := List.length_eq_one_iff.mp hone
    refine ⟨destString, ?_, hcapacity, ?_⟩
    · have hhead : [a][0]? = some a := rfl
      rw [discardRemainingLine_, if_pos hone, ha, hhead, Option.bind_eq_bind, Option.bind_some,
        drain_spec a c (seen ++ [last])]
    · rcases Decidable.em (newline.chars <:+ seen ++ [last] ++ [c]) with hsuffix | hsuffix
      · rw [outcome_found hsuffix, hone, hlength, Nat.add_sub_cancel, List.take_take,
          Nat.min_self, ← hfull, List.take_left]
        exact h
      · rw [hkept hsuffix]
        exact h
  · have hlast : last ≠ 0 := fun hzero =>
      h.holds.nonzero (hzero ▸ List.mem_append_right seen List.mem_cons_self)
    obtain ⟨buffer, hbuffer, hholding⟩ := window_start hlast hc uninitialised
    have hstarts := startsWith_iff hholding.valid (Newline.ne_nil (.inr htwo))
    have hnotOne : ¬newline.chars.length = 1 := by omega
    rcases Decidable.em (newline.chars <+: [last, c]) with hfront | hfront
    · obtain ⟨destString', htrim, hvalid, hsame⟩ := trimRight_valid h
        (show 1 ≤ (seen ++ [last]).length by rw [List.length_append]; exact Nat.le_add_left 1 _)
      refine ⟨destString', ?_, hsame.trans hcapacity, ?_⟩
      · rw [discardRemainingLine_, if_neg hnotOne, hbuffer, Option.bind_eq_bind, Option.bind_some,
          if_pos (hstarts.mpr hfront), htrim, outcome_found ((pair_suffix htwo).mpr hfront)]
        rfl
      · rw [outcome_found ((pair_suffix htwo).mpr hfront)]
        have hline : ((seen ++ [last] ++ [c]).take
            ((seen ++ [last] ++ [c]).length - newline.chars.length)).take maxlen =
              (seen ++ [last]).take ((seen ++ [last]).length - 1) := by
          rw [List.take_take, htwo, hlength, hfull, Nat.min_eq_right (by omega),
            List.take_append_of_le_length (by omega)]
          rfl
        rw [hline]
        exact hvalid
    · refine ⟨destString, ?_, hcapacity, ?_⟩
      · rw [discardRemainingLine_, if_neg hnotOne, hbuffer, Option.bind_eq_bind, Option.bind_some,
          if_neg (mt hstarts.mp hfront), search_spec htwo hholding seen hrest]
        rfl
      · rw [hkept (mt (pair_suffix htwo).mp hfront)]
        exact h

theorem readLoop_spec (isEos : IsEos) (hnewline : Newline newline) (uninitialised : UInt8)
    (hmaxlen : 1 ≤ maxlen) {prevChar : UInt8} (h : Holding maxlen seen destString)
    (hprev : seen ≠ [] → ∃ front, seen = front ++ [prevChar])
    (hfree : ¬newline.chars <:+: seen) (hbytes : (0 : UInt8) ∉ bytes) (asked : Nat) :
    ∃ asked' destString',
      readLoop isEos newline uninitialised bytes asked prevChar destString =
        some ((outcome newline.chars seen bytes).1,
          ⟨(outcome newline.chars seen bytes).2.1, asked'⟩, destString') ∧
      destString'.internalMaxlen = maxlen ∧
      destString'.Valid ((outcome newline.chars seen bytes).2.2.take maxlen) := by
  induction bytes generalizing seen destString prevChar asked with
  | nil =>
      have hle := h.valid.length_le
      rw [h.capacity] at hle
      refine ⟨asked, destString, ?_, h.capacity, ?_⟩
      · rw [outcome_nil, readLoop]
      · rw [outcome_nil, List.take_of_length_le hle]
        exact h.valid
  | cons c bytes ih =>
      have hc : c ≠ 0 := fun hzero => hbytes (hzero ▸ List.mem_cons_self)
      have hrest : (0 : UInt8) ∉ bytes := fun hmem => hbytes (List.mem_cons_of_mem c hmem)
      have hle := h.valid.length_le
      rw [h.capacity] at hle
      rcases Nat.eq_or_lt_of_le hle with hfull | hroom
      · -- the string is full and the character is dropped
        have hseen : seen ≠ [] := by
          rintro rfl
          exact absurd hmaxlen (by rw [← hfull]; decide)
        obtain ⟨front, rfl⟩ := hprev hseen
        obtain ⟨full, happend, hvalid, hcapacity, htruncated⟩ := appendChar_full h hc hfull
        obtain ⟨destString', hdiscard, hcapacity', hvalid'⟩ :=
          discard_spec hnewline uninitialised hvalid hcapacity hfull hfree hbytes
        refine ⟨asked, destString', ?_, hcapacity', hvalid'⟩
        rw [readLoop, happend, Option.bind_eq_bind, Option.bind_some, if_pos htruncated, hdiscard]
        rfl
      · obtain ⟨longer, happend, hlonger⟩ := appendChar_holding h hc hroom
        have hends := endsWith_iff hlonger.valid hnewline.ne_nil
        have hwhole : ¬longer.truncated = true := by
          rw [hlonger.whole]
          exact Bool.false_ne_true
        rcases Decidable.em (newline.chars <:+ seen ++ [c]) with hsuffix | hsuffix
        · obtain ⟨destString', htrim, hvalid, hsame⟩ :=
            trimRight_valid hlonger.valid hsuffix.length_le
          have hshort := hvalid.length_le
          rw [hsame, hlonger.capacity] at hshort
          refine ⟨asked, destString', ?_, hsame.trans hlonger.capacity, ?_⟩
          · rw [readLoop, happend, Option.bind_eq_bind, Option.bind_some, if_neg hwhole,
              if_pos (hends.mpr hsuffix), htrim, outcome_found hsuffix]
            rfl
          · rw [outcome_found hsuffix, List.take_of_length_le hshort]
            exact hvalid
        · have hfree' : ¬newline.chars <:+: seen ++ [c] :=
            fun hinfix => (List.infix_concat_iff.mp hinfix).elim hsuffix hfree
          obtain ⟨asked', destString', hloop, hcapacity, hvalid⟩ :=
            ih hlonger (fun _ => ⟨seen, rfl⟩) hfree' hrest (asked + 1)
          rw [outcome_next hsuffix, readLoop, happend, Option.bind_eq_bind, Option.bind_some,
            if_neg hwhole, if_neg (mt hends.mp hsuffix)]
          split_ifs with heos
          · -- the end was reported, so nothing is left that the loop could take
            obtain rfl := isEos.sound asked bytes heos
            have hlength := hlonger.valid.length_le
            rw [hlonger.capacity] at hlength
            refine ⟨asked + 1, longer, ?_, hlonger.capacity, ?_⟩
            · rw [outcome_nil]
            · rw [outcome_nil, List.take_of_length_le hlength]
              exact hlonger.valid
          · exact ⟨asked', destString', hloop, hcapacity, hvalid⟩

/-- One call gives the first characters of the line, and leaves the stream behind its newline. -/
theorem readln_spec (isEos : IsEos) (hnewline : Newline newline) (uninitialised : UInt8)
    (h : destString.Valid t) (hmaxlen : 1 ≤ destString.internalMaxlen)
    (hbytes : (0 : UInt8) ∉ bytes) (asked : Nat) :
    ∃ asked' destString',
      readln isEos newline uninitialised ⟨bytes, asked⟩ destString =
        some ((outcome newline.chars [] bytes).1,
          ⟨(outcome newline.chars [] bytes).2.1, asked'⟩, destString') ∧
      text destString'.strPtr =
        (outcome newline.chars [] bytes).2.2.take destString.internalMaxlen := by
  obtain ⟨cleared, hclear, hcleared⟩ := clear_holding h
  have hprev : ([] : List UInt8) ≠ [] → ∃ front : List UInt8, [] = front ++ [32] :=
    fun hne => absurd rfl hne
  obtain ⟨asked', destString', hloop, -, hvalid⟩ :=
    readLoop_spec isEos hnewline uninitialised hmaxlen hcleared hprev
      (not_infix_nil hnewline.ne_nil) hbytes asked
  refine ⟨asked', destString', ?_, hvalid.holds.text_eq⟩
  rw [readln, hclear, Option.bind_eq_bind, Option.bind_some, hloop]

/-- What the calls for the lines of a stream return: the lines, the unfinished last one, and
nothing any more. -/
def served (lines : List (List UInt8)) (tail : List UInt8) (calls : Nat) :
    List (Bool × List UInt8) :=
  lines.map (true, ·) ++ (false, tail) :: List.replicate calls (false, [])

def Capable (destString : FString) : Prop :=
  1 ≤ destString.internalMaxlen ∧ ∃ t, destString.Valid t

theorem readlns_spec (isEos : IsEos) (hnewline : Newline newline) (uninitialised : UInt8)
    {lines : List (List UInt8)} {tail : List UInt8}
    (hdivides : Divides newline.chars bytes lines tail) (hbytes : (0 : UInt8) ∉ bytes)
    (calls : Nat) {dests : List FString} (hdests : ∀ destString ∈ dests, Capable destString)
    (hcalls : dests.length ≤ lines.length + 1 + calls) (asked : Nat) :
    ∃ results, readlns isEos newline uninitialised ⟨bytes, asked⟩ dests = some results ∧
      results.map (fun result => (result.1, text result.2.strPtr)) =
        List.zipWith (fun destString entry => (entry.1, entry.2.take destString.internalMaxlen))
          dests (served lines tail calls) := by
  induction dests generalizing bytes lines tail calls asked with
  | nil => exact ⟨[], rfl, rfl⟩
  | cons destString rest ih =>
      obtain ⟨⟨hmaxlen, t, hvalid⟩, hcapable⟩ := List.forall_mem_cons.mp hdests
      obtain ⟨asked', destString', hreadln, htext⟩ :=
        readln_spec isEos hnewline uninitialised hvalid hmaxlen hbytes asked
      cases hdivides with
      | last hscan =>
          have houtcome : outcome newline.chars [] bytes = (false, [], bytes) := by
            rw [outcome, hscan]
            rfl
          rw [houtcome] at hreadln htext
          have hend : Divides newline.chars [] [] [] := .last rfl
          have hserved : ∃ calls', rest.length ≤ 0 + 1 + calls' ∧
              List.zipWith (fun (destString : FString) (entry : Bool × List UInt8) =>
                (entry.1, entry.2.take destString.internalMaxlen))
                rest (served [] [] calls') =
              List.zipWith (fun destString entry =>
                (entry.1, entry.2.take destString.internalMaxlen))
                rest (List.replicate calls (false, [])) := by
            rw [List.length_cons, List.length_nil] at hcalls
            rcases calls with _ | calls
            · obtain rfl := List.length_eq_zero_iff.mp (show rest.length = 0 by omega)
              exact ⟨0, Nat.zero_le _, rfl⟩
            · exact ⟨calls, by omega, rfl⟩
          obtain ⟨calls', hcalls', hsame⟩ := hserved
          obtain ⟨results, hresults, hmap⟩ :=
            ih hend List.not_mem_nil calls' hcapable hcalls' asked'
          refine ⟨(false, destString') :: results, ?_, ?_⟩
          · rw [readlns, hreadln, Option.bind_eq_bind, Option.bind_some]
            dsimp only
            rw [hresults]
            rfl
          · rw [List.map_cons, hmap, htext, hsame]
            rfl
      | @item _ line rest' _ lines hscan hrest =>
          obtain ⟨hjoin, -, -⟩ :=
            scan_some hnewline.ne_nil (not_infix_nil hnewline.ne_nil) hscan
          have houtcome : outcome newline.chars [] bytes = (true, rest', line) := by
            rw [outcome, hscan]
          rw [houtcome] at hreadln htext
          have hbytes' : (0 : UInt8) ∉ rest' := by
            intro hmem
            rw [List.nil_append] at hjoin
            rw [← hjoin] at hbytes
            exact hbytes (List.mem_append_right _ (List.mem_append_right _ hmem))
          rw [List.length_cons, List.length_cons] at hcalls
          obtain ⟨results, hresults, hmap⟩ :=
            ih hrest hbytes' calls hcapable (by omega) asked'
          refine ⟨(true, destString') :: results, ?_, ?_⟩
          · rw [readlns, hreadln, Option.bind_eq_bind, Option.bind_some]
            dsimp only
            rw [hresults]
            rfl
          · rw [List.map_cons, hmap, htext]
            rfl

/-- A stream without NUL is a sequence of lines, each with its newline, and an unfinished one; the
calls return the first characters of the lines one by one, and then fail. -/
theorem lines_read (isEos : IsEos) (hnewline : Newline newline) (uninitialised : UInt8)
    (hbytes : (0 : UInt8) ∉ bytes) :
    ∃ lines tail, bytes = lines.flatMap (· ++ newline.chars) ++ tail ∧
      (∀ line ∈ lines, ¬newline.chars <:+: line) ∧ ¬newline.chars <:+: tail ∧
      ∀ asked (dests : List FString), (∀ destString ∈ dests, Capable destString) →
        ∃ results, readlns isEos newline uninitialised ⟨bytes, asked⟩ dests = some results ∧
          results.map (fun result => (result.1, text result.2.strPtr)) =
            List.zipWith (fun destString entry => (entry.1, entry.2.take destString.internalMaxlen))
              dests (served lines tail dests.length) := by
  obtain ⟨lines, tail, hdivides⟩ := exists_divides hnewline.ne_nil bytes
  obtain ⟨hjoin, hlines, htail⟩ := hdivides.spec hnewline.ne_nil
  refine ⟨lines, tail, hjoin, hlines, htail, fun asked dests hdests => ?_⟩
  exact readlns_spec isEos hnewline uninitialised hdivides hbytes dests.length hdests
    (Nat.le_add_left _ _) asked

def promptEnd : IsEos where
  answer := fun _ bytes => bytes.isEmpty
  sound := fun _ _ hempty => List.isEmpty_iff.mp hempty

/-- Two strings of two characters for a line of three characters and an unfinished one. -/
theorem lines_read_short :
    ∃ lines tail, [97, 98, 99, 13, 10, 100] = lines.flatMap (· ++ [13, 10]) ++ tail ∧
      List.zipWith (fun (destString : FString) (entry : Bool × List UInt8) =>
          (entry.1, entry.2.take destString.internalMaxlen))
        (List.replicate 2 ⟨[0, 0, 0], 2, false⟩) (served lines tail 2) =
        [(true, [97, 98]), (false, [100])] := by
  have hcapable : ∀ destString ∈ List.replicate 2 (⟨[0, 0, 0], 2, false⟩ : FString),
      Capable destString := by
    intro destString hmem
    rw [List.eq_of_mem_replicate hmem]
    exact ⟨by decide, [], ⟨by decide, [0, 0], rfl⟩, rfl⟩
  obtain ⟨lines, tail, hjoin, -, -, hreads⟩ :=
    @lines_read [97, 98, 99, 13, 10, 100] ⟨[13, 10], by decide⟩ promptEnd (.inr rfl) 0 (by decide)
  obtain ⟨results, hresults, hmap⟩ := hreads 0 _ hcapable
  have hvalue : (readlns promptEnd ⟨[13, 10], by decide⟩ 0 ⟨[97, 98, 99, 13, 10, 100], 0⟩
      (List.replicate 2 ⟨[0, 0, 0], 2, false⟩)).map
        (List.map fun result => (result.1, text result.2.strPtr)) =
          some [(true, [97, 98]), (false, [100])] := by decide
  rw [hresults, Option.map_some, hmap] at hvalue
  exact ⟨lines, tail, hjoin, Option.some.inj hvalue⟩

end ColonyPico.Io.LineReader
