import ColonyPico.Container.OrderedItems

/-!
The bookkeeping of the MApp manager (`Cpl::MApp::Manager`): which MApps are inactive, which are
started, and the listings of them.
-/

namespace ColonyPico.MApp.ManagerRequests

open ColonyPico.Container.OrderedItems
open ColonyPico.Container.OrderedItems.OrderedMap

variable {μ κ ρ : Type} [DecidableEq μ] [LinearOrder κ] {name : μ → κ}

/-- A call of a MApp, with what `start_()` returned. -/
inductive MAppCall (μ : Type) where
  | initialize_ (mapp : μ)
  | shutdown_ (mapp : μ)
  | start_ (mapp : μ) (started : Bool)
  | stop_ (mapp : μ)
  deriving DecidableEq

/-- The members of the manager, and the calls that it has made. -/
structure Manager (name : μ → κ) where
  inactiveMApps : OrderedMap name
  startedMApps : OrderedMap name
  opened : Bool
  calls : List (MAppCall μ)

def Manager.init (listOfMApps : OrderedMap name) : Manager name :=
  { inactiveMApps := listOfMApps
    startedMApps := .empty
    opened := false
    calls := [] }

/-- What a client asks for.  `mappArgs` may be a null pointer; `started` is what `start_()` returns
for these arguments. -/
inductive Request (κ ρ : Type) where
  | openRequest
  | closeRequest
  | startMApp (mappName : κ) (mappArgs : Option ρ) (started : ρ → Bool)
  | stopMApp (mappName : κ)
  | stopAllMApps

def callMApp (m : Manager name) (call : MAppCall μ) : Manager name :=
  { m with calls := m.calls ++ [call] }

/-- `removeItem()` and `insert()`, which move a MApp to the started ones. -/
def toStarted (m : Manager name) (mapp : μ) : Manager name :=
  { m with
    inactiveMApps := (m.inactiveMApps.removeItem mapp).2
    startedMApps := (m.startedMApps.insert mapp).2 }

def toInactive (m : Manager name) (mapp : μ) : Manager name :=
  { m with
    startedMApps := (m.startedMApps.removeItem mapp).2
    inactiveMApps := (m.inactiveMApps.insert mapp).2 }

/-- The loops that stop each started MApp, after `getFirst()` has removed it from the map, and then
call it as `finish` says. -/
def stopEach (finish : μ → List (MAppCall μ)) : Nat → Manager name → Manager name
  | 0, m => m
  | fuel + 1, m =>
      match m.startedMApps.getFirst with
      | (none, _) => m
      | (some mapp, rest) =>
          stopEach finish fuel
            { m with
              startedMApps := rest
              inactiveMApps := (m.inactiveMApps.insert mapp).2
              calls := m.calls ++ .stop_ mapp :: finish mapp }

def openRequest (m : Manager name) : Manager name :=
  if m.opened then m
  else
    { m with
      opened := true
      calls := m.calls ++ m.inactiveMApps.items.map .initialize_ }

def closeRequest (m : Manager name) : Manager name :=
  if !m.opened then m
  else
    stopEach (fun mapp => [.shutdown_ mapp]) m.startedMApps.items.length
      { m with
        opened := false
        calls := m.calls ++ m.inactiveMApps.items.map .shutdown_ }

/-- `request( StartMAppMsg& )`: the payload's `success`, and the manager. -/
def startMApp (m : Manager name) (mappName : κ) (mappArgs : Option ρ) (started : ρ → Bool) :
    Bool × Manager name :=
  match m.inactiveMApps.find mappName with
  | none => (false, m)
  | some mapp =>
      let m := toStarted m mapp
      match mappArgs with
      | none => (false, toInactive m mapp)
      | some args =>
          let m := callMApp m (.start_ mapp (started args))
          if !started args then (false, toInactive m mapp) else (true, m)

/-- `request( StopMAppMsg& )`. -/
def stopMApp (m : Manager name) (mappName : κ) : Bool × Manager name :=
  match m.startedMApps.find mappName with
  | none => (false, m)
  | some mapp => (true, toInactive (callMApp m (.stop_ mapp)) mapp)

def stopAllMApps (m : Manager name) : Manager name :=
  stopEach (fun _ => []) m.startedMApps.items.length m

def request (m : Manager name) : Request κ ρ → Manager name
  | .openRequest => openRequest m
  | .closeRequest => closeRequest m
  | .startMApp mappName mappArgs started => (startMApp m mappName mappArgs started).2
  | .stopMApp mappName => (stopMApp m mappName).2
  | .stopAllMApps => stopAllMApps m

/-- `Payload` of the requests for a listing. -/
structure Payload (μ : Type) where
  dstList : List μ
  dstMaxElements : Nat
  numElements : Nat

/-- The loops that walk a map: the payload, and what is left of `maxElems`. -/
def walk : List μ → Payload μ × Nat → Payload μ × Nat
  | [], r => r
  | item :: rest, (payload, maxElems) =>
      match maxElems with
      | 0 => (payload, 0)
      | maxElems + 1 =>
          walk rest
            ({ payload with
                dstList := payload.dstList ++ [item]
                numElements := payload.numElements + 1 }, maxElems)

/-- `request( GetAvailableMAppMsg& )`. -/
def requestAvailable (m : Manager name) (payload : Payload μ) : Payload μ :=
  (walk m.startedMApps.items (walk m.inactiveMApps.items (payload, payload.dstMaxElements))).1

/-- `request( GetStartedMAppMsg& )`. -/
def requestStarted (m : Manager name) (payload : Payload μ) : Payload μ :=
  (walk m.startedMApps.items (payload, payload.dstMaxElements)).1

/-- What the methods for a listing return: the result, `dstList` and `numElemsFound`. -/
def listing (handler : Payload μ → Payload μ) (dstMaxElements : Nat) : Bool × List μ × Nat :=
  let payload := handler { dstList := [], dstMaxElements := dstMaxElements, numElements := 0 }
  (decide (payload.dstMaxElements ≠ 0), payload.dstList, payload.numElements)

def getAvailableMApps (m : Manager name) : Nat → Bool × List μ × Nat :=
  listing (requestAvailable m)

def getStartedMApps (m : Manager name) : Nat → Bool × List μ × Nat :=
  listing (requestStarted m)

/-- `request( LookupMAppMsg& )`. -/
def lookUpMApp (m : Manager name) (mappName : κ) : Option μ :=
  match m.inactiveMApps.find mappName with
  | some mapp => some mapp
  | none => m.startedMApps.find mappName

/-- Whether a MApp runs after a call, if it ran before it or not. -/
def runningAfter (mapp : μ) (was : Bool) : MAppCall μ → Bool
  | .start_ other started => if other = mapp then started else was
  | .stop_ other => if other = mapp then false else was
  | .initialize_ _ => was
  | .shutdown_ _ => was

/-- The latest `start_()` of the MApp returned true and it has not been stopped since. -/
def running (mapp : μ) (calls : List (MAppCall μ)) : Bool :=
  calls.foldl (runningAfter mapp) false

/-- A listing with room for `n` elements of these MApps. -/
def ListsWithin (r : Bool × List μ × Nat) (n : Nat) (mapps : List μ) : Prop :=
  if mapps.length ≤ n then r.1 = true ∧ r.2.1.Perm mapps ∧ r.2.2 = mapps.length
  else r.1 = false

variable {m : Manager name} {all : OrderedMap name} {mapp : μ}

theorem running_append (calls calls' : List (MAppCall μ)) :
    running mapp (calls ++ calls') = calls'.foldl (runningAfter mapp) (running mapp calls) :=
  List.foldl_append

theorem foldl_initialize (mapps : List μ) (was : Bool) :
    (mapps.map .initialize_).foldl (runningAfter mapp) was = was := by
  induction mapps with
  | nil => rfl
  | cons other rest ih => exact ih

theorem foldl_shutdown (mapps : List μ) (was : Bool) :
    (mapps.map .shutdown_).foldl (runningAfter mapp) was = was := by
  induction mapps with
  | nil => rfl
  | cons other rest ih => exact ih

/-- Every MApp is in one of the maps, and the started ones are running. -/
structure Inv (all : OrderedMap name) (m : Manager name) : Prop where
  perm : (m.startedMApps.items ++ m.inactiveMApps.items).Perm all.items
  running : ∀ mapp, mapp ∈ m.startedMApps.items ↔ running mapp m.calls = true

omit [DecidableEq μ] in
/-- A MApp that is not in a map any more can be put in the other one. -/
theorem insert_spec {rest : List μ} {dst : OrderedMap name}
    (hperm : (mapp :: rest ++ dst.items).Perm all.items) :
    (rest ++ (dst.insert mapp).2.items).Perm all.items ∧
      (dst.insert mapp).2.items.Perm (mapp :: dst.items) := by
  have hnew : ∀ other ∈ dst.items, name other ≠ name mapp := by
    intro other hother hname
    have hall : other ∈ all.items := hperm.mem_iff.mp (List.mem_append_right _ hother)
    have hall' : mapp ∈ all.items := hperm.mem_iff.mp List.mem_cons_self
    obtain rfl := eq_of_key_eq hall hall' hname
    have hnodup := hperm.nodup_iff.mpr all.nodup
    rw [List.cons_append, List.nodup_cons] at hnodup
    exact hnodup.1 (List.mem_append_right _ hother)
  have hinsert := perm_insert hnew
  refine ⟨?_, hinsert⟩
  exact ((hinsert.append_left rest).trans List.perm_middle).trans hperm

theorem toStarted_spec (hperm : (m.startedMApps.items ++ m.inactiveMApps.items).Perm all.items)
    (hmapp : mapp ∈ m.inactiveMApps.items) :
    ((toStarted m mapp).startedMApps.items ++ (toStarted m mapp).inactiveMApps.items).Perm
        all.items ∧
      (toStarted m mapp).startedMApps.items.Perm (mapp :: m.startedMApps.items) := by
  have hremove := perm_removeItem hmapp
  obtain ⟨hall, hinsert⟩ :=
    insert_spec (((hremove.symm.append_right _).trans List.perm_append_comm).trans hperm)
  exact ⟨List.perm_append_comm.trans hall, hinsert⟩

theorem toInactive_spec (hperm : (m.startedMApps.items ++ m.inactiveMApps.items).Perm all.items)
    (hmapp : mapp ∈ m.startedMApps.items) :
    ((toInactive m mapp).startedMApps.items ++ (toInactive m mapp).inactiveMApps.items).Perm
        all.items ∧
      m.startedMApps.items.Perm (mapp :: (toInactive m mapp).startedMApps.items) ∧
      (toInactive m mapp).inactiveMApps.items.Perm (mapp :: m.inactiveMApps.items) := by
  have hremove := perm_removeItem hmapp
  obtain ⟨hall, hinsert⟩ := insert_spec ((hremove.symm.append_right _).trans hperm)
  exact ⟨hall, hremove, hinsert⟩

theorem toInactive_toStarted
    (hperm : (m.startedMApps.items ++ m.inactiveMApps.items).Perm all.items)
    (hmapp : mapp ∈ m.inactiveMApps.items) : toInactive (toStarted m mapp) mapp = m := by
  obtain ⟨hperm', hstarted⟩ := toStarted_spec hperm hmapp
  obtain ⟨-, hstarted', hinactive⟩ :=
    toInactive_spec hperm' (hstarted.mem_iff.mpr List.mem_cons_self)
  have hsame : (toInactive (toStarted m mapp) mapp).startedMApps = m.startedMApps :=
    eq_of_perm (hstarted'.symm.trans hstarted).cons_inv
  have hsame' : (toInactive (toStarted m mapp) mapp).inactiveMApps = m.inactiveMApps :=
    eq_of_perm (hinactive.trans (perm_removeItem hmapp).symm)
  calc toInactive (toStarted m mapp) mapp
      = { m with
          startedMApps := (toInactive (toStarted m mapp) mapp).startedMApps
          inactiveMApps := (toInactive (toStarted m mapp) mapp).inactiveMApps } := rfl
    _ = m := by rw [hsame, hsame']

theorem running_start {calls : List (MAppCall μ)} {other : μ} {started : Bool} :
    running mapp (calls ++ [.start_ other started]) =
      if other = mapp then started else running mapp calls := by
  rw [running_append]
  rfl

theorem running_stop {calls finish : List (MAppCall μ)} {other : μ}
    (hfinish : ∀ was, finish.foldl (runningAfter mapp) was = was) :
    running mapp (calls ++ .stop_ other :: finish) =
      if other = mapp then false else running mapp calls := by
  rw [running_append, List.foldl_cons, hfinish]
  rfl

theorem inv_startMApp (hinv : Inv all m) (mappName : κ) (mappArgs : Option ρ)
    (started : ρ → Bool) : Inv all (startMApp m mappName mappArgs started).2 := by
  rw [startMApp]
  cases hfind : m.inactiveMApps.find mappName with
  | none => exact hinv
  | some mapp =>
      obtain ⟨hmapp, -⟩ := of_find hfind
      have hrestored := toInactive_toStarted hinv.perm hmapp
      obtain ⟨hperm, hstarted⟩ := toStarted_spec hinv.perm hmapp
      have hnot : mapp ∉ m.startedMApps.items := by
        have hnodup := hinv.perm.nodup_iff.mpr all.nodup
        intro hmem
        exact List.disjoint_of_nodup_append hnodup hmem hmapp
      cases mappArgs with
      | none =>
          show Inv all (toInactive (toStarted m mapp) mapp)
          rwa [hrestored]
      | some args =>
          cases hstart : started args with
          | false =>
              have hfail : (toInactive (callMApp (toStarted m mapp) (.start_ mapp false)) mapp) =
                  callMApp (toInactive (toStarted m mapp) mapp) (.start_ mapp false) := rfl
              simp only [hstart, Bool.not_false, if_true, hfail, hrestored]
              refine ⟨hinv.perm, fun other => ?_⟩
              rw [callMApp, running_start]
              split_ifs with hsame
              · subst hsame
                exact iff_of_false hnot (by decide)
              · exact hinv.running other
          | true =>
              simp only [hstart, Bool.not_true, Bool.false_eq_true, if_false]
              refine ⟨hperm, fun other => ?_⟩
              show other ∈ (toStarted m mapp).startedMApps.items ↔
                running other (m.calls ++ [.start_ mapp true]) = true
              rw [running_start, hstarted.mem_iff, List.mem_cons, hinv.running]
              split_ifs with hsame
              · exact iff_of_true (.inl hsame.symm) rfl
              · rw [or_iff_right fun heq => hsame heq.symm]

theorem inv_stopMApp (hinv : Inv all m) (mappName : κ) : Inv all (stopMApp m mappName).2 := by
  rw [stopMApp]
  cases hfind : m.startedMApps.find mappName with
  | none => exact hinv
  | some mapp =>
      obtain ⟨hmapp, -⟩ := of_find hfind
      obtain ⟨hperm, hstarted, -⟩ := toInactive_spec hinv.perm hmapp
      refine ⟨hperm, fun other => ?_⟩
      have hnodup : (mapp :: (toInactive m mapp).startedMApps.items).Nodup :=
        hstarted.nodup_iff.mp m.startedMApps.nodup
      show other ∈ (toInactive m mapp).startedMApps.items ↔
        running other (m.calls ++ [.stop_ mapp]) = true
      rw [running_stop fun _ => rfl]
      split_ifs with hsame
      · subst hsame
        exact iff_of_false (List.nodup_cons.mp hnodup).1 (by decide)
      · rw [← hinv.running, hstarted.mem_iff, List.mem_cons, or_iff_right fun heq => hsame heq.symm]

theorem stopEach_spec {finish : μ → List (MAppCall μ)} {fuel : Nat} (hinv : Inv all m)
    (hfuel : m.startedMApps.items.length ≤ fuel)
    (hfinish : ∀ mapp other was, (finish mapp).foldl (runningAfter other) was = was) :
    Inv all (stopEach finish fuel m) ∧ (stopEach finish fuel m).startedMApps.items = [] := by
  induction fuel generalizing m with
  | zero => exact ⟨hinv, List.eq_nil_of_length_eq_zero (Nat.le_zero.mp hfuel)⟩
  | succ fuel ih =>
      rcases m with ⟨inactive, ⟨started, hsorted⟩, opened, calls⟩
      cases started with
      | nil => exact ⟨hinv, rfl⟩
      | cons mapp rest =>
          obtain ⟨hperm, -⟩ := insert_spec hinv.perm
          refine ih ⟨hperm, fun other => ?_⟩ (Nat.le_of_succ_le_succ hfuel)
          have hnodup : (mapp :: rest).Nodup := OrderedMap.nodup ⟨mapp :: rest, hsorted⟩
          have hother := hinv.running other
          show other ∈ rest ↔ running other (calls ++ .stop_ mapp :: finish mapp) = true
          rw [running_stop (hfinish mapp other)]
          split_ifs with hsame
          · subst hsame
            exact iff_of_false (List.nodup_cons.mp hnodup).1 (by decide)
          · rw [← hother, List.mem_cons, or_iff_right fun heq => hsame heq.symm]

theorem inv_request (hinv : Inv all m) (r : Request κ ρ) : Inv all (request m r) := by
  cases r with
  | openRequest =>
      show Inv all (openRequest m)
      rw [openRequest]
      split_ifs
      · exact hinv
      · refine ⟨hinv.perm, fun mapp => ?_⟩
        rw [running_append, foldl_initialize]
        exact hinv.running mapp
  | closeRequest =>
      show Inv all (closeRequest m)
      rw [closeRequest]
      split_ifs
      · exact hinv
      · have hfinish : ∀ (mapp other : μ) was,
            [.shutdown_ mapp].foldl (runningAfter other) was = was := fun _ _ _ => rfl
        have hshut : Inv all { m with
            opened := false
            calls := m.calls ++ m.inactiveMApps.items.map .shutdown_ } := by
          refine ⟨hinv.perm, fun mapp => ?_⟩
          rw [running_append, foldl_shutdown]
          exact hinv.running mapp
        exact (stopEach_spec hshut le_rfl hfinish).1
  | startMApp mappName mappArgs started => exact inv_startMApp hinv mappName mappArgs started
  | stopMApp mappName => exact inv_stopMApp hinv mappName
  | stopAllMApps => exact (stopEach_spec hinv le_rfl fun _ _ _ => rfl).1

theorem inv_init : Inv all (Manager.init all) :=
  ⟨.refl _, fun _ => iff_of_false List.not_mem_nil Bool.false_ne_true⟩

theorem inv_requests (hinv : Inv all m) (requests : List (Request κ ρ)) :
    Inv all (requests.foldl request m) := by
  induction requests generalizing m with
  | nil => exact hinv
  | cons r rest ih => exact ih (inv_request hinv r)

theorem lookUpMApp_eq (hinv : Inv all m) (mappName : κ) :
    lookUpMApp m mappName = all.find mappName := by
  have hmem := fun mapp => hinv.perm.mem_iff (a := mapp)
  rw [lookUpMApp]
  cases hinactive : m.inactiveMApps.find mappName with
  | some mapp =>
      obtain ⟨hmapp, hname⟩ := of_find hinactive
      exact (find_eq_some.mpr ⟨(hmem mapp).mp (List.mem_append_right _ hmapp), hname⟩).symm
  | none =>
      cases hall : all.find mappName with
      | none =>
          refine List.find?_eq_none.mpr fun mapp hmapp => ?_
          exact List.find?_eq_none.mp hall mapp ((hmem mapp).mp (List.mem_append_left _ hmapp))
      | some mapp =>
          obtain ⟨hmapp, hname⟩ := of_find hall
          rcases List.mem_append.mp ((hmem mapp).mpr hmapp) with hstarted | hmem
          · exact find_eq_some.mpr ⟨hstarted, hname⟩
          · cases hinactive.symm.trans (find_eq_some.mpr ⟨hmem, hname⟩)

omit [DecidableEq μ] in
theorem walk_eq (items : List μ) (payload : Payload μ) (maxElems : Nat) :
    walk items (payload, maxElems) =
      ({ payload with
          dstList := payload.dstList ++ items.take maxElems
          numElements := payload.numElements + min maxElems items.length },
        maxElems - items.length) := by
  induction items generalizing payload maxElems with
  | nil =>
      rw [walk, List.take_nil, List.append_nil, List.length_nil, Nat.min_zero]
      rfl
  | cons item rest ih =>
      cases maxElems with
      | zero =>
          rw [walk, List.take_zero, List.append_nil, Nat.zero_min, Nat.zero_sub]
          rfl
      | succ maxElems =>
          rw [walk, ih]
          simp only [List.append_assoc, List.singleton_append, List.take_succ_cons,
            List.length_cons, Nat.succ_min_succ, Nat.add_sub_add_right]
          congr 2
          omega

omit [DecidableEq μ] in
/-- A listing gives the first MApps, and tells only whether there was room for any. -/
theorem getAvailableMApps_eq (m : Manager name) (n : Nat) :
    getAvailableMApps m n =
      (decide (n ≠ 0), (m.inactiveMApps.items ++ m.startedMApps.items).take n,
        min n (m.inactiveMApps.items ++ m.startedMApps.items).length) := by
  simp only [getAvailableMApps, listing, requestAvailable, walk_eq, List.nil_append, Nat.zero_add,
    List.take_append, List.length_append]
  congr 2
  omega

omit [DecidableEq μ] in
theorem getStartedMApps_eq (m : Manager name) (n : Nat) :
    getStartedMApps m n =
      (decide (n ≠ 0), m.startedMApps.items.take n, min n m.startedMApps.items.length) := by
  simp only [getStartedMApps, listing, requestStarted, walk_eq, List.nil_append, Nat.zero_add]

omit [DecidableEq μ] in
theorem listsWithin_iff {mapps mapps' : List μ} (hperm : mapps.Perm mapps') (n : Nat) :
    ListsWithin (decide (n ≠ 0), mapps.take n, min n mapps.length) n mapps' ↔
      (n = 0 ↔ n < mapps'.length) := by
  have hlength := hperm.length_eq
  rw [ListsWithin]
  split_ifs with hroom
  · rw [List.take_of_length_le (hlength ▸ hroom), decide_eq_true_iff]
    constructor
    · rintro ⟨hpos, -, -⟩
      omega
    · intro hiff
      exact ⟨by omega, hperm, (Nat.min_eq_right (hlength ▸ hroom)).trans hlength⟩
  · rw [decide_eq_false_iff_not]
    omega

/-- After any requests, every MApp is in exactly one of the maps, and in that of the started ones if
and only if it is running.  A listing with room for no element fails, and the others succeed. -/
theorem bookkeeping_and_listings (listOfMApps : OrderedMap name) (requests : List (Request κ ρ)) :
    let m := requests.foldl request (Manager.init listOfMApps)
    (∀ mapp ∈ listOfMApps.items,
        Xor (mapp ∈ m.inactiveMApps.items) (mapp ∈ m.startedMApps.items)) ∧
      (∀ mapp, mapp ∈ m.startedMApps.items ↔
        mapp ∈ listOfMApps.items ∧ running mapp m.calls = true) ∧
      (∀ n, ListsWithin (getAvailableMApps m n) n listOfMApps.items ↔
        (n = 0 ↔ n < listOfMApps.items.length)) ∧
      ∀ n, ListsWithin (getStartedMApps m n) n m.startedMApps.items ↔
        (n = 0 ↔ n < m.startedMApps.items.length) := by
  intro m
  have hinv : Inv listOfMApps m := inv_requests inv_init requests
  have hdisjoint := List.disjoint_of_nodup_append (hinv.perm.nodup_iff.mpr listOfMApps.nodup)
  refine ⟨?_, ?_, ?_, ?_⟩
  · intro mapp hmapp
    rcases List.mem_append.mp (hinv.perm.mem_iff.mpr hmapp) with hstarted | hinactive
    · exact .inr ⟨hstarted, hdisjoint hstarted⟩
    · exact .inl ⟨hinactive, fun hstarted => hdisjoint hstarted hinactive⟩
  · intro mapp
    rw [← hinv.running]
    constructor
    · intro hstarted
      exact ⟨hinv.perm.mem_iff.mp (List.mem_append_left _ hstarted), hstarted⟩
    · exact fun h => h.2
  · intro n
    rw [getAvailableMApps_eq]
    exact listsWithin_iff (List.perm_append_comm.trans hinv.perm) n
  · intro n
    rw [getStartedMApps_eq]
    exact listsWithin_iff (.refl _) n

/-- The MApps 1 and 2, which are their own names. -/
def twoMApps : OrderedMap (id : Nat → Nat) :=
  { items := [1, 2], sorted := by decide }

/-- The two MApps do not fit in a list of one element. -/
theorem not_listsWithin_overflow : ¬∀ (listOfMApps : OrderedMap (id : Nat → Nat))
    (requests : List (Request Nat Unit)) (n : Nat),
    ListsWithin (getAvailableMApps (requests.foldl request (Manager.init listOfMApps)) n) n
      listOfMApps.items := by
  intro hall
  have hfails : true = false := hall twoMApps [] 1
  cases hfails

end ColonyPico.MApp.ManagerRequests
