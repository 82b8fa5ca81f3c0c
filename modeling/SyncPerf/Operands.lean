import SyncPerf.SyncTrack

namespace SyncPerf.SyncTrack

open MapTotals

/-!
# The operands of a recorded instruction

`ProcessInst` should give its operands to `doMemAccess`, one after the other, until one of them is
found to be shared.  The second and the third one are tested with `addr & !shared_data`, which is
the lowest bit of the address.

* `untilShared` — the operands that are to be examined;
* `OperandsSeen` — no operand with a clear lowest bit is passed over;
* `examine_called_iff` — the two belong together;
* `operands_examined` — the runs, and what they add to the totals.
-/

/-- The operands that are there, up to the first one that is found to be shared. -/
def untilShared (totalThreads threadId : ℕ) : List (BitVec 64) → MemAccessMap → List (BitVec 64)
  | [], _ => []
  | a :: rest, m =>
    if a = 0 then untilShared totalThreads threadId rest m
    else a ::
      if (doMemAccess totalThreads a threadId m).1 then []
      else untilShared totalThreads threadId rest (doMemAccess totalThreads a threadId m).2

/-- The address is in the map, and other threads have accessed it. -/
def FoundShared (totalThreads threadId : ℕ) (m : MemAccessMap) (a : BitVec 64) : Prop :=
  ∃ it ∈ m.lookup a, it.Foreign totalThreads threadId

instance (totalThreads threadId : ℕ) (m : MemAccessMap) (a : BitVec 64) :
    Decidable (FoundShared totalThreads threadId m a) :=
  inferInstanceAs (Decidable (∃ it ∈ m.lookup a, _))

/-- The operand is not there, or its lowest bit is set. -/
def AbsentOrOdd (a : BitVec 64) : Prop := a = 0 ∨ a.getLsbD 0

instance (a : BitVec 64) : Decidable (AbsentOrOdd a) := inferInstanceAs (Decidable (_ ∨ _))

/-! ### One operand -/

section Operand

variable {totalThreads threadId : ℕ}

/-- What `DoMemAccess` returns. -/
theorem doMemAccess_fst {m : MemAccessMap} {a : BitVec 64} :
    (doMemAccess totalThreads a threadId m).1 = true ↔ FoundShared totalThreads threadId m a := by
  unfold FoundShared
  cases h : m.lookup a with
  | none => simp [doMemAccess_new h]
  | some it =>
    rw [doMemAccess_old h]
    split <;> simp_all

/-- The guard reads the flag and the lowest bit. -/
theorem Examined.guard_eq (x : Examined) (a : BitVec 64) :
    x.guard a = (!x.sharedData && a.getLsbD 0) := by
  unfold Examined.guard
  cases x.sharedData with
  | true => simp
  | false =>
    have hbit : a &&& 1#64 = (BitVec.ofBool (a.getLsbD 0)).setWidth 64 :=
      BitVec.and_one_eq_setWidth_ofBool_getLsbD
    have hone : (BitVec.ofBool !false).setWidth 64 = 1#64 := rfl
    rw [hone, hbit]
    cases a.getLsbD 0 <;> rfl

/-- A guarded call. -/
def Examined.operand (totalThreads threadId : ℕ) (x : Examined) (a : BitVec 64) : Examined :=
  if x.guard a then x.call totalThreads threadId a else x

/-- After a shared operand no other one is examined. -/
theorem Examined.operand_shared {x : Examined} (hx : x.sharedData = true) (a : BitVec 64) :
    x.operand totalThreads threadId a = x := by
  unfold Examined.operand
  rw [x.guard_eq, hx]
  rfl

/-- An operand at an odd address is examined. -/
theorem Examined.operand_odd {x : Examined} (hx : x.sharedData = false) {a : BitVec 64}
    (ha : a.getLsbD 0 = true) : x.operand totalThreads threadId a = x.call totalThreads threadId a := by
  unfold Examined.operand
  rw [x.guard_eq, hx, ha]
  rfl

/-- An operand at an even address is left out. -/
theorem Examined.operand_even {x : Examined} {a : BitVec 64} (ha : a.getLsbD 0 = false) :
    x.operand totalThreads threadId a = x := by
  unfold Examined.operand
  rw [x.guard_eq, ha, Bool.and_false]
  rfl

/-- Whether an address is found shared. -/
theorem Examined.call_sharedData (x : Examined) (a : BitVec 64) :
    (x.call totalThreads threadId a).sharedData = true ↔
      FoundShared totalThreads threadId x.memAccessMap a := doMemAccess_fst

/-- A thread's own access makes no address shared for it. -/
theorem foundShared_doMemAccess {m : MemAccessMap} {a b : BitVec 64} (hlt : threadId < totalThreads)
    (hown : ¬ FoundShared totalThreads threadId m a) :
    FoundShared totalThreads threadId (doMemAccess totalThreads a threadId m).2 b ↔
      FoundShared totalThreads threadId m b := by
  by_cases hab : b = a
  · subst hab
    refine iff_of_false ?_ hown
    rintro ⟨it, hit, hforeign⟩
    have hthread : it.threadId = threadId := by
      cases h : m.lookup b with
      | none =>
        rw [doMemAccess_new h, Finmap.lookup_insert] at hit
        rw [← Option.some.inj hit]
      | some it' =>
        rw [doMemAccess_old h, if_neg fun hf => hown ⟨it', h, hf⟩, Finmap.lookup_insert] at hit
        rw [← Option.some.inj hit]
    rcases hforeign with htotal | hne
    · exact hlt.ne (hthread.symm.trans htotal)
    · exact hne hthread
  · unfold FoundShared
    rw [doMemAccess_lookup_of_ne hab]

end Operand

/-! ### All operands -/

section Operands

variable {totalThreads threadId : ℕ}

/-- Behind a shared operand none is examined. -/
theorem foldl_operand_shared {x : Examined} (hx : x.sharedData = true) (as : List (BitVec 64)) :
    as.foldl (Examined.operand totalThreads threadId) x = x := by
  induction as with
  | nil => rfl
  | cons a rest ih => rw [List.foldl_cons, Examined.operand_shared hx, ih]

/-- Guarded calls are made for odd addresses only. -/
theorem foldl_operand_odd (totalThreads threadId : ℕ) (as : List (BitVec 64)) (x : Examined) :
    ∃ l, (as.foldl (Examined.operand totalThreads threadId) x).called = x.called ++ l ∧
      ∀ a ∈ l, a.getLsbD 0 = true := by
  induction as generalizing x with
  | nil => exact ⟨[], (List.append_nil _).symm, fun a ha => absurd ha List.not_mem_nil⟩
  | cons a rest ih =>
    obtain ⟨l, hl, hodd⟩ := ih (x.operand totalThreads threadId a)
    rw [List.foldl_cons, hl]
    cases hguard : x.guard a with
    | false => exact ⟨l, by rw [Examined.operand, hguard, if_neg Bool.false_ne_true], hodd⟩
    | true =>
      have ha : a.getLsbD 0 = true := by
        rw [x.guard_eq, Bool.and_eq_true] at hguard
        exact hguard.2
      refine ⟨a :: l, ?_, List.forall_mem_cons.mpr ⟨ha, hodd⟩⟩
      rw [Examined.operand, hguard, if_pos rfl, Examined.call, List.append_assoc]
      rfl

/-- Up to the first shared operand, every one is absent or odd. -/
def AllSeen (totalThreads threadId : ℕ) : List (BitVec 64) → MemAccessMap → Prop
  | [], _ => True
  | a :: rest, m =>
    if a = 0 then AllSeen totalThreads threadId rest m
    else a.getLsbD 0 = true ∧ (FoundShared totalThreads threadId m a ∨
      AllSeen totalThreads threadId rest (doMemAccess totalThreads a threadId m).2)

/-- **The guarded calls** are the ones that are to be made exactly when no operand is passed
    over. -/
theorem foldl_operand_called_iff (as : List (BitVec 64)) {x : Examined}
    (hx : x.sharedData = false) :
    (as.foldl (Examined.operand totalThreads threadId) x).called =
        x.called ++ untilShared totalThreads threadId as x.memAccessMap ↔
      AllSeen totalThreads threadId as x.memAccessMap := by
  induction as generalizing x with
  | nil => simp [untilShared, AllSeen]
  | cons a rest ih =>
    rw [List.foldl_cons, untilShared, AllSeen]
    by_cases ha : a = 0
    · subst ha
      rw [Examined.operand_even rfl, if_pos rfl, if_pos rfl]
      exact ih hx
    rw [if_neg ha, if_neg ha]
    cases hodd : a.getLsbD 0 with
    | false =>
      -- the operand is there and passed over: whatever is called instead is odd
      refine iff_of_false (fun heq => ?_) fun h => Bool.false_ne_true h.1
      obtain ⟨l, hl, hall⟩ :=
        foldl_operand_odd totalThreads threadId rest (x.operand totalThreads threadId a)
      rw [hl, Examined.operand_even hodd, List.append_cancel_left_eq] at heq
      have hmem : a ∈ l := by
        rw [heq]
        exact List.mem_cons_self
      rw [hall a hmem] at hodd
      exact Bool.false_ne_true hodd.symm
    | true =>
      rw [Examined.operand_odd hx hodd, eq_self_iff_true, true_and]
      by_cases hfound : FoundShared totalThreads threadId x.memAccessMap a
      · rw [foldl_operand_shared ((x.call_sharedData a).mpr hfound),
          if_pos (doMemAccess_fst.mpr hfound)]
        exact iff_of_true rfl (.inl hfound)
      · have hshared : (x.call totalThreads threadId a).sharedData = false :=
          Bool.eq_false_iff.mpr fun h => hfound ((x.call_sharedData a).mp h)
        rw [if_neg fun h => hfound (doMemAccess_fst.mp h), or_iff_right hfound]
        refine Iff.trans ?_ (ih hshared)
        simp only [Examined.call, List.append_assoc, List.singleton_append]

/-- The three operands one after the other. -/
theorem examine_eq (waddr raddr raddr2 : BitVec 64) (m : MemAccessMap) :
    examine totalThreads threadId waddr raddr raddr2 m =
      [raddr, raddr2].foldl (Examined.operand totalThreads threadId)
        (if waddr ≠ 0 then Examined.call totalThreads threadId waddr { memAccessMap := m }
          else { memAccessMap := m }) := rfl

end Operands

/-- The written address is found to be shared; or the first read operand is absent or odd, and it is
    found to be shared or the second one is absent or odd, too. -/
def OperandsSeen (s : Tool) (e : InstCall) : Prop :=
  e.waddr ≠ 0 ∧ FoundShared s.totalThreads e.threadId s.memAccessMap e.waddr ∨
    AbsentOrOdd e.raddr ∧
      (e.raddr ≠ 0 ∧ FoundShared s.totalThreads e.threadId s.memAccessMap e.raddr ∨
        AbsentOrOdd e.raddr2)

instance (s : Tool) (e : InstCall) : Decidable (OperandsSeen s e) :=
  inferInstanceAs (Decidable (_ ∧ _ ∨ _ ∧ _))

/-- The calls of `doMemAccess` that an event makes. -/
def callsOf (s : Tool) (e : InstCall) : List (BitVec 64) :=
  (examine s.totalThreads e.threadId e.waddr e.raddr e.raddr2 s.memAccessMap).called

/-- The event examines its operands until one is found to be shared. -/
def ExaminesOperands (s : Tool) (e : InstCall) : Prop :=
  callsOf s e =
    untilShared s.totalThreads e.threadId [e.waddr, e.raddr, e.raddr2] s.memAccessMap

/-- The read operands, when the written one leaves the question open. -/
theorem allSeen_reads {totalThreads threadId : ℕ} {raddr raddr2 : BitVec 64} {m : MemAccessMap} :
    AllSeen totalThreads threadId [raddr, raddr2] m ↔
      AbsentOrOdd raddr ∧ (raddr ≠ 0 ∧ FoundShared totalThreads threadId m raddr ∨
        AbsentOrOdd raddr2) := by
  have hlast : ∀ m', AllSeen totalThreads threadId [raddr2] m' ↔ AbsentOrOdd raddr2 := by
    intro m'
    rw [AllSeen]
    split
    · rename_i h2
      exact iff_of_true trivial (.inl h2)
    · rename_i h2
      simp only [AllSeen, AbsentOrOdd, or_true, and_true, or_iff_right h2]
  rw [AllSeen, hlast, hlast]
  split
  · rename_i h1
    exact ⟨fun h => ⟨.inl h1, .inr h⟩, fun h => h.2.resolve_left fun h' => h'.1 h1⟩
  · rename_i h1
    have hodd : AbsentOrOdd raddr ↔ raddr.getLsbD 0 = true := or_iff_right h1
    rw [hodd, and_iff_right h1]

/-- **One event.** -/
theorem examine_called_iff {s : Tool} {e : InstCall} (hlt : e.threadId < s.totalThreads) :
    ExaminesOperands s e ↔ OperandsSeen s e := by
  unfold ExaminesOperands OperandsSeen callsOf
  rw [examine_eq, untilShared]
  by_cases hw : e.waddr = 0
  · rw [if_pos hw, if_neg (not_not.mpr hw)]
    simp only [hw, ne_eq, not_true_eq_false, false_and, false_or]
    rw [← allSeen_reads]
    exact foldl_operand_called_iff _ rfl
  rw [if_pos hw, if_neg hw]
  by_cases hfound : FoundShared s.totalThreads e.threadId s.memAccessMap e.waddr
  · rw [foldl_operand_shared (doMemAccess_fst.mpr hfound), if_pos (doMemAccess_fst.mpr hfound)]
    exact iff_of_true rfl (.inl ⟨hw, hfound⟩)
  · have hshared : (Examined.call s.totalThreads e.threadId e.waddr
        { memAccessMap := s.memAccessMap }).sharedData = false :=
      Bool.eq_false_iff.mpr fun h => hfound (doMemAccess_fst.mp h)
    rw [if_neg fun h => hfound (doMemAccess_fst.mp h), or_iff_right fun h => hfound h.2]
    rw [← foundShared_doMemAccess hlt hfound (b := e.raddr), ← allSeen_reads]
    exact foldl_operand_called_iff _ hshared

/-- An event that is to be examined leads to a call. -/
theorem untilShared_ne_nil {totalThreads threadId : ℕ} {as : List (BitVec 64)} {m : MemAccessMap}
    (h : ∃ a ∈ as, a ≠ 0) : untilShared totalThreads threadId as m ≠ [] := by
  induction as with
  | nil =>
    obtain ⟨a, ha, -⟩ := h
    exact absurd ha List.not_mem_nil
  | cons a rest ih =>
    rw [untilShared]
    split
    · rename_i h0
      obtain ⟨b, hb, hne⟩ := h
      rcases List.mem_cons.mp hb with rfl | hb
      · exact absurd h0 hne
      · exact ih ⟨b, hb, hne⟩
    · exact List.cons_ne_nil _ _

/-! ### Counts that do not wrap -/

/-- The sum of all `access_count`. -/
def accessSum (m : MemAccessMap) : ℕ := total (fun it => it.accessCount.toNat) m

/-- The sum of all `inst_mem_access`. -/
def instMemAccessSum (s : Tool) : ℕ :=
  ∑ i ∈ Finset.range s.totalThreads, (s.data i).instMemAccess.toNat

/-- The addresses can be accessed `k` times before a count wraps. -/
def Room (k : ℕ) (as : List (BitVec 64)) (m : MemAccessMap) : Prop :=
  ∀ a ∈ as, ∀ it ∈ m.lookup a, it.accessCount.toNat + k < 2 ^ 32

/-- No operand of the event is about to wrap its count. -/
def HasRoom (s : Tool) (e : InstCall) : Prop := Room 3 [e.waddr, e.raddr, e.raddr2] s.memAccessMap

section Room

variable {totalThreads threadId k : ℕ} {as : List (BitVec 64)}

/-- A counter that does not wrap. -/
theorem toNat_add_one {n : BitVec 32} (h : n.toNat + 1 < 2 ^ 32) : (n + 1).toNat = n.toNat + 1 := by
  rw [BitVec.toNat_add]
  exact Nat.mod_eq_of_lt h

/-- An access of one of the addresses. -/
theorem Room.doMemAccess {m : MemAccessMap} (h : Room (k + 1) as m) (hk : k ≤ 2) {b : BitVec 64}
    (hb : b ∈ as) :
    accessSum (doMemAccess totalThreads b threadId m).2 = accessSum m + 1 ∧
      Room k as (doMemAccess totalThreads b threadId m).2 := by
  have hlt : ∀ it ∈ m.lookup b, it.accessCount.toNat + 1 < 2 ^ 32 := by
    intro it hit
    have hroom := h b hb it hit
    omega
  refine ⟨doMemAccess_total_of rfl fun it hit owner => toNat_add_one (hlt it hit), ?_⟩
  intro a ha it hit
  by_cases hab : a = b
  · subst hab
    cases hold : m.lookup a with
    | none =>
      rw [doMemAccess_new hold, Finmap.lookup_insert] at hit
      obtain rfl := Option.some.inj hit
      show 1 + k < 2 ^ 32
      omega
    | some it' =>
      have hcount : it.accessCount = it'.accessCount + 1 := by
        rw [doMemAccess_old hold] at hit
        split at hit <;>
        · rw [Finmap.lookup_insert] at hit
          rw [← Option.some.inj hit]
      rw [hcount, toNat_add_one (hlt it' hold)]
      have hroom := h a ha it' hold
      omega
  · rw [doMemAccess_lookup_of_ne hab] at hit
    have hroom := h a ha it hit
    omega

/-- `y` has come from `x` by calls that are all in the sum, and there is room for `k` more. -/
structure Counted (as : List (BitVec 64)) (k : ℕ) (x y : Examined) : Prop where
  sum : accessSum y.memAccessMap + x.called.length = accessSum x.memAccessMap + y.called.length
  room : Room k as y.memAccessMap

/-- One access more is counted. -/
theorem Counted.call {x y : Examined} (h : Counted as (k + 1) x y) (hk : k ≤ 2) {a : BitVec 64}
    (ha : a ∈ as) : Counted as k x (y.call totalThreads threadId a) := by
  obtain ⟨hsum, hroom⟩ : accessSum (SyncTrack.doMemAccess totalThreads a threadId y.memAccessMap).2 =
      accessSum y.memAccessMap + 1 ∧ Room k as _ := h.room.doMemAccess hk ha
  refine ⟨?_, hroom⟩
  have hbefore := h.sum
  simp only [Examined.call, List.length_append, List.length_singleton, hsum]
  omega

/-- An operand that is not examined. -/
theorem Counted.skip {x y : Examined} (h : Counted as (k + 1) x y) : Counted as k x y := by
  refine ⟨h.sum, fun a ha it hit => ?_⟩
  have hroom := h.room a ha it hit
  omega

/-- An operand is examined or left out. -/
theorem Counted.operand (totalThreads threadId : ℕ) {x y : Examined} (h : Counted as (k + 1) x y)
    (hk : k ≤ 2) {a : BitVec 64} (ha : a ∈ as) :
    Counted as k x (y.operand totalThreads threadId a) := by
  unfold Examined.operand
  split
  · exact h.call hk ha
  · exact h.skip

end Room

/-- The calls of an event are all in the sum. -/
theorem accessSum_examine {s : Tool} {e : InstCall} (hroom : HasRoom s e) :
    accessSum (examine s.totalThreads e.threadId e.waddr e.raddr e.raddr2
      s.memAccessMap).memAccessMap = accessSum s.memAccessMap + (callsOf s e).length := by
  let x : Examined := { memAccessMap := s.memAccessMap }
  have hstart : Counted [e.waddr, e.raddr, e.raddr2] 3 x x := ⟨rfl, hroom⟩
  have hwrite : Counted [e.waddr, e.raddr, e.raddr2] 2 x
      (if e.waddr ≠ 0 then x.call s.totalThreads e.threadId e.waddr else x) := by
    split
    · exact hstart.call (by decide) (by simp)
    · exact hstart.skip
  have hread := hwrite.operand s.totalThreads e.threadId (a := e.raddr) (by decide) (by simp)
  exact (hread.operand s.totalThreads e.threadId (a := e.raddr2) (by decide) (by simp)).sum

/-! ### Runs -/

/-- The thread is recorded, and the event is an access outside the stack with an operand. -/
def Recorded (s : Tool) (e : InstCall) : Prop :=
  e.threadId < s.totalThreads ∧ s.record e.threadId = true ∧ e.isShareable = true ∧
    (e.waddr ≠ 0 ∨ e.raddr ≠ 0 ∨ e.raddr2 ≠ 0)

instance (s : Tool) (e : InstCall) : Decidable (Recorded s e) := inferInstanceAs (Decidable (_ ∧ _))

/-- The state after a recorded event. -/
def Tool.recorded (s : Tool) (e : InstCall) : Tool :=
  { s with
    data := Function.update s.data e.threadId ((s.data e.threadId).count true)
    memAccessMap := (examine s.totalThreads e.threadId e.waddr e.raddr e.raddr2
      s.memAccessMap).memAccessMap }

/-- What an instruction records. -/
theorem processInst_recorded {s : Tool} {e : InstCall} (h : Recorded s e) :
    processInst s e = some (s.recorded e) := by
  obtain ⟨hlt, hrecord, hmem, hsome⟩ := h
  simp only [processInst, if_pos hlt, if_pos hrecord, hmem, if_true, if_pos hsome]
  rfl

/-- An instruction leaves it to the next one whether it is recorded. -/
theorem recorded_recorded {s : Tool} {e e' : InstCall} :
    Recorded (s.recorded e) e' ↔ Recorded s e' := Iff.rfl

/-- At most one is added for an event. -/
theorem instMemAccessSum_recorded {s : Tool} {e : InstCall} (hlt : e.threadId < s.totalThreads) :
    instMemAccessSum (s.recorded e) ≤ instMemAccessSum s + 1 := by
  have hsum := sum_update (fun d : SyncData => d.instMemAccess.toNat) s.data
    (Finset.mem_range.mpr hlt) ((s.data e.threadId).count true)
  have hle : ((s.data e.threadId).count true).instMemAccess.toNat ≤
      (s.data e.threadId).instMemAccess.toNat + 1 := by
    rw [SyncData.count, if_pos rfl, BitVec.toNat_add]
    exact Nat.mod_le _ _
  simp only [instMemAccessSum, Tool.recorded]
  omega

/-- The state after some recorded events. -/
def Tool.recordedAll (s : Tool) (es : List InstCall) : Tool := es.foldl Tool.recorded s

/-- What several instructions record. -/
theorem run_recorded {s : Tool} {es : List InstCall} (hes : ∀ e ∈ es, Recorded s e) :
    s.run (es.map .inst) = some (s.recordedAll es) := by
  induction es generalizing s with
  | nil => rfl
  | cons e es ih =>
    have hstep : s.step (.inst e) = some (s.recorded e) :=
      processInst_recorded (hes e List.mem_cons_self)
    rw [List.map_cons, Tool.run, List.foldlM_cons, hstep]
    exact ih fun e' he' => recorded_recorded.mpr (hes e' (List.mem_cons_of_mem _ he'))

/-- What holds of the first instruction and of the others. -/
theorem each_recorded {P : Tool → InstCall → Prop} {s : Tool} {e : InstCall} {es : List InstCall}
    (h : Recorded s e) : s.Each P (e :: es) ↔ P s e ∧ (s.recorded e).Each P es := by
  rw [Tool.Each, processInst_recorded h]
  simp

/-- What holds of every recorded event holds of all events of a run. -/
theorem each_congr {P Q : Tool → InstCall → Prop} (hPQ : ∀ s e, Recorded s e → (P s e → Q s e))
    {s : Tool} {es : List InstCall} (hes : ∀ e ∈ es, Recorded s e) (h : s.Each P es) :
    s.Each Q es := by
  induction es generalizing s with
  | nil => trivial
  | cons e es ih =>
    have he := hes e List.mem_cons_self
    rw [each_recorded he] at h ⊢
    exact ⟨hPQ s e he h.1,
      ih (fun e' he' => recorded_recorded.mpr (hes e' (List.mem_cons_of_mem _ he'))) h.2⟩

/-- When every event leads to a call and no count wraps, the accesses keep up with the
    instructions. -/
theorem sums_recordedAll {s : Tool} {es : List InstCall} (hes : ∀ e ∈ es, Recorded s e)
    (hcalls : s.Each (fun s e => callsOf s e ≠ []) es) (hroom : s.Each HasRoom es) :
    accessSum s.memAccessMap + instMemAccessSum (s.recordedAll es) ≤
      accessSum (s.recordedAll es).memAccessMap + instMemAccessSum s := by
  induction es generalizing s with
  | nil => exact le_rfl
  | cons e es ih =>
    have he := hes e List.mem_cons_self
    rw [each_recorded he] at hcalls hroom
    have hrest := ih (fun e' he' => recorded_recorded.mpr (hes e' (List.mem_cons_of_mem _ he')))
      hcalls.2 hroom.2
    have hinst := instMemAccessSum_recorded he.1
    have haccess : accessSum (s.recorded e).memAccessMap =
        accessSum s.memAccessMap + (callsOf s e).length := accessSum_examine hroom.1
    have hpos := List.length_pos_iff.mpr hcalls.1
    have hcons : s.recordedAll (e :: es) = (s.recorded e).recordedAll es := rfl
    rw [hcons]
    omega

/-- **The operands of recorded instructions.**  From every state of the map, a run of recorded
    events examines the operands of each of them until one is found to be shared exactly when each
    event, in the state that it meets, has found its written address shared, or has no even read
    operand that would be next.  In such a run every event adds an access, and while no count wraps
    the sum of the access counts grows at least as much as the sum of `inst_mem_access`. -/
theorem operands_examined {s : Tool} {es : List InstCall} (hes : ∀ e ∈ es, Recorded s e) :
    ∃ s', s.run (es.map .inst) = some s' ∧
      (s.Each ExaminesOperands es ↔ s.Each OperandsSeen es) ∧
      (s.Each OperandsSeen es → s.Each (fun s e => callsOf s e ≠ []) es ∧
        (s.Each HasRoom es → accessSum s.memAccessMap + instMemAccessSum s' ≤
          accessSum s'.memAccessMap + instMemAccessSum s)) := by
  have hcalls : s.Each OperandsSeen es → s.Each (fun s e => callsOf s e ≠ []) es := by
    refine each_congr (fun s e he hseen => ?_) hes
    have heq : ExaminesOperands s e := (examine_called_iff he.1).mpr hseen
    rw [heq]
    refine untilShared_ne_nil ?_
    rcases he.2.2.2 with h | h | h
    · exact ⟨_, by simp, h⟩
    · exact ⟨_, by simp, h⟩
    · exact ⟨_, by simp, h⟩
  refine ⟨s.recordedAll es, run_recorded hes, ⟨?_, ?_⟩, fun hseen => ⟨hcalls hseen, ?_⟩⟩
  · exact each_congr (fun s e he => (examine_called_iff he.1).mp) hes
  · exact each_congr (fun s e he => (examine_called_iff he.1).mpr) hes
  · exact sums_recordedAll hes (hcalls hseen)

/-- Two threads, both in critical sections that are watched. -/
def recordingTool : Tool where
  totalThreads := 2
  callSite := [1]
  startProfile := true
  record := fun _ => true

/-- A write to 8, and a copy from 9 to 8 by the other thread. -/
def writeThenCopy : List InstCall :=
  [⟨0, true, false, 8, 0, 0⟩, ⟨1, true, false, 8, 9, 0⟩]

/-- All operands of the run are examined. -/
theorem operands_examined_writeThenCopy :
    ∃ s', recordingTool.run (writeThenCopy.map .inst) = some s' ∧
      recordingTool.Each ExaminesOperands writeThenCopy := by
  have hrec : ∀ e ∈ writeThenCopy, Recorded recordingTool e := by decide
  obtain ⟨s', hrun, hexamines, -⟩ := operands_examined hrec
  refine ⟨s', hrun, hexamines.mpr ?_⟩
  have hcopy : Recorded (recordingTool.recorded ⟨0, true, false, 8, 0, 0⟩) ⟨1, true, false, 8, 9, 0⟩ :=
    hrec _ (by decide)
  refine (each_recorded (hrec _ (by decide))).mpr ⟨by decide +kernel, ?_⟩
  exact (each_recorded hcopy).mpr ⟨by decide +kernel, trivial⟩

/-- A read of address 8. -/
def readEven : InstCall := ⟨0, true, false, 0, 8, 0⟩

/-- **An even operand is passed over**, and the instruction is counted without an access. -/
theorem readEven_skipped :
    Recorded recordingTool readEven ∧ ¬ recordingTool.Each ExaminesOperands [readEven] ∧
      callsOf recordingTool readEven = [] ∧
      ∃ s', recordingTool.run [.inst readEven] = some s' ∧
        accessSum s'.memAccessMap = 0 ∧ instMemAccessSum s' = 1 := by
  have hcalls : callsOf recordingTool readEven = [] := by decide +kernel
  have hexamines : untilShared 2 0 [0, 8, 0] ∅ = [8] := by decide +kernel
  refine ⟨by decide, fun h => ?_, hcalls, recordingTool.recorded readEven, rfl, ?_, ?_⟩
  · have heq : callsOf recordingTool readEven = untilShared 2 0 [0, 8, 0] ∅ := h.1
    rw [hcalls, hexamines] at heq
    exact List.cons_ne_nil _ _ heq.symm
  · rfl
  · rfl

end SyncPerf.SyncTrack
