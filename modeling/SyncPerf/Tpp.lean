import SyncPerf.PthreadP

namespace SyncPerf

/-!
# Thread priority protection

`tpp.c`: a thread that holds priority-protect mutexes runs at the highest of their ceilings.  Each
thread counts, for every priority, the mutexes with that ceiling (`priomap`), and keeps the
highest priority in use (`priomax`).  The data belong to the thread alone.

* `Sched` — what the kernel and the C library answer;
* `Prio` — the part of `struct pthread` that the code uses;
* `tppChangePriority`, `pthreadCurrentPriority` — the two functions;
* `scanDown_spec` — what the downward scan finds;
* `TppCounts`, `TppCounts.raise`, `TppCounts.lower` — what the counters count, and that both
  directions keep the highest priority in use;
* `tppChangePriority_raise`, `tppChangePriority_lower` — the function, when the scheduler calls
  succeed.
-/

/-- `ENOMEM`. -/
def eNOMEM : ℕ := 12

/-- What the kernel and the C library answer: the priorities of `SCHED_FIFO`, whether `calloc`
    finds memory, and the scheduler system calls, with the error that they set. -/
structure Sched where
  fifoMinPrio : ℤ
  fifoMaxPrio : ℤ
  calloc : Bool
  schedGetparam : Except ℕ ℤ
  schedGetscheduler : Except ℕ ℤ
  schedSetscheduler : ℤ → ℤ → Except ℕ Unit

/-- `struct priority_protection_data`. -/
structure PriorityProtectionData where
  priomax : ℤ
  priomap : ℕ → BitVec 32

/-- The fields of `struct pthread` for scheduling: `tpp`, the flags `ATTR_FLAG_SCHED_SET` and
    `ATTR_FLAG_POLICY_SET`, `schedparam` and `schedpolicy`. -/
structure Prio where
  tpp : Option PriorityProtectionData := none
  schedSet : Bool := false
  policySet : Bool := false
  schedPriority : ℤ := 0
  schedpolicy : ℤ := 0

/-- The assertions of `__pthread_tpp_change_priority`. -/
inductive PrioAssert
  | newPrio
  | previousPrio
  deriving DecidableEq

/-! ### The functions -/

/-- The two system calls that fill in `schedparam` and `schedpolicy` when they are not known yet:
    the error of the last one that failed, and the thread. -/
def Prio.learn (S : Sched) (p : Prio) : Option ℕ × Prio :=
  let (result, p) : Option ℕ × Prio :=
    if p.schedSet then (none, p)
    else match S.schedGetparam with
      | .error e => (some e, p)
      | .ok prio => (none, { p with schedPriority := prio, schedSet := true })
  if p.policySet then (result, p)
  else match S.schedGetscheduler with
    | .error e => (some e, { p with schedpolicy := -1 })
    | .ok policy => (result, { p with schedpolicy := policy, policySet := true })

/-- `__pthread_current_priority`. -/
def pthreadCurrentPriority (S : Sched) (p : Prio) : ℤ × Prio :=
  match p.learn S with
  | (some _, p) => (-1, p)
  | (none, p) => (p.schedPriority, p)

/-- `for (i = ...; i >= fifo_min_prio; --i) if (tpp->priomap[i - fifo_min_prio]) break;` from the
    `n`-th priority down, that one excluded. -/
def scanDown (fifoMinPrio : ℤ) (priomap : ℕ → BitVec 32) : ℕ → ℤ
  | 0 => fifoMinPrio - 1
  | n + 1 => if priomap n ≠ 0 then fifoMinPrio + n else scanDown fifoMinPrio priomap n

/-- The counters after a mutex of priority `new` was added and one of priority `previous` removed,
    with the highest priority in use; -1 stands for no mutex.  `none` when the counter of `new`
    is full. -/
def PriorityProtectionData.change (fifoMinPrio previous new : ℤ) (tpp : PriorityProtectionData) :
    Option (ℤ × (ℕ → BitVec 32)) :=
  let at' (prio : ℤ) : ℕ := (prio - fifoMinPrio).toNat
  if new ≠ -1 ∧ tpp.priomap (at' new) + 1 = 0 then none
  else
    let map := if new ≠ -1 then
        Function.update tpp.priomap (at' new) (tpp.priomap (at' new) + 1)
      else tpp.priomap
    let newpriomax := if new ≠ -1 ∧ new > tpp.priomax then new else tpp.priomax
    if previous = -1 then some (newpriomax, map)
    else
      let map := Function.update map (at' previous) (map (at' previous) - 1)
      if map (at' previous) = 0 ∧ tpp.priomax = previous ∧ previous > new then
        some (scanDown fifoMinPrio map (at' previous), map)
      else some (newpriomax, map)

/-- The thread's counters, made on their first use. -/
def Prio.tppData (S : Sched) (p : Prio) : Option PriorityProtectionData :=
  match p.tpp with
  | some tpp => some tpp
  | none => if S.calloc then some ⟨S.fifoMinPrio - 1, fun _ => 0⟩ else none

/-- The priority that the thread is given when the highest priority in use goes from `priomax` to
    `newpriomax`. -/
def Prio.reschedule (S : Sched) (priomax newpriomax : ℤ) (p : Prio) : ℕ × Prio :=
  match p.learn S with
  | (some e, p) => (e, p)
  | (none, p) =>
    if p.schedPriority < newpriomax ∨ p.schedPriority < priomax then
      match S.schedSetscheduler p.schedpolicy (max p.schedPriority newpriomax) with
      | .error e => (e, p)
      | .ok () => (0, p)
    else (0, p)

/-- `__pthread_tpp_change_priority`.  The range of `SCHED_FIFO` is known once a thread has its
    counters: it is asked for before they are made. -/
def tppChangePriority (S : Sched) (previousPrio newPrio : ℤ) (p : Prio) :
    Except PrioAssert (ℕ × Prio) :=
  match p.tppData S with
  | none => .ok (eNOMEM, p)
  | some tpp =>
    let p := { p with tpp := some tpp }
    if ¬ (newPrio = -1 ∨ S.fifoMinPrio ≤ newPrio ∧ newPrio ≤ S.fifoMaxPrio) then
      .error .newPrio
    else if ¬ (previousPrio = -1 ∨
        S.fifoMinPrio ≤ previousPrio ∧ previousPrio ≤ S.fifoMaxPrio) then
      .error .previousPrio
    else match tpp.change S.fifoMinPrio previousPrio newPrio with
      | none => .ok (eAGAIN, p)
      | some (newpriomax, map) =>
        if tpp.priomax = newpriomax then .ok (0, { p with tpp := some ⟨tpp.priomax, map⟩ })
        else .ok (Prio.reschedule S tpp.priomax newpriomax
          { p with tpp := some ⟨newpriomax, map⟩ })

/-- Giving up a priority outside the range of `SCHED_FIFO` fails. -/
theorem tppChangePriority_of_not_range {S : Sched} {previousPrio : ℤ} (p : Prio)
    (hne : previousPrio ≠ -1)
    (hrange : ¬ (S.fifoMinPrio ≤ previousPrio ∧ previousPrio ≤ S.fifoMaxPrio)) :
    tppChangePriority S previousPrio (-1) p = .ok (eNOMEM, p) ∨
      tppChangePriority S previousPrio (-1) p = .error .previousPrio := by
  unfold tppChangePriority
  cases p.tppData S with
  | none => exact .inl rfl
  | some tpp =>
    refine .inr ?_
    simp only [true_or, not_true_eq_false, if_false]
    rw [if_pos (not_or.mpr ⟨hne, hrange⟩)]

/-! ### The scan -/

/-- **The downward scan** finds the highest priority in use below the `n`-th, or the one below all
    priorities. -/
theorem scanDown_spec (fifoMinPrio : ℤ) (priomap : ℕ → BitVec 32) (n : ℕ) :
    (∀ k < n, priomap k = 0) ∧ scanDown fifoMinPrio priomap n = fifoMinPrio - 1 ∨
      ∃ k < n, priomap k ≠ 0 ∧ (∀ j, k < j → j < n → priomap j = 0) ∧
        scanDown fifoMinPrio priomap n = fifoMinPrio + k := by
  induction n with
  | zero => exact .inl ⟨by simp, rfl⟩
  | succ n ih =>
    by_cases h : priomap n = 0
    · have hscan : scanDown fifoMinPrio priomap (n + 1) = scanDown fifoMinPrio priomap n := by
        simp only [scanDown, h, ne_eq, not_true_eq_false, if_false]
      rw [hscan]
      rcases ih with ⟨hall, heq⟩ | ⟨k, hk, hne, hall, heq⟩
      · refine .inl ⟨fun k hk => ?_, heq⟩
        rcases Nat.lt_succ_iff_lt_or_eq.mp hk with hlt | rfl
        · exact hall k hlt
        · exact h
      · refine .inr ⟨k, by omega, hne, fun j hkj hj => ?_, heq⟩
        rcases Nat.lt_succ_iff_lt_or_eq.mp hj with hlt | rfl
        · exact hall j hkj hlt
        · exact h
    · refine .inr ⟨n, Nat.lt_succ_self n, h, fun j hnj hj => absurd hj (by omega), ?_⟩
      simp only [scanDown, ne_eq, h, not_false_eq_true, if_true]

/-! ### What the counters count -/

/-- One more mutex of the `k`-th priority, and one less. -/
def oneMore (f : ℕ → ℕ) (k : ℕ) : ℕ → ℕ := Function.update f k (f k + 1)

/-- One mutex less of the `k`-th priority. -/
def oneLess (f : ℕ → ℕ) (k : ℕ) : ℕ → ℕ := Function.update f k (f k - 1)

/-- The counters tell how many mutexes there are of each priority, and the highest priority in use
    is the highest of theirs, or the one below all priorities. -/
structure TppCounts (fifoMinPrio : ℤ) (f : ℕ → ℕ) (tpp : PriorityProtectionData) : Prop where
  map : ∀ n, (tpp.priomap n).toNat = f n
  max : (∀ n, f n = 0) ∧ tpp.priomax = fifoMinPrio - 1 ∨
    ∃ k, f k ≠ 0 ∧ (∀ j, k < j → f j = 0) ∧ tpp.priomax = fifoMinPrio + k

namespace TppCounts

variable {fifoMinPrio prio : ℤ} {f : ℕ → ℕ} {tpp : PriorityProtectionData}

/-- The counters are determined by what they count. -/
theorem unique {tpp' : PriorityProtectionData} (h : TppCounts fifoMinPrio f tpp)
    (h' : TppCounts fifoMinPrio f tpp') : tpp = tpp' := by
  obtain ⟨priomax, priomap⟩ := tpp
  obtain ⟨priomax', priomap'⟩ := tpp'
  have hmap : priomap = priomap' := by
    funext n
    exact BitVec.eq_of_toNat_eq ((h.map n).trans (h'.map n).symm)
  have hmax : priomax = priomax' := by
    rcases h.max with ⟨hzero, heq⟩ | ⟨k, hk, habove, heq⟩
    · rcases h'.max with ⟨-, heq'⟩ | ⟨k', hk', -, -⟩
      · exact heq.trans heq'.symm
      · exact absurd (hzero k') hk'
    · rcases h'.max with ⟨hzero', -⟩ | ⟨k', hk', habove', heq'⟩
      · exact absurd (hzero' k) hk
      · -- neither of the two is above the other
        have hle : ¬ k < k' := fun hlt => hk' (habove k' hlt)
        have hge : ¬ k' < k := fun hlt => hk (habove' k hlt)
        rw [show priomax = fifoMinPrio + k from heq, show priomax' = fifoMinPrio + k' from heq']
        omega
  rw [hmap, hmax]

/-- **Adding a mutex** is refused when the counter is full, and otherwise counts it. -/
theorem raise (h : TppCounts fifoMinPrio f tpp) (hle : fifoMinPrio ≤ prio) (hne : prio ≠ -1) :
    tpp.change fifoMinPrio (-1) prio = none ∨
      ∃ newpriomax map, tpp.change fifoMinPrio (-1) prio = some (newpriomax, map) ∧
        TppCounts fifoMinPrio (oneMore f (prio - fifoMinPrio).toNat) ⟨newpriomax, map⟩ := by
  by_cases hfull : tpp.priomap (prio - fifoMinPrio).toNat + 1 = 0
  · left
    simp only [PriorityProtectionData.change, hfull, ne_eq, hne, not_false_eq_true, and_self,
      if_true]
  · right
    obtain ⟨k, hk⟩ : ∃ k : ℕ, (prio - fifoMinPrio).toNat = k := ⟨_, rfl⟩
    have hprio : prio = fifoMinPrio + k := by omega
    rw [hk] at hfull ⊢
    refine ⟨if prio > tpp.priomax then prio else tpp.priomax,
      Function.update tpp.priomap k (tpp.priomap k + 1), ?_, ?_, ?_⟩
    · simp only [PriorityProtectionData.change, hk, hfull, ne_eq, hne, not_false_eq_true, true_and,
        if_false, if_true]
    · intro n
      by_cases hn : n = k
      · subst hn
        simp only [oneMore, Function.update_self]
        rw [toNat_add_one hfull, h.map]
      · simp only [oneMore, Function.update_of_ne hn]
        exact h.map n
    · right
      rcases h.max with ⟨hzero, heq⟩ | ⟨k₀, hk₀, habove, heq⟩
      · refine ⟨k, by simp [oneMore], fun j hj => ?_, ?_⟩
        · simp only [oneMore, Function.update_of_ne (show j ≠ k by omega)]
          exact hzero j
        · simp only [heq]
          rw [if_pos (by omega)]
          exact hprio
      · by_cases hlt : k₀ < k
        · refine ⟨k, by simp [oneMore], fun j hj => ?_, ?_⟩
          · simp only [oneMore, Function.update_of_ne (show j ≠ k by omega)]
            exact habove j (by omega)
          · simp only [heq]
            rw [if_pos (by omega)]
            exact hprio
        · refine ⟨k₀, ?_, fun j hj => ?_, ?_⟩
          · by_cases heq : k₀ = k
            · simp [oneMore, heq]
            · simp only [oneMore, Function.update_of_ne heq]
              exact hk₀
          · simp only [oneMore, Function.update_of_ne (show j ≠ k by omega)]
            exact habove j hj
          · simp only [heq]
            rw [if_neg (by omega)]

/-- **Removing a mutex** looks for the next priority in use when it was the last of the highest. -/
theorem lower (h : TppCounts fifoMinPrio f tpp) (hle : fifoMinPrio ≤ prio) (hprio : 0 ≤ prio)
    (hpos : 0 < f (prio - fifoMinPrio).toNat) :
    ∃ newpriomax map, tpp.change fifoMinPrio prio (-1) = some (newpriomax, map) ∧
      TppCounts fifoMinPrio (oneLess f (prio - fifoMinPrio).toNat) ⟨newpriomax, map⟩ := by
  obtain ⟨k, hk⟩ : ∃ k : ℕ, (prio - fifoMinPrio).toNat = k := ⟨_, rfl⟩
  have heq : prio = fifoMinPrio + k := by omega
  have hne : prio ≠ -1 := by omega
  rw [hk] at hpos ⊢
  obtain ⟨map, hmap⟩ : ∃ map, map = Function.update tpp.priomap k (tpp.priomap k - 1) := ⟨_, rfl⟩
  have hchange : tpp.change fifoMinPrio prio (-1) =
      if map k = 0 ∧ tpp.priomax = prio ∧ prio > -1 then some (scanDown fifoMinPrio map k, map)
      else some (tpp.priomax, map) := by
    simp only [PriorityProtectionData.change, hk, ne_eq, not_true_eq_false, false_and, if_false,
      hne, ← hmap]
  have hcounts : ∀ n, (map n).toNat = oneLess f k n := by
    intro n
    rw [hmap]
    by_cases hn : n = k
    · subst hn
      simp only [oneLess, Function.update_self]
      rw [toNat_sub_one (by rw [h.map]; exact hpos), h.map]
    · simp only [oneLess, Function.update_of_ne hn]
      exact h.map n
  have hzero : ∀ n, map n = 0 ↔ oneLess f k n = 0 := by
    intro n
    rw [← hcounts n]
    constructor
    · intro h0
      rw [h0]
      rfl
    · exact fun h0 => BitVec.eq_of_toNat_eq h0
  obtain ⟨k₀, hk₀, habove, hmax⟩ := h.max.resolve_left fun hall => Nat.ne_of_gt hpos (hall.1 k)
  have habove' : ∀ j, k₀ < j → oneLess f k j = 0 := by
    intro j hj
    have hjk : j ≠ k := by
      rintro rfl
      exact Nat.ne_of_gt hpos (habove j hj)
    simp only [oneLess, Function.update_of_ne hjk]
    exact habove j hj
  rw [hchange]
  split
  · rename_i hscan
    obtain ⟨hlast, htop, -⟩ := hscan
    refine ⟨_, _, rfl, hcounts, ?_⟩
    have hkk : k₀ = k := by omega
    subst hkk
    rcases scanDown_spec fifoMinPrio map k₀ with ⟨hall, hfound⟩ | ⟨j, hj, hjne, hbetween, hfound⟩
    · refine .inl ⟨fun n => ?_, hfound⟩
      rcases Nat.lt_trichotomy n k₀ with hlt | rfl | hgt
      · exact (hzero n).mp (hall n hlt)
      · exact (hzero n).mp hlast
      · exact habove' n hgt
    · refine .inr ⟨j, fun h0 => hjne ((hzero j).mpr h0), fun n hn => ?_, hfound⟩
      rcases Nat.lt_trichotomy n k₀ with hlt | rfl | hgt
      · exact (hzero n).mp (hbetween n hn hlt)
      · exact (hzero n).mp hlast
      · exact habove' n hgt
  · rename_i hscan
    -- the highest priority is still in use
    refine ⟨_, _, rfl, hcounts, .inr ⟨k₀, fun h0 => hscan ?_, habove', hmax⟩⟩
    by_cases hkk : k₀ = k
    · subst hkk
      exact ⟨(hzero k₀).mpr h0, hmax.trans heq.symm, by omega⟩
    · simp only [oneLess, Function.update_of_ne hkk] at h0
      exact absurd h0 hk₀

end TppCounts

/-! ### When the scheduler calls succeed -/

/-- The scheduler calls succeed, and `SCHED_FIFO` has this range. -/
structure Sched.Succeeds (S : Sched) (fifoMinPrio fifoMaxPrio : ℤ) : Prop where
  min : S.fifoMinPrio = fifoMinPrio
  max : S.fifoMaxPrio = fifoMaxPrio
  getparam : ∃ prio, S.schedGetparam = .ok prio
  getscheduler : ∃ policy, S.schedGetscheduler = .ok policy
  setscheduler : ∀ policy prio, S.schedSetscheduler policy prio = .ok ()

/-- The thread's counters; before their first use, those of no mutex. -/
def Prio.bookkeeping (fifoMinPrio : ℤ) (p : Prio) : PriorityProtectionData :=
  p.tpp.getD ⟨fifoMinPrio - 1, fun _ => 0⟩

/-- The two system calls do not touch the counters. -/
theorem Prio.learn_tpp (S : Sched) (p : Prio) : (p.learn S).2.tpp = p.tpp := by
  obtain ⟨tpp, schedSet, policySet, schedPriority, schedpolicy⟩ := p
  unfold Prio.learn
  cases schedSet <;> cases policySet <;> cases S.schedGetparam <;>
    cases S.schedGetscheduler <;> rfl

theorem pthreadCurrentPriority_tpp (S : Sched) (p : Prio) :
    (pthreadCurrentPriority S p).2.tpp = p.tpp := by
  have htpp := p.learn_tpp S
  unfold pthreadCurrentPriority
  split
  · rename_i heq
    rw [heq] at htpp
    exact htpp
  · rename_i heq
    rw [heq] at htpp
    exact htpp

section Succeeds

variable {S : Sched} {fifoMinPrio fifoMaxPrio : ℤ}

theorem Prio.learn_fst (hS : S.Succeeds fifoMinPrio fifoMaxPrio) (p : Prio) :
    (p.learn S).1 = none := by
  obtain ⟨prio, hprio⟩ := hS.getparam
  obtain ⟨policy, hpolicy⟩ := hS.getscheduler
  obtain ⟨tpp, schedSet, policySet, schedPriority, schedpolicy⟩ := p
  unfold Prio.learn
  rw [hprio, hpolicy]
  cases schedSet <;> cases policySet <;> rfl

/-- The new priority is set, and the counters stay. -/
theorem Prio.reschedule_spec (hS : S.Succeeds fifoMinPrio fifoMaxPrio) (priomax newpriomax : ℤ)
    (p : Prio) : (p.reschedule S priomax newpriomax).1 = 0 ∧
      (p.reschedule S priomax newpriomax).2.tpp = p.tpp := by
  have htpp := p.learn_tpp S
  have hfst := Prio.learn_fst hS p
  unfold Prio.reschedule
  cases hlearn : p.learn S with
  | mk result p' =>
    rw [hlearn] at htpp hfst
    simp only at hfst htpp
    subst hfst
    simp only [hS.setscheduler]
    split <;> exact ⟨rfl, htpp⟩

/-- A change that the counters allow. -/
theorem tppChangePriority_of_change (hS : S.Succeeds fifoMinPrio fifoMaxPrio) {previous new : ℤ}
    {p : Prio} {tpp : PriorityProtectionData} {newpriomax : ℤ} {map : ℕ → BitVec 32}
    (htpp : p.tppData S = some tpp)
    (hnew : new = -1 ∨ fifoMinPrio ≤ new ∧ new ≤ fifoMaxPrio)
    (hprevious : previous = -1 ∨ fifoMinPrio ≤ previous ∧ previous ≤ fifoMaxPrio)
    (hchange : tpp.change fifoMinPrio previous new = some (newpriomax, map)) :
    ∃ p', tppChangePriority S previous new p = .ok (0, p') ∧
      p'.bookkeeping fifoMinPrio = ⟨newpriomax, map⟩ := by
  unfold tppChangePriority
  rw [htpp]
  simp only [hS.min, hS.max, hnew, hprevious, not_true_eq_false, if_false, hchange]
  split
  · rename_i hsame
    rw [hsame]
    exact ⟨_, rfl, rfl⟩
  · obtain ⟨hcode, hkept⟩ := Prio.reschedule_spec hS tpp.priomax newpriomax
      { p with tpp := some ⟨newpriomax, map⟩ }
    refine ⟨_, congrArg Except.ok (Prod.ext hcode rfl), ?_⟩
    unfold Prio.bookkeeping
    rw [hkept]
    rfl

/-- **Raising the priority** of a thread for a mutex counts the mutex, or fails and changes
    nothing. -/
theorem tppChangePriority_raise (hS : S.Succeeds fifoMinPrio fifoMaxPrio) {prio : ℤ} {p : Prio}
    {f : ℕ → ℕ} (hrange : fifoMinPrio ≤ prio ∧ prio ≤ fifoMaxPrio) (hne : prio ≠ -1)
    (h : TppCounts fifoMinPrio f (p.bookkeeping fifoMinPrio)) :
    (∃ code p', tppChangePriority S (-1) prio p = .ok (code, p') ∧ code ≠ 0 ∧
      p'.bookkeeping fifoMinPrio = p.bookkeeping fifoMinPrio) ∨
    ∃ p', tppChangePriority S (-1) prio p = .ok (0, p') ∧
      TppCounts fifoMinPrio (oneMore f (prio - fifoMinPrio).toNat)
        (p'.bookkeeping fifoMinPrio) := by
  cases hdata : p.tppData S with
  | none =>
    left
    refine ⟨eNOMEM, p, ?_, by decide, rfl⟩
    unfold tppChangePriority
    rw [hdata]
  | some tpp =>
    have hbook : p.bookkeeping fifoMinPrio = tpp := by
      unfold Prio.tppData at hdata
      unfold Prio.bookkeeping
      cases htpp : p.tpp with
      | some tpp' =>
        rw [htpp] at hdata
        exact Option.some.inj hdata
      | none =>
        rw [htpp] at hdata
        simp only [hS.min] at hdata
        split at hdata
        · exact Option.some.inj hdata
        · cases hdata
    rw [hbook] at h
    rcases h.raise hrange.1 hne with hfull | ⟨newpriomax, map, hchange, hcounts⟩
    · left
      refine ⟨eAGAIN, { p with tpp := some tpp }, ?_, by decide, hbook.symm⟩
      unfold tppChangePriority
      rw [hdata]
      simp only [hS.min, hS.max, hrange, and_self, or_true, not_true_eq_false, if_false, true_or,
        hfull]
    · right
      obtain ⟨p', hcall, hbook'⟩ := tppChangePriority_of_change hS hdata (.inr hrange) (.inl rfl)
        hchange
      refine ⟨p', hcall, ?_⟩
      rw [hbook']
      exact hcounts

/-- **Lowering it** again takes the mutex off. -/
theorem tppChangePriority_lower (hS : S.Succeeds fifoMinPrio fifoMaxPrio) {prio : ℤ} {p : Prio}
    {f : ℕ → ℕ} (hrange : fifoMinPrio ≤ prio ∧ prio ≤ fifoMaxPrio) (hprio : 0 ≤ prio)
    (h : TppCounts fifoMinPrio f (p.bookkeeping fifoMinPrio))
    (hpos : 0 < f (prio - fifoMinPrio).toNat) :
    ∃ p', tppChangePriority S prio (-1) p = .ok (0, p') ∧
      TppCounts fifoMinPrio (oneLess f (prio - fifoMinPrio).toNat)
        (p'.bookkeeping fifoMinPrio) := by
  cases htpp : p.tpp with
  | none =>
    -- a thread without counters has no mutex
    have hzero : (p.bookkeeping fifoMinPrio).priomap (prio - fifoMinPrio).toNat = 0 := by
      unfold Prio.bookkeeping
      rw [htpp]
      rfl
    have := h.map (prio - fifoMinPrio).toNat
    rw [hzero] at this
    exact absurd this (Nat.ne_of_lt hpos)
  | some tpp =>
    have hbook : p.bookkeeping fifoMinPrio = tpp := by
      unfold Prio.bookkeeping
      rw [htpp]
      rfl
    have hdata : p.tppData S = some tpp := by
      unfold Prio.tppData
      rw [htpp]
    rw [hbook] at h
    obtain ⟨newpriomax, map, hchange, hcounts⟩ := h.lower hrange.1 hprio hpos
    obtain ⟨p', hcall, hbook'⟩ := tppChangePriority_of_change hS hdata (.inl rfl) (.inr hrange)
      hchange
    refine ⟨p', hcall, ?_⟩
    rw [hbook']
    exact hcounts

end Succeeds

end SyncPerf
