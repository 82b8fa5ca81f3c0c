import Mathlib.Data.Finset.Card
import SyncPerf.PrioSteps

namespace SyncPerf.PrioProtect

open Interleaving Calls

/-!
# The bookkeeping of one thread

A thread runs at the highest ceiling of the mutexes that it holds.  It is raised before it tries to
take a mutex and lowered after it has given one up, or has failed to take it, so that during a call
one more mutex may be counted than the thread holds.

* `heldCount`, `Stage.pending` — what a thread's counters have to count;
* `LocalOk`, `View`, `Effect` — what holds of a thread, what it sees of a mutex, and what a step
  does to the mutex and to what the thread holds;
* `acquireStep_good`, `releaseStep_good` — every step of a call keeps it.
-/

/-! ### Words with a ceiling -/

/-- A ceiling in its place in the word. -/
theorem ceilvalOf_eq (ceiling : ℕ) : ceilvalOf ceiling = ceiling * 2 ^ 19 :=
  Nat.shiftLeft_eq ceiling 19

/-- The mask takes the ceiling out of a word. -/
theorem ceilval_and {ceiling b : ℕ} (hc : ceiling < 4096) (hb : b ≤ 2) :
    (ceilvalOf ceiling + b) &&& prioCeilingMask = ceilvalOf ceiling := by
  rw [ceilvalOf_eq, and_prioCeilingMask (by omega)]
  omega

/-- The ceiling of a word that is free, taken or marked. -/
theorem ceilingOf_add {ceiling b : ℕ} (hc : ceiling < 4096) (hb : b ≤ 2) :
    ceilingOf (ceilvalOf ceiling + b) = ceiling := by
  rw [ceilingOf, ceilval_and hc hb, ceilvalOf, Nat.shiftLeft_shiftRight]

/-- The low bits that the calls set. -/
theorem ceilval_or {ceiling b : ℕ} (hb : b ≤ 2) :
    ceilvalOf ceiling ||| b = ceilvalOf ceiling + b :=
  (Nat.shiftLeft_add_eq_or_of_lt (by rw [prioCeilingShift]; omega) ceiling).symm

/-- The `int` that an unlock shifts back. -/
theorem ceilval_toInt {ceiling : ℕ} (hc : ceiling < 4096) :
    (BitVec.ofNat 32 (ceilvalOf ceiling)).toInt >>> prioCeilingShift = (ceiling : ℤ) := by
  have hlt : ceiling * 2 ^ 19 < 2 ^ 31 := by omega
  have hmod : ceiling * 2 ^ 19 % 2 ^ 32 = ceiling * 2 ^ 19 := Nat.mod_eq_of_lt (by omega)
  rw [ceilvalOf_eq, BitVec.toInt_eq_toNat_of_lt, BitVec.toNat_ofNat, hmod, prioCeilingShift,
    Int.shiftRight_eq_div_pow]
  · push_cast
    omega
  · rw [BitVec.toNat_ofNat, hmod]
    omega

/-! ### What the counters have to count -/

section Counting

variable {M : Type}

/-- The place of a mutex's ceiling in the counters. -/
def place (fifoMinPrio : ℤ) (ceil : M → ℕ) (n : M) : ℕ := ((ceil n : ℤ) - fifoMinPrio).toNat

/-- How many of the mutexes held have the `k`-th priority as their ceiling. -/
def heldCount (fifoMinPrio : ℤ) (ceil : M → ℕ) (held : Finset M) (k : ℕ) : ℕ :=
  (held.filter fun n => place fifoMinPrio ceil n = k).card

variable [DecidableEq M] {fifoMinPrio : ℤ} {ceil : M → ℕ} {held : Finset M} {n : M}

/-- A mutex that is taken is one more. -/
theorem heldCount_insert (h : n ∉ held) :
    heldCount fifoMinPrio ceil (insert n held) =
      oneMore (heldCount fifoMinPrio ceil held) (place fifoMinPrio ceil n) := by
  funext k
  unfold heldCount oneMore
  rw [Finset.filter_insert]
  by_cases hk : place fifoMinPrio ceil n = k
  · rw [if_pos hk, ← hk, Function.update_self, Finset.card_insert_of_notMem]
    exact fun hmem => h (Finset.mem_filter.mp hmem).1
  · rw [if_neg hk, Function.update_of_ne (Ne.symm hk)]

/-- A mutex that is given up was one more. -/
theorem heldCount_erase (h : n ∈ held) :
    heldCount fifoMinPrio ceil held =
      oneMore (heldCount fifoMinPrio ceil (held.erase n)) (place fifoMinPrio ceil n) := by
  rw [← heldCount_insert (Finset.notMem_erase n held), Finset.insert_erase h]

/-- One mutex more, and one less. -/
theorem oneLess_oneMore (f : ℕ → ℕ) (k : ℕ) : oneLess (oneMore f k) k = f := by
  funext j
  unfold oneLess oneMore
  by_cases hj : j = k
  · subst hj
    simp
  · rw [Function.update_of_ne hj, Function.update_of_ne hj]

/-- There is one of that priority. -/
theorem oneMore_pos (f : ℕ → ℕ) (k : ℕ) : 0 < oneMore f k k := by
  simp [oneMore]

end Counting

/-! ### What holds of a thread -/

section Thread

variable {M : Type}

/-- The range of priorities, and the ceilings in it. -/
structure Ceilings (fifoMinPrio fifoMaxPrio : ℤ) (ceil : M → ℕ) : Prop where
  lt : ∀ n, ceil n < 4096
  range : ∀ n, fifoMinPrio ≤ ceil n ∧ (ceil n : ℤ) ≤ fifoMaxPrio

/-- The mutex that a thread's counters have beside those that it holds: it is raised and not taken
    yet, or given up and not lowered yet. -/
def Stage.pending : Stage M → Option M
  | .acquire _ n (.cas _) | .acquire _ n (.waiters _) | .acquire _ n (.futexWait _) => some n
  | .acquire _ n (.casWaiters _) | .acquire _ n (.lower _) => some n
  | .release _ n (.lower _) => some n
  | _ => none

/-- What the counters have to count. -/
def counted (fifoMinPrio : ℤ) (ceil : M → ℕ) (held : Finset M) : Option M → ℕ → ℕ
  | none => heldCount fifoMinPrio ceil held
  | some n => oneMore (heldCount fifoMinPrio ceil held) (place fifoMinPrio ceil n)

/-- What a thread knows at a point of an acquisition of `n`. -/
def AcquirePC.Ok (ceil : M → ℕ) (held : Finset M) (n : M) : AcquirePC → Prop
  | .owner oldval => ceilingOf oldval = ceil n
  | .raise oldprio oldval => oldprio = -1 ∧ ceilingOf oldval = ceil n
  | .cas ceiling | .waiters ceiling | .futexWait ceiling => ceiling = ceil n
  | .casWaiters ceiling | .lower ceiling => ceiling = ceil n
  | .assertOwner | .setOwner | .nusers | .nusersStore _ | .setCount => n ∈ held
  | _ => True

/-- The points before the mutex is taken. -/
def AcquirePC.before : AcquirePC → Bool
  | .bumpStore _ | .assertOwner | .setOwner | .nusers | .nusersStore _ | .setCount => false
  | _ => true

/-- What a thread knows at a point of a release of `n`. -/
def ReleasePC.Ok (ceil : M → ℕ) (held : Finset M) (n : M) : ReleasePC → Prop
  | .recOwner | .errOwner => True
  | .lower oldprio => oldprio = ceil n
  | _ => n ∈ held

/-- The points of a release after the owner field was reset. -/
def ReleasePC.cleared : ReleasePC → Bool
  | .nusers | .nusersStore _ | .word | .cas _ => true
  | _ => false

/-- What a thread knows where it is: what its call has found out, and what its counters were when
    it began. -/
def Stage.Ok (fifoMinPrio : ℤ) (ceil : M → ℕ) (l : Local M) : Stage M → Prop
  | .outside => ∀ code, l.result = some code → code ≠ 0 → l.prio.bookkeeping fifoMinPrio = l.entry
  | .acquire _ n p => p.Ok ceil l.held n ∧
      (p.before = true → TppCounts fifoMinPrio (heldCount fifoMinPrio ceil l.held) l.entry)
  | .release _ n p => p.Ok ceil l.held n ∧ l.result = none
  | .stopped _ => True

/-- What holds of a thread. -/
structure LocalOk (fifoMinPrio : ℤ) (ceil : M → ℕ) (l : Local M) : Prop where
  counts : TppCounts fifoMinPrio (counted fifoMinPrio ceil l.held l.stage.pending)
    (l.prio.bookkeeping fifoMinPrio)
  stage : l.stage.Ok fifoMinPrio ceil l

/-- What a thread sees of a mutex: the ceiling in its word, with low bits that are only clear when
    the thread does not hold it; and its id in the owner field only when it does. -/
structure View (ceil : M → ℕ) (id : ℕ) (n : M) (held : Finset M) (m : MutexData) : Prop where
  lock : ∃ b ≤ 2, m.lock = ceilvalOf (ceil n) + b ∧ (b = 0 → n ∉ held)
  owner : m.owner = id → n ∈ held

variable {fifoMinPrio fifoMaxPrio : ℤ} {ceil : M → ℕ} {id : ℕ} {n : M} {l l' : Local M}
  {m m' : MutexData} {mode : Mode} {S : Sched}

/-! ### The steps of an acquisition -/

/-- On to another point, with the counters as they are. -/
theorem LocalOk.acquire {p p' : AcquirePC} (hl : LocalOk fifoMinPrio ceil l)
    (hst : l.stage = .acquire mode n p)
    (hpending : (Stage.acquire mode n p').pending = (Stage.acquire mode n p).pending)
    (hok : p'.Ok ceil l.held n) (hbefore : p'.before = true → p.before = true) :
    LocalOk fifoMinPrio ceil { l with stage := .acquire mode n p' } := by
  have hstage := hl.stage
  rw [hst] at hstage
  refine ⟨?_, hok, fun hb => hstage.2 (hbefore hb)⟩
  have hcounts := hl.counts
  rw [hst] at hcounts
  show TppCounts _ (counted _ _ _ (Stage.acquire mode n p').pending) _
  rw [hpending]
  exact hcounts

/-- A call that fails leaves the thread with the counters that it began with. -/
theorem LocalOk.failed {code : ℕ} {prio : Prio} {depth : M → ℕ}
    (hcounts : TppCounts fifoMinPrio (heldCount fifoMinPrio ceil l.held)
      (prio.bookkeeping fifoMinPrio))
    (hentry : TppCounts fifoMinPrio (heldCount fifoMinPrio ceil l.held) l.entry) :
    LocalOk fifoMinPrio ceil
      { l with prio := prio, stage := .outside, depth := depth, result := some code } :=
  ⟨hcounts, fun _ _ _ => hcounts.unique hentry⟩

/-- A call that returns 0. -/
theorem LocalOk.succeeded {depth : M → ℕ} (hl : LocalOk fifoMinPrio ceil l)
    (hpending : l.stage.pending = none) :
    LocalOk fifoMinPrio ceil { l with stage := .outside, depth := depth, result := some 0 } := by
  have hcounts := hl.counts
  rw [hpending] at hcounts
  exact ⟨hcounts, fun code hcode hne => absurd (Option.some.inj hcode).symm hne⟩

/-- **The raise** counts the mutex, or ends the call with the counters as they were. -/
theorem raiseStep_cases (hS : S.Succeeds fifoMinPrio fifoMaxPrio)
    (hceil : Ceilings fifoMinPrio fifoMaxPrio ceil) {oldval : ℕ} {prio : Prio} {f : ℕ → ℕ}
    (holdval : ceilingOf oldval = ceil n)
    (h : TppCounts fifoMinPrio f (prio.bookkeeping fifoMinPrio)) :
    (∃ code prio', raiseStep S (-1) oldval prio = (.done (.ret code), prio') ∧
      TppCounts fifoMinPrio f (prio'.bookkeeping fifoMinPrio)) ∨
    ∃ prio', raiseStep S (-1) oldval prio = (.goto (.cas (ceil n)), prio') ∧
      TppCounts fifoMinPrio (oneMore f (place fifoMinPrio ceil n))
        (prio'.bookkeeping fifoMinPrio) := by
  have htpp := pthreadCurrentPriority_tpp S prio
  unfold raiseStep
  rw [holdval]
  cases hcurrent : pthreadCurrentPriority S prio with
  | mk current prio₁ =>
    rw [hcurrent] at htpp
    -- asking for the current priority changes no counter
    have hbook : prio₁.bookkeeping fifoMinPrio = prio.bookkeeping fifoMinPrio := by
      unfold Prio.bookkeeping
      rw [htpp]
    rw [← hbook] at h
    simp only [ne_eq, not_true_eq_false, if_false]
    by_cases hgt : current > (ceil n : ℤ)
    · rw [if_pos hgt]
      exact .inl ⟨_, _, rfl, h⟩
    · rw [if_neg hgt]
      have hne : (ceil n : ℤ) ≠ -1 := by omega
      rcases tppChangePriority_raise hS (hceil.range n) hne h with
        ⟨code, prio', hcall, hcode, hsame⟩ | ⟨prio', hcall, hcounts⟩
      · rw [hcall]
        simp only [if_pos hcode]
        refine .inl ⟨_, _, rfl, ?_⟩
        rw [hsame]
        exact h
      · rw [hcall]
        simp only [not_true_eq_false, if_false]
        exact .inr ⟨_, rfl, hcounts⟩

/-- **The fall back** from the ceiling takes the mutex off the counters. -/
theorem lower_counts (hS : S.Succeeds fifoMinPrio fifoMaxPrio)
    (hceil : Ceilings fifoMinPrio fifoMaxPrio ceil) {prio : Prio} {f : ℕ → ℕ}
    (h : TppCounts fifoMinPrio (oneMore f (place fifoMinPrio ceil n))
      (prio.bookkeeping fifoMinPrio)) :
    ∃ prio', tppChangePriority S (ceil n) (-1) prio = .ok (0, prio') ∧
      TppCounts fifoMinPrio f (prio'.bookkeeping fifoMinPrio) := by
  have hpos := oneMore_pos f (place fifoMinPrio ceil n)
  obtain ⟨prio', hcall, hlowered⟩ := tppChangePriority_lower hS (hceil.range n) (by omega) h hpos
  refine ⟨prio', hcall, ?_⟩
  rw [← oneLess_oneMore f (place fifoMinPrio ceil n)]
  exact hlowered

variable [DecidableEq M]

/-- What a step of the thread with this id does to the mutex `n`, and to what the thread holds. -/
inductive Effect (ceil : M → ℕ) (id : ℕ) (n : M) (held held' : Finset M) (m m' : MutexData) : Prop
  | same (hheld : held' = held) (hlock : m'.lock = m.lock)
      (howner : m'.owner = m.owner ∨ n ∈ held ∧ (m'.owner = 0 ∨ m'.owner = id))
  | mark (hheld : held' = held) (hold : m.lock = ceilvalOf (ceil n) + 1)
      (hlock : m'.lock = ceilvalOf (ceil n) + 2) (howner : m'.owner = m.owner)
  | take (hheld : held' = insert n held) (hold : m.lock = ceilvalOf (ceil n))
      (hlock : m'.lock = ceilvalOf (ceil n) + 1 ∨ m'.lock = ceilvalOf (ceil n) + 2)
      (howner : m'.owner = m.owner)
  | give (hmem : n ∈ held) (hheld : held' = held.erase n)
      (hlock : m'.lock = ceilvalOf (ceil n)) (howner : m'.owner = m.owner) (hne : m.owner ≠ id)

/-- A step of a thread on `n` is good. -/
structure Good (fifoMinPrio : ℤ) (ceil : M → ℕ) (id : ℕ) (n : M) (l l' : Local M)
    (m m' : MutexData) : Prop where
  kind : m'.kind = m.kind
  effect : Effect ceil id n l.held l'.held m m'
  ok : LocalOk fifoMinPrio ceil l'
  cleared : ∀ decr p, l'.stage = .release decr n p → p.cleared = true → m'.owner ≠ id

/-- A step that leaves the mutex and what the thread holds. -/
theorem Good.read (hl : LocalOk fifoMinPrio ceil l') (hheld : l'.held = l.held)
    (hcleared : ∀ decr p, l'.stage = .release decr n p → p.cleared = true → m.owner ≠ id) :
    Good fifoMinPrio ceil id n l l' m m :=
  ⟨rfl, .same hheld rfl (.inl rfl), hl, hcleared⟩

/-- A step of an acquisition that changes the mutex beside its word and its owner. -/
theorem Good.beside (hl : LocalOk fifoMinPrio ceil l') (hheld : l'.held = l.held)
    (hlock : m'.lock = m.lock) (howner : m'.owner = m.owner) (hkind : m'.kind = m.kind)
    (hcleared : ∀ decr p, l'.stage = .release decr n p → p.cleared = true → m'.owner ≠ id) :
    Good fifoMinPrio ceil id n l l' m m' :=
  ⟨hkind, .same hheld hlock (.inl howner), hl, hcleared⟩

/-- On to another point of the acquisition, the mutex as it is. -/
theorem Good.goto {p p' : AcquirePC} (hl : LocalOk fifoMinPrio ceil l)
    (hst : l.stage = .acquire mode n p)
    (hpending : (Stage.acquire mode n p').pending = (Stage.acquire mode n p).pending)
    (hok : p'.Ok ceil l.held n) (hbefore : p'.before = true → p.before = true) :
    Good fifoMinPrio ceil id n l { l with stage := .acquire mode n p' } m m :=
  .read (hl.acquire hst hpending hok hbefore) rfl fun _ _ h => by cases h

/-- The end of an acquisition that fails. -/
theorem Good.fails {code : ℕ} {prio : Prio} {depth : M → ℕ}
    (hcounts : TppCounts fifoMinPrio (heldCount fifoMinPrio ceil l.held)
      (prio.bookkeeping fifoMinPrio))
    (hentry : TppCounts fifoMinPrio (heldCount fifoMinPrio ceil l.held) l.entry) :
    Good fifoMinPrio ceil id n l
      { l with prio := prio, stage := .outside, depth := depth, result := some code } m m :=
  .read (.failed hcounts hentry) rfl fun _ _ h => by cases h

/-- The thread after a step of an acquisition from `p`. -/
def Local.stepAcquire (l : Local M) (mode : Mode) (n : M) (p : AcquirePC) (m : MutexData)
    (r : Next AcquirePC × Prio × MutexData) : Local M :=
  { l with prio := r.2.1, held := if p.takes m then insert n l.held else l.held }.afterAcquire
    mode n r.1

/-- A compare-and-exchange that finds the mutex free takes it; the mutex was counted before. -/
theorem take_good (hl : LocalOk fifoMinPrio ceil l) (hpending : l.stage.pending = some n)
    (hv : View ceil id n l.held m) (hfree : m.lock = ceilvalOf (ceil n)) {b : ℕ}
    (hb : b = 1 ∨ b = 2) :
    Good fifoMinPrio ceil id n l
      { l with stage := .acquire mode n .assertOwner, held := insert n l.held } m
      { m with lock := ceilvalOf (ceil n) ||| b } := by
  -- a free word is held by nobody
  have hnot : n ∉ l.held := by
    obtain ⟨b', -, hlock, hno⟩ := hv.lock
    exact hno (by omega)
  have hcounts := hl.counts
  rw [hpending] at hcounts
  refine ⟨rfl, .take rfl hfree ?_ rfl, ⟨?_, Finset.mem_insert_self n l.held,
    fun h => absurd h Bool.false_ne_true⟩, fun _ _ h => by cases h⟩
  · show ceilvalOf (ceil n) ||| b = _ ∨ ceilvalOf (ceil n) ||| b = _
    rcases hb with rfl | rfl
    · exact .inl (ceilval_or (by omega))
    · exact .inr (ceilval_or (by omega))
  · show TppCounts _ (heldCount _ _ (insert n l.held)) _
    rw [heldCount_insert hnot]
    exact hcounts

/-- **A step of an acquisition** is good. -/
theorem acquireStep_good (hS : S.Succeeds fifoMinPrio fifoMaxPrio)
    (hceil : Ceilings fifoMinPrio fifoMaxPrio ceil) {p : AcquirePC}
    (hl : LocalOk fifoMinPrio ceil l) (hst : l.stage = .acquire mode n p)
    (hv : View ceil id n l.held m) :
    Good fifoMinPrio ceil id n l (l.stepAcquire mode n p m (acquireStep S id mode p l.prio m)) m
      (acquireStep S id mode p l.prio m).2.2 := by
  have hstage := hl.stage
  have hcounts := hl.counts
  rw [hst] at hstage hcounts
  obtain ⟨hok, hentry⟩ := hstage
  obtain ⟨b, hb, hlock, hheld⟩ := hv.lock
  have hand : m.lock &&& prioCeilingMask = ceilvalOf (ceil n) := by
    rw [hlock]
    exact ceilval_and (hceil.lt n) hb
  cases p with
  | word =>
    refine .goto hl hst rfl ?_ fun _ => rfl
    show ceilingOf m.lock = ceil n
    rw [hlock]
    exact ceilingOf_add (hceil.lt n) hb
  | owner oldval =>
    simp only [acquireStep]
    split
    · exact .fails hcounts (hentry rfl)
    · split
      · exact .goto hl hst rfl trivial fun _ => rfl
      · exact .goto hl hst rfl ⟨rfl, hok⟩ fun _ => rfl
  | bump =>
    simp only [acquireStep]
    split
    · exact .fails hcounts (hentry rfl)
    · exact .goto hl hst rfl trivial fun _ => rfl
  | bumpLoad =>
    exact .goto hl hst rfl trivial fun h => absurd h Bool.false_ne_true
  | bumpStore v =>
    refine .beside (hl.succeeded ?_) rfl rfl rfl rfl fun _ _ h => by cases h
    rw [hst]
    rfl
  | raise oldprio oldval =>
    obtain ⟨rfl, holdval⟩ := hok
    simp only [acquireStep]
    rcases raiseStep_cases hS hceil holdval hcounts with
      ⟨code, prio', hraise, hsame⟩ | ⟨prio', hraise, hraised⟩
    · rw [hraise]
      exact .fails hsame (hentry rfl)
    · rw [hraise]
      exact .read ⟨hraised, rfl, fun _ => hentry rfl⟩ rfl fun _ _ h => by cases h
  | cas ceiling =>
    obtain rfl : ceiling = ceil n := hok
    by_cases hfree : m.lock = ceilvalOf (ceil n)
    · have htakes : (AcquirePC.cas (ceil n)).takes m = true := decide_eq_true hfree
      simp only [acquireStep, hfree, if_true, Local.stepAcquire, htakes]
      refine take_good hl (by rw [hst]; rfl) hv hfree ?_
      cases mode with
      | lock build => cases build <;> simp [Mode.taken]
      | trylock => exact .inl rfl
    · have htakes : (AcquirePC.cas (ceil n)).takes m = false := decide_eq_false hfree
      simp only [acquireStep, hfree, if_false, Local.stepAcquire, htakes, hand]
      cases mode with
      | lock build => exact .goto hl hst rfl rfl fun _ => rfl
      | trylock =>
        simp only [ne_eq, not_true_eq_false, if_false]
        exact .goto hl hst rfl rfl fun _ => rfl
  | waiters ceiling =>
    obtain rfl : ceiling = ceil n := hok
    -- the ceiling is still the one that the thread was raised to
    have hl' : ∀ p, p = .futexWait (ceil n) ∨ p = .casWaiters (ceil n) →
        LocalOk fifoMinPrio ceil { l with stage := .acquire mode n p } := by
      rintro p (rfl | rfl)
      · exact hl.acquire hst rfl rfl fun _ => rfl
      · exact hl.acquire hst rfl rfl fun _ => rfl
    simp only [acquireStep, hand, ne_eq, not_true_eq_false, if_false]
    by_cases hone : m.lock = ceilvalOf (ceil n) ||| 1
    · -- the word is marked, whoever holds the mutex
      rw [if_pos hone]
      refine ⟨rfl, .mark rfl (hone.trans (ceilval_or (by omega))) (ceilval_or le_rfl) rfl,
        hl' _ ?_, fun _ _ h => by cases h⟩
      split
      · exact .inl rfl
      · exact .inr rfl
    · rw [if_neg hone]
      refine .read (hl' _ ?_) rfl fun _ _ h => by cases h
      split
      · exact .inl rfl
      · exact .inr rfl
  | futexWait ceiling =>
    exact .goto hl hst rfl hok fun _ => rfl
  | casWaiters ceiling =>
    obtain rfl : ceiling = ceil n := hok
    by_cases hfree : m.lock = ceilvalOf (ceil n)
    · have htakes : (AcquirePC.casWaiters (ceil n)).takes m = true := decide_eq_true hfree
      simp only [acquireStep, hfree, if_true, Local.stepAcquire, htakes]
      exact take_good hl (by rw [hst]; rfl) hv hfree (.inr rfl)
    · have htakes : (AcquirePC.casWaiters (ceil n)).takes m = false := decide_eq_false hfree
      simp only [acquireStep, hfree, if_false, Local.stepAcquire, htakes]
      exact .goto hl hst rfl rfl fun _ => rfl
  | lower ceiling =>
    obtain rfl : ceiling = ceil n := hok
    obtain ⟨prio', hcall, hback⟩ := lower_counts hS hceil hcounts
    simp only [acquireStep, hcall]
    exact .fails hback (hentry rfl)
  | assertOwner =>
    simp only [acquireStep]
    split
    · exact .read ⟨hcounts, trivial⟩ rfl fun _ _ h => by cases h
    · refine .goto hl hst ?_ ?_ ?_
      · split <;> rfl
      · split <;> exact hok
      · split <;> exact fun h => absurd h Bool.false_ne_true
  | setOwner =>
    refine ⟨rfl, .same ?_ rfl (.inr ⟨hok, .inr rfl⟩), ?_, ?_⟩
    · simp only [acquireStep]
      split <;> rfl
    · simp only [acquireStep]
      split
      · exact hl.succeeded (by rw [hst]; rfl)
      · exact hl.acquire hst rfl hok fun h => absurd h Bool.false_ne_true
    · simp only [acquireStep]
      split <;> exact fun _ _ h => by cases h
  | nusers =>
    exact .goto hl hst rfl hok fun h => absurd h Bool.false_ne_true
  | nusersStore v =>
    simp only [acquireStep]
    split
    · exact .beside (hl.acquire hst rfl hok fun h => absurd h Bool.false_ne_true) rfl rfl rfl rfl
        fun _ _ h => by cases h
    · exact .beside (hl.succeeded (by rw [hst]; rfl)) rfl rfl rfl rfl fun _ _ h => by cases h
  | setCount =>
    simp only [acquireStep]
    split
    · exact .beside (hl.succeeded (by rw [hst]; rfl)) rfl rfl rfl rfl fun _ _ h => by cases h
    · exact .beside (hl.acquire hst rfl hok fun h => absurd h Bool.false_ne_true) rfl rfl rfl rfl
        fun _ _ h => by cases h

/-! ### The steps of a release -/

/-- The thread after a step of a release from `p`. -/
def Local.stepRelease (l : Local M) (decr : Bool) (n : M) (p : ReleasePC) (m : MutexData)
    (r : Next ReleasePC × Prio × MutexData) : Local M :=
  { l with prio := r.2.1, held := if p.gives m then l.held.erase n else l.held }.afterRelease
    decr n r.1

variable {decr : Bool}

omit [DecidableEq M] in
/-- On to another point, with the counters as they are. -/
theorem LocalOk.release {p' : ReleasePC} (hl : LocalOk fifoMinPrio ceil l)
    (hpending : l.stage.pending = (Stage.release decr n p').pending) (hresult : l.result = none)
    (hok : p'.Ok ceil l.held n) :
    LocalOk fifoMinPrio ceil { l with stage := .release decr n p' } := by
  refine ⟨?_, hok, hresult⟩
  have hcounts := hl.counts
  rw [hpending] at hcounts
  exact hcounts

omit [DecidableEq M] in
/-- The end of a release. -/
theorem LocalOk.released {prio : Prio} {depth : M → ℕ} (hresult : l.result = none)
    (hcounts : TppCounts fifoMinPrio (heldCount fifoMinPrio ceil l.held)
      (prio.bookkeeping fifoMinPrio)) :
    LocalOk fifoMinPrio ceil { l with prio := prio, stage := .outside, depth := depth } := by
  refine ⟨hcounts, fun code hcode _ => ?_⟩
  rw [show l.result = some code from hcode] at hresult
  cases hresult

/-- **A step of a release** is good. -/
theorem releaseStep_good (hS : S.Succeeds fifoMinPrio fifoMaxPrio)
    (hceil : Ceilings fifoMinPrio fifoMaxPrio ceil) {p : ReleasePC}
    (hl : LocalOk fifoMinPrio ceil l) (hst : l.stage = .release decr n p)
    (hv : View ceil id n l.held m) (hid : 0 < id) (hcleared : p.cleared = true → m.owner ≠ id) :
    Good fifoMinPrio ceil id n l (l.stepRelease decr n p m (releaseStep S id decr p l.prio m)) m
      (releaseStep S id decr p l.prio m).2.2 := by
  have hstage := hl.stage
  have hcounts := hl.counts
  rw [hst] at hstage hcounts
  obtain ⟨hok, hresult⟩ := hstage
  have hgo : ∀ p', (Stage.release decr n p).pending = (Stage.release decr n p').pending →
      p'.Ok ceil l.held n → LocalOk fifoMinPrio ceil { l with stage := .release decr n p' } := by
    intro p' hpending hok'
    exact hl.release (by rw [hst]; exact hpending) hresult hok'
  cases p with
  | recOwner =>
    by_cases howner : m.owner = id
    · simp only [releaseStep, howner, ne_eq, not_true_eq_false, if_false]
      exact .read (hgo _ rfl (hv.owner howner)) rfl fun _ _ h hc => by cases h; cases hc
    · simp only [releaseStep, ne_eq, howner, not_false_eq_true, if_true]
      exact .read (.released hresult hcounts) rfl fun _ _ h => by cases h
  | recCount => exact .read (hgo _ rfl hok) rfl fun _ _ h hc => by cases h; cases hc
  | recCountStore v =>
    simp only [releaseStep]
    split
    · exact .beside (.released hresult hcounts) rfl rfl rfl rfl fun _ _ h => by cases h
    · exact .beside (hgo _ rfl hok) rfl rfl rfl rfl fun _ _ h hc => by cases h; cases hc
  | errOwner =>
    by_cases howner : m.owner = id
    · simp only [releaseStep, howner, ne_eq, not_true_eq_false, if_false]
      exact .read (hgo _ rfl (hv.owner howner)) rfl fun _ _ h hc => by cases h; cases hc
    · simp only [releaseStep, ne_eq, howner, not_false_eq_true, if_true]
      exact .read (.released hresult hcounts) rfl fun _ _ h => by cases h
  | errLocked =>
    simp only [releaseStep]
    split
    · exact .read (.released hresult hcounts) rfl fun _ _ h => by cases h
    · exact .read (hgo _ rfl hok) rfl fun _ _ h hc => by cases h; cases hc
  | owner =>
    refine ⟨rfl, .same rfl rfl (.inr ⟨hok, .inl rfl⟩), ?_, fun _ _ _ _ => hid.ne⟩
    simp only [releaseStep]
    cases decr <;> exact hgo _ rfl hok
  | nusers => exact .read (hgo _ rfl hok) rfl fun _ _ _ _ => hcleared rfl
  | nusersStore v => exact .beside (hgo _ rfl hok) rfl rfl rfl rfl fun _ _ _ _ => hcleared rfl
  | word => exact .read (hgo _ rfl hok) rfl fun _ _ _ _ => hcleared rfl
  | cas oldval =>
    by_cases hsame : m.lock = oldval
    · -- the mutex is given up, and counted until the thread is lowered
      have hgives : (ReleasePC.cas oldval).gives m = true := decide_eq_true hsame
      obtain ⟨b, hb, hlock, -⟩ := hv.lock
      have hnewval : oldval &&& prioCeilingMask = ceilvalOf (ceil n) := by
        rw [← hsame, hlock]
        exact ceilval_and (hceil.lt n) hb
      have hshift := ceilval_toInt (hceil.lt n)
      simp only [releaseStep, hsame, if_true, hnewval, hshift, Local.stepRelease, hgives]
      refine ⟨rfl, .give hok rfl rfl rfl (hcleared rfl), ⟨?_, rfl, hresult⟩,
        fun _ _ h hc => by cases h; cases hc⟩
      rw [show counted fifoMinPrio ceil l.held _ = heldCount fifoMinPrio ceil l.held from rfl,
        heldCount_erase hok] at hcounts
      exact hcounts
    · have hgives : (ReleasePC.cas oldval).gives m = false := decide_eq_false hsame
      simp only [releaseStep, hsame, if_false, Local.stepRelease, hgives]
      exact .read (hgo _ rfl hok) rfl fun _ _ _ _ => hcleared rfl
  | lower oldprio =>
    obtain rfl : oldprio = ceil n := hok
    obtain ⟨prio', hcall, hback⟩ := lower_counts hS hceil hcounts
    simp only [releaseStep, hcall]
    exact .read (.released hresult hback) rfl fun _ _ h => by cases h

end Thread

end SyncPerf.PrioProtect
