import SyncPerf.Records
import SyncPerf.ThreadPhases

namespace SyncPerf.WaitTimes

open Interleaving
open scoped BigOperators

/-!
# Waiting and running

`thread_waits.csv` has a line for each thread, with its run time and the time that it has waited for
mutexes and condition variables.  The steps of `Machine` with the times that they take: a lock that
finds waiters notes the time, and adds what has passed when it has the mutex; a wait for a condition
variable notes it in every round, and adds what has passed when the mutex is re-acquired.  The clock
does not run backwards; doubles are taken as exact rationals.

* `Local`, `Shared`, `timed`, `next`, `system` — the steps with their times;
* `NextCase`, `next_eq_some` — what a step does;
* `Timed`, `timed_cases` — what it does to the times;
* `threadWaits_update_self`, `Spent` — the waits of a thread on all mutexes, and where they lie;
* `Inv`, `Inv.step` — they lie one after the other, after its start;
* `waits_le_runtime` — no thread has waited longer than it has run.
-/

/-! ### The system -/

/-- The times in a `thread_mutex_t`. -/
structure Waits where
  condFutexWait : ℚ := 0
  futexWait : ℚ := 0

/-- A thread: its place, the locals `futex_flag` and `wait_start` of its call, and whether its start
    routine has returned. -/
structure Local where
  base : SyncPerf.Local := {}
  futexFlag : Bool := false
  waitStart : TimeInfo := {}
  ended : Bool := false

/-- The shared state, the clock, and the times in the records. -/
structure Shared where
  base : SyncPerf.Shared
  now : BitVec 64 := 0
  waits : ℕ → Waits := fun _ => {}

/-- What happens next to a thread, and when: a step of it, or the end of its start routine. -/
inductive Action
  | base (a : SyncPerf.Action) (reading : BitVec 64)
  | ended (reading : BitVec 64)

/-- `start_timestamp`. -/
def Local.startTimestamp (l : Local) (reading : BitVec 64) : Local :=
  { l with waitStart := getTsc reading }

/-- The times that a step of an operation takes, and the times in the record after it. -/
def timed (pc : PC) (f : Flow PC) (reading : BitVec 64) (l : Local) (w : Waits) : Local × Waits :=
  match pc, f with
  -- `futex_flag=1; start_timestamp(&wait_start);`
  | .lock .probe, .goto (.lock .fail) => ({ l.startTimestamp reading with futexFlag := true }, w)
  -- `add_futex_wait`, if `futex_flag` is set, which only an error checking or normal mutex does
  | .lock (.assertOwner _), .goto _ =>
    if l.futexFlag then
      ({ l with futexFlag := false },
        { w with futexWait := w.futexWait + getElapsed2ms l.waitStart reading })
    else (l, w)
  -- `start_timestamp`, before the futex wait
  | .condCountStore _, _ => (l.startTimestamp reading, w)
  -- `add_cond_wait_time`
  | .condRelock _, .ret _ =>
    (l, { w with condFutexWait := w.condFutexWait + getElapsed2ms l.waitStart reading })
  | _, _ => (l, w)

/-- The times that a step of the thread with kernel id `id` takes. -/
def times (id : ℕ) (a : SyncPerf.Action) (reading : BitVec 64) (l : Local) (s : Shared) :
    Local × (ℕ → Waits) :=
  match a, l.base.index, l.base.cur with
  | .call _ _, _, _ => ({ l with futexFlag := false }, s.waits)
  | .step ch, some idx, some (m, pc) =>
    let e := getThreadMutexData m idx
    let r := timed pc (opStep id ch pc (s.base.cell m idx)).1 reading l (s.waits e)
    (r.1, Function.update s.waits e r.2)
  | _, _, _ => (l, s.waits)

/-- The start time of a thread is read from the clock. -/
def readsAt (a : SyncPerf.Action) (reading : BitVec 64) : Bool :=
  match a with
  | .start _ _ now => now.thread = reading
  | _ => true

/-- One step of the thread with kernel id `id`. -/
def next (id : ℕ) (a : Action) (l : Local) (s : Shared) : Option (Local × Shared) :=
  match a with
  | .base a reading =>
    if l.ended = false ∧ s.now ≤ reading ∧ readsAt a reading = true then
      (SyncPerf.next id a l.base s.base).map fun r =>
        ({ (times id a reading l s).1 with base := r.1 },
          { base := r.2, now := reading, waits := (times id a reading l s).2 })
    else none
  -- the end of `startThread`, which the initial thread does not run
  | .ended reading =>
    match l.base.index, l.base.cur with
    | some idx, none =>
      if l.ended = false ∧ s.now ≤ reading ∧ 0 < idx then
        some ({ l with ended := true },
          { s with
            base := { s.base with xthread := s.base.xthread.startThreadEnd idx reading }
            now := reading })
      else none
    | _, _ => none

variable {ι : Type}

/-- The threads `ι` with kernel ids `tid`. -/
def system (tid : ι ↪ Tid) : System ι Action Local Shared :=
  ⟨fun i => next (tid i).val⟩

/-- `per_thd_data->cond_futex_wait + per_thd_data->futex_wait`. -/
def Waits.total (w : Waits) : ℚ := w.condFutexWait + w.futexWait

/-- `thread_waits[idx]`: the waits of a thread on all mutexes. -/
def threadWaits (waits : ℕ → Waits) (idx : ℕ) : ℚ :=
  ∑ m ∈ Finset.range maxSyncEntries, (waits (getThreadMutexData m idx)).total

/-! ### What a step does -/

/-- The steps, one by one. -/
inductive NextCase (id : ℕ) (l : Local) (s : Shared) : Action → Local → Shared → Prop
  | base {a : SyncPerf.Action} {reading : BitVec 64} {b : SyncPerf.Local} {t : SyncPerf.Shared}
      (hnow : s.now ≤ reading) (hreads : readsAt a reading = true)
      (h : SyncPerf.next id a l.base s.base = some (b, t)) :
      NextCase id l s (.base a reading) { (times id a reading l s).1 with base := b }
        { base := t, now := reading, waits := (times id a reading l s).2 }
  | ended {idx : ℕ} {reading : BitVec 64} (hidx : l.base.index = some idx)
      (hcur : l.base.cur = none) (hnow : s.now ≤ reading) :
      NextCase id l s (.ended reading) { l with ended := true }
        { s with
          base := { s.base with xthread := s.base.xthread.startThreadEnd idx reading }
          now := reading }

/-- A step is one of the cases, of a thread that has not ended. -/
theorem next_eq_some {id : ℕ} {a : Action} {l l' : Local} {s s' : Shared}
    (h : next id a l s = some (l', s')) : l.ended = false ∧ NextCase id l s a l' s' := by
  unfold next at h
  split at h
  · split at h
    · rename_i hcond
      obtain ⟨⟨b, t⟩, hbase, heq⟩ := Option.map_eq_some_iff.mp h
      obtain ⟨rfl, rfl⟩ := Prod.mk.inj heq
      exact ⟨hcond.1, .base hcond.2.1 hcond.2.2 hbase⟩
    · exact absurd h (by simp)
  · split at h
    · rename_i hidx hcur
      split at h
      · rename_i hcond
        obtain ⟨rfl, rfl⟩ := Prod.mk.inj (Option.some.inj h)
        exact ⟨hcond.1, .ended hidx hcur hcond.2.1⟩
      · exact absurd h (by simp)
    · exact absurd h (by simp)

/-! ### The start times -/

/-- A new thread notes the time, and the others keep theirs. -/
theorem allocThreadIndex_times {x y : XThread} {current tid index : ℕ} {now : XThread.Clock}
    (h : x.allocThreadIndex current tid now = .ok (index, y)) (j : ℕ) :
    (y.threads j).startTime =
        (if j = x.threadIndex then getTsc now.thread else (x.threads j).startTime) ∧
      (y.threads j).actualRuntime = (x.threads j).actualRuntime := by
  refine ⟨XThread.allocThreadIndex_view Thread.startTime (fun _ _ _ _ _ => rfl) h j, ?_⟩
  rw [XThread.allocThreadIndex_view Thread.actualRuntime (fun _ _ _ _ _ => rfl) h j]
  exact ite_self _

/-! ### The times of a step -/

/-- A time has been noted, to which the end of the wait will be compared. -/
def waitingAt (futexFlag : Bool) : Option PC → Prop
  | some (.lock _) => futexFlag = true
  | some .condBlocked | some (.condRelock _) => True
  | _ => False

/-- What a step at `pc` does to the times: nothing, and no wait begins; it notes the time; or it
    ends a wait, and adds it. -/
inductive Timed (pc : PC) (f : Flow PC) (reading : BitVec 64) (l : Local) (w : Waits) (l' : Local)
    (w' : Waits) : Prop
  | other (hw : w' = w) (hstart : l'.waitStart = l.waitStart)
      (hwait : waitingAt l'.futexFlag (f.target pc) → waitingAt l.futexFlag (some pc))
  | noted (hw : w' = w) (hstart : l'.waitStart = getTsc reading)
  | added (hw : w'.total = w.total + getElapsed2ms l.waitStart reading)
      (hwait : waitingAt l.futexFlag (some pc)) (hend : ¬ waitingAt l'.futexFlag (f.target pc))

/-- The place of the thread is no part of it. -/
theorem Timed.with_base {pc : PC} {f : Flow PC} {reading : BitVec 64} {l l' : Local} {w w' : Waits}
    (h : Timed pc f reading l w l' w') (b : SyncPerf.Local) :
    Timed pc f reading l w { l' with base := b } w' := by
  cases h with
  | other hw hstart hwait => exact .other hw hstart hwait
  | noted hw hstart => exact .noted hw hstart
  | added hw hwait hend => exact .added hw hwait hend

/-- The clock does not end a thread. -/
theorem timed_ended (pc : PC) (f : Flow PC) (reading : BitVec 64) (l : Local) (w : Waits) :
    (timed pc f reading l w).1.ended = l.ended := by
  unfold timed Local.startTimestamp
  repeat' split
  all_goals rfl

/-- After a step of an operation that notes no time, none is noted. -/
theorem not_waitingAt_map {P : Type} (g : P → PC) (hg : ∀ b p, ¬ waitingAt b (some (g p)))
    (b : Bool) (r : Flow P) (p : P) : ¬ waitingAt b ((r.map g).target (g p)) := by
  cases r with
  | goto q => exact hg b q
  | ret code => exact id
  | abort a => exact hg b p

/-- A lock is waiting as its flag says. -/
theorem waitingAt_map_lock {b : Bool} {r : Flow LockPC} {p : LockPC}
    (h : waitingAt b ((r.map PC.lock).target (.lock p))) : b = true := by
  cases r with
  | goto q => exact h
  | ret code => exact absurd h id
  | abort a => exact h

/-- What a step does to the times. -/
theorem timed_cases {id : ℕ} {ch : Choice} {pc : PC} {c c' : Cell} {f : Flow PC}
    (h : opStep id ch pc c = (f, c')) (reading : BitVec 64) (l : Local) (w : Waits) :
    Timed pc f reading l w (timed pc f reading l w).1 (timed pc f reading l w).2 := by
  obtain rfl : (opStep id ch pc c).1 = f := congrArg Prod.fst h
  cases pc with
  | lock p =>
    simp only [opStep]
    generalize (pthreadMutexLock .incr id ch.special p c).1 = r
    cases p with
    | probe =>
      cases r with
      | goto q =>
        cases q with
        | fail => exact .noted rfl rfl
        | _ => exact .other rfl rfl fun hwait => hwait
      | ret code => exact .other rfl rfl fun hwait => hwait.elim
      | abort a => exact .other rfl rfl fun hwait => hwait
    | assertOwner recursive =>
      cases r with
      | goto q =>
        simp only [timed, Flow.map]
        split
        · rename_i hflag
          refine .added ?_ hflag Bool.false_ne_true
          simp only [Waits.total]
          ring
        · exact .other rfl rfl fun hwait => hwait
      | ret code => exact .other rfl rfl fun hwait => hwait.elim
      | abort a => exact .other rfl rfl fun hwait => hwait
    | _ => exact .other rfl rfl waitingAt_map_lock
  | trylock p =>
    exact .other rfl rfl fun hwait =>
      absurd hwait (not_waitingAt_map PC.trylock (fun _ _ hp => hp) _ _ _)
  | unlock p =>
    exact .other rfl rfl fun hwait =>
      absurd hwait (not_waitingAt_map PC.unlock (fun _ _ hp => hp) _ _ _)
  | destroy p =>
    exact .other rfl rfl fun hwait =>
      absurd hwait (not_waitingAt_map PC.destroy (fun _ _ hp => hp) _ _ _)
  | condRelease p =>
    refine .other rfl rfl fun hwait => ?_
    simp only [opStep] at hwait
    cases hr : (pthreadMutexUnlockUsercnt false id ch.special p c).1 with
    | goto q => rw [hr] at hwait; exact hwait
    | ret code =>
      rw [hr] at hwait
      simp only [afterRelease] at hwait
      split at hwait <;> exact hwait
    | abort a => rw [hr] at hwait; exact hwait
  | condCount => exact .other rfl rfl fun hwait => hwait
  | condCountStore v => exact .noted rfl rfl
  | condBlocked => exact .other rfl rfl fun _ => trivial
  | condRelock p =>
    simp only [opStep]
    cases (pthreadMutexLock .noIncr id ch.special p c).1 with
    | goto q => exact .other rfl rfl fun _ => trivial
    | ret code =>
      refine .added ?_ trivial fun hend => hend
      simp only [timed, Flow.map, Waits.total]
      ring
    | abort a => exact .other rfl rfl fun _ => trivial

/-- What a step does to the times of its thread. -/
theorem times_step {id : ℕ} {ch : Choice} {reading : BitVec 64} {l : Local} {s : Shared}
    {idx m : ℕ} {pc : PC} {f : Flow PC} {c : Cell} (hidx : l.base.index = some idx)
    (hcur : l.base.cur = some (m, pc)) (h : opStep id ch pc (s.base.cell m idx) = (f, c)) :
    times id (.step ch) reading l s =
      ((timed pc f reading l (s.waits (getThreadMutexData m idx))).1,
        Function.update s.waits (getThreadMutexData m idx)
          (timed pc f reading l (s.waits (getThreadMutexData m idx))).2) := by
  simp only [times, hidx, hcur, h]

/-! ### The waits of a thread -/

/-- Another wait of the thread on one mutex. -/
theorem threadWaits_update_self (waits : ℕ → Waits) {m idx : ℕ} (hm : m < maxSyncEntries)
    (hidx : idx < maxThreads) (w : Waits) :
    threadWaits (Function.update waits (getThreadMutexData m idx) w) idx +
        (waits (getThreadMutexData m idx)).total = w.total + threadWaits waits idx := by
  have hentry : ∀ m' ∈ Finset.range maxSyncEntries,
      Function.update waits (getThreadMutexData m idx) w (getThreadMutexData m' idx) =
        Function.update (fun m => waits (getThreadMutexData m idx)) m w m' := by
    intro m' hm'
    by_cases h : m' = m
    · rw [h, Function.update_self, Function.update_self]
    · rw [Function.update_of_ne h, Function.update_of_ne]
      intro haddr
      exact h (getThreadMutexData_inj (Finset.mem_range.mp hm') hidx hm hidx haddr).1
  rw [threadWaits, Finset.sum_congr rfl fun m' hm' => congrArg Waits.total (hentry m' hm')]
  exact MapTotals.sum_update Waits.total (fun m => waits (getThreadMutexData m idx))
    (Finset.mem_range.mpr hm) w

/-- A record of another thread is written. -/
theorem threadWaits_update_ne {waits : ℕ → Waits} {m idx idx' : ℕ} (hm : m < maxSyncEntries)
    (hidx : idx < maxThreads) (hidx' : idx' < maxThreads) (hne : idx' ≠ idx) (w : Waits) :
    threadWaits (Function.update waits (getThreadMutexData m idx) w) idx' =
      threadWaits waits idx' := by
  refine Finset.sum_congr rfl fun m' hm' => ?_
  rw [Function.update_of_ne]
  intro haddr
  exact hne (getThreadMutexData_inj (Finset.mem_range.mp hm') hidx' hm hidx haddr).2

/-- The thread with index `idx` was started at `b`, and its waits took place between `b` and `w`,
    which is when a wait that it is in has begun. -/
structure Spent (s : Shared) (l : Local) (idx : ℕ) (b w : BitVec 64) : Prop where
  start : (s.base.xthread.threads idx).startTime = getTsc b
  begun : b ≤ w
  now : w ≤ s.now
  waits : threadWaits s.waits idx ≤ ((w.toNat : ℚ) - b.toNat) / cpuFreq
  waiting : waitingAt l.futexFlag (l.base.cur.map Prod.snd) → l.waitStart = getTsc w
  ended : l.ended = true →
    threadWaits s.waits idx ≤ (s.base.xthread.threads idx).actualRuntime

/-- Others take steps. -/
theorem Spent.frame {s s' : Shared} {l : Local} {idx : ℕ} {b w : BitVec 64}
    (h : Spent s l idx b w) (hnow : s.now ≤ s'.now)
    (hstart : (s'.base.xthread.threads idx).startTime = (s.base.xthread.threads idx).startTime)
    (hrun : (s'.base.xthread.threads idx).actualRuntime =
      (s.base.xthread.threads idx).actualRuntime)
    (hwaits : threadWaits s'.waits idx = threadWaits s.waits idx) : Spent s' l idx b w where
  start := hstart.trans h.start
  begun := h.begun
  now := BitVec.le_trans h.now hnow
  waits := hwaits.trans_le h.waits
  waiting := h.waiting
  ended hl := by
    rw [hwaits, hrun]
    exact h.ended hl

/-- A later reading is a longer time. -/
theorem elapsed_mono {b w r : BitVec 64} (h : w ≤ r) :
    ((w.toNat : ℚ) - b.toNat) / cpuFreq ≤ ((r.toNat : ℚ) - b.toNat) / cpuFreq := by
  have hle : (w.toNat : ℚ) ≤ r.toNat := Nat.cast_le.mpr (BitVec.le_def.mp h)
  have hfreq : (0 : ℚ) ≤ cpuFreq := by norm_num [cpuFreq]
  exact div_le_div_of_nonneg_right (sub_le_sub_right hle _) hfreq

/-- **The thread takes a step itself.**  A wait that ends is added to what was waited before it
    began. -/
theorem Spent.timed {s s' : Shared} {l l' : Local} {idx m : ℕ} {b w reading : BitVec 64} {pc : PC}
    {f : Flow PC} {w' : Waits} (h : Spent s l idx b w) (hm : m < maxSyncEntries)
    (hidx : idx < maxThreads) (hcur : l.base.cur = some (m, pc))
    (hstep : Timed pc f reading l (s.waits (getThreadMutexData m idx)) l' w')
    (hcur' : l'.base.cur.map Prod.snd = f.target pc) (hended : l'.ended = false)
    (hstart : (s'.base.xthread.threads idx).startTime = (s.base.xthread.threads idx).startTime)
    (hnow : s.now ≤ reading) (hnow' : s'.now = reading)
    (hwaits : s'.waits = Function.update s.waits (getThreadMutexData m idx) w') :
    ∃ w₁, Spent s' l' idx b w₁ := by
  have hsum := threadWaits_update_self s.waits hm hidx w'
  rw [← hwaits] at hsum
  have hle : w ≤ reading := BitVec.le_trans h.now hnow
  have hbegun : b ≤ reading := BitVec.le_trans h.begun hle
  have hread : reading ≤ s'.now := by
    rw [hnow']
    exact BitVec.le_refl _
  have hrunning : ∀ {P : Prop}, l'.ended = true → P := fun hl =>
    absurd (hended.symm.trans hl) Bool.false_ne_true
  cases hstep with
  | other hw hl hwait =>
    have hsame : threadWaits s'.waits idx = threadWaits s.waits idx := by
      rw [hw, add_comm] at hsum
      exact add_left_cancel hsum
    refine ⟨w, hstart.trans h.start, h.begun, BitVec.le_trans hle hread, hsame.trans_le h.waits,
      fun hwaiting => ?_, hrunning⟩
    rw [hl]
    refine h.waiting ?_
    rw [hcur]
    exact hwait (hcur' ▸ hwaiting)
  | noted hw hl =>
    have hsame : threadWaits s'.waits idx = threadWaits s.waits idx := by
      rw [hw, add_comm] at hsum
      exact add_left_cancel hsum
    exact ⟨reading, hstart.trans h.start, hbegun, hread,
      hsame.trans_le (h.waits.trans (elapsed_mono hle)), fun _ => hl, hrunning⟩
  | added hw hwait hend =>
    have hsaved : l.waitStart = getTsc w := by
      refine h.waiting ?_
      rw [hcur]
      exact hwait
    rw [hw, hsaved, getElapsed2ms_of_le hle] at hsum
    refine ⟨reading, hstart.trans h.start, hbegun, hread, ?_,
      fun hwaiting => absurd (hcur' ▸ hwaiting) hend, hrunning⟩
    -- from `b` to `w`, and from `w` to the reading
    have hold := h.waits
    have hfreq : (0 : ℚ) < cpuFreq := by norm_num [cpuFreq]
    rw [le_div_iff₀ hfreq] at hold ⊢
    have hadd : threadWaits s'.waits idx =
        threadWaits s.waits idx + ((reading.toNat : ℚ) - w.toNat) / cpuFreq := by
      linarith
    rw [hadd, add_mul, div_mul_cancel₀ _ hfreq.ne']
    linarith

/-! ### Runs -/

/-- The system without the times. -/
def baseConfig (c : Config ι Local Shared) : Config ι SyncPerf.Local SyncPerf.Shared :=
  ⟨fun i => (c.loc i).base, c.sh.base⟩

/-- The process starts as `SyncPerf.Initial` says, and no time has been taken. -/
structure Initial (c : Config ι Local Shared) : Prop where
  loc : ∀ i, c.loc i = {}
  base : SyncPerf.Initial (baseConfig c)
  waits : ∀ a, c.sh.waits a = {}

/-- What holds in every state: the indices are in order, a thread without an index is in no
    operation, records at indices not yet handed out have no times, and the times of the others are
    `Spent`. -/
structure Inv (c : Config ι Local Shared) : Prop where
  index : IndexInv (baseConfig c)
  idle : ∀ i, (c.loc i).base.index = none → (c.loc i).base.cur = none
  unused : ∀ m < maxSyncEntries, ∀ t < maxThreads, c.sh.base.xthread.threadIndex ≤ t →
    c.sh.waits (getThreadMutexData m t) = {}
  spent : ∀ i idx, (c.loc i).base.index = some idx → ∃ b w, Spent c.sh (c.loc i) idx b w

/-- The invariant holds at first. -/
theorem Inv.initial {c : Config ι Local Shared} (hinit : Initial c) : Inv c where
  index := .initial hinit.base
  idle i _ := by rw [hinit.loc]
  unused _ _ _ _ _ := hinit.waits _
  spent i idx h := by
    rw [hinit.loc] at h
    exact absurd h (by simp)

variable [DecidableEq ι]

/-- A step of a thread, without the times. -/
theorem baseConfig_update (c : Config ι Local Shared) (i : ι) (l : Local) (s : Shared) :
    baseConfig ⟨Function.update c.loc i l, s⟩ =
      ⟨Function.update (baseConfig c).loc i l.base, s.base⟩ := by
  unfold baseConfig
  congr 1
  funext j
  exact Function.apply_update (fun _ l => l.base) c.loc i l j

/-- One thread takes a step, and leaves the times of the others alone. -/
theorem Inv.of_update {c : Config ι Local Shared} (hI : Inv c) {i : ι} {l : Local} {s : Shared}
    (hindex : IndexInv ⟨Function.update (baseConfig c).loc i l.base, s.base⟩)
    (hidle : l.base.index = none → l.base.cur = none)
    (hunused : ∀ m < maxSyncEntries, ∀ t < maxThreads, s.base.xthread.threadIndex ≤ t →
      s.waits (getThreadMutexData m t) = {})
    (hown : ∀ idx, l.base.index = some idx → ∃ b w, Spent s l idx b w) (hnow : c.sh.now ≤ s.now)
    (hothers : ∀ j idx, j ≠ i → (c.loc j).base.index = some idx →
      (s.base.xthread.threads idx).startTime = (c.sh.base.xthread.threads idx).startTime ∧
      (s.base.xthread.threads idx).actualRuntime = (c.sh.base.xthread.threads idx).actualRuntime ∧
      threadWaits s.waits idx = threadWaits c.sh.waits idx) :
    Inv ⟨Function.update c.loc i l, s⟩ := by
  refine ⟨?_, ?_, hunused, ?_⟩
  · rw [baseConfig_update]
    exact hindex
  · exact forall_update (P := fun (_ : ι) (l : Local) => l.base.index = none → l.base.cur = none)
      hidle fun j _ => hI.idle j
  · refine forall_update (P := fun (_ : ι) (l : Local) => ∀ idx, l.base.index = some idx →
      ∃ b w, Spent s l idx b w) hown fun j hj idx hidx => ?_
    obtain ⟨b, w, hspent⟩ := hI.spent j idx hidx
    obtain ⟨hstart, hrun, hwaits⟩ := hothers j idx hj hidx
    exact ⟨b, w, hspent.frame hnow hstart hrun hwaits⟩

omit [DecidableEq ι] in
/-- Another thread has another index, and both are below `MAX_THREADS`. -/
theorem Inv.index_ne {c : Config ι Local Shared} (hI : Inv c) {i j : ι} {idx idx' : ℕ}
    (hi : (c.loc i).base.index = some idx) (hj : (c.loc j).base.index = some idx') (hne : j ≠ i) :
    idx < maxThreads ∧ idx' < maxThreads ∧ idx' ≠ idx := by
  refine ⟨hI.index.index_lt (i := i) hi, hI.index.index_lt (i := j) hj, ?_⟩
  rintro rfl
  exact hne (hI.index.inj j i _ hj hi)

omit [DecidableEq ι] in
/-- A thread has no waits yet when it gets its index. -/
theorem Inv.threadWaits_new {c : Config ι Local Shared} (hI : Inv c) {idx : ℕ}
    (hidx : idx < maxThreads) (hnew : c.sh.base.xthread.threadIndex ≤ idx) :
    threadWaits c.sh.waits idx = 0 := by
  refine Finset.sum_eq_zero fun m hm => ?_
  rw [hI.unused m (Finset.mem_range.mp hm) idx hidx hnew]
  exact add_zero 0

/-- The end of a start routine writes the run time of its thread. -/
theorem startThreadEnd_times (idx : ℕ) (reading : BitVec 64) (x : XThread) (j : ℕ) :
    ((x.startThreadEnd idx reading).threads j).startTime = (x.threads j).startTime ∧
      ((x.startThreadEnd idx reading).threads j).actualRuntime =
        if j = idx then getElapsed2ms (x.threads idx).startTime reading
        else (x.threads j).actualRuntime := by
  simp only [XThread.startThreadEnd, XThread.modifyThread]
  by_cases hj : j = idx
  · simp only [hj, Function.update_self, if_true, and_self]
  · simp only [Function.update_of_ne hj, if_neg hj, and_self]

/-- **A step of the operations keeps the invariant.** -/
theorem Inv.base {id : ℕ} {c : Config ι Local Shared} {i : ι} {a : SyncPerf.Action}
    {reading : BitVec 64} {lb : SyncPerf.Local} {t : SyncPerf.Shared} (hI : Inv c)
    (hrunning : (c.loc i).ended = false) (hnow : c.sh.now ≤ reading)
    (hreads : readsAt a reading = true)
    (hindex : IndexInv ⟨Function.update (baseConfig c).loc i lb, t⟩)
    (hcase : SyncPerf.NextCase id (c.loc i).base c.sh.base a lb t) :
    Inv ⟨Function.update c.loc i { (times id a reading (c.loc i) c.sh).1 with base := lb },
      { base := t, now := reading, waits := (times id a reading (c.loc i) c.sh).2 }⟩ := by
  have hidle := hI.idle i
  have hspent := hI.spent i
  generalize hl : c.loc i = li at hcase hrunning hidle hspent hindex
  cases hcase with
  | @start current tid idx now x hidx hx =>
    obtain ⟨rfl, hlt, hthr⟩ := XThread.allocThreadIndex_index hx
    have htimes := allocThreadIndex_times hx
    obtain rfl : now.thread = reading := by simpa [readsAt] using hreads
    refine hI.of_update hindex (fun h => hidle hidx) (fun m hm t ht hle => ?_) (fun idx h => ?_)
      hnow fun j idx hj hidx' => ?_
    · exact hI.unused m hm t ht (by rw [hthr] at hle; omega)
    · -- it is started at the reading, and has not waited yet
      obtain rfl := Option.some.inj h
      refine ⟨now.thread, now.thread, ?_, BitVec.le_refl _, BitVec.le_refl _, ?_, ?_, ?_⟩
      · rw [(htimes _).1, if_pos rfl]
      · show threadWaits c.sh.waits _ ≤ _
        rw [hI.threadWaits_new hlt le_rfl, sub_self, zero_div]
      · intro hwait
        simp only [hidle hidx] at hwait
        exact hwait.elim
      · intro hended
        exact absurd (hrunning.symm.trans hended) Bool.false_ne_true
    · have hne : idx ≠ c.sh.base.xthread.threadIndex := (hI.index.lt j idx hidx').ne
      rw [(htimes idx).1, (htimes idx).2, if_neg hne]
      exact ⟨rfl, rfl, rfl⟩
  | @join now x hx =>
    have hstart := XThread.markThreadExit_view Thread.startTime hx
    have hrun := XThread.markThreadExit_view Thread.actualRuntime hx
    have hthr := XThread.markThreadExit_index hx
    refine hI.of_update hindex hidle (fun m hm t ht hle => ?_) (fun idx h => ?_) hnow
      fun j idx hj hidx' => ⟨hstart idx, hrun idx, rfl⟩
    · exact hI.unused m hm t ht (by rw [← hthr]; exact hle)
    · obtain ⟨b, w, hs⟩ := hspent idx h
      exact ⟨b, w, hs.frame hnow (hstart idx) (hrun idx) rfl⟩
  | @call m idx op hidx hcur hm =>
    refine hI.of_update hindex (fun h => ?_) hI.unused (fun idx h => ?_) hnow
      fun j idx hj hidx' => ⟨rfl, rfl, rfl⟩
    · exact absurd (hidx.symm.trans h) (by simp)
    · obtain ⟨b, w, hs⟩ := hspent idx h
      refine ⟨b, w, hs.start, hs.begun, BitVec.le_trans hs.now hnow, hs.waits, ?_, hs.ended⟩
      intro hwait
      cases op <;> exact absurd hwait (by simp [waitingAt, times, Op.entry])
  | @step idx m pc ch f cell hidx hcur hop =>
    have hbase : (c.loc i).base = li.base := congrArg Local.base hl
    have hm : m < maxSyncEntries := hI.index.cur i m pc ((congrArg _ hbase).trans hcur)
    have hindex_i : (c.loc i).base.index = some idx := (congrArg _ hbase).trans hidx
    have hlt : idx < maxThreads := hI.index.index_lt (i := i) hindex_i
    have hold : idx < c.sh.base.xthread.threadIndex := hI.index.lt i idx hindex_i
    rw [times_step hidx hcur hop]
    refine hI.of_update hindex (fun h => absurd (hidx.symm.trans h) (by simp))
      (fun m' hm' t ht hle => ?_) (fun idx' h => ?_) hnow fun j idx' hj hidx' => ⟨rfl, rfl, ?_⟩
    · have haddr : getThreadMutexData m' t ≠ getThreadMutexData m idx := by
        intro h
        obtain ⟨-, rfl⟩ := getThreadMutexData_inj hm' ht hm hlt h
        exact absurd hle (Nat.not_le.mpr hold)
      simp only [Function.update_of_ne haddr]
      exact hI.unused m' hm' t ht hle
    · obtain rfl : idx = idx' := Option.some.inj (hidx.symm.trans h)
      obtain ⟨b, w, hs⟩ := hspent idx hidx
      refine ⟨b, hs.timed hm hlt hcur ((timed_cases hop reading li _).with_base _) ?_ ?_
        rfl hnow rfl rfl⟩
      · cases f with
        | goto pc' => rfl
        | ret code => rfl
        | abort x => simp only [Local.after, hcur, Flow.target, Option.map_some]
      · exact (timed_ended ..).trans hrunning
    · obtain ⟨-, hlt', hne⟩ := hI.index_ne hindex_i hidx' hj
      exact threadWaits_update_ne hm hlt hlt' hne _

/-- **One step keeps the invariant.** -/
theorem Inv.step {tid : ι ↪ Tid} {c d : Config ι Local Shared} {i : ι} {a : Action} (hI : Inv c)
    (h : (system tid).step c i a = some d) : Inv d := by
  obtain ⟨l, s, hnext, rfl⟩ := System.step_eq_some.mp h
  obtain ⟨hrunning, hcase⟩ := next_eq_some hnext
  cases a with
  | base a reading =>
    cases hcase with
    | @base _ _ lb t hnow hreads hbase =>
      refine hI.base hrunning hnow hreads ?_ (SyncPerf.next_eq_some hbase).2
      have hstep : (machine tid).step (baseConfig c) i a = some _ :=
        System.step_eq_some.mpr ⟨lb, t, hbase, rfl⟩
      exact hI.index.step hstep
  | ended reading =>
    cases hcase with
    | @ended idx _ hidx hcur hnow =>
      have htimes := startThreadEnd_times idx reading c.sh.base.xthread
      refine hI.of_update ?_ (hI.idle i) hI.unused (fun idx' h => ?_) hnow
        fun j idx' hj hidx' => ⟨(htimes idx').1, ?_, rfl⟩
      · exact hI.index.of_index rfl (hI.index.cur i) rfl hI.index.unused
      · obtain rfl : idx = idx' := Option.some.inj (hidx.symm.trans h)
        obtain ⟨b, w, hs⟩ := hI.spent i idx hidx
        have hle : w ≤ reading := BitVec.le_trans hs.now hnow
        refine ⟨b, w, (htimes idx).1.trans hs.start, hs.begun, hle, hs.waits, hs.waiting,
          fun _ => ?_⟩
        -- the run time is all the time since the start
        rw [(htimes idx).2, if_pos rfl, hs.start,
          getElapsed2ms_of_le (BitVec.le_trans hs.begun hle)]
        exact hs.waits.trans (elapsed_mono hle)
      · obtain ⟨-, -, hne⟩ := hI.index_ne hidx hidx' hj
        rw [(htimes idx').2, if_neg hne]

/-- **No thread has waited longer than it has run.**  In every run what `thread_waits.csv` has for
    a thread is at most the time since its start, and once its start routine has returned it is at
    most the run time in the same line. -/
theorem waits_le_runtime {tid : ι ↪ Tid} {c d : Config ι Local Shared}
    {tr : List (Event ι Action Local Shared)} (hinit : Initial c)
    (hrun : Run (system tid) c tr d) (i : ι) {idx : ℕ} (hidx : (d.loc i).base.index = some idx) :
    threadWaits d.sh.waits idx ≤
        getElapsed2ms (d.sh.base.xthread.threads idx).startTime d.sh.now ∧
      ((d.loc i).ended = true →
        threadWaits d.sh.waits idx ≤ (d.sh.base.xthread.threads idx).actualRuntime) := by
  have hI : Inv d := hrun.invariant (.initial hinit) fun _ _ _ _ hI h => hI.step h
  obtain ⟨b, w, hs⟩ := hI.spent i idx hidx
  refine ⟨?_, hs.ended⟩
  rw [hs.start, getElapsed2ms_of_le (BitVec.le_trans hs.begun hs.now)]
  exact hs.waits.trans (elapsed_mono hs.now)

/-- Steps of one thread at one time. -/
def stepsAt (reading : BitVec 64) (i : Bool) (n : ℕ) : List (Bool × Action) :=
  List.replicate n (i, .base (.step {}) reading)

/-- The start of the process, all mutexes normal. -/
def waitedStart : Config Bool Local Shared where
  loc := fun _ => {}
  sh := { base := pairStart.sh }

/-- The initial thread waits for a condition variable for a millisecond, and has the mutex again.
    The other thread waits for that mutex for three, and ends after eight. -/
def waited := (system pairTid).execute waitedStart
  (List.flatten [[(true, .base (.start 0 1 ⟨0, 0, 0⟩) 0), (false, .base (.start 0 2 ⟨0, 0, 0⟩) 0)],
    [(true, .base (.call 0 .lock) 0)], stepsAt 0 true 10, [(true, .base (.call 0 .condWait) 0)],
    stepsAt 2000000 true 5, stepsAt 4000000 true 6, [(false, .base (.call 0 .lock) 4000000)],
    stepsAt 6000000 false 9, [(true, .base (.call 0 .unlock) 6000000)], stepsAt 6000000 true 5,
    stepsAt 12000000 false 5, [(false, .ended 16000000)]]) (by decide +kernel)

/-- Two threads before they call. -/
theorem waitedStart_initial : Initial waitedStart :=
  ⟨fun _ => rfl, pairStart_initial, fun _ => rfl⟩

/-- The waits of one thread, and its time. -/
theorem waits_le_runtime_waited :
    (waited.2.sh.waits (getThreadMutexData 0 0)).condFutexWait = 1 ∧
      (waited.2.sh.waits (getThreadMutexData 0 1)).futexWait = 3 ∧
      (waited.2.sh.base.xthread.threads 1).actualRuntime = 8 ∧
      threadWaits waited.2.sh.waits 1 ≤ (waited.2.sh.base.xthread.threads 1).actualRuntime := by
  have hrun : Run (system pairTid) waitedStart waited.1 waited.2 := System.execute_run _ _ _ _
  have hidx : (waited.2.loc false).base.index = some 1 := by decide +kernel
  have hle := waits_le_runtime waitedStart_initial hrun false hidx
  exact ⟨by decide +kernel, by decide +kernel, by decide +kernel, hle.2 (by decide +kernel)⟩

end SyncPerf.WaitTimes
