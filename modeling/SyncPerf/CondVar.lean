import Mathlib.Order.BoundedOrder.Basic
import Mathlib.Data.Fintype.Basic
import SyncPerf.Interleaving

namespace SyncPerf.CondVar

open Interleaving

/-!
# The counters of a condition variable

`pthread_cond_wait` and `__condvar_cleanup` change the counters of a condition variable under
its internal lock, so each section under the lock is one step here; the rest of a call only
waits.  Any number of threads wait, wake up for whatever reason, are cancelled, signal and
broadcast in any order.

* `CondData`, `condWaitEnter`, `condWaitWoken`, `condvarCleanup` — the sections of the waits, and
  `condSignal`, `condBroadcast` — those of the library that the waits rely on;
* `Tally` — what a condition variable is for: waiters, and the wake-ups granted to them;
* `Shows` — how the three 64-bit counters show a tally, and each section's effect on it;
* `Inv`, `condvar_counters` — the counters in every run in which none of them wraps.
-/

/-! ### The sections -/

/-- `__data` of a `pthread_cond_t`: the counters. -/
structure CondData where
  futex : BitVec 32 := 0
  totalSeq : BitVec 64 := 0
  wakeupSeq : BitVec 64 := 0
  wokenSeq : BitVec 64 := 0
  nwaiters : BitVec 32 := 0
  broadcastSeq : BitVec 32 := 0
  deriving DecidableEq

/-- `COND_NWAITERS_SHIFT`: the low bit of `__nwaiters` is the clock's. -/
def condNwaitersShift : ℕ := 1

/-- `1 << COND_NWAITERS_SHIFT`. -/
def oneWaiter : BitVec 32 := 1 <<< condNwaitersShift

/-- `seq` of a wait, and `bc_seq` of its `_condvar_cleanup_buffer`. -/
structure Cbuffer where
  seq : BitVec 64
  bcSeq : BitVec 32
  deriving DecidableEq

/-- How a wait ends. -/
inductive Exit
  | broadcast
  | signal
  | cancelled
  deriving DecidableEq

/-- Where a thread is: `blocked` in the futex wait of `pthread_cond_wait`, or out of the condition
    variable and on its way to the mutex. -/
inductive Local
  | outside
  | blocked (cbuffer : Cbuffer)
  | left (how : Exit)
  deriving DecidableEq

/-- The first section of `pthread_cond_wait`; `err` is what the release of the mutex returns. -/
def condWaitEnter (err : ℕ) (cond : CondData) : Local × CondData :=
  if err ≠ 0 then (.outside, cond)
  else
    (.blocked ⟨cond.wakeupSeq, cond.broadcastSeq⟩,
      { cond with
        totalSeq := cond.totalSeq + 1
        futex := cond.futex + 1
        nwaiters := cond.nwaiters + oneWaiter })

/-- From `bc_out` on, a wait is no longer counted. -/
def CondData.bcOut (cond : CondData) : CondData :=
  { cond with nwaiters := cond.nwaiters - oneWaiter }

/-- The section after each wake-up: the test of the loop, and what follows it. -/
def condWaitWoken (cbuffer : Cbuffer) (cond : CondData) : Local × CondData :=
  if cbuffer.bcSeq ≠ cond.broadcastSeq then (.left .broadcast, cond.bcOut)
  else if cond.wakeupSeq = cbuffer.seq ∨ cond.wokenSeq = cond.wakeupSeq then
    (.blocked cbuffer, cond)
  else (.left .signal, { cond with wokenSeq := cond.wokenSeq + 1 }.bcOut)

/-- `__condvar_cleanup`. -/
def condvarCleanup (cbuffer : Cbuffer) (cond : CondData) : CondData :=
  let adjusted :=
    if cbuffer.bcSeq = cond.broadcastSeq then
      let woken :=
        if cond.wakeupSeq < cond.totalSeq then
          { cond with wakeupSeq := cond.wakeupSeq + 1, futex := cond.futex + 1 }
        else cond
      { woken with wokenSeq := woken.wokenSeq + 1 }
    else cond
  { adjusted with nwaiters := adjusted.nwaiters - oneWaiter }

/-- The section of `pthread_cond_signal`. -/
def condSignal (cond : CondData) : CondData :=
  if cond.totalSeq > cond.wakeupSeq then
    { cond with wakeupSeq := cond.wakeupSeq + 1, futex := cond.futex + 1 }
  else cond

/-- The section of `pthread_cond_broadcast`; `__futex` takes the low half of the 64 bits. -/
def condBroadcast (cond : CondData) : CondData :=
  if cond.totalSeq > cond.wakeupSeq then
    { cond with
      wakeupSeq := cond.totalSeq
      wokenSeq := cond.totalSeq
      futex := (cond.totalSeq * 2).setWidth 32
      broadcastSeq := cond.broadcastSeq + 1 }
  else cond

/-- A signal is no broadcast, and nobody enters or leaves by it. -/
theorem condSignal_same (cond : CondData) :
    (condSignal cond).broadcastSeq = cond.broadcastSeq ∧
      (condSignal cond).nwaiters = cond.nwaiters := by
  unfold condSignal
  split <;> exact ⟨rfl, rfl⟩

/-- The handler of a waiter that no broadcast released: a signal for that waiter, which it uses. -/
theorem condvarCleanup_of_eq {cbuffer : Cbuffer} {cond : CondData}
    (h : cbuffer.bcSeq = cond.broadcastSeq) :
    condvarCleanup cbuffer cond =
      { condSignal cond with wokenSeq := (condSignal cond).wokenSeq + 1 }.bcOut := by
  unfold condvarCleanup
  rw [if_pos h]
  rfl

/-- The handler of a waiter that a broadcast released. -/
theorem condvarCleanup_of_ne {cbuffer : Cbuffer} {cond : CondData}
    (h : cbuffer.bcSeq ≠ cond.broadcastSeq) : condvarCleanup cbuffer cond = cond.bcOut := by
  unfold condvarCleanup
  rw [if_neg h]
  rfl

/-! ### The system -/

/-- What a thread does next.  `woken` is any return from the futex wait, also a spurious one;
    `relocked` is the end of a wait that has its mutex again. -/
inductive Action
  | wait (err : ℕ)
  | woken
  | cancel
  | relocked
  | signal
  | broadcast
  deriving DecidableEq

variable {ι : Type}

/-- One section of one thread; a cancelled thread does nothing more. -/
def next (_ : ι) : Action → Local → CondData → Option (Local × CondData)
  | .wait err, .outside, cond => some (condWaitEnter err cond)
  | .woken, .blocked cbuffer, cond => some (condWaitWoken cbuffer cond)
  | .cancel, .blocked cbuffer, cond => some (.left .cancelled, condvarCleanup cbuffer cond)
  | .relocked, .left .signal, cond | .relocked, .left .broadcast, cond => some (.outside, cond)
  | .signal, .outside, cond => some (.outside, condSignal cond)
  | .broadcast, .outside, cond => some (.outside, condBroadcast cond)
  | _, _, _ => none

/-- The threads over one condition variable. -/
def system : System ι Action Local CondData := ⟨next⟩

/-- An initialised condition variable that nobody uses; `__nwaiters` holds the clock's bit. -/
def Initialised (c : Config ι Local CondData) : Prop :=
  (∀ t, c.loc t = .outside) ∧ c.sh.totalSeq = 0 ∧ c.sh.wakeupSeq = 0 ∧ c.sh.wokenSeq = 0 ∧
    c.sh.nwaiters >>> condNwaitersShift = 0 ∧ c.sh.broadcastSeq = 0

/-- The thread is inside the wait. -/
def Local.inside : Local → Bool
  | .blocked _ => true
  | _ => false

/-- The thread is inside a wait that began in the broadcast epoch `bc`. -/
def Local.waitsIn (bc : BitVec 32) : Local → Bool
  | .blocked cbuffer => cbuffer.bcSeq == bc
  | _ => false

/-- A wait ends, and neither by a broadcast nor by cancellation. -/
def leavesBySignal (x : Event ι Action Local CondData) : Bool :=
  match x.act, x.pre.loc x.who with
  | .woken, .blocked cbuffer => (condWaitWoken cbuffer x.pre.sh).1 == .left .signal
  | _, _ => false

/-- A call of `pthread_cond_signal`. -/
def signals (x : Event ι Action Local CondData) : Bool :=
  x.act == .signal

/-- The step takes a counter over its maximum: a wait `__total_seq` or `__nwaiters`, a broadcast
    `__broadcast_seq`. -/
def wraps (x : Event ι Action Local CondData) : Bool :=
  let cond := x.pre.sh
  match x.act with
  | .wait err =>
    err == 0 && (decide (cond.totalSeq + 1 < cond.totalSeq) ||
      decide (cond.nwaiters + oneWaiter < cond.nwaiters))
  | .broadcast =>
    decide (cond.totalSeq > cond.wakeupSeq) &&
      decide (cond.broadcastSeq + 1 < cond.broadcastSeq)
  | _ => false

/-! ### What a condition variable is for -/

/-- The waiters of the current broadcast epoch, and how many of them have been granted a wake-up
    that none has used yet. -/
structure Tally where
  waiting : ℕ
  granted : ℕ
  granted_le : granted ≤ waiting

namespace Tally

/-- A wake-up that is used. -/
theorem use_le (T : Tally) : T.granted - 1 ≤ T.waiting - 1 :=
  Nat.sub_le_sub_right T.granted_le 1

/-- A wake-up that is granted. -/
theorem signal_le {T : Tally} (h : T.granted < T.waiting) : T.granted + 1 ≤ T.waiting := h

/-- A waiter more. -/
theorem enter_le (T : Tally) : T.granted ≤ T.waiting + 1 := Nat.le_succ_of_le T.granted_le

/-- Nobody waits. -/
def empty : Tally := ⟨0, 0, le_rfl⟩

/-- One more thread waits. -/
def enter (T : Tally) : Tally := ⟨T.waiting + 1, T.granted, T.enter_le⟩

/-- A signal grants a wake-up, if a waiter is left to grant it to. -/
def signal (T : Tally) : Tally :=
  if h : T.granted < T.waiting then ⟨T.waiting, T.granted + 1, signal_le h⟩ else T

/-- A broadcast lets all waiters go, if one is left without a grant. -/
def broadcast (T : Tally) : Tally :=
  if T.granted < T.waiting then empty else T

/-- A waiter uses a grant and leaves. -/
def use (T : Tally) : Tally := ⟨T.waiting - 1, T.granted - 1, T.use_le⟩

/-- A cancelled waiter is granted a wake-up as by a signal, and leaves with it. -/
def cancel (T : Tally) : Tally := T.signal.use

/-- A signal grants at most one wake-up. -/
theorem granted_signal (T : Tally) : T.signal.granted ≤ T.granted + 1 := by
  unfold signal
  split
  · exact le_rfl
  · exact Nat.le_succ _

/-- A signal leaves the waiters where they are. -/
theorem waiting_signal (T : Tally) : T.signal.waiting = T.waiting := by
  unfold signal
  split <;> rfl

/-- A broadcast leaves no more grants to use than there were. -/
theorem granted_broadcast (T : Tally) : T.broadcast.granted ≤ T.granted := by
  unfold broadcast
  split
  · exact Nat.zero_le _
  · exact le_rfl

/-- A cancelled waiter does not wait. -/
theorem waiting_cancel (T : Tally) : T.cancel.waiting = T.waiting - 1 := by
  show T.signal.waiting - 1 = T.waiting - 1
  rw [T.waiting_signal]

/-- Cancelling a waiter leaves no grant to the others. -/
theorem granted_cancel (T : Tally) : T.cancel.granted ≤ T.granted := by
  have hsignal := T.granted_signal
  show T.signal.granted - 1 ≤ T.granted
  omega

end Tally

/-! ### How the counters show a tally -/

/-- `__total_seq` is ahead of `__woken_seq` by the waiters of the epoch, and `__wakeup_seq` by the
    grants. -/
structure Shows (cond : CondData) (T : Tally) : Prop where
  waiting : cond.totalSeq.toNat = cond.wokenSeq.toNat + T.waiting
  granted : cond.wakeupSeq.toNat = cond.wokenSeq.toNat + T.granted

/-- A sum that is not below its first part has not wrapped. -/
theorem toNat_add_of_not_lt {w : ℕ} {x y : BitVec w} (h : ¬ x + y < x) :
    (x + y).toNat = x.toNat + y.toNat := by
  apply BitVec.toNat_add_of_lt
  by_contra hle
  have hx := x.isLt
  have hy := y.isLt
  apply h
  rw [BitVec.lt_def, BitVec.toNat_add, Nat.mod_eq_sub_mod (by omega),
    Nat.mod_eq_of_lt (by omega)]
  omega

/-- A counter below another one counts up without wrapping. -/
theorem toNat_succ_of_lt {x y : BitVec 64} (h : x < y) : (x + 1).toNat = x.toNat + 1 := by
  have hlt := BitVec.lt_def.mp h
  have hy := y.isLt
  apply BitVec.toNat_add_of_lt
  show x.toNat + 1 < 2 ^ 64
  omega

namespace Shows

variable {cond : CondData} {T : Tally}

/-- The order of the three counters. -/
theorem le_le (h : Shows cond T) :
    cond.wokenSeq ≤ cond.wakeupSeq ∧ cond.wakeupSeq ≤ cond.totalSeq := by
  have hT := T.granted_le
  rw [BitVec.le_def, BitVec.le_def, h.granted, h.waiting]
  omega

/-- The test of signal, broadcast and cancellation finds out whether a waiter has no grant. -/
theorem lt_iff (h : Shows cond T) :
    cond.wakeupSeq < cond.totalSeq ↔ T.granted < T.waiting := by
  rw [BitVec.lt_def, h.granted, h.waiting]
  omega

/-- The counters after a wait has begun. -/
theorem enter (h : Shows cond T) (hwrap : ¬ cond.totalSeq + 1 < cond.totalSeq) :
    Shows (condWaitEnter 0 cond).2 T.enter where
  waiting := by
    show (cond.totalSeq + 1).toNat = _
    rw [toNat_add_of_not_lt hwrap, h.waiting]
    rfl
  granted := h.granted

/-- The counters after a signal. -/
theorem signal (h : Shows cond T) : Shows (condSignal cond) T.signal := by
  unfold condSignal Tally.signal
  by_cases hlt : cond.wakeupSeq < cond.totalSeq
  · rw [if_pos hlt, dif_pos (h.lt_iff.mp hlt)]
    refine ⟨h.waiting, ?_⟩
    show (cond.wakeupSeq + 1).toNat = _
    rw [toNat_succ_of_lt hlt, h.granted]
    rfl
  · rw [if_neg hlt, dif_neg (mt h.lt_iff.mpr hlt)]
    exact h

/-- The counters after a broadcast. -/
theorem broadcast (h : Shows cond T) : Shows (condBroadcast cond) T.broadcast := by
  unfold condBroadcast Tally.broadcast
  by_cases hlt : cond.wakeupSeq < cond.totalSeq
  · rw [if_pos hlt, if_pos (h.lt_iff.mp hlt)]
    exact ⟨rfl, rfl⟩
  · rw [if_neg hlt, if_neg (mt h.lt_iff.mpr hlt)]
    exact h

/-- A waiter that finds `__woken_seq` behind `__wakeup_seq` uses a grant. -/
theorem granted_pos (h : Shows cond T) (hne : cond.wokenSeq ≠ cond.wakeupSeq) : 0 < T.granted := by
  by_contra hzero
  apply hne
  apply BitVec.eq_of_toNat_eq
  rw [h.granted]
  omega

/-- One more thread woken up. -/
theorem use (h : Shows cond T) (hgranted : 0 < T.granted) :
    Shows { cond with wokenSeq := cond.wokenSeq + 1 } T.use := by
  have hT := T.granted_le
  have hwaiting := h.waiting
  have hsucc : (cond.wokenSeq + 1).toNat = cond.wokenSeq.toNat + 1 := by
    apply toNat_succ_of_lt (y := cond.totalSeq)
    rw [BitVec.lt_def]
    omega
  constructor
  · show cond.totalSeq.toNat = (cond.wokenSeq + 1).toNat + (T.waiting - 1)
    rw [hsucc]
    omega
  · show cond.wakeupSeq.toNat = (cond.wokenSeq + 1).toNat + (T.granted - 1)
    rw [hsucc, h.granted]
    omega

/-- The tally does not depend on `__nwaiters`. -/
theorem of_nwaiters (h : Shows cond T) (n : BitVec 32) : Shows { cond with nwaiters := n } T :=
  ⟨h.waiting, h.granted⟩

/-- The cancellation of a waiter of the epoch. -/
theorem cancel (h : Shows cond T) {cbuffer : Cbuffer} (hbc : cbuffer.bcSeq = cond.broadcastSeq)
    (hwaiting : 0 < T.waiting) : Shows (condvarCleanup cbuffer cond) T.cancel := by
  rw [condvarCleanup_of_eq hbc]
  apply of_nwaiters
  apply h.signal.use
  -- the waiter itself had no grant, or all waiters had one
  unfold Tally.signal
  split
  · exact Nat.succ_pos _
  · omega

end Shows

/-! ### What a step does -/

/-- The steps, case by case. -/
inductive NextCase : Action → Local → CondData → Local → CondData → Prop
  | failed {err : ℕ} {cond : CondData} (herr : err ≠ 0) :
      NextCase (.wait err) .outside cond .outside cond
  | entered {cond : CondData} :
      NextCase (.wait 0) .outside cond (.blocked ⟨cond.wakeupSeq, cond.broadcastSeq⟩)
        (condWaitEnter 0 cond).2
  | released {cbuffer : Cbuffer} {cond : CondData} (hbc : cbuffer.bcSeq ≠ cond.broadcastSeq) :
      NextCase .woken (.blocked cbuffer) cond (.left .broadcast) cond.bcOut
  | again {cbuffer : Cbuffer} {cond : CondData} :
      NextCase .woken (.blocked cbuffer) cond (.blocked cbuffer) cond
  | used {cbuffer : Cbuffer} {cond : CondData} (hbc : cbuffer.bcSeq = cond.broadcastSeq)
      (hwoken : cond.wokenSeq ≠ cond.wakeupSeq) :
      NextCase .woken (.blocked cbuffer) cond (.left .signal)
        { cond with wokenSeq := cond.wokenSeq + 1 }.bcOut
  | cancelled {cbuffer : Cbuffer} {cond : CondData} :
      NextCase .cancel (.blocked cbuffer) cond (.left .cancelled) (condvarCleanup cbuffer cond)
  | relocked {how : Exit} {cond : CondData} : NextCase .relocked (.left how) cond .outside cond
  | signalled {cond : CondData} : NextCase .signal .outside cond .outside (condSignal cond)
  | broadcast {cond : CondData} : NextCase .broadcast .outside cond .outside (condBroadcast cond)

/-- A step is one of the cases. -/
theorem next_eq_some {t : ι} {a : Action} {l l' : Local} {cond cond' : CondData}
    (h : next t a l cond = some (l', cond')) : NextCase a l cond l' cond' := by
  unfold next at h
  split at h <;> first | cases h | skip
  · rename_i err
    by_cases herr : err = 0
    · subst herr
      cases h
      exact .entered
    · unfold condWaitEnter at h
      rw [if_pos herr] at h
      cases h
      exact .failed herr
  · rename_i cbuffer
    unfold condWaitWoken at h
    split at h
    · rename_i hbc
      cases h
      exact .released hbc
    · rename_i hbc
      split at h
      · cases h
        exact .again
      · rename_i hwoken
        cases h
        exact .used (not_not.mp hbc) fun hw => hwoken (.inr hw)
  · exact .cancelled
  · exact .relocked
  · exact .relocked
  · exact .signalled
  · exact .broadcast

/-- A step ends a wait by a signal just when its section says so. -/
theorem leavesBySignal_eq {c : Config ι Local CondData} {i : ι} {a : Action} {l : Local}
    {cond : CondData} (h : next i a (c.loc i) c.sh = some (l, cond)) :
    leavesBySignal ⟨c, i, a⟩ = (a == .woken && l == .left .signal) := by
  unfold leavesBySignal
  generalize c.loc i = li at h ⊢
  cases a with
  | woken =>
    cases li with
    | blocked cbuffer =>
      have hl : condWaitWoken cbuffer c.sh = (l, cond) := Option.some.inj h
      simp only [hl]
      rfl
    | _ => cases h
  | _ => rfl

/-! ### The invariant -/

section Invariant

variable [Fintype ι]

/-- How many threads are inside the wait. -/
def numInside (loc : ι → Local) : ℕ := (Finset.univ.filter fun t => (loc t).inside).card

/-- How many threads are inside a wait of the broadcast epoch `bc`. -/
def numWaitingIn (bc : BitVec 32) (loc : ι → Local) : ℕ :=
  (Finset.univ.filter fun t => (loc t).waitsIn bc).card

/-- The invariant: the counters show a tally of the waiters, and no buffer is ahead of
    `__broadcast_seq`. -/
structure Inv (loc : ι → Local) (cond : CondData) (T : Tally) : Prop where
  shows : Shows cond T
  waiting : T.waiting = numWaitingIn cond.broadcastSeq loc
  nwaiters : cond.nwaiters.toNat / 2 = numInside loc
  buffers : ∀ t cbuffer, loc t = .blocked cbuffer →
    cbuffer.bcSeq.toNat ≤ cond.broadcastSeq.toNat

/-- No thread is counted when none is inside. -/
theorem numInside_eq_zero {loc : ι → Local} (h : ∀ t, ¬ (loc t).inside) : numInside loc = 0 := by
  apply Finset.card_eq_zero.mpr
  exact Finset.filter_false_of_mem fun t _ => h t

/-- No thread is counted when none waits. -/
theorem numWaitingIn_eq_zero {bc : BitVec 32} {loc : ι → Local} (h : ∀ t, ¬ (loc t).waitsIn bc) :
    numWaitingIn bc loc = 0 := by
  apply Finset.card_eq_zero.mpr
  exact Finset.filter_false_of_mem fun t _ => h t

/-- The threads inside, after one thread moved. -/
theorem numInside_update [DecidableEq ι] (loc : ι → Local) (i : ι) (l : Local) :
    numInside (Function.update loc i l) + (if (loc i).inside then 1 else 0) =
      numInside loc + (if l.inside then 1 else 0) :=
  card_update (fun l : Local => l.inside = true) loc i l

/-- The threads of an epoch, after one thread moved. -/
theorem numWaitingIn_update [DecidableEq ι] (bc : BitVec 32) (loc : ι → Local) (i : ι) (l : Local) :
    numWaitingIn bc (Function.update loc i l) + (if (loc i).waitsIn bc then 1 else 0) =
      numWaitingIn bc loc + (if l.waitsIn bc then 1 else 0) :=
  card_update (fun l : Local => l.waitsIn bc = true) loc i l

/-- Who is outside the wait is in no epoch of it. -/
theorem Local.waitsIn_of_not_inside {l : Local} (h : l.inside = false) (bc : BitVec 32) :
    l.waitsIn bc = false := by
  cases l with
  | blocked cbuffer => cases h
  | _ => rfl

/-- A wait that begins adds one to `__nwaiters >> COND_NWAITERS_SHIFT`. -/
theorem nwaiters_add {n : BitVec 32} (hwrap : ¬ n + oneWaiter < n) :
    (n + oneWaiter).toNat / 2 = n.toNat / 2 + 1 := by
  rw [toNat_add_of_not_lt hwrap]
  show (n.toNat + 2) / 2 = n.toNat / 2 + 1
  omega

/-- A wait that ends takes one off. -/
theorem nwaiters_sub {n : BitVec 32} (hpos : 0 < n.toNat / 2) :
    (n - oneWaiter).toNat / 2 = n.toNat / 2 - 1 := by
  have hle : oneWaiter ≤ n := by
    rw [BitVec.le_def]
    show 2 ≤ n.toNat
    omega
  rw [BitVec.toNat_sub_of_le hle]
  show (n.toNat - 2) / 2 = n.toNat / 2 - 1
  omega

namespace Inv

variable {loc : ι → Local} {cond : CondData} {T : Tally}

/-- An initialised condition variable. -/
theorem initial {c : Config ι Local CondData} (hinit : Initialised c) :
    Inv c.loc c.sh .empty := by
  obtain ⟨hloc, htotal, hwakeup, hwoken, hnwaiters, -⟩ := hinit
  refine ⟨⟨?_, ?_⟩, ?_, ?_, ?_⟩
  · rw [htotal, hwoken]
    rfl
  · rw [hwakeup, hwoken]
    rfl
  · refine (numWaitingIn_eq_zero fun t => ?_).symm
    rw [hloc t]
    exact Bool.false_ne_true
  · -- the low bit of the word is the clock's
    have hzero : c.sh.nwaiters.toNat / 2 = 0 := by
      have := congrArg BitVec.toNat hnwaiters
      rwa [BitVec.toNat_ushiftRight, Nat.shiftRight_eq_div_pow] at this
    rw [hzero]
    refine (numInside_eq_zero fun t => ?_).symm
    rw [hloc t]
    exact Bool.false_ne_true
  · intro t cbuffer h
    rw [hloc t] at h
    cases h

/-- A waiter of the epoch is one that the tally counts. -/
theorem waiting_pos (hI : Inv loc cond T) {i : ι} (hi : (loc i).waitsIn cond.broadcastSeq) :
    0 < T.waiting := by
  rw [hI.waiting]
  apply Finset.card_pos.mpr
  exact ⟨i, Finset.mem_filter.mpr ⟨Finset.mem_univ i, hi⟩⟩

/-- A waiter is one that `__nwaiters` counts. -/
theorem nwaiters_pos (hI : Inv loc cond T) {i : ι} (hi : (loc i).inside) :
    0 < cond.nwaiters.toNat / 2 := by
  rw [hI.nwaiters]
  apply Finset.card_pos.mpr
  exact ⟨i, Finset.mem_filter.mpr ⟨Finset.mem_univ i, hi⟩⟩

/-- A broadcast with a waiter left to wake begins an epoch in which nobody waits yet. -/
theorem newEpoch (hI : Inv loc cond T) (hlt : cond.wakeupSeq < cond.totalSeq)
    (hwrap : ¬ cond.broadcastSeq + 1 < cond.broadcastSeq) :
    Inv loc (condBroadcast cond) T.broadcast := by
  have hbc : (condBroadcast cond).broadcastSeq = cond.broadcastSeq + 1 := by
    unfold condBroadcast
    rw [if_pos hlt]
  have hsucc : (cond.broadcastSeq + 1).toNat = cond.broadcastSeq.toNat + 1 :=
    toNat_add_of_not_lt hwrap
  have hT : T.broadcast = .empty := by
    unfold Tally.broadcast
    rw [if_pos (hI.shows.lt_iff.mp hlt)]
  refine ⟨hI.shows.broadcast, ?_, ?_, ?_⟩
  · rw [hbc, hT]
    -- every buffer is from an epoch before
    refine (numWaitingIn_eq_zero fun t => ?_).symm
    cases hloc : loc t with
    | blocked cbuffer =>
      have hle := hI.buffers t cbuffer hloc
      simp only [Local.waitsIn, beq_iff_eq]
      intro heq
      rw [heq, hsucc] at hle
      omega
    | _ => exact Bool.false_ne_true
  · have hnwaiters : (condBroadcast cond).nwaiters = cond.nwaiters := by
      unfold condBroadcast
      rw [if_pos hlt]
    rw [hnwaiters]
    exact hI.nwaiters
  · intro t cbuffer h
    have hle := hI.buffers t cbuffer h
    rw [hbc, hsucc]
    omega

variable [DecidableEq ι]

/-- The buffers of the others are not ahead either when one thread moves out of the wait. -/
theorem buffers_update (hI : Inv loc cond T) (i : ι) {l : Local} (hl : l.inside = false) :
    ∀ t cbuffer, Function.update loc i l t = .blocked cbuffer →
      cbuffer.bcSeq.toNat ≤ cond.broadcastSeq.toNat := by
  refine forall_update (P := fun _ (l : Local) => ∀ cbuffer, l = .blocked cbuffer →
    cbuffer.bcSeq.toNat ≤ cond.broadcastSeq.toNat) ?_ fun j _ => hI.buffers j
  rintro cbuffer rfl
  cases hl

/-- A thread stays outside the wait: the counters of waiters are as they were. -/
theorem idle (hI : Inv loc cond T) {i : ι} {l : Local} (hi : (loc i).inside = false)
    (hl : l.inside = false) {T' : Tally} {cond' : CondData} (hshows : Shows cond' T')
    (hwaiting : T'.waiting = T.waiting) (hbc : cond'.broadcastSeq = cond.broadcastSeq)
    (hnwaiters : cond'.nwaiters = cond.nwaiters) :
    Inv (Function.update loc i l) cond' T' := by
  have hin := numInside_update loc i l
  have hwait := numWaitingIn_update cond.broadcastSeq loc i l
  rw [hi, hl] at hin
  rw [Local.waitsIn_of_not_inside hi, Local.waitsIn_of_not_inside hl] at hwait
  refine ⟨hshows, ?_, ?_, ?_⟩
  · rw [hwaiting, hI.waiting, hbc]
    exact hwait.symm
  · rw [hnwaiters, hI.nwaiters]
    exact hin.symm
  · rw [hbc]
    exact hI.buffers_update i hl

/-- A waiter leaves: one less inside, and one less in its epoch. -/
theorem leave (hI : Inv loc cond T) {i : ι} {cbuffer : Cbuffer} {l : Local}
    (hi : loc i = .blocked cbuffer) (hl : l.inside = false) {T' : Tally} {cond' : CondData}
    (hshows : Shows cond' T')
    (hwaiting : T'.waiting =
      T.waiting - (if cbuffer.bcSeq = cond.broadcastSeq then 1 else 0))
    (hbc : cond'.broadcastSeq = cond.broadcastSeq)
    (hnwaiters : cond'.nwaiters = cond.nwaiters - oneWaiter) :
    Inv (Function.update loc i l) cond' T' := by
  have hinside : (loc i).inside = true := by rw [hi]; rfl
  have hin := numInside_update loc i l
  have hwait := numWaitingIn_update cond.broadcastSeq loc i l
  rw [hinside, if_pos rfl, hl, if_neg Bool.false_ne_true] at hin
  rw [Local.waitsIn_of_not_inside hl, if_neg Bool.false_ne_true, hi] at hwait
  refine ⟨hshows, ?_, ?_, ?_⟩
  · rw [hwaiting, hI.waiting, hbc]
    simp only [Local.waitsIn, beq_iff_eq] at hwait
    omega
  · rw [hnwaiters, nwaiters_sub (hI.nwaiters_pos hinside), hI.nwaiters]
    omega
  · rw [hbc]
    exact hI.buffers_update i hl

/-- A wait begins: one more inside, and one more in the epoch. -/
theorem enter (hI : Inv loc cond T) {i : ι} (hi : (loc i).inside = false)
    (htotal : ¬ cond.totalSeq + 1 < cond.totalSeq)
    (hnwaiters : ¬ cond.nwaiters + oneWaiter < cond.nwaiters) :
    Inv (Function.update loc i (.blocked ⟨cond.wakeupSeq, cond.broadcastSeq⟩))
      (condWaitEnter 0 cond).2 T.enter := by
  have hin := numInside_update loc i (.blocked ⟨cond.wakeupSeq, cond.broadcastSeq⟩)
  have hwait := numWaitingIn_update cond.broadcastSeq loc i
    (.blocked ⟨cond.wakeupSeq, cond.broadcastSeq⟩)
  rw [hi, if_neg Bool.false_ne_true] at hin
  rw [Local.waitsIn_of_not_inside hi, if_neg Bool.false_ne_true] at hwait
  refine ⟨hI.shows.enter htotal, ?_, ?_, ?_⟩
  · show T.waiting + 1 = numWaitingIn cond.broadcastSeq _
    simp only [Local.waitsIn, beq_self_eq_true, if_true] at hwait
    rw [hI.waiting]
    omega
  · show (cond.nwaiters + oneWaiter).toNat / 2 = _
    rw [nwaiters_add hnwaiters, hI.nwaiters]
    simp only [Local.inside, if_true] at hin
    omega
  · refine forall_update (P := fun _ (l : Local) => ∀ cbuffer, l = .blocked cbuffer →
      cbuffer.bcSeq.toNat ≤ cond.broadcastSeq.toNat) ?_ fun j _ => hI.buffers j
    intro cbuffer h
    cases h
    exact le_rfl

/-- A cancelled waiter leaves. -/
theorem cancel (hI : Inv loc cond T) {i : ι} {cbuffer : Cbuffer}
    (hi : loc i = .blocked cbuffer) :
    ∃ T' : Tally, Inv (Function.update loc i (.left .cancelled)) (condvarCleanup cbuffer cond) T' ∧
      T'.granted ≤ T.granted := by
  by_cases hbc : cbuffer.bcSeq = cond.broadcastSeq
  · -- the cleanup counts as a signal for this very waiter
    have hpos : 0 < T.waiting := by
      apply hI.waiting_pos (i := i)
      rw [hi]
      exact beq_iff_eq.mpr hbc
    refine ⟨T.cancel, hI.leave hi rfl (hI.shows.cancel hbc hpos) ?_ ?_ ?_, T.granted_cancel⟩
    · rw [if_pos hbc]
      exact T.waiting_cancel
    · rw [condvarCleanup_of_eq hbc]
      exact (condSignal_same cond).1
    · rw [condvarCleanup_of_eq hbc]
      exact congrArg (· - oneWaiter) (condSignal_same cond).2
  · rw [condvarCleanup_of_ne hbc]
    refine ⟨T, hI.leave hi rfl (hI.shows.of_nwaiters _) ?_ rfl rfl, le_rfl⟩
    rw [if_neg hbc, Nat.sub_zero]

end Inv

variable [DecidableEq ι]

/-- **A step keeps the invariant**, and a waiter only leaves by a signal with a wake-up that a
    signal granted. -/
theorem Inv.step {c d : Config ι Local CondData} {i : ι} {a : Action} {T : Tally}
    (hI : Inv c.loc c.sh T) (hstep : system.step c i a = some d) (hwrap : wraps ⟨c, i, a⟩ = false) :
    ∃ T' : Tally, Inv d.loc d.sh T' ∧
      (if leavesBySignal ⟨c, i, a⟩ then 1 else 0) + T'.granted ≤
        T.granted + (if signals ⟨c, i, a⟩ then 1 else 0) := by
  obtain ⟨l, cond, hnext, rfl⟩ := System.step_eq_some.mp hstep
  -- the event is read off the step before the cases replace the thread's place
  have hleaves := leavesBySignal_eq hnext
  have hcase := next_eq_some (t := i) hnext
  generalize hloc : c.loc i = li at hcase
  generalize hsh : c.sh = sh at hcase
  have hout : ∀ {l}, c.loc i = l → l.inside = false → (c.loc i).inside = false := by
    intro l h hl
    rw [h]
    exact hl
  rw [hleaves]
  subst hsh
  show ∃ T' : Tally, Inv (Function.update c.loc i l) cond T' ∧ _
  cases hcase with
  | failed herr => exact ⟨T, hI.idle (hout hloc rfl) rfl hI.shows rfl rfl rfl, by simp [signals]⟩
  | entered =>
    simp only [wraps, beq_self_eq_true, Bool.true_and, Bool.or_eq_false_iff,
      decide_eq_false_iff_not] at hwrap
    exact ⟨T.enter, hI.enter (hout hloc rfl) hwrap.1 hwrap.2, by simp [signals, Tally.enter]⟩
  | released hbc =>
    refine ⟨T, hI.leave hloc rfl (hI.shows.of_nwaiters _) ?_ rfl rfl, by simp [signals]⟩
    rw [if_neg hbc, Nat.sub_zero]
  | again =>
    rw [← hloc, Function.update_eq_self]
    refine ⟨T, hI, ?_⟩
    rw [hloc]
    simp [signals]
  | used hbc hwoken =>
    have hpos := hI.shows.granted_pos hwoken
    refine ⟨T.use, hI.leave hloc rfl ((hI.shows.use hpos).of_nwaiters _) ?_ rfl rfl, ?_⟩
    · rw [if_pos hbc]
      rfl
    · show 1 + (T.granted - 1) ≤ T.granted + 0
      omega
  | cancelled =>
    obtain ⟨T', hI', hle⟩ := hI.cancel hloc
    refine ⟨T', hI', ?_⟩
    show 0 + T'.granted ≤ T.granted + 0
    omega
  | relocked => exact ⟨T, hI.idle (hout hloc rfl) rfl hI.shows rfl rfl rfl, by simp [signals]⟩
  | signalled =>
    obtain ⟨hbc, hnwaiters⟩ := condSignal_same c.sh
    have hgranted := T.granted_signal
    refine ⟨T.signal, hI.idle (hout hloc rfl) rfl hI.shows.signal T.waiting_signal hbc
      hnwaiters, ?_⟩
    show 0 + T.signal.granted ≤ T.granted + 1
    omega
  | broadcast =>
    rw [← hloc, Function.update_eq_self]
    refine ⟨T.broadcast, ?_, ?_⟩
    · by_cases hlt : c.sh.wakeupSeq < c.sh.totalSeq
      · simp only [wraps, gt_iff_lt, hlt, decide_true, Bool.true_and,
          decide_eq_false_iff_not] at hwrap
        exact hI.newEpoch hlt hwrap
      · -- every waiter has a grant, so that nothing changes
        have hshows := hI.shows.broadcast
        unfold condBroadcast at hshows ⊢
        unfold Tally.broadcast at hshows ⊢
        rw [if_neg (mt hI.shows.lt_iff.mpr hlt)]
        rw [if_neg hlt]
        exact hI
    · have hgranted := T.granted_broadcast
      show 0 + T.broadcast.granted ≤ T.granted + 0
      omega

/-! ### Every run -/

/-- **The counters of a condition variable.**  In every run from an initialised condition variable
    in which no counter wraps: `__woken_seq`, `__wakeup_seq` and `__total_seq` are in order; the
    first is behind the last by the waiters of the current broadcast epoch; `__nwaiters` counts the
    threads inside the wait; and no more waits end by a signal than there were signals. -/
theorem condvar_counters {c₀ c : Config ι Local CondData}
    {tr : List (Event ι Action Local CondData)} (hinit : Initialised c₀)
    (hrun : Run system c₀ tr c) (hwrap : ∀ x ∈ tr, wraps x = false) :
    (c.sh.wokenSeq ≤ c.sh.wakeupSeq ∧ c.sh.wakeupSeq ≤ c.sh.totalSeq) ∧
    (c.sh.totalSeq - c.sh.wokenSeq).toNat = numWaitingIn c.sh.broadcastSeq c.loc ∧
    (c.sh.nwaiters >>> condNwaitersShift).toNat = numInside c.loc ∧
    tr.countP leavesBySignal ≤ tr.countP signals := by
  -- the grants that are left make up for the signals that no wait has used yet
  have hinv : ∃ T : Tally, Inv c.loc c.sh T ∧
      tr.countP leavesBySignal + T.granted ≤ tr.countP signals := by
    refine hrun.history (I := fun tr c => (∀ x ∈ tr, wraps x = false) →
      ∃ T : Tally, Inv c.loc c.sh T ∧ tr.countP leavesBySignal + T.granted ≤ tr.countP signals)
      ?_ ?_ hwrap
    · exact fun _ => ⟨.empty, Inv.initial hinit, le_rfl⟩
    · intro tr d i a e ih hstep hwrap
      obtain ⟨T, hI, hle⟩ := ih fun x hx => hwrap x (List.mem_append_left _ hx)
      obtain ⟨T', hI', hle'⟩ := hI.step hstep (hwrap _ (by simp))
      refine ⟨T', hI', ?_⟩
      rw [List.countP_append, List.countP_append, List.countP_singleton, List.countP_singleton]
      omega
  obtain ⟨T, hI, hle⟩ := hinv
  obtain ⟨hwoken, hwakeup⟩ := hI.shows.le_le
  refine ⟨⟨hwoken, hwakeup⟩, ?_, ?_, by omega⟩
  · rw [BitVec.toNat_sub_of_le (BitVec.le_trans hwoken hwakeup), hI.shows.waiting, hI.waiting]
    omega
  · rw [BitVec.toNat_ushiftRight, Nat.shiftRight_eq_div_pow]
    exact hI.nwaiters

end Invariant

/-! ### A run -/

/-- Three waiters; a signal, after which another one is cancelled and a fourth thread waits and is
    woken for nothing; then a broadcast. -/
def sampleRun : List (Event (Fin 4) Action Local CondData) × Config (Fin 4) Local CondData :=
  system.execute ⟨fun _ => .outside, {}⟩
    [(0, .wait 0), (1, .wait 0), (2, .wait 0), (3, .signal), (1, .cancel), (0, .woken),
      (3, .wait 0), (3, .woken), (0, .relocked), (0, .broadcast), (2, .woken)] rfl

/-- The counters in that run: at its end one thread is inside, none of the new epoch. -/
theorem condvar_counters_sampleRun :
    (sampleRun.2.sh.wokenSeq ≤ sampleRun.2.sh.wakeupSeq ∧
      sampleRun.2.sh.wakeupSeq ≤ sampleRun.2.sh.totalSeq) ∧
    (sampleRun.2.sh.totalSeq - sampleRun.2.sh.wokenSeq).toNat =
      numWaitingIn sampleRun.2.sh.broadcastSeq sampleRun.2.loc ∧
    (sampleRun.2.sh.nwaiters >>> condNwaitersShift).toNat = numInside sampleRun.2.loc ∧
    sampleRun.1.countP leavesBySignal ≤ sampleRun.1.countP signals :=
  condvar_counters ⟨fun _ => rfl, rfl, rfl, rfl, rfl, rfl⟩ (system.execute_run _ _ _)
    (by decide)

example : sampleRun.1.countP leavesBySignal = 1 ∧ sampleRun.1.countP signals = 1 ∧
    numInside sampleRun.2.loc = 1 := by decide

end SyncPerf.CondVar
