import SyncPerf.RecordEntries
import SyncPerf.FineTime
import SyncPerf.CondVar

namespace SyncPerf.CondVar

/-!
# What a condition wait adds to its record

`pthread_cond_wait` counts a wait and takes a time stamp inside its loop, before each futex wait, and
adds the time since the last stamp when the mutex is re-acquired.  A futex wait may return for
nothing, so that one call can do the former many times.

* `TimedRecord`, `Round`, `waitLoop` — the record of a thread, and the loop;
* `pthreadCondWait` — a call around it;
* `waitLoop_spec` — what the loop leaves behind;
* `cond_wait_accounting` — when a call is one wait of the whole blocked time.
-/

/-- A `thread_mutex_t` with the time spent in condition waits. -/
structure TimedRecord extends ThreadMutex where
  condFutexWait : ℚ := 0
  deriving DecidableEq

/-- `inc_cond_wait_count`. -/
def TimedRecord.incCondWaitCount (r : TimedRecord) : TimedRecord :=
  { r with toThreadMutex := r.toThreadMutex.set .condWaits (inc32 (r.get .condWaits)) }

/-- `add_cond_wait_time`, with the clock read in it. -/
def TimedRecord.addCondWaitTime (r : TimedRecord) (st : TimeInfo) (reading : BitVec 64) :
    TimedRecord :=
  { r with condFutexWait := r.condFutexWait + getElapsed2ms st reading }

/-- One time through the loop: the clock at `start_timestamp`, and the condition variable as it is
    when the futex wait has returned and the internal lock is held. -/
structure Round where
  reading : BitVec 64
  cond : CondData
  deriving DecidableEq

/-- The thread was woken for nothing. -/
def Round.spurious (cbuffer : Cbuffer) (round : Round) : Bool :=
  (condWaitWoken cbuffer round.cond).1 == .blocked cbuffer

/-- The loop, which ends with the last of the rounds; `none` when they end it earlier, or do not
    end it. -/
def waitLoop (cbuffer : Cbuffer) (r : TimedRecord) : List Round → Option (TimedRecord × TimeInfo)
  | [] => none
  | round :: rest =>
    if round.spurious cbuffer then waitLoop cbuffer r.incCondWaitCount rest
    else if rest.isEmpty then some (r.incCondWaitCount, getTsc round.reading)
    else none

/-- What a call meets on its way: what the release of the mutex returns, the condition variable
    then, the rounds, what the re-acquisition returns, and the clock after it. -/
structure Course where
  unlockErr : ℕ
  cond : CondData
  rounds : List Round
  relockRet : ℕ
  finish : BitVec 64
  deriving DecidableEq

/-- `pthread_cond_wait`, as far as the record is concerned.  `wait_start` is declared as a pointer,
    but only its address is used, as that of the time stamp. -/
def pthreadCondWait (w : Course) (r : TimedRecord) : Option (ℕ × TimedRecord) :=
  match (condWaitEnter w.unlockErr w.cond).1 with
  | .blocked cbuffer =>
    -- `start_timestamp` writes two words of 8 bytes each at a variable of 8 bytes, so that the high
    -- word goes over what is next to it; both words are taken to be read back as they were written
    match waitLoop cbuffer r w.rounds with
    | some (r', waitStart) => some (w.relockRet, r'.addCondWaitTime waitStart w.finish)
    | none => none
  | _ => some (w.unlockErr, r)

/-- The call blocks. -/
def Course.Blocks (w : Course) : Prop := w.unlockErr = 0

/-- The clock does not run backwards. -/
def Course.Monotone (w : Course) : Prop :=
  ((w.rounds.map Round.reading) ++ [w.finish]).Pairwise (· ≤ ·)

instance (w : Course) : Decidable w.Monotone := inferInstanceAs (Decidable (List.Pairwise _ _))

/-! ### The loop -/

section Loop

variable {cbuffer : Cbuffer} {r r' : TimedRecord} {rounds : List Round} {waitStart : TimeInfo}

/-- **The loop** counts every round, and keeps the time stamp of the last one. -/
theorem waitLoop_spec (h : waitLoop cbuffer r rounds = some (r', waitStart))
    (hcount : r.condWaits < 2 ^ 32) :
    r'.condWaits = (r.condWaits + rounds.length) % 2 ^ 32 ∧ r'.condFutexWait = r.condFutexWait ∧
      ∃ last ∈ rounds.getLast?, waitStart = getTsc last.reading := by
  induction rounds generalizing r with
  | nil => cases h
  | cons round rest ih =>
    have hinc : r.incCondWaitCount.condWaits = (r.condWaits + 1) % 2 ^ 32 := rfl
    rw [waitLoop] at h
    split at h
    · -- not eligible: once more
      obtain ⟨hwaits, htime, last, hlast, hstart⟩ := ih h (Nat.mod_lt _ (by norm_num))
      refine ⟨?_, htime, last, ?_, hstart⟩
      · rw [hwaits, hinc, List.length_cons, Nat.mod_add_mod]
        congr 1
        omega
      · cases rest with
        | nil => cases hlast
        | cons _ _ => exact hlast
    · split at h
      · rename_i hempty
        obtain rfl := List.isEmpty_iff.mp hempty
        obtain ⟨rfl, rfl⟩ := Prod.mk.inj (Option.some.inj h)
        exact ⟨hinc, rfl, round, rfl, rfl⟩
      · cases h

end Loop

/-! ### The call -/

/-- One more wait, of the time since the clock showed `begin`. -/
def TimedRecord.OneWait (r r' : TimedRecord) (begin finish : BitVec 64) : Prop :=
  r'.condWaits = inc32 r.condWaits ∧
    r'.condFutexWait = r.condFutexWait + ((finish.toNat : ℚ) - begin.toNat) / cpuFreq

theorem inc32_eq_iff {n k : ℕ} : (n + k) % 2 ^ 32 = inc32 n ↔ k % 2 ^ 32 = 1 := by
  unfold inc32
  omega

/-- **The accounting of a condition wait.**  A call that blocks, and whose loop it leaves after `k`
    returns of its futex wait, adds one wait of the time from its first blocking on exactly when `k`
    is 1, up to a multiple of `2 ^ 32`, and the clock shows the same at the first and at the last
    time stamp. -/
theorem cond_wait_accounting {w : Course} {r r' : TimedRecord} {ret : ℕ} (hblocks : w.Blocks)
    (hmono : w.Monotone) (hcount : r.condWaits < 2 ^ 32)
    (h : pthreadCondWait w r = some (ret, r')) :
    ∀ first ∈ w.rounds.head?, r.OneWait r' first.reading w.finish ↔
      w.rounds.length % 2 ^ 32 = 1 ∧ ∀ last ∈ w.rounds.getLast?, last.reading = first.reading := by
  intro first _
  have henter : condWaitEnter w.unlockErr w.cond =
      (.blocked ⟨w.cond.wakeupSeq, w.cond.broadcastSeq⟩, (condWaitEnter w.unlockErr w.cond).2) := by
    have hzero : w.unlockErr = 0 := hblocks
    simp [condWaitEnter, hzero]
  rw [pthreadCondWait, henter] at h
  simp only at h
  split at h
  · rename_i r₁ waitStart hloop
    obtain ⟨-, rfl⟩ := Prod.mk.inj (Option.some.inj h)
    obtain ⟨hwaits, htime, last, hlast, rfl⟩ := waitLoop_spec hloop hcount
    have hle : last.reading ≤ w.finish := by
      refine (List.pairwise_append.mp hmono).2.2 _ ?_ _ List.mem_cons_self
      exact List.mem_map_of_mem (List.mem_of_getLast? hlast)
    have hwaits' : (r₁.addCondWaitTime (getTsc last.reading) w.finish).condWaits =
        (r.condWaits + w.rounds.length) % 2 ^ 32 := hwaits
    have htime' : (r₁.addCondWaitTime (getTsc last.reading) w.finish).condFutexWait =
        r.condFutexWait + ((w.finish.toNat : ℚ) - last.reading.toNat) / cpuFreq := by
      rw [TimedRecord.addCondWaitTime, htime, getElapsed2ms_of_le hle]
    have hfreq : cpuFreq ≠ 0 := by norm_num [cpuFreq]
    have hlast' : (∀ l ∈ w.rounds.getLast?, l.reading = first.reading) ↔
        last.reading = first.reading := by
      rw [hlast]
      simp
    rw [TimedRecord.OneWait, hwaits', htime', inc32_eq_iff, hlast']
    refine and_congr_right fun _ => ?_
    rw [add_right_inj, div_left_inj' hfreq, sub_right_inj, Nat.cast_inj, BitVec.toNat_inj]
  · cases h

/-- The condition variable after one waiter has entered, and after a signal for it. -/
def waitedOn : CondData := { totalSeq := 1, futex := 1, nwaiters := 2 }

/-- The same condition variable after a signal. -/
def signalled : CondData := condSignal waitedOn

/-- The waiter blocks when the clock shows 100, and the signal wakes it. -/
def wokenOnce : Course where
  unlockErr := 0
  cond := {}
  rounds := [⟨100, signalled⟩]
  relockRet := 0
  finish := 300

theorem cond_wait_accounting_wokenOnce :
    ∃ r', pthreadCondWait wokenOnce {} = some (0, r') ∧ TimedRecord.OneWait {} r' 100 300 := by
  have hend : pthreadCondWait wokenOnce {} = some (0, _) := rfl
  have hblocks : wokenOnce.Blocks := rfl
  have hiff := cond_wait_accounting hblocks (by decide) (by decide) hend ⟨100, signalled⟩ rfl
  exact ⟨_, hend, hiff.mpr ⟨rfl, by simp [wokenOnce]⟩⟩

/-- It is woken for nothing first, and blocks again when the clock shows 200. -/
def wokenTwice : Course := { wokenOnce with rounds := [⟨100, waitedOn⟩, ⟨200, signalled⟩] }

/-- **A spurious wake-up** is counted as one more wait, and the time before it is lost. -/
theorem wokenTwice_not_one :
    wokenTwice.Blocks ∧ wokenTwice.Monotone ∧
      ∃ r', pthreadCondWait wokenTwice {} = some (0, r') ∧ r'.condWaits = 2 ∧
        ¬ TimedRecord.OneWait {} r' 100 300 := by
  refine ⟨rfl, by decide, _, rfl, rfl, ?_⟩
  rintro ⟨hwaits, -⟩
  exact absurd hwaits (by decide)

end SyncPerf.CondVar
