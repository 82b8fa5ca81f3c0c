import SyncPerf.Interleaving
import SyncPerf.LazyInstall
import SyncPerf.Machine
import SyncPerf.MutexInit

namespace SyncPerf.Interpose

open Interleaving

/-!
# The indirection from nominal to real mutexes

The interposed calls take the address of a nominal mutex of the application, and work on the real
mutex in the slot that its first word points to.  Threads run the calls on any number of nominal
mutexes; what an operation does to the real mutex is a parameter (`RealOps`), which `realOps`
instantiates with the operations of `MutexLock`, `MutexTrylock` and `MutexUnlock`.

* `Addr` — a `pthread_mutex_t *`: a nominal mutex, or the real one in a slot;
* `Stage`, `next` — the calls, step by step, with the three ways out of a condition wait;
* `NextCase`, `next_eq_some` — what a step does.
-/

/-! ### The operations on the real mutex -/

/-- What the interposed calls ask of a real mutex. -/
inductive RealOp
  | lock
  | trylock
  | unlock
  | condRelease
  | condRelock
  | destroy
  deriving DecidableEq

/-- The operations on the real mutexes: states `σ`, program points `P`. -/
structure RealOps (ι σ P : Type) where
  /-- `pthread_mutex_init` with an attribute, on the mutex of a slot. -/
  init : ℕ → BitVec 32 → σ → ℕ × σ
  /-- Where an operation on the mutex of a slot starts. -/
  entry : RealOp → ℕ → P
  /-- One step of a thread. -/
  step : ι → Choice → P → σ → Flow P × σ
  /-- The first eight bytes of the real mutex of a slot, as `get_mutex` would read them. -/
  firstWord : σ → ℕ → ℕ

/-- The operations of the other modules, on the mutexes of `Shared`; thread `i` has kernel id
    `id i` and counts under index `index i`.  The statistics that are bumped before the prologue
    are left out. -/
def realOps {ι : Type} (id : ι → ℕ) (index : ι → ℕ) : RealOps ι SyncPerf.Shared (ℕ × PC) where
  init m mutexkind s :=
    let r := mutexInit mutexkind (s.mutexes m)
    (r.1, { s with mutexes := Function.update s.mutexes m r.2 })
  entry op m :=
    match op with
    | .lock => (m, .lock .access)
    | .trylock => (m, .trylock .access)
    | .unlock => (m, .unlock .type)
    | .condRelease => (m, .condRelease .type)
    | .condRelock => (m, .condRelock .kind)
    | .destroy => (m, .destroy .kind)
  step i ch p s :=
    let m := p.1
    let r := match p.2 with
      | .condRelease q =>
        let r := pthreadMutexUnlockUsercnt false (id i) ch.special q (s.cell m (index i))
        (r.1.map PC.condRelease, r.2)
      | pc => opStep (id i) ch pc (s.cell m (index i))
    (r.1.map fun pc => (m, pc), s.setCell m (index i) r.2)
  firstWord s m := (s.mutexes m).lock + 2 ^ 32 * (s.mutexes m).count.toNat

/-! ### The calls -/

/-- A `pthread_mutex_t *`. -/
inductive Addr (N : Type)
  | nominal (n : N)
  | real (i : ℕ)
  deriving DecidableEq

/-- The calls of the application on a nominal mutex. -/
inductive Call
  | lock
  | trylock
  | unlock
  | condWait
  | destroy
  | init (mutexkind : BitVec 32)
  deriving DecidableEq

/-- On whose behalf `get_mutex` is called, and the operation that follows.  `relock` is
    `__pthread_mutex_cond_lock` at the end of a wait with `orig_mutex = n` and
    `mutex = &_start[r].mutex`. -/
inductive Client (N : Type)
  | lock (n : N)
  | trylock (n : N)
  | unlock (n : N)
  | condWait (n : N)
  | destroy (n : N)
  | relock (n : N) (r : ℕ)
  deriving DecidableEq

namespace Client

variable {N : Type}

/-- The nominal mutex that the application named. -/
def nominal : Client N → N
  | .lock n | .trylock n | .unlock n | .condWait n | .destroy n | .relock n _ => n

def realOp : Client N → RealOp
  | .lock _ => .lock
  | .trylock _ => .trylock
  | .unlock _ => .unlock
  | .condWait _ => .condRelease
  | .destroy _ => .destroy
  | .relock _ _ => .condRelock

end Client

/-- Where a thread stands in a call. -/
inductive Stage (N P : Type)
  | idle
  | isMyMutex (k : Client N)
  | createMutex (k : Client N)
  | expected (k : Client N) (i : ℕ)
  | doubleCheck (k : Client N) (i : ℕ) (e : Option ℕ)
  | compareAndSwap (k : Client N) (i : ℕ) (e : Option ℕ)
  | getMutexAssert (k : Client N) (a : Addr N)
  | getMutexReturn (k : Client N) (a : Addr N)
  | real (k : Client N) (i : ℕ) (p : P)
  | waiting (n : N) (r : ℕ)
  | initCreate (n : N) (mutexkind : BitVec 32)
  | initStore (n : N) (mutexkind : BitVec 32) (i : ℕ)
  | initReal (n : N) (mutexkind : BitVec 32) (i : ℕ)
  | wild
  deriving DecidableEq

/-- A thread: its stage, and how often it has acquired each nominal mutex without giving it back
    (which no call reads). -/
structure Local (N P : Type) where
  stage : Stage N P := .idle
  held : N → ℕ := fun _ => 0

/-- Where the process can abort. -/
inductive Abort
  | getNextIndex
  | getMutex
  | real (a : Assert)
  deriving DecidableEq

/-- The shared state: the first words of the nominal mutexes, the pool of slots, the real mutexes.
    `live` and `touched` are for the application (no call reads them): whether a nominal mutex is
    initialised, and whether any call was made on it. -/
structure Shared (N σ : Type) where
  word : N → Option ℕ
  syncVars : RecordEntries LazyInstall.MutexT
  real : σ
  abort : Option Abort := none
  live : N → Bool
  touched : N → Bool := fun _ => false

/-- What happens next to a thread. -/
inductive Action (N : Type)
  | call (call : Call) (n : N)
  | run
  | step (ch : Choice)
  | wake
  | cancel

variable {N P σ ι : Type} [DecidableEq N]

/-- Where a call starts. -/
def Call.entry (call : Call) (n : N) : Stage N P :=
  match call with
  | .lock => .isMyMutex (.lock n)
  | .trylock => .isMyMutex (.trylock n)
  | .unlock => .getMutexAssert (.unlock n) (.nominal n)
  | .condWait => .getMutexAssert (.condWait n) (.nominal n)
  | .destroy => .getMutexAssert (.destroy n) (.nominal n)
  | .init mutexkind => .initCreate n mutexkind

/-- The fields that `create_mutex` sets in a new slot. -/
def createMutex (syncVars : RecordEntries LazyInstall.MutexT) (i : ℕ) :
    RecordEntries LazyInstall.MutexT :=
  syncVars.modifyEntry i fun m => { m with stackCount := 0, entryIndex := i }

/-- The thread after its operation on the real mutex of slot `i` has returned `code`. -/
def Local.returned (l : Local N P) (k : Client N) (i code : ℕ) : Local N P :=
  match k with
  | .lock n | .trylock n | .relock n _ =>
    if code = 0 then ⟨.idle, Function.update l.held n (l.held n + 1)⟩ else ⟨.idle, l.held⟩
  | .unlock n =>
    if code = 0 then ⟨.idle, Function.update l.held n (l.held n - 1)⟩ else ⟨.idle, l.held⟩
  | .condWait n =>
    if code = 0 then ⟨.waiting n i, Function.update l.held n (l.held n - 1)⟩ else ⟨.idle, l.held⟩
  | .destroy _ => ⟨.idle, l.held⟩

/-- A destroyed mutex is no longer initialised. -/
def Shared.returned (s : Shared N σ) (k : Client N) (code : ℕ) : Shared N σ :=
  match k with
  | .destroy n => if code = 0 then { s with live := Function.update s.live n false } else s
  | _ => s

/-- A thread whose operation on the real mutex has returned is outside, or waits. -/
theorem Local.returned_stage (l : Local N P) (k : Client N) (i code : ℕ) :
    (l.returned k i code).stage = .idle ∨
      ∃ n, k = .condWait n ∧ (l.returned k i code).stage = .waiting n i := by
  cases k with
  | condWait n =>
    by_cases hcode : code = 0
    · exact .inr ⟨n, rfl, by simp [Local.returned, hcode]⟩
    · exact .inl (by simp [Local.returned, hcode])
  | destroy n => exact .inl rfl
  | lock n | trylock n | unlock n | relock n r =>
    refine .inl ?_
    simp only [Local.returned]
    split <;> rfl

/-- A return leaves the words of the nominal mutexes alone. -/
@[simp] theorem Shared.returned_word (s : Shared N σ) (k : Client N) (code : ℕ) :
    (s.returned k code).word = s.word := by
  unfold Shared.returned
  split
  · split <;> rfl
  · rfl

/-- A return does not abort. -/
@[simp] theorem Shared.returned_abort (s : Shared N σ) (k : Client N) (code : ℕ) :
    (s.returned k code).abort = s.abort := by
  unfold Shared.returned
  split
  · split <;> rfl
  · rfl

/-- A return leaves the set of touched mutexes alone. -/
@[simp] theorem Shared.returned_touched (s : Shared N σ) (k : Client N) (code : ℕ) :
    (s.returned k code).touched = s.touched := by
  unfold Shared.returned
  split
  · split <;> rfl
  · rfl

/-- The first word at an address: whether it is set. -/
def Shared.isSet (R : RealOps ι σ P) (s : Shared N σ) : Addr N → Bool
  | .nominal n => LazyInstall.isMyMutex (s.word n)
  | .real i => R.firstWord s.real i ≠ 0

/-- One step of thread `t`. -/
def next (R : RealOps ι σ P) (t : ι) (a : Action N) (l : Local N P) (s : Shared N σ) :
    Option (Local N P × Shared N σ) :=
  if s.abort.isSome then none else
  match l.stage, a with
  | .idle, .call call n =>
    some ({ l with stage := call.entry n }, { s with touched := Function.update s.touched n true })
  -- the prologue of `pthread_mutex_lock` and `pthread_mutex_trylock`
  | .isMyMutex k, .run =>
    some ({ l with stage := if LazyInstall.isMyMutex (s.word k.nominal)
      then .getMutexAssert k (.nominal k.nominal) else .createMutex k }, s)
  | .createMutex k, .run =>
    match s.syncVars.getNextIndex with
    | (some i, r) => some ({ l with stage := .expected k i }, { s with syncVars := createMutex r i })
    | (none, r) => some (l, { s with syncVars := r, abort := some .getNextIndex })
  | .expected k i, .run => some ({ l with stage := .doubleCheck k i (s.word k.nominal) }, s)
  | .doubleCheck k i e, .run =>
    some ({ l with stage := if LazyInstall.isMyMutex (s.word k.nominal)
      then .getMutexAssert k (.nominal k.nominal) else .compareAndSwap k i e }, s)
  | .compareAndSwap k i e, .run =>
    some ({ l with stage := .getMutexAssert k (.nominal k.nominal) },
      if s.word k.nominal = e then { s with word := Function.update s.word k.nominal (some i) }
      else s)
  -- `get_mutex`
  | .getMutexAssert k addr, .run =>
    if s.isSet R addr then some ({ l with stage := .getMutexReturn k addr }, s)
    else some (l, { s with abort := some .getMutex })
  | .getMutexReturn k (.nominal n), .run =>
    (s.word n).map fun i => ({ l with stage := .real k i (R.entry k.realOp i) }, s)
  -- what a real mutex starts with is no pointer
  | .getMutexReturn _ (.real _), .run => some ({ l with stage := .wild }, s)
  -- the operation on the real mutex
  | .real k i p, .step ch =>
    match R.step t ch p s.real with
    | (.goto p', σ') => some ({ l with stage := .real k i p' }, { s with real := σ' })
    | (.ret code, σ') => some (l.returned k i code, { s with real := σ' }.returned k code)
    | (.abort x, σ') => some (l, { s with real := σ', abort := some (.real x) })
  -- the end of a wait: `__pthread_mutex_cond_lock (orig_mutex)` after a signal or a broadcast,
  -- `__pthread_mutex_cond_lock (cbuffer->mutex)` in the handler `__condvar_cleanup`
  | .waiting n r, .wake => some ({ l with stage := .getMutexAssert (.relock n r) (.nominal n) }, s)
  | .waiting n r, .cancel => some ({ l with stage := .getMutexAssert (.relock n r) (.real r) }, s)
  -- `pthread_mutex_init`
  | .initCreate n mutexkind, .run =>
    match s.syncVars.getNextIndex with
    | (some i, r) =>
      some ({ l with stage := .initStore n mutexkind i }, { s with syncVars := createMutex r i })
    | (none, r) => some (l, { s with syncVars := r, abort := some .getNextIndex })
  | .initStore n mutexkind i, .run =>
    some ({ l with stage := .initReal n mutexkind i },
      { s with word := Function.update s.word n (some i) })
  | .initReal n mutexkind i, .run =>
    let r := R.init i mutexkind s.real
    some ({ l with stage := .idle },
      { s with real := r.2, live := Function.update s.live n (r.1 = 0) })
  | _, _ => none

/-- The threads over one set of nominal mutexes. -/
def system (R : RealOps ι σ P) : System ι (Action N) (Local N P) (Shared N σ) := ⟨next R⟩

/-! ### What a step does -/

/-- The steps, one by one. -/
inductive NextCase (R : RealOps ι σ P) (t : ι) (l : Local N P) (s : Shared N σ) :
    Action N → Local N P → Shared N σ → Prop
  | call {call : Call} {n : N} (h : l.stage = .idle) :
      NextCase R t l s (.call call n) { l with stage := call.entry n }
        { s with touched := Function.update s.touched n true }
  | isMyMutex {k : Client N} {st : Stage N P} (h : l.stage = .isMyMutex k)
      (hst : st = .createMutex k ∨
        s.word k.nominal ≠ none ∧ st = .getMutexAssert k (.nominal k.nominal)) :
      NextCase R t l s .run { l with stage := st } s
  | created {k : Client N} {i : ℕ} {r : RecordEntries LazyInstall.MutexT}
      (h : l.stage = .createMutex k) :
      NextCase R t l s .run { l with stage := .expected k i } { s with syncVars := r }
  | usedUp {r : RecordEntries LazyInstall.MutexT}
      (h : (∃ k, l.stage = .createMutex k) ∨ ∃ n mutexkind, l.stage = .initCreate n mutexkind) :
      NextCase R t l s .run l { s with syncVars := r, abort := some .getNextIndex }
  | expected {k : Client N} {i : ℕ} (h : l.stage = .expected k i) :
      NextCase R t l s .run { l with stage := .doubleCheck k i (s.word k.nominal) } s
  | doubleCheck {k : Client N} {i : ℕ} {e : Option ℕ} {st : Stage N P}
      (h : l.stage = .doubleCheck k i e)
      (hst : s.word k.nominal = none ∧ st = .compareAndSwap k i e ∨
        s.word k.nominal ≠ none ∧ st = .getMutexAssert k (.nominal k.nominal)) :
      NextCase R t l s .run { l with stage := st } s
  | installed {k : Client N} {i : ℕ} (h : l.stage = .compareAndSwap k i (s.word k.nominal)) :
      NextCase R t l s .run { l with stage := .getMutexAssert k (.nominal k.nominal) }
        { s with word := Function.update s.word k.nominal (some i) }
  | lost {k : Client N} {i : ℕ} {e : Option ℕ} (h : l.stage = .compareAndSwap k i e)
      (he : s.word k.nominal ≠ e) :
      NextCase R t l s .run { l with stage := .getMutexAssert k (.nominal k.nominal) } s
  | asserted {k : Client N} {addr : Addr N} (h : l.stage = .getMutexAssert k addr)
      (hset : s.isSet R addr = true) :
      NextCase R t l s .run { l with stage := .getMutexReturn k addr } s
  | failed {k : Client N} {addr : Addr N} (h : l.stage = .getMutexAssert k addr)
      (hset : s.isSet R addr = false) :
      NextCase R t l s .run l { s with abort := some .getMutex }
  | got {k : Client N} {n : N} {i : ℕ} (h : l.stage = .getMutexReturn k (.nominal n))
      (hw : s.word n = some i) :
      NextCase R t l s .run { l with stage := .real k i (R.entry k.realOp i) } s
  | wild {k : Client N} {i : ℕ} (h : l.stage = .getMutexReturn k (.real i)) :
      NextCase R t l s .run { l with stage := .wild } s
  | step {k : Client N} {i : ℕ} {p p' : P} {ch : Choice} {σ' : σ} (h : l.stage = .real k i p) :
      NextCase R t l s (.step ch) { l with stage := .real k i p' } { s with real := σ' }
  | returned {k : Client N} {i code : ℕ} {p : P} {ch : Choice} {σ' : σ}
      (h : l.stage = .real k i p) :
      NextCase R t l s (.step ch) (l.returned k i code) ({ s with real := σ' }.returned k code)
  | aborted {k : Client N} {i : ℕ} {p : P} {ch : Choice} {x : Assert} {σ' : σ}
      (h : l.stage = .real k i p) :
      NextCase R t l s (.step ch) l { s with real := σ', abort := some (.real x) }
  | wake {n : N} {r : ℕ} (h : l.stage = .waiting n r) :
      NextCase R t l s .wake { l with stage := .getMutexAssert (.relock n r) (.nominal n) } s
  | cancel {n : N} {r : ℕ} (h : l.stage = .waiting n r) :
      NextCase R t l s .cancel { l with stage := .getMutexAssert (.relock n r) (.real r) } s
  | initCreated {n : N} {mutexkind : BitVec 32} {i : ℕ} {r : RecordEntries LazyInstall.MutexT}
      (h : l.stage = .initCreate n mutexkind) :
      NextCase R t l s .run { l with stage := .initStore n mutexkind i } { s with syncVars := r }
  | initStored {n : N} {mutexkind : BitVec 32} {i : ℕ} (h : l.stage = .initStore n mutexkind i) :
      NextCase R t l s .run { l with stage := .initReal n mutexkind i }
        { s with word := Function.update s.word n (some i) }
  | initialised {n : N} {mutexkind : BitVec 32} {i : ℕ} {σ' : σ} {live : Bool}
      (h : l.stage = .initReal n mutexkind i) :
      NextCase R t l s .run { l with stage := .idle }
        { s with real := σ', live := Function.update s.live n live }

/-- `is_my_mutex` is the test for an installed mutex. -/
theorem isMyMutex_iff {w : Option ℕ} : LazyInstall.isMyMutex w = true ↔ w ≠ none := by
  cases w <;> simp [LazyInstall.isMyMutex]

/-- A step is one of the cases, in a process that has not aborted. -/
theorem next_eq_some {R : RealOps ι σ P} {t : ι} {a : Action N} {l l' : Local N P}
    {s s' : Shared N σ} (h : next R t a l s = some (l', s')) :
    s.abort = none ∧ NextCase R t l s a l' s' := by
  unfold next at h
  split at h
  · exact absurd h (by simp)
  rename_i hab
  refine ⟨by simpa using hab, ?_⟩
  split at h
  · rename_i call n hl
    obtain ⟨rfl, rfl⟩ := Prod.mk.inj (Option.some.inj h)
    exact .call hl
  · rename_i k hl
    obtain ⟨rfl, rfl⟩ := Prod.mk.inj (Option.some.inj h)
    refine .isMyMutex hl ?_
    split
    · rename_i hset
      exact .inr ⟨isMyMutex_iff.mp hset, rfl⟩
    · exact .inl rfl
  · rename_i k hl
    split at h <;> obtain ⟨rfl, rfl⟩ := Prod.mk.inj (Option.some.inj h)
    · exact .created hl
    · exact .usedUp (.inl ⟨k, hl⟩)
  · rename_i k i hl
    obtain ⟨rfl, rfl⟩ := Prod.mk.inj (Option.some.inj h)
    exact .expected hl
  · rename_i k i e hl
    obtain ⟨rfl, rfl⟩ := Prod.mk.inj (Option.some.inj h)
    refine .doubleCheck hl ?_
    split
    · rename_i hset
      exact .inr ⟨isMyMutex_iff.mp hset, rfl⟩
    · rename_i hset
      exact .inl ⟨by simpa [isMyMutex_iff] using hset, rfl⟩
  · rename_i k i e hl
    obtain ⟨rfl, rfl⟩ := Prod.mk.inj (Option.some.inj h)
    split
    · rename_i he
      exact .installed (he ▸ hl)
    · rename_i he
      exact .lost hl he
  · rename_i k addr hl
    split at h <;> obtain ⟨rfl, rfl⟩ := Prod.mk.inj (Option.some.inj h)
    · rename_i hset
      exact .asserted hl hset
    · rename_i hset
      exact .failed hl (eq_false_of_ne_true hset)
  · rename_i k n hl
    obtain ⟨i, hw, heq⟩ := Option.map_eq_some_iff.mp h
    obtain ⟨rfl, rfl⟩ := Prod.mk.inj heq
    exact .got hl hw
  · rename_i k i hl
    obtain ⟨rfl, rfl⟩ := Prod.mk.inj (Option.some.inj h)
    exact .wild hl
  · rename_i k i p ch hl
    split at h <;> obtain ⟨rfl, rfl⟩ := Prod.mk.inj (Option.some.inj h)
    · exact .step hl
    · exact .returned hl
    · exact .aborted hl
  · rename_i n r hl
    obtain ⟨rfl, rfl⟩ := Prod.mk.inj (Option.some.inj h)
    exact .wake hl
  · rename_i n r hl
    obtain ⟨rfl, rfl⟩ := Prod.mk.inj (Option.some.inj h)
    exact .cancel hl
  · rename_i n mutexkind hl
    split at h <;> obtain ⟨rfl, rfl⟩ := Prod.mk.inj (Option.some.inj h)
    · exact .initCreated hl
    · exact .usedUp (.inr ⟨n, mutexkind, hl⟩)
  · rename_i n mutexkind i hl
    obtain ⟨rfl, rfl⟩ := Prod.mk.inj (Option.some.inj h)
    exact .initStored hl
  · rename_i n mutexkind i hl
    obtain ⟨rfl, rfl⟩ := Prod.mk.inj (Option.some.inj h)
    exact .initialised hl
  · exact absurd h (by simp)

/-- Nominal words are never reset. -/
theorem NextCase.word_ne_none {R : RealOps ι σ P} {t : ι} {a : Action N} {l l' : Local N P}
    {s s' : Shared N σ} (h : NextCase R t l s a l' s') (n : N) (hn : s.word n ≠ none) :
    s'.word n ≠ none := by
  have hset : ∀ n' i, Function.update s.word n' (some i) n ≠ none := by
    intro n' i
    by_cases hnn : n = n'
    · rw [hnn, Function.update_self]
      simp
    · rw [Function.update_of_ne hnn]
      exact hn
  cases h with
  | installed hst => exact hset _ _
  | initStored hst => exact hset _ _
  | returned hst =>
    rw [Shared.returned_word]
    exact hn
  | _ => exact hn

end SyncPerf.Interpose
