import SyncPerf.Interleaving
import SyncPerf.RecordEntries
import Mathlib.Data.List.Nodup
import Mathlib.Data.List.Range

namespace SyncPerf.LazyInstall

open Interleaving

/-!
# Lazy installation of the real mutex

`pthread_mutex_lock` and `pthread_mutex_trylock` start with the same prologue: test the first
word of the nominal mutex, create a slot when it is zero (`createMutex`), publish the slot with
a compare-and-swap (`setSyncEntry`), and read the word again (`getMutex`).  Every shared access
of the prologue is a step of its own here, so any number of threads can stand at any of them.

* `Heap` — the nominal words, the slot pool and the records the counters live in;
* `next` — the prologue, step by step, followed by the counting that uses the slot;
* `Inv` — what ties the nominal words, every thread's program point and the pool together;
* `lazyInstall_agreed` — all threads agree on one slot per nominal mutex.
-/

/-- The fields of `mutex_t` that `create_mutex` sets. -/
structure MutexT where
  entryIndex : ℕ := 0
  stackCount : ℕ := 0
  deriving DecidableEq

/-- Where the process can abort: the exhausted pool, or the assertion of `get_mutex`. -/
inductive Abort
  | getNextIndex
  | getMutex
  deriving DecidableEq

/-- The shared state: the first word of each nominal mutex (`none` is `NULL`, `some i` is
    `&_start[i]`), the pool `sync_vars`, and the record of each (slot, thread). -/
structure Heap (N T : Type) where
  word : N → Option ℕ
  syncVars : RecordEntries MutexT
  records : ℕ → T → ThreadMutex
  abort : Option Abort

/-- The program points of the prologue on the nominal mutex `n`.  `i` is the created slot,
    `e` the value of `expected`, `v` the pointer that `get_mutex` returned. -/
inductive PC (N : Type)
  | idle
  | isMyMutex (n : N)
  | getNextIndex (n : N)
  | stackCount (n : N) (i : ℕ)
  | entryIndex (n : N) (i : ℕ)
  | expected (n : N) (i : ℕ)
  | doubleCheck (n : N) (i : ℕ) (e : Option ℕ)
  | compareAndSwap (n : N) (i : ℕ) (e : Option ℕ)
  | getMutexAssert (n : N)
  | getMutexReturn (n : N)
  | got (n : N) (v : Option ℕ)
  | counting (n : N) (v : Option ℕ) (entry : ℕ)
  deriving DecidableEq

/-- What the program decides: which nominal mutex is locked next, which counter the rest of
    the operation bumps, and when the operation ends. -/
inductive Action (N : Type)
  | call (n : N)
  | run
  | count (k : Counter)
  | ret

variable {N T : Type}

section Model

variable [DecidableEq N] [DecidableEq T]

/-- `is_my_mutex`: is the first word set? -/
def isMyMutex (w : Option ℕ) : Bool := w.isSome

/-- `inc_access_count` and its siblings, on the record of slot entry `e` and thread `t`. -/
def incCount (records : ℕ → T → ThreadMutex) (e : ℕ) (t : T) (k : Counter) :
    ℕ → T → ThreadMutex :=
  fun e' t' => if e' = e ∧ t' = t then (records e t).set k (inc32 ((records e t).get k))
    else records e' t'

/-- One atomic step of thread `t`. -/
def next (t : T) (a : Action N) (l : PC N) (s : Heap N T) : Option (PC N × Heap N T) :=
  if s.abort.isSome then none else
  match l, a with
  | .idle, .call n => some (.isMyMutex n, s)
  -- `if (!is_my_mutex(mutex))`
  | .isMyMutex n, .run =>
    some (if isMyMutex (s.word n) then .getMutexAssert n else .getNextIndex n, s)
  -- `create_mutex`
  | .getNextIndex n, .run =>
    match s.syncVars.getNextIndex with
    | (some i, r) => some (.stackCount n i, { s with syncVars := r })
    | (none, r) => some (.idle, { s with syncVars := r, abort := some .getNextIndex })
  | .stackCount n i, .run =>
    some (.entryIndex n i,
      { s with syncVars := s.syncVars.modifyEntry i fun m => { m with stackCount := 0 } })
  | .entryIndex n i, .run =>
    some (.expected n i,
      { s with syncVars := s.syncVars.modifyEntry i fun m => { m with entryIndex := i } })
  -- `setSyncEntry`: load `expected`, double check, compare-and-swap
  | .expected n i, .run => some (.doubleCheck n i (s.word n), s)
  | .doubleCheck n i e, .run =>
    some (if isMyMutex (s.word n) then .getMutexAssert n else .compareAndSwap n i e, s)
  | .compareAndSwap n i e, .run =>
    some (.getMutexAssert n,
      if s.word n = e then { s with word := Function.update s.word n (some i) } else s)
  -- `get_mutex`: the assertion loads the word, `return *tmp` loads it again
  | .getMutexAssert n, .run =>
    if isMyMutex (s.word n) then some (.getMutexReturn n, s)
    else some (.idle, { s with abort := some .getMutex })
  | .getMutexReturn n, .run => some (.got n (s.word n), s)
  -- `mutex_data->entry_index`, then the counters of that entry
  | .got n v, .run => v.map fun p => (.counting n v (s.syncVars.start p).entryIndex, s)
  | .counting n v e, .count k =>
    some (.counting n v e, { s with records := incCount s.records e t k })
  | .counting _ _ _, .ret => some (.idle, s)
  | _, _ => none

/-- The threads running prologues over one heap. -/
def system : System T (Action N) (PC N) (Heap N T) := ⟨next⟩

end Model

/-- The start: every thread outside, every nominal word zero, and the records of the slots
    that are still to be handed out zero, as `mmap` left them. -/
structure Initial (c : Config T (PC N) (Heap N T)) : Prop where
  idle : ∀ t, c.loc t = .idle
  word : ∀ n, c.sh.word n = none
  cur : c.sh.syncVars.cur ≤ c.sh.syncVars.total
  records : ∀ i t, c.sh.syncVars.cur ≤ i → c.sh.records i t = {}
  abort : c.sh.abort = none

/-- What happened in a run. -/
abbrev Trace (N T : Type) := List (Event T (Action N) (PC N) (Heap N T))

/-- The slot that a step hands out, with the nominal mutex it was created for. -/
def handedOutBy (x : Event T (Action N) (PC N) (Heap N T)) : Option (N × ℕ) :=
  match x.pre.loc x.who with
  | .getNextIndex n => x.pre.sh.syncVars.getNextIndex.1.map fun i => (n, i)
  | _ => none

/-- The slots handed out by `create_mutex` during a run, in order. -/
def handedOut (tr : Trace N T) : List (N × ℕ) := tr.filterMap handedOutBy

/-! ### The invariant -/

/-- What a thread at a program point knows, `H` being the slots handed out so far. -/
def PcOk (H : List (N × ℕ)) (s : Heap N T) : PC N → Prop
  | .idle | .isMyMutex _ | .getNextIndex _ => True
  | .stackCount n i | .entryIndex n i => (n, i) ∈ H
  | .expected n i => (n, i) ∈ H ∧ (s.syncVars.start i).entryIndex = i
  | .doubleCheck n i e =>
    (n, i) ∈ H ∧ (s.syncVars.start i).entryIndex = i ∧ ∀ p, e = some p → s.word n = some p
  | .compareAndSwap n i e => (n, i) ∈ H ∧ (s.syncVars.start i).entryIndex = i ∧ e = none
  | .getMutexAssert n | .getMutexReturn n => ∃ p, s.word n = some p
  | .got n v => ∃ p, v = some p ∧ s.word n = some p
  | .counting n v e => v = some e ∧ s.word n = some e

/-- How the heap may change under a thread's feet: an installed word stays, and so does an
    entry index once it is the entry's own. -/
structure Extends (s s' : Heap N T) : Prop where
  word : ∀ n p, s.word n = some p → s'.word n = some p
  entry : ∀ i, (s.syncVars.start i).entryIndex = i → (s'.syncVars.start i).entryIndex = i

theorem Extends.refl (s : Heap N T) : Extends s s := ⟨fun _ _ h => h, fun _ h => h⟩

/-- What a thread knows is stable under the other threads' steps. -/
theorem PcOk.mono {H H' : List (N × ℕ)} {s s' : Heap N T} {l : PC N} (hH : H ⊆ H')
    (hs : Extends s s') (h : PcOk H s l) : PcOk H' s' l := by
  cases l
  case idle => trivial
  case isMyMutex n => trivial
  case getNextIndex n => trivial
  case stackCount n i => exact hH h
  case entryIndex n i => exact hH h
  case expected n i => exact ⟨hH h.1, hs.entry i h.2⟩
  case doubleCheck n i e =>
    exact ⟨hH h.1, hs.entry i h.2.1, fun p hp => hs.word n p (h.2.2 p hp)⟩
  case compareAndSwap n i e => exact ⟨hH h.1, hs.entry i h.2.1, h.2.2⟩
  case getMutexAssert n =>
    obtain ⟨p, hp⟩ := h
    exact ⟨p, hs.word n p hp⟩
  case getMutexReturn n =>
    obtain ⟨p, hp⟩ := h
    exact ⟨p, hs.word n p hp⟩
  case got n v =>
    obtain ⟨p, hv, hp⟩ := h
    exact ⟨p, hv, hs.word n p hp⟩
  case counting n v e => exact ⟨h.1, hs.word n e h.2⟩

/-- Writing the fields of an entry keeps every entry index that is already the entry's own,
    as long as the only index written into entry `i` is `i`. -/
theorem extends_modifyEntry (s : Heap N T) (i : ℕ) (f : MutexT → MutexT)
    (hf : (s.syncVars.start i).entryIndex = i → (f (s.syncVars.start i)).entryIndex = i) :
    Extends s { s with syncVars := s.syncVars.modifyEntry i f } := by
  refine ⟨fun _ _ h => h, fun j hj => ?_⟩
  by_cases hij : j = i
  · subst hij
    simpa using hf hj
  · simpa [RecordEntries.modifyEntry_start_ne _ f hij] using hj

/-- Installing into a zero word keeps every installed word. -/
theorem extends_install [DecidableEq N] (s : Heap N T) (n : N) (i : ℕ) (hn : s.word n = none) :
    Extends s { s with word := Function.update s.word n (some i) } := by
  refine ⟨fun m p h => ?_, fun _ h => h⟩
  have hmn : m ≠ n := by
    rintro rfl
    rw [hn] at h
    exact absurd h (by simp)
  simpa [hmn] using h

/-- What one step does to the heap `s`, `o` being the slot it hands out (if any): nothing
    installed is lost, a word that changes is set to a slot handed out for it that carries its
    own index, a record that changes is the one of an installed slot, and unless the pool
    aborts the cursor counts the slots and the thread knows what its next point asks for. -/
structure NextSpec (H : List (N × ℕ)) (o : Option (N × ℕ)) (s : Heap N T) (l' : PC N)
    (s' : Heap N T) : Prop where
  ext : Extends s s'
  word : ∀ n p, s'.word n = some p →
    s.word n = some p ∨ ((n, p) ∈ H ∧ (s'.syncVars.start p).entryIndex = p)
  records : ∀ i t, s'.records i t ≠ s.records i t → ∃ n, s.word n = some i
  total : s'.syncVars.total = s.syncVars.total
  assertion : s'.abort ≠ some .getMutex
  cur : s'.abort = none → s'.syncVars.cur = s.syncVars.cur + o.toList.length
  slot : ∀ x, o = some x → x.2 = s.syncVars.cur ∧ x.2 < s.syncVars.total
  pc : s'.abort = none → PcOk (H ++ o.toList) s' l'

/-- A step that hands out no slot and changes no word, record or cursor. -/
theorem NextSpec.of_quiet {H : List (N × ℕ)} {s s' : Heap N T} {l' : PC N} (hext : Extends s s')
    (hword : s'.word = s.word) (hrec : s'.records = s.records)
    (htot : s'.syncVars.total = s.syncVars.total) (hcur : s'.syncVars.cur = s.syncVars.cur)
    (hab : s'.abort = none) (hpc : PcOk H s' l') : NextSpec H none s l' s' where
  ext := hext
  word := fun n p h => Or.inl (by rwa [hword] at h)
  records := fun i t h => absurd (by rw [hrec]) h
  total := htot
  assertion := by simp [hab]
  cur := fun _ => by simp [hcur]
  slot := fun _ h => absurd h (by simp)
  pc := fun _ => by simpa using hpc

/-- A step that only loads. -/
theorem NextSpec.of_load {H : List (N × ℕ)} {s : Heap N T} {l' : PC N} (hab : s.abort = none)
    (hpc : PcOk H s l') : NextSpec H none s l' s :=
  .of_quiet (.refl s) rfl rfl rfl rfl hab hpc

/-- `get_next_index`, within the pool or past its end. -/
theorem nextSpec_getNextIndex (H : List (N × ℕ)) (n : N) {s s' : Heap N T} {l' : PC N}
    (hab : s.abort = none) (hcur : s.syncVars.cur ≤ s.syncVars.total)
    (h : (match s.syncVars.getNextIndex with
      | (some i, r) => some (PC.stackCount n i, { s with syncVars := r })
      | (none, r) => some (.idle, { s with syncVars := r, abort := some .getNextIndex })) =
        some (l', s')) :
    NextSpec H (s.syncVars.getNextIndex.1.map fun i => (n, i)) s l' s' := by
  rcases Nat.lt_or_eq_of_le hcur with hlt | heq
  · have hget := s.syncVars.getNextIndex_of_lt hlt
    rw [hget] at h ⊢
    simp only [Option.some.injEq, Prod.mk.injEq] at h
    obtain ⟨rfl, rfl⟩ := h
    exact {
      ext := ⟨fun _ _ h => h, fun _ h => h⟩
      word := fun _ _ h => Or.inl h
      records := fun _ _ h => absurd rfl h
      total := rfl
      assertion := by simp [hab]
      cur := fun _ => rfl
      slot := by
        rintro x ⟨⟩
        exact ⟨rfl, hlt⟩
      pc := fun _ => by simp [PcOk] }
  · have hget := s.syncVars.getNextIndex_of_eq heq
    rw [hget] at h ⊢
    simp only [Option.some.injEq, Prod.mk.injEq] at h
    obtain ⟨rfl, rfl⟩ := h
    exact {
      ext := ⟨fun _ _ h => h, fun _ h => h⟩
      word := fun _ _ h => Or.inl h
      records := fun _ _ h => absurd rfl h
      total := rfl
      assertion := by simp
      cur := fun h => absurd h (by simp)
      slot := fun _ h => absurd h (by simp)
      pc := fun h => absurd h (by simp) }

section Step

variable [DecidableEq N] [DecidableEq T]

/-- **One step of one thread.** -/
theorem next_spec {H : List (N × ℕ)} {t : T} {a : Action N} {l l' : PC N} {s s' : Heap N T}
    (h : next t a l s = some (l', s')) (hl : PcOk H s l)
    (hw : ∀ n p, s.word n = some p → (n, p) ∈ H ∧ (s.syncVars.start p).entryIndex = p)
    (hcur : s.syncVars.cur ≤ s.syncVars.total) :
    s.abort = none ∧ NextSpec H (handedOutBy ⟨⟨fun _ => l, s⟩, t, a⟩) s l' s' := by
  unfold next at h
  split at h
  · exact absurd h (by simp)
  rename_i hab
  replace hab : s.abort = none := by simpa using hab
  refine ⟨hab, ?_⟩
  cases l <;> cases a <;> simp only [reduceCtorEq, Option.some.injEq, Prod.mk.injEq] at h
  case idle.call n =>
    obtain ⟨rfl, rfl⟩ := h
    exact .of_load hab trivial
  case isMyMutex.run n =>
    obtain ⟨rfl, rfl⟩ := h
    refine .of_load hab ?_
    split
    · rename_i hset
      exact Option.isSome_iff_exists.mp hset
    · trivial
  case getNextIndex.run n => exact nextSpec_getNextIndex H n hab hcur h
  case stackCount.run n i =>
    obtain ⟨rfl, rfl⟩ := h
    exact .of_quiet (extends_modifyEntry s i _ fun hi => hi) rfl rfl rfl rfl hab hl
  case entryIndex.run n i =>
    obtain ⟨rfl, rfl⟩ := h
    exact .of_quiet (extends_modifyEntry s i _ fun _ => rfl) rfl rfl rfl rfl hab ⟨hl, by simp⟩
  case expected.run n i =>
    obtain ⟨rfl, rfl⟩ := h
    exact .of_load hab ⟨hl.1, hl.2, fun p hp => hp⟩
  case doubleCheck.run n i e =>
    obtain ⟨rfl, rfl⟩ := h
    refine .of_load hab ?_
    split
    · rename_i hset
      exact Option.isSome_iff_exists.mp hset
    · -- the double check read zero, so `expected` was read as zero before it
      rename_i hunset
      refine ⟨hl.1, hl.2.1, ?_⟩
      cases e with
      | none => rfl
      | some p => exact absurd (by simp [isMyMutex, hl.2.2 p rfl]) hunset
  case compareAndSwap.run n i e =>
    obtain ⟨rfl, rfl⟩ := h
    obtain ⟨hH, hentry, rfl⟩ := hl
    by_cases hn : s.word n = none
    · rw [if_pos hn]
      exact {
        ext := extends_install s n i hn
        word := by
          intro m p hp
          by_cases hm : m = n
          · subst hm
            have hip : i = p := by simpa using hp
            subst hip
            exact Or.inr ⟨hH, hentry⟩
          · exact Or.inl (by simpa [hm] using hp)
        records := fun _ _ h => absurd rfl h
        total := rfl
        assertion := by simp [hab]
        cur := fun _ => rfl
        slot := fun _ h => absurd h (by simp [handedOutBy])
        pc := fun _ => ⟨i, by simp⟩ }
    · rw [if_neg hn]
      exact .of_load hab (Option.ne_none_iff_exists'.mp hn)
  case getMutexAssert.run n =>
    obtain ⟨p, hp⟩ := hl
    rw [if_pos (by simp [isMyMutex, hp])] at h
    simp only [Option.some.injEq, Prod.mk.injEq] at h
    obtain ⟨rfl, rfl⟩ := h
    exact .of_load hab ⟨p, hp⟩
  case getMutexReturn.run n =>
    obtain ⟨rfl, rfl⟩ := h
    obtain ⟨p, hp⟩ := hl
    exact .of_load hab ⟨p, hp, hp⟩
  case got.run n v =>
    obtain ⟨p, rfl, hp⟩ := hl
    simp only [Option.map_some, Option.some.injEq, Prod.mk.injEq] at h
    obtain ⟨rfl, rfl⟩ := h
    rw [(hw n p hp).2]
    exact .of_load hab ⟨rfl, hp⟩
  case counting.count n v e k =>
    obtain ⟨rfl, rfl⟩ := h
    exact {
      ext := ⟨fun _ _ h => h, fun _ h => h⟩
      word := fun _ _ h => Or.inl h
      records := by
        intro i u hne
        by_cases hi : i = e
        · subst hi
          exact ⟨n, hl.2⟩
        · exact absurd (by simp [incCount, hi]) hne
      total := rfl
      assertion := by simp [hab]
      cur := fun _ => rfl
      slot := fun _ h => absurd h (by simp [handedOutBy])
      pc := fun _ => by simpa [handedOutBy, PcOk] using hl }
  case counting.ret n v e =>
    obtain ⟨rfl, rfl⟩ := h
    exact .of_load hab trivial

/-- No step is taken after an abort. -/
theorem next_running {t : T} {a : Action N} {l : PC N} {s : Heap N T} {r : PC N × Heap N T}
    (h : next t a l s = some r) : s.abort = none := by
  unfold next at h
  split at h
  · exact absurd h (by simp)
  · rename_i hab
    simpa using hab

end Step

/-! ### Runs -/

/-- The invariant of a run that started at cursor `k₀` with `tot` entries: the slots handed out
    are the indices from `k₀` on, every installed word is one of them, every thread knows what
    its program point asks for, and a record in use belongs to an installed slot. -/
structure Inv (k₀ tot : ℕ) (tr : Trace N T) (c : Config T (PC N) (Heap N T)) : Prop where
  total : c.sh.syncVars.total = tot
  indices : (handedOut tr).map Prod.snd = List.range' k₀ (handedOut tr).length
  le : k₀ + (handedOut tr).length ≤ tot
  cur : c.sh.abort = none → c.sh.syncVars.cur = k₀ + (handedOut tr).length
  word : ∀ n p, c.sh.word n = some p →
    (n, p) ∈ handedOut tr ∧ (c.sh.syncVars.start p).entryIndex = p
  pc : c.sh.abort = none → ∀ t, PcOk (handedOut tr) c.sh (c.loc t)
  records : ∀ i t, k₀ ≤ i → c.sh.records i t ≠ {} → ∃ n, c.sh.word n = some i
  assertion : c.sh.abort ≠ some .getMutex

theorem Inv.initial {c : Config T (PC N) (Heap N T)} (h : Initial c) :
    Inv c.sh.syncVars.cur c.sh.syncVars.total [] c where
  total := rfl
  indices := rfl
  le := by simpa [handedOut] using h.cur
  cur := fun _ => rfl
  word := fun n p hp => absurd hp (by simp [h.word n])
  pc := fun _ t => by rw [h.idle t]; trivial
  records := fun i t hi hr => absurd (h.records i t hi) hr
  assertion := by simp [h.abort]

theorem handedOut_append_singleton (tr : Trace N T) (x : Event T (Action N) (PC N) (Heap N T)) :
    handedOut (tr ++ [x]) = handedOut tr ++ (handedOutBy x).toList := by
  unfold handedOut
  rw [List.filterMap_append]
  cases h : handedOutBy x <;> simp [h]

/-- The slots handed out are pairwise distinct. -/
theorem Inv.nodup {k₀ tot : ℕ} {tr : Trace N T} {c : Config T (PC N) (Heap N T)}
    (hI : Inv k₀ tot tr c) : ((handedOut tr).map Prod.snd).Nodup := by
  rw [hI.indices]
  exact List.nodup_range'

/-- A slot is handed out for one nominal mutex only. -/
theorem Inv.slot_unique {k₀ tot : ℕ} {tr : Trace N T} {c : Config T (PC N) (Heap N T)}
    (hI : Inv k₀ tot tr c) {n m : N} {i : ℕ} (hn : (n, i) ∈ handedOut tr)
    (hm : (m, i) ∈ handedOut tr) : n = m :=
  congrArg Prod.fst (List.inj_on_of_nodup_map hI.nodup hn hm rfl)

variable [DecidableEq N] [DecidableEq T]

/-- **Every step keeps the invariant**, and extends the heap. -/
theorem Inv.step {k₀ tot : ℕ} {tr : Trace N T} {c d : Config T (PC N) (Heap N T)} {t : T}
    {a : Action N} (hI : Inv k₀ tot tr c) (h : system.step c t a = some d) :
    Inv k₀ tot (tr ++ [⟨c, t, a⟩]) d ∧ Extends c.sh d.sh := by
  obtain ⟨l', s', hnext, rfl⟩ := System.step_eq_some.mp h
  have hab : c.sh.abort = none := next_running hnext
  have hcur := hI.cur hab
  have htot := hI.total
  have hle := hI.le
  -- what the step does to the heap is said once, for all the fields of the invariant
  obtain ⟨-, hspec⟩ := next_spec hnext (hI.pc hab t) hI.word (by omega)
  rw [show handedOutBy ⟨⟨fun _ => c.loc t, c.sh⟩, t, a⟩ = handedOutBy ⟨c, t, a⟩ from rfl] at hspec
  refine ⟨?_, hspec.ext⟩
  have hH := handedOut_append_singleton tr ⟨c, t, a⟩
  have hsub : handedOut tr ⊆ handedOut (tr ++ [⟨c, t, a⟩]) := by
    rw [hH]
    exact List.subset_append_left _ _
  exact {
    total := by rw [← htot]; exact hspec.total
    indices := by
      rw [hH]
      cases ho : handedOutBy ⟨c, t, a⟩ with
      | none => simpa using hI.indices
      | some x =>
        have hx := (hspec.slot x ho).1
        simp only [Option.toList_some, List.map_append, List.map_cons, List.map_nil,
          List.length_append, List.length_singleton, hI.indices, hx, hcur]
        rw [List.range'_concat]
        simp
    le := by
      rw [hH]
      cases ho : handedOutBy ⟨c, t, a⟩ with
      | none => simpa using hle
      | some x =>
        have hx := hspec.slot x ho
        simp only [Option.toList_some, List.length_append, List.length_singleton]
        omega
    cur := fun hs => by
      rw [hspec.cur hs, hcur, hH, List.length_append]
      omega
    word := fun n p hp => by
      rcases hspec.word n p hp with hold | ⟨hnew, hentry⟩
      · have hw := hI.word n p hold
        exact ⟨hsub hw.1, hspec.ext.entry p hw.2⟩
      · exact ⟨hsub hnew, hentry⟩
    pc := fun hs => by
      refine forall_update ?_ fun u _ => (hI.pc hab u).mono hsub hspec.ext
      rw [hH]
      exact hspec.pc hs
    records := fun i u hi hr => by
      have hused : ∃ n, c.sh.word n = some i := by
        by_cases hsame : s'.records i u = c.sh.records i u
        · exact hI.records i u hi (by rwa [← hsame])
        · exact hspec.records i u hsame
      obtain ⟨n, hn⟩ := hused
      exact ⟨n, hspec.ext.word n i hn⟩
    assertion := hspec.assertion }

/-- **Every run keeps the invariant**, and extends the heap it started from. -/
theorem Inv.run {k₀ tot : ℕ} {tr tr' : Trace N T} {c d : Config T (PC N) (Heap N T)}
    (hI : Inv k₀ tot tr c) (h : Run system c tr' d) :
    Inv k₀ tot (tr ++ tr') d ∧ Extends c.sh d.sh := by
  refine h.history (I := fun tr' d => Inv k₀ tot (tr ++ tr') d ∧ Extends c.sh d.sh) ?_ ?_
  · exact ⟨by simpa using hI, .refl _⟩
  · rintro tr' d t a e ⟨hd, hext⟩ hs
    obtain ⟨he, hext'⟩ := hd.step hs
    rw [← List.append_assoc]
    exact ⟨he, fun n p hp => hext'.word n p (hext.word n p hp),
      fun i hi => hext'.entry i (hext.entry i hi)⟩

/-- A run that has not aborted had not aborted at any point before. -/
theorem run_running {tr : Trace N T} {c d : Config T (PC N) (Heap N T)}
    (h : Run system c tr d) (hd : d.sh.abort = none) : c.sh.abort = none := by
  induction h with
  | refl => exact hd
  | snoc _ hs ih =>
    obtain ⟨_, _, hnext, _⟩ := System.step_eq_some.mp hs
    exact ih (next_running hnext)

/-- **All threads agree on the real mutex.**  Along any interleaving of prologues in which the
    pool never aborts, `c` and `c'` being any two configurations of the run in this order: the
    assertion of `get_mutex` holds; a nominal word, once it left zero, keeps its slot; every
    `get_mutex` returns that slot; the slots handed out are pairwise distinct, below `_total`,
    and carry their own index once published; and a slot that lost the race is never returned
    by `get_mutex` and its counters stay zero. -/
theorem lazyInstall_agreed {c₀ c c' : Config T (PC N) (Heap N T)} {tr tr' : Trace N T}
    (h₀ : Initial c₀) (hrun : Run system c₀ tr c) (hrun' : Run system c tr' c')
    (hpool : c'.sh.abort ≠ some .getNextIndex) :
    c'.sh.abort = none ∧
    (∀ n p, c.sh.word n = some p → c'.sh.word n = some p) ∧
    (∀ t n v, c.loc t = .got n v → ∃ p, v = some p ∧ c'.sh.word n = some p) ∧
    ((handedOut (tr ++ tr')).map Prod.snd).Nodup ∧
    (∀ x ∈ handedOut (tr ++ tr'), x.2 < c₀.sh.syncVars.total) ∧
    (∀ n p, c'.sh.word n = some p →
      (n, p) ∈ handedOut (tr ++ tr') ∧ (c'.sh.syncVars.start p).entryIndex = p) ∧
    (∀ n i p, (n, i) ∈ handedOut tr → c.sh.word n = some p → i ≠ p →
      (∀ t m, c'.loc t ≠ .got m (some i)) ∧ ∀ t, c'.sh.records i t = {}) := by
  obtain ⟨hI, -⟩ := (Inv.initial h₀).run hrun
  simp only [List.nil_append] at hI
  obtain ⟨hI', hext⟩ := hI.run hrun'
  -- only the pool aborts, as the assertion of `get_mutex` holds in every state
  have hab' : c'.sh.abort = none := by
    have hassert := hI'.assertion
    match h : c'.sh.abort with
    | none => rfl
    | some .getNextIndex => exact absurd h hpool
    | some .getMutex => exact absurd h hassert
  have hab : c.sh.abort = none := run_running hrun' hab'
  refine ⟨hab', hext.word, ?_, hI'.nodup, ?_, hI'.word, ?_⟩
  · intro t n v hgot
    have hpc := hI.pc hab t
    rw [hgot] at hpc
    obtain ⟨p, hv, hp⟩ := hpc
    exact ⟨p, hv, hext.word n p hp⟩
  · intro x hx
    have hmem : x.2 ∈ (handedOut (tr ++ tr')).map Prod.snd := List.mem_map_of_mem hx
    rw [hI'.indices, List.mem_range'_1] at hmem
    have hle := hI'.le
    omega
  · intro n i p hi hp hne
    have hi' : (n, i) ∈ handedOut (tr ++ tr') := by
      rw [show handedOut (tr ++ tr') = handedOut tr ++ handedOut tr' from List.filterMap_append]
      exact List.mem_append_left _ hi
    -- the slot was handed out for `n`, whose word has another one for good
    have hlost : ∀ m, c'.sh.word m ≠ some i := by
      intro m hm
      have hmn : m = n := hI'.slot_unique (hI'.word m i hm).1 hi'
      subst hmn
      rw [hext.word m p hp, Option.some.injEq] at hm
      exact hne hm.symm
    refine ⟨fun t m hgot => ?_, fun t => ?_⟩
    · have hpc := hI'.pc hab' t
      rw [hgot] at hpc
      obtain ⟨q, hq, hw⟩ := hpc
      rw [← hq] at hw
      exact hlost m hw
    · by_contra hr
      have hk : c₀.sh.syncVars.cur ≤ i := by
        have hmem : i ∈ (handedOut tr).map Prod.snd := List.mem_map_of_mem (f := Prod.snd) hi
        rw [hI.indices, List.mem_range'_1] at hmem
        exact hmem.1
      obtain ⟨m, hm⟩ := hI'.records i t hk hr
      exact hlost m hm

/-! ### A race of two threads

Both threads find the word zero and create a slot each; both load `expected` and pass the
double check before either compares and swaps. -/

/-- Two threads outside, one nominal mutex with a zero word, an untouched pool. -/
def raceStart : Config Bool (PC Unit) (Heap Unit Bool) where
  loc := fun _ => .idle
  sh := {
    word := fun _ => none
    syncVars := { start := fun _ => {}, total := maxSyncEntries, cur := 0, total_lt := maxSyncEntries_lt }
    records := fun _ _ => {}
    abort := none }

/-- Up to the winner's compare-and-swap; the loser's is still to come. -/
def raceSched : List (Bool × Action Unit) :=
  [(false, .call ()), (true, .call ()), (false, .run), (true, .run), (false, .run), (true, .run),
    (false, .run), (false, .run), (false, .run), (true, .run), (true, .run), (true, .run),
    (false, .run), (true, .run), (false, .run)]

/-- The loser's compare-and-swap, and both threads through `get_mutex` and the first count. -/
def raceSched' : List (Bool × Action Unit) :=
  [(true, .run), (false, .run), (false, .run), (true, .run), (true, .run), (false, .run),
    (true, .run), (false, .count .access), (true, .count .access)]

/-- The race, up to the first compare-and-swap. -/
def raceMid := system.execute raceStart raceSched (by decide +kernel)

/-- The race to its end. -/
def raceEnd := system.execute raceMid.2 raceSched' (by decide +kernel)

/-- In the race both threads end on slot 0, and the records of slot 1 stay zero. -/
theorem lazyInstall_agreed_race :
    raceMid.2.sh.word () = some 0 ∧ raceEnd.2.sh.word () = some 0 ∧
      raceEnd.2.sh.records 1 true = {} := by
  have hrun : Run system raceStart raceMid.1 raceMid.2 := system.execute_run _ _ _
  have hrun' : Run system raceMid.2 raceEnd.1 raceEnd.2 := system.execute_run _ _ _
  have hinit : Initial raceStart :=
    ⟨fun _ => rfl, fun _ => rfl, by decide, fun _ _ _ => rfl, rfl⟩
  have h := lazyInstall_agreed hinit hrun hrun' (by decide +kernel)
  have hmid : raceMid.2.sh.word () = some 0 := by decide +kernel
  exact ⟨hmid, h.2.1 () 0 hmid,
    (h.2.2.2.2.2.2 () 1 0 (by decide +kernel) hmid (by decide)).2 true⟩

end SyncPerf.LazyInstall
