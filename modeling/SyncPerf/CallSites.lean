import Mathlib.Data.Finset.Card
import Mathlib.Data.List.TakeWhile
import Mathlib.Data.Fintype.Basic
import SyncPerf.Interleaving

namespace SyncPerf.CallSites

open Interleaving

/-!
# The call-site table of a mutex

Every `mutex_t` keeps the return addresses from which it is locked, with a stack for each.
`add_new_context` looks an address up and adds it when it is not there; it is called before the
mutex is acquired, so that any number of threads are in it at a time.  Every read and every write
of `stack_count` and of a slot is a step of its own.

* `doBacktrace` — what is captured of a thread's stack;
* `Table`, `PC`, `addNewContext`, `system` — the table, and the threads that work on it;
* `Overlaps` — the steps at which two registrations come into each other's way;
* `Inv`, `Inv.step` — the invariant of the runs without them;
* `call_sites_exact` — what such a run leaves in the table.
-/

/-- `MAX_CALL_STACK_DEPTH`. -/
def maxCallStackDepth : ℕ := 6

/-- `MAX_NUM_STACKS`. -/
def maxNumStacks : ℕ := 100

/-! ### Backtraces -/

/-- `struct stack_frame`. -/
structure StackFrame where
  prev : ℕ
  callerAddress : BitVec 64

/-- A thread's stack: the frame at an address, the `stack_top` of `do_backtrace` and
    `__libc_stack_end`. -/
structure Stack where
  frame : ℕ → StackFrame
  stackTop : ℕ
  libcStackEnd : ℕ

namespace Stack

/-- A frame that is not on the thread's own stack. -/
def outside (s : Stack) (currentFrame : ℕ) : Prop :=
  currentFrame < s.stackTop ∨ currentFrame > s.libcStackEnd

instance (s : Stack) (currentFrame : ℕ) : Decidable (s.outside currentFrame) :=
  inferInstanceAs (Decidable (_ ∨ _))

/-- The first loop: the frames of the profiler itself are left out. -/
def skip (s : Stack) : ℕ → ℕ → ℕ
  | 0, currentFrame => currentFrame
  | n + 1, currentFrame =>
    if s.outside currentFrame then currentFrame else s.skip n (s.frame currentFrame).prev

/-- The second loop: the callers of at most so many frames. -/
def collect (s : Stack) : ℕ → ℕ → List (BitVec 64)
  | 0, _ => []
  | n + 1, currentFrame =>
    if s.outside currentFrame then []
    else if (s.frame currentFrame).callerAddress = 0 ∨
        currentFrame = (s.frame currentFrame).prev then []
    else if currentFrame &&& 0x01 ≠ 0 then []
    else (s.frame currentFrame).callerAddress :: s.collect n (s.frame currentFrame).prev

/-- The walk collects no more than it has room for. -/
theorem collect_length (s : Stack) (n currentFrame : ℕ) :
    (s.collect n currentFrame).length ≤ n := by
  fun_induction s.collect n currentFrame with
  | case5 n currentFrame _ _ _ ih => exact Nat.succ_le_succ ih
  | _ => exact Nat.zero_le _

/-- No address that is collected is zero. -/
theorem collect_ne_zero (s : Stack) (n currentFrame : ℕ) :
    ∀ a ∈ s.collect n currentFrame, a ≠ 0 := by
  fun_induction s.collect n currentFrame with
  | case5 n currentFrame _ hcaller _ ih =>
    intro a ha
    rcases List.mem_cons.mp ha with rfl | ha
    · exact fun h0 => hcaller (.inl h0)
    · exact ih a ha
  | _ => exact fun a ha => absurd ha List.not_mem_nil

end Stack

/-- The return addresses of a captured stack; the zero that ends it in a slot is not one of
    them. -/
structure Backtrace where
  callers : List (BitVec 64)
  length_le : callers.length ≤ maxCallStackDepth
  ne_zero : ∀ a ∈ callers, a ≠ 0
  deriving DecidableEq

/-- "Omit the stack-frame before main." -/
def omitLast (found : List (BitVec 64)) : List (BitVec 64) :=
  if found.length > 1 then found.dropLast else found

/-- The trim adds nothing. -/
theorem omitLast_sublist (found : List (BitVec 64)) : (omitLast found).Sublist found := by
  unfold omitLast
  split
  · exact List.dropLast_sublist found
  · exact List.Sublist.refl found

/-- `do_backtrace` from its own frame on. -/
def doBacktrace (s : Stack) (currentFrame : ℕ) : Backtrace where
  callers := omitLast (s.collect maxCallStackDepth (s.skip 2 currentFrame))
  length_le := (omitLast_sublist _).length_le.trans (s.collect_length _ _)
  ne_zero := fun a ha => s.collect_ne_zero _ _ a ((omitLast_sublist _).subset ha)

/-- The words of a slot of `stacks` after a stack was written into it: the words behind the
    closing zero stay. -/
def writeStack (slot : List (BitVec 64)) (b : Backtrace) : List (BitVec 64) :=
  b.callers ++ 0 :: slot.drop (b.callers.length + 1)

/-- The stack in a slot: the words up to the first zero. -/
def readStack (slot : List (BitVec 64)) : List (BitVec 64) := slot.takeWhile (· ≠ 0)

/-- The stack that was written is read back. -/
theorem readStack_writeStack (slot : List (BitVec 64)) (b : Backtrace) :
    readStack (writeStack slot b) = b.callers := by
  unfold readStack writeStack
  rw [List.takeWhile_append_of_pos fun a ha => decide_eq_true (b.ne_zero a ha)]
  simp

/-- A stack fits into a slot. -/
theorem writeStack_length {slot : List (BitVec 64)} (h : slot.length = maxCallStackDepth + 1)
    (b : Backtrace) : (writeStack slot b).length = slot.length := by
  have hle := b.length_le
  simp only [writeStack, List.length_append, List.length_cons, List.length_drop]
  omega

/-! ### The table -/

/-- A call of `add_new_context`, with the stack of the caller. -/
structure Call where
  retAddress : BitVec 64
  espOffset : BitVec 32
  backtrace : Backtrace
  deriving DecidableEq

/-- The call-site fields of a `mutex_t`; `callStacks` is `stacks`.  The arrays have
    `MAX_NUM_STACKS` elements; the check is left to the code. -/
structure Table where
  stackCount : ℕ := 0
  espOffset : ℕ → BitVec 64
  eip : ℕ → BitVec 64
  callStacks : ℕ → List (BitVec 64)
  aborted : Bool := false

/-- The program points of `add_new_context`.  A point named `…Store` comes after the read of
    `stack_count` that it needs. -/
inductive PC
  | test (i : ℕ)
  | compare (i : ℕ)
  | check
  | stackIndex
  | stackStore (n : ℕ)
  | eipIndex
  | eipStore (n : ℕ)
  | espIndex
  | espStore (n : ℕ)
  | count
  | countStore (n : ℕ)
  deriving DecidableEq

/-- A thread is in no call, or at a point of one. -/
inductive Local
  | idle
  | inside (k : Call) (p : PC)
  deriving DecidableEq

/-- One step of `add_new_context`. -/
def addNewContext (k : Call) (p : PC) (s : Table) : Local × Table :=
  match p with
  -- `for( int i=0; i< mutex->stack_count; i++ )`
  | .test i => (.inside k (if i < s.stackCount then .compare i else .check), s)
  | .compare i => (if s.eip i = k.retAddress then .idle else .inside k (.test (i + 1)), s)
  | .check =>
    if s.stackCount < maxNumStacks then (.inside k .stackIndex, s)
    else (.inside k .check, { s with aborted := true })
  -- `do_backtrace(mutex->stacks[mutex->stack_count], MAX_CALL_STACK_DEPTH)`
  | .stackIndex => (.inside k (.stackStore s.stackCount), s)
  | .stackStore n =>
    (.inside k .eipIndex,
      { s with callStacks := Function.update s.callStacks n (writeStack (s.callStacks n) k.backtrace) })
  | .eipIndex => (.inside k (.eipStore s.stackCount), s)
  | .eipStore n => (.inside k .espIndex, { s with eip := Function.update s.eip n k.retAddress })
  | .espIndex => (.inside k (.espStore s.stackCount), s)
  | .espStore n =>
    (.inside k .count,
      { s with espOffset := Function.update s.espOffset n (k.espOffset.setWidth 64) })
  -- `mutex->stack_count++`
  | .count => (.inside k (.countStore s.stackCount), s)
  | .countStore n => (.idle, { s with stackCount := n + 1 })

/-- What a thread does next: call, or take a step of the call that it is in. -/
inductive Action
  | call (k : Call)
  | run

variable {ι : Type}

/-- One step of a thread: it calls, or its call goes on. -/
def next (_ : ι) (a : Action) (l : Local) (s : Table) : Option (Local × Table) :=
  if s.aborted then none
  else match a, l with
    | .call k, .idle => some (.inside k (.test 0), s)
    | .run, .inside k p => some (addNewContext k p s)
    | _, _ => none

/-- The threads over the table of one mutex. -/
def system : System ι Action Local Table := ⟨next⟩

/-- `create_mutex` has set the count to zero, and no thread is in a call. -/
structure Created (c : Config ι Local Table) : Prop where
  idle : ∀ t, c.loc t = .idle
  count : c.sh.stackCount = 0
  running : c.sh.aborted = false

/-! ### What a run is asked about -/

/-- The call with which an action begins. -/
def Action.called : Action → List Call
  | .call k => [k]
  | .run => []

/-- The calls that were made. -/
def calls (tr : List (Event ι Action Local Table)) : List Call := tr.flatMap fun x => x.act.called

/-- The distinct return addresses of some calls. -/
def addresses (ks : List Call) : Finset (BitVec 64) := (ks.map Call.retAddress).toFinset

/-- The addresses from which calls were made. -/
theorem mem_addresses {ks : List Call} {a : BitVec 64} :
    a ∈ addresses ks ↔ ∃ k ∈ ks, k.retAddress = a := by
  simp [addresses]

/-- The slot that is written at a point. -/
def PC.written : PC → Option ℕ
  | .stackStore n | .eipStore n | .espStore n => some n
  | _ => none

/-- The slot that a step writes. -/
def slotWritten (x : Event ι Action Local Table) : Option ℕ :=
  match x.act, x.pre.loc x.who with
  | .run, .inside _ p => p.written
  | _, _ => none

/-- The table has the addresses of the calls, once each, and the parts of a slot come from one
    call. -/
structure Exact (ks : List Call) (s : Table) : Prop where
  count : s.stackCount = (addresses ks).card
  once : ∀ a ∈ addresses ks, ∃! i, i < s.stackCount ∧ s.eip i = a
  slot : ∀ i < s.stackCount, ∃ k ∈ ks, k.retAddress = s.eip i ∧
    readStack (s.callStacks i) = k.backtrace.callers ∧ s.espOffset i = k.espOffset.setWidth 64

/-! ### Registrations in each other's way -/

/-- The points from the first index for a slot to the store of the count. -/
def PC.writing : PC → Bool
  | .test _ | .compare _ | .check | .stackIndex => false
  | _ => true

/-- The points after a search that found nothing. -/
def PC.missed : PC → Bool
  | .test _ | .compare _ => false
  | _ => true

/-- The thread is writing a slot. -/
def Local.Writing : Local → Prop
  | .inside _ p => p.writing
  | .idle => False

/-- The thread has not found the address, and not entered it yet. -/
def Local.Missed (a : BitVec 64) : Local → Prop
  | .inside k p => k.retAddress = a ∧ p.missed
  | .idle => False

/-- A search over the first entries ends. -/
def PC.endsSearch (stackCount : ℕ) : PC → Bool
  | .test i => stackCount ≤ i
  | _ => false

/-- The first index for a slot is read. -/
def PC.takesSlot : PC → Bool
  | .stackIndex => true
  | _ => false

/-- A step comes into the way of another thread: it ends a search without finding an address that
    the other one is about to enter, or takes an index for its slot while the other one is writing
    a slot. -/
def OverlapsIn (c : Config ι Local Table) : Action → Local → Prop
  | .run, .inside k p =>
    (p.endsSearch c.sh.stackCount ∧ ∃ t, (c.loc t).Missed k.retAddress) ∨
      (p.takesSlot ∧ ∃ t, (c.loc t).Writing)
  | _, _ => False

/-- Two registrations come into each other's way. -/
def Overlaps (x : Event ι Action Local Table) : Prop :=
  OverlapsIn x.pre x.act (x.pre.loc x.who)

instance : (l : Local) → Decidable l.Writing
  | .inside _ p => inferInstanceAs (Decidable (p.writing = true))
  | .idle => inferInstanceAs (Decidable False)

instance (a : BitVec 64) : (l : Local) → Decidable (l.Missed a)
  | .inside _ _ => inferInstanceAs (Decidable (_ ∧ _))
  | .idle => inferInstanceAs (Decidable False)

instance [Fintype ι] (c : Config ι Local Table) :
    (a : Action) → (l : Local) → Decidable (OverlapsIn c a l)
  | .run, .inside _ _ => inferInstanceAs (Decidable (_ ∨ _))
  | .run, .idle | .call _, _ => inferInstanceAs (Decidable False)

instance [Fintype ι] (x : Event ι Action Local Table) : Decidable (Overlaps x) :=
  inferInstanceAs (Decidable (OverlapsIn x.pre x.act (x.pre.loc x.who)))

/-! ### The invariant -/

/-- The address is not in the table. -/
def Table.Fresh (s : Table) (a : BitVec 64) : Prop := ∀ i < s.stackCount, s.eip i ≠ a

/-- Slot `i` has the stack of the call. -/
def Table.HasStack (s : Table) (i : ℕ) (k : Call) : Prop :=
  readStack (s.callStacks i) = k.backtrace.callers

/-- Slot `i` has the stack offset of the call. -/
def Table.HasEsp (s : Table) (i : ℕ) (k : Call) : Prop :=
  s.espOffset i = k.espOffset.setWidth 64

/-- The entries are distinct addresses, each with what one of the calls brought. -/
structure Table.Ok (ks : List Call) (s : Table) : Prop where
  inj : ∀ i < s.stackCount, ∀ j < s.stackCount, s.eip i = s.eip j → i = j
  slot : ∀ i < s.stackCount, ∃ k ∈ ks, k.retAddress = s.eip i ∧ s.HasStack i k ∧ s.HasEsp i k

/-- What a thread knows at a point of its call: how far it has searched, that its address is not
    in the table, and what it has put into the slot behind the last entry. -/
def PC.Ok (k : Call) (s : Table) : PC → Prop
  | .test i => i ≤ s.stackCount ∧ ∀ j < i, s.eip j ≠ k.retAddress
  | .compare i => i < s.stackCount ∧ ∀ j < i, s.eip j ≠ k.retAddress
  | .check | .stackIndex => s.Fresh k.retAddress
  | .stackStore n => n = s.stackCount ∧ s.Fresh k.retAddress
  | .eipIndex => s.Fresh k.retAddress ∧ s.HasStack s.stackCount k
  | .eipStore n => n = s.stackCount ∧ s.Fresh k.retAddress ∧ s.HasStack s.stackCount k
  | .espIndex =>
    s.Fresh k.retAddress ∧ s.HasStack s.stackCount k ∧ s.eip s.stackCount = k.retAddress
  | .espStore n =>
    n = s.stackCount ∧ s.Fresh k.retAddress ∧ s.HasStack s.stackCount k ∧
      s.eip s.stackCount = k.retAddress
  | .count =>
    s.Fresh k.retAddress ∧ s.HasStack s.stackCount k ∧ s.eip s.stackCount = k.retAddress ∧
      s.HasEsp s.stackCount k
  | .countStore n =>
    n = s.stackCount ∧ s.Fresh k.retAddress ∧ s.HasStack s.stackCount k ∧
      s.eip s.stackCount = k.retAddress ∧ s.HasEsp s.stackCount k

/-- What is true of a thread, the calls so far being `ks`. -/
def Local.Ok (ks : List Call) (s : Table) : Local → Prop
  | .idle => True
  | .inside k p => k ∈ ks ∧ p.Ok k s

/-- The address is in the table, or a thread is in a call with it. -/
def Reached (loc : ι → Local) (s : Table) (a : BitVec 64) : Prop :=
  (∃ i < s.stackCount, s.eip i = a) ∨ ∃ t k p, loc t = .inside k p ∧ k.retAddress = a

/-- What holds of the threads and the table: one thread at most is writing, and one at most is
    about to enter an address. -/
structure Inv (ks : List Call) (c : Config ι Local Table) : Prop where
  running : c.sh.aborted = false
  table : c.sh.Ok ks
  loc : ∀ t, (c.loc t).Ok ks c.sh
  writer : ∀ t u, (c.loc t).Writing → (c.loc u).Writing → t = u
  missed : ∀ t u a, (c.loc t).Missed a → (c.loc u).Missed a → t = u
  reached : ∀ k ∈ ks, Reached c.loc c.sh k.retAddress

/-- The invariant holds at first. -/
theorem Inv.initial {c : Config ι Local Table} (h : Created c) : Inv [] c where
  running := h.running
  table := by
    refine ⟨fun i hi => ?_, fun i hi => ?_⟩ <;>
    · rw [h.count] at hi
      exact absurd hi (Nat.not_lt_zero i)
  loc t := by
    rw [h.idle t]
    trivial
  writer t u ht := by
    rw [h.idle t] at ht
    exact ht.elim
  missed t u a ht := by
    rw [h.idle t] at ht
    exact ht.elim
  reached k hk := absurd hk List.not_mem_nil

/-! ### There is room for a new address -/

/-- A table of distinct addresses of the calls that lacks one of them is smaller than their
    number. -/
theorem Table.Ok.lt_card {ks : List Call} {s : Table} (h : s.Ok ks) {a : BitVec 64}
    (ha : a ∈ addresses ks) (hfresh : s.Fresh a) : s.stackCount < (addresses ks).card := by
  have hsub : (Finset.range s.stackCount).image s.eip ⊆ (addresses ks).erase a := by
    intro b hb
    obtain ⟨i, hi, rfl⟩ := Finset.mem_image.mp hb
    have hi := Finset.mem_range.mp hi
    obtain ⟨k, hk, hka, -⟩ := h.slot i hi
    exact Finset.mem_erase.mpr ⟨hfresh i hi, mem_addresses.mpr ⟨k, hk, hka⟩⟩
  have hcard : ((Finset.range s.stackCount).image s.eip).card = s.stackCount := by
    rw [Finset.card_image_of_injOn, Finset.card_range]
    intro i hi j hj heq
    exact h.inj i (Finset.mem_range.mp hi) j (Finset.mem_range.mp hj) heq
  have hle := Finset.card_le_card hsub
  rw [hcard, Finset.card_erase_of_mem ha] at hle
  have hpos := Finset.card_pos.mpr ⟨a, ha⟩
  omega

/-- A point after a search that found nothing knows that the address is not in the table. -/
theorem PC.Ok.fresh {k : Call} {s : Table} {p : PC} (h : p.Ok k s) (hp : p.missed) :
    s.Fresh k.retAddress := by
  cases p with
  | test i | compare i => exact absurd hp Bool.false_ne_true
  | check | stackIndex => exact h
  | eipIndex | espIndex | count => exact h.1
  | stackStore n => exact h.2
  | eipStore n | espStore n | countStore n => exact h.2.1

/-- The slot that is written is the one behind the last entry. -/
theorem PC.Ok.written {k : Call} {s : Table} {p : PC} (h : p.Ok k s) {n : ℕ}
    (hn : p.written = some n) : n = s.stackCount ∧ p.missed := by
  cases p with
  | stackStore m | eipStore m | espStore m =>
    obtain rfl := Option.some.inj hn
    exact ⟨h.1, rfl⟩
  | _ => cases hn

/-- **Only slots of the arrays are written.** -/
theorem Inv.written_lt {ks : List Call} {c : Config ι Local Table} (hI : Inv ks c)
    (hdistinct : (addresses ks).card ≤ maxNumStacks) {t : ι} {a : Action} {n : ℕ}
    (hn : slotWritten ⟨c, t, a⟩ = some n) : n < maxNumStacks := by
  have ht := hI.loc t
  unfold slotWritten at hn
  split at hn
  · rename_i k p _ hloc
    simp only at hloc
    rw [hloc] at ht
    obtain ⟨rfl, hmissed⟩ := ht.2.written hn
    have ha : k.retAddress ∈ addresses ks := mem_addresses.mpr ⟨k, ht.1, rfl⟩
    exact (hI.table.lt_card ha (ht.2.fresh hmissed)).trans_le hdistinct
  · cases hn

/-! ### Steps of other threads -/

/-- The entries of two tables are the same. -/
structure SameEntries (s s' : Table) : Prop where
  count : s'.stackCount = s.stackCount
  eip : ∀ i < s.stackCount, s'.eip i = s.eip i
  callStacks : ∀ i < s.stackCount, s'.callStacks i = s.callStacks i
  espOffset : ∀ i < s.stackCount, s'.espOffset i = s.espOffset i

/-- An address that is new stays new. -/
theorem SameEntries.fresh {s s' : Table} (h : SameEntries s s') {a : BitVec 64}
    (hfresh : s.Fresh a) : s'.Fresh a := by
  intro i hi
  rw [h.count] at hi
  rw [h.eip i hi]
  exact hfresh i hi

/-- Entries that are right stay right. -/
theorem SameEntries.ok {s s' : Table} (h : SameEntries s s') {ks : List Call} (hs : s.Ok ks) :
    s'.Ok ks := by
  obtain ⟨hcount, heip, hstacks, hesp⟩ := h
  refine ⟨?_, ?_⟩
  · rw [hcount]
    intro i hi j hj heq
    rw [heip i hi, heip j hj] at heq
    exact hs.inj i hi j hj heq
  · rw [hcount]
    intro i hi
    obtain ⟨k, hk, hka, hstack, hkesp⟩ := hs.slot i hi
    refine ⟨k, hk, by rw [heip i hi]; exact hka, ?_, ?_⟩
    · rw [Table.HasStack, hstacks i hi]
      exact hstack
    · rw [Table.HasEsp, hesp i hi]
      exact hkesp

/-- What a thread that is not writing knows is only about entries. -/
theorem SameEntries.local_ok {s s' : Table} (h : SameEntries s s') {ks : List Call} {l : Local}
    (hl : l.Ok ks s) (hw : ¬ l.Writing) : l.Ok ks s' := by
  cases l with
  | idle => trivial
  | inside k p =>
    refine ⟨hl.1, ?_⟩
    have hp := hl.2
    cases p with
    | test i =>
      refine ⟨by rw [h.count]; exact hp.1, fun j hj => ?_⟩
      rw [h.eip j (hj.trans_le hp.1)]
      exact hp.2 j hj
    | compare i =>
      refine ⟨by rw [h.count]; exact hp.1, fun j hj => ?_⟩
      rw [h.eip j (hj.trans hp.1)]
      exact hp.2 j hj
    | check | stackIndex => exact h.fresh hp
    | _ => exact absurd rfl hw

/-- The table with one more entry. -/
def Table.grow (s : Table) : Table := { s with stackCount := s.stackCount + 1 }

/-- A new entry is no concern of a thread that is about another address, and not writing. -/
theorem Table.grow_local_ok {s : Table} {ks : List Call} {l : Local} (hl : l.Ok ks s)
    (hw : ¬ l.Writing) (hne : ¬ l.Missed (s.eip s.stackCount)) : l.Ok ks s.grow := by
  cases l with
  | idle => trivial
  | inside k p =>
    refine ⟨hl.1, ?_⟩
    have hp := hl.2
    have hfresh : p.missed → s.Fresh k.retAddress → s.grow.Fresh k.retAddress := by
      intro hmissed hf i hi
      rcases Nat.lt_succ_iff_lt_or_eq.mp hi with hlt | rfl
      · exact hf i hlt
      · exact fun heq => hne ⟨heq.symm, hmissed⟩
    cases p with
    | test i => exact ⟨Nat.le_succ_of_le hp.1, hp.2⟩
    | compare i => exact ⟨Nat.lt_succ_of_lt hp.1, hp.2⟩
    | check | stackIndex => exact hfresh rfl hp
    | _ => exact absurd rfl hw

/-- The new entry is one more address, with what its call brought. -/
theorem Table.grow_ok {s : Table} {ks : List Call} {k : Call} (hs : s.Ok ks) (hk : k ∈ ks)
    (hp : PC.Ok k s (.countStore s.stackCount)) : s.grow.Ok ks := by
  obtain ⟨-, hfresh, hstack, heip, hesp⟩ := hp
  constructor
  · intro i hi j hj heq
    rcases Nat.lt_succ_iff_lt_or_eq.mp hi with hi | rfl <;>
      rcases Nat.lt_succ_iff_lt_or_eq.mp hj with hj | rfl
    · exact hs.inj i hi j hj heq
    · exact absurd (heq.trans heip) (hfresh i hi)
    · exact absurd (heq.symm.trans heip) (hfresh j hj)
    · rfl
  · intro i hi
    rcases Nat.lt_succ_iff_lt_or_eq.mp hi with hi | rfl
    · exact hs.slot i hi
    · exact ⟨k, hk, heip.symm, hstack, hesp⟩

/-! ### Steps -/

variable [DecidableEq ι]

section Step

variable {ks : List Call} {c : Config ι Local Table} {t : ι} {k : Call} {p : PC}

/-- A step inside a call, after which the entries are the same. -/
theorem Inv.move (hI : Inv ks c) (hloc : c.loc t = .inside k p) {p' : PC} {s : Table}
    (hrun : s.aborted = false) (hsame : SameEntries c.sh s) (hs : s = c.sh ∨ p.writing)
    (hp : p'.Ok k s) (hw : p'.writing → p.writing ∨ ∀ u, ¬ (c.loc u).Writing)
    (hm : p'.missed → p.missed ∨ ∀ u, ¬ (c.loc u).Missed k.retAddress) :
    Inv ks ⟨Function.update c.loc t (.inside k p'), s⟩ := by
  have hself := hI.loc t
  rw [hloc] at hself
  refine ⟨hrun, hsame.ok hI.table, ?_, ?_, ?_, ?_⟩
  · refine forall_update (P := fun (_ : ι) (l : Local) => l.Ok ks s) ⟨hself.1, hp⟩ fun u hut => ?_
    rcases hs with rfl | hwt
    · exact hI.loc u
    · exact hsame.local_ok (hI.loc u) fun hu => hut (hI.writer u t hu (by rw [hloc]; exact hwt))
  · refine unique_update hI.writer fun hw' => ?_
    rw [hloc]
    exact hw hw'
  · refine fun u v a => unique_update (P := Local.Missed a) (fun u v => hI.missed u v a) ?_ u v
    rintro ⟨rfl, hm'⟩
    rw [hloc]
    exact (hm hm').imp_left fun h => ⟨rfl, h⟩
  · intro k' hk'
    rcases hI.reached k' hk' with ⟨i, hi, heip⟩ | ⟨u, k₁, p₁, hu, hka⟩
    · exact .inl ⟨i, by rw [hsame.count]; exact hi, (hsame.eip i hi).trans heip⟩
    · by_cases hut : u = t
      · rw [hut, hloc] at hu
        obtain ⟨rfl, -⟩ := Local.inside.inj hu
        exact .inr ⟨t, k, p', Function.update_self .., hka⟩
      · exact .inr ⟨u, k₁, p₁, (Function.update_of_ne hut ..).trans hu, hka⟩

/-- A call ends, and its address is in the table. -/
theorem Inv.leave (hI : Inv ks c) (hloc : c.loc t = .inside k p) {s : Table}
    (hrun : s.aborted = false) (hs : s.Ok ks) (hothers : ∀ u, u ≠ t → (c.loc u).Ok ks s)
    (hkeep : ∀ a, (∃ i < c.sh.stackCount, c.sh.eip i = a) → ∃ i < s.stackCount, s.eip i = a)
    (hfound : ∃ i < s.stackCount, s.eip i = k.retAddress) :
    Inv ks ⟨Function.update c.loc t .idle, s⟩ := by
  refine ⟨hrun, hs, ?_, ?_, ?_, ?_⟩
  · exact forall_update (P := fun (_ : ι) (l : Local) => l.Ok ks s) trivial hothers
  · exact unique_update hI.writer fun h => h.elim
  · exact fun u v a => unique_update (P := Local.Missed a) (fun u v => hI.missed u v a)
      (fun h : Local.Missed a .idle => False.elim h) u v
  · intro k' hk'
    rcases hI.reached k' hk' with hin | ⟨u, k₁, p₁, hu, hka⟩
    · exact .inl (hkeep _ hin)
    · by_cases hut : u = t
      · rw [hut, hloc] at hu
        obtain ⟨rfl, -⟩ := Local.inside.inj hu
        exact .inl (hka ▸ hfound)
      · exact .inr ⟨u, k₁, p₁, (Function.update_of_ne hut ..).trans hu, hka⟩

/-- A write into the slot behind the last entry. -/
theorem SameEntries.of_update {s s' : Table} (hcount : s'.stackCount = s.stackCount)
    (heip : s'.eip = s.eip ∨ ∃ v, s'.eip = Function.update s.eip s.stackCount v)
    (hstacks : s'.callStacks = s.callStacks ∨
      ∃ v, s'.callStacks = Function.update s.callStacks s.stackCount v)
    (hesp : s'.espOffset = s.espOffset ∨
      ∃ v, s'.espOffset = Function.update s.espOffset s.stackCount v) : SameEntries s s' where
  count := hcount
  eip i hi := by
    rcases heip with h | ⟨v, h⟩
    · rw [h]
    · rw [h, Function.update_of_ne hi.ne]
  callStacks i hi := by
    rcases hstacks with h | ⟨v, h⟩
    · rw [h]
    · rw [h, Function.update_of_ne hi.ne]
  espOffset i hi := by
    rcases hesp with h | ⟨v, h⟩
    · rw [h]
    · rw [h, Function.update_of_ne hi.ne]

/-- **A step of a call** keeps the invariant, unless two registrations overlap. -/
theorem Inv.addNewContext (hI : Inv ks c) (hdistinct : (addresses ks).card ≤ maxNumStacks)
    (hloc : c.loc t = .inside k p) (hone : ¬ Overlaps ⟨c, t, .run⟩) :
    Inv ks ⟨Function.update c.loc t (addNewContext k p c.sh).1, (addNewContext k p c.sh).2⟩ := by
  have hself := hI.loc t
  rw [hloc] at hself
  obtain ⟨hk, hp⟩ := hself
  have hsame : SameEntries c.sh c.sh := ⟨rfl, fun _ _ => rfl, fun _ _ => rfl, fun _ _ => rfl⟩
  simp only [Overlaps, OverlapsIn, hloc] at hone
  cases p with
  | test i =>
    simp only [CallSites.addNewContext]
    by_cases hi : i < c.sh.stackCount
    · rw [if_pos hi]
      exact hI.move hloc hI.running hsame (.inl rfl) ⟨hi, hp.2⟩
        (fun h => absurd h Bool.false_ne_true) fun h => absurd h Bool.false_ne_true
    · -- the whole table has been searched, and nobody else is about to enter the address
      rw [if_neg hi]
      have hle := Nat.not_lt.mp hi
      refine hI.move hloc hI.running hsame (.inl rfl) (fun j hj => hp.2 j (hj.trans_le hle))
        (fun h => absurd h Bool.false_ne_true) fun _ => .inr fun u hu => ?_
      exact hone (.inl ⟨decide_eq_true hle, u, hu⟩)
  | compare i =>
    simp only [CallSites.addNewContext]
    by_cases heip : c.sh.eip i = k.retAddress
    · rw [if_pos heip]
      exact hI.leave hloc hI.running hI.table (fun u _ => hI.loc u) (fun a ha => ha) ⟨i, hp.1, heip⟩
    · rw [if_neg heip]
      refine hI.move hloc hI.running hsame (.inl rfl) ⟨hp.1, fun j hj => ?_⟩
        (fun h => absurd h Bool.false_ne_true) fun h => absurd h Bool.false_ne_true
      rcases Nat.lt_succ_iff_lt_or_eq.mp hj with hj | rfl
      · exact hp.2 j hj
      · exact heip
  | check =>
    -- the table lacks an address, so that it is not full
    have hlt := hI.table.lt_card (mem_addresses.mpr ⟨k, hk, rfl⟩) hp
    simp only [CallSites.addNewContext]
    rw [if_pos (hlt.trans_le hdistinct)]
    exact hI.move hloc hI.running hsame (.inl rfl) hp (fun h => absurd h Bool.false_ne_true)
      fun _ => .inl rfl
  | stackIndex =>
    exact hI.move hloc hI.running hsame (.inl rfl) ⟨rfl, hp⟩
      (fun _ => .inr fun u hu => hone (.inr ⟨rfl, u, hu⟩)) fun _ => .inl rfl
  | stackStore n =>
    obtain ⟨rfl, hfresh⟩ := hp
    refine hI.move hloc hI.running (.of_update rfl (.inl rfl) (.inr ⟨_, rfl⟩) (.inl rfl)) (.inr rfl)
      ⟨hfresh, ?_⟩ (fun _ => .inl rfl) fun _ => .inl rfl
    show readStack (Function.update c.sh.callStacks c.sh.stackCount _ c.sh.stackCount) = _
    rw [Function.update_self]
    exact readStack_writeStack _ _
  | eipIndex =>
    exact hI.move hloc hI.running hsame (.inl rfl) ⟨rfl, hp⟩ (fun _ => .inl rfl) fun _ => .inl rfl
  | eipStore n =>
    obtain ⟨rfl, hfresh, hstack⟩ := hp
    have hupdate : SameEntries c.sh { c.sh with
        eip := Function.update c.sh.eip c.sh.stackCount k.retAddress } :=
      .of_update rfl (.inr ⟨_, rfl⟩) (.inl rfl) (.inl rfl)
    exact hI.move hloc hI.running hupdate (.inr rfl)
      ⟨hupdate.fresh hfresh, hstack, Function.update_self ..⟩ (fun _ => .inl rfl) fun _ => .inl rfl
  | espIndex =>
    exact hI.move hloc hI.running hsame (.inl rfl) ⟨rfl, hp⟩ (fun _ => .inl rfl) fun _ => .inl rfl
  | espStore n =>
    obtain ⟨rfl, hfresh, hstack, heip⟩ := hp
    exact hI.move hloc hI.running (.of_update rfl (.inl rfl) (.inl rfl) (.inr ⟨_, rfl⟩)) (.inr rfl)
      ⟨hfresh, hstack, heip, Function.update_self ..⟩ (fun _ => .inl rfl) fun _ => .inl rfl
  | count =>
    exact hI.move hloc hI.running hsame (.inl rfl) ⟨rfl, hp⟩ (fun _ => .inl rfl) fun _ => .inl rfl
  | countStore n =>
    obtain ⟨rfl, hfresh, hstack, heip, hesp⟩ := hp
    refine hI.leave (s := c.sh.grow) hloc hI.running
      (Table.grow_ok hI.table hk ⟨rfl, hfresh, hstack, heip, hesp⟩) (fun u hut => ?_) ?_
      ⟨_, Nat.lt_succ_self _, heip⟩
    · refine Table.grow_local_ok (hI.loc u) (fun hu => ?_) fun hu => ?_
      · exact hut (hI.writer u t hu (by rw [hloc]; rfl))
      · rw [heip] at hu
        exact hut (hI.missed u t _ hu (by rw [hloc]; exact ⟨rfl, rfl⟩))
    · rintro a ⟨i, hi, hia⟩
      exact ⟨i, Nat.lt_succ_of_lt hi, hia⟩

/-- A call begins. -/
theorem Inv.call (hI : Inv ks c) (hidle : c.loc t = .idle) :
    Inv (ks ++ [k]) ⟨Function.update c.loc t (.inside k (.test 0)), c.sh⟩ := by
  have hmem : ∀ k' ∈ ks, k' ∈ ks ++ [k] := fun k' h => List.mem_append_left _ h
  refine ⟨hI.running, ⟨hI.table.inj, fun i hi => ?_⟩, ?_, ?_, ?_, ?_⟩
  · obtain ⟨k', hk', h⟩ := hI.table.slot i hi
    exact ⟨k', hmem k' hk', h⟩
  · refine forall_update (P := fun (_ : ι) (l : Local) => l.Ok (ks ++ [k]) c.sh) ?_ fun u _ => ?_
    · exact ⟨by simp, Nat.zero_le _, fun j hj => absurd hj (Nat.not_lt_zero j)⟩
    · have hu := hI.loc u
      cases hl : c.loc u with
      | idle => trivial
      | inside k' p' =>
        rw [hl] at hu
        exact ⟨hmem k' hu.1, hu.2⟩
  · exact unique_update hI.writer fun h => absurd h Bool.false_ne_true
  · exact fun u v a => unique_update (P := Local.Missed a) (fun u v => hI.missed u v a)
      (fun h : Local.Missed a (.inside k (.test 0)) => absurd h.2 Bool.false_ne_true) u v
  · intro k' hk'
    rcases List.mem_append.mp hk' with hk' | hk'
    · rcases hI.reached k' hk' with hin | ⟨u, k₁, p₁, hu, hka⟩
      · exact .inl hin
      · have hut : u ≠ t := by
          rintro rfl
          rw [hidle] at hu
          cases hu
        exact .inr ⟨u, k₁, p₁, (Function.update_of_ne hut ..).trans hu, hka⟩
    · obtain rfl := List.mem_singleton.mp hk'
      exact .inr ⟨t, k', .test 0, Function.update_self .., rfl⟩

/-- **One step** of the system keeps the invariant, unless two registrations overlap. -/
theorem Inv.step (hI : Inv ks c) {a : Action} {d : Config ι Local Table}
    (hdistinct : (addresses ks).card ≤ maxNumStacks) (hone : ¬ Overlaps ⟨c, t, a⟩)
    (h : system.step c t a = some d) : Inv (ks ++ a.called) d := by
  obtain ⟨l, s, hnext, rfl⟩ := System.step_eq_some.mp h
  have hnext' : next t a (c.loc t) c.sh = some (l, s) := hnext
  unfold next at hnext'
  rw [hI.running] at hnext'
  simp only [Bool.false_eq_true, if_false] at hnext'
  split at hnext'
  · rename_i k hloc
    obtain ⟨rfl, rfl⟩ := Prod.mk.inj (Option.some.inj hnext')
    exact hI.call hloc
  · rename_i k p hloc
    obtain ⟨hl, hs⟩ := Prod.mk.inj (Option.some.inj hnext')
    rw [← hl, ← hs, Action.called, List.append_nil]
    exact hI.addNewContext hdistinct hloc hone
  · cases hnext'

end Step

/-! ### Runs -/

omit [DecidableEq ι] in
/-- One event more, and its call. -/
theorem calls_append (tr : List (Event ι Action Local Table)) (x : Event ι Action Local Table) :
    calls (tr ++ [x]) = calls tr ++ x.act.called := by
  simp [calls]

/-- More calls come from no fewer addresses. -/
theorem addresses_mono {ks ks' : List Call} (h : ∀ k ∈ ks, k ∈ ks') :
    (addresses ks).card ≤ (addresses ks').card := by
  refine Finset.card_le_card fun a ha => ?_
  obtain ⟨k, hk, hka⟩ := mem_addresses.mp ha
  exact mem_addresses.mpr ⟨k, h k hk, hka⟩

/-- **Runs.** -/
theorem Inv.run {c₀ c : Config ι Local Table} {tr : List (Event ι Action Local Table)}
    (hinit : Created c₀) (hrun : Run system c₀ tr c)
    (hdistinct : (addresses (calls tr)).card ≤ maxNumStacks) (hone : ∀ x ∈ tr, ¬ Overlaps x) :
    Inv (calls tr) c ∧ ∀ x ∈ tr, ∀ n, slotWritten x = some n → n < maxNumStacks := by
  refine hrun.history (I := fun tr c => (addresses (calls tr)).card ≤ maxNumStacks →
    (∀ x ∈ tr, ¬ Overlaps x) →
    Inv (calls tr) c ∧ ∀ x ∈ tr, ∀ n, slotWritten x = some n → n < maxNumStacks)
    ?_ ?_ hdistinct hone
  · exact fun _ _ => ⟨Inv.initial hinit, fun x hx => absurd hx List.not_mem_nil⟩
  · intro tr d t a e ih hs hcard hno
    rw [calls_append] at hcard ⊢
    have hcard' : (addresses (calls tr)).card ≤ maxNumStacks :=
      (addresses_mono fun k hk => List.mem_append_left _ hk).trans hcard
    obtain ⟨hI, hwritten⟩ := ih hcard' fun x hx => hno x (List.mem_append_left _ hx)
    refine ⟨hI.step hcard' (hno _ (by simp)) hs, fun x hx n hn => ?_⟩
    rcases List.mem_append.mp hx with hx | hx
    · exact hwritten x hx n hn
    · obtain rfl := List.mem_singleton.mp hx
      exact hI.written_lt hcard' hn

omit [DecidableEq ι] in
/-- When no thread is in a call, every address that was reached is in the table. -/
theorem Inv.exact {ks : List Call} {c : Config ι Local Table} (hI : Inv ks c)
    (hidle : ∀ t, c.loc t = .idle) : Exact ks c.sh := by
  have hin : ∀ a ∈ addresses ks, ∃ i < c.sh.stackCount, c.sh.eip i = a := by
    intro a ha
    obtain ⟨k, hk, rfl⟩ := mem_addresses.mp ha
    rcases hI.reached k hk with hin | ⟨t, k', p, ht, -⟩
    · exact hin
    · rw [hidle t] at ht
      cases ht
  have himage : (Finset.range c.sh.stackCount).image c.sh.eip = addresses ks := by
    ext a
    constructor
    · intro ha
      obtain ⟨i, hi, rfl⟩ := Finset.mem_image.mp ha
      obtain ⟨k, hk, hka, -⟩ := hI.table.slot i (Finset.mem_range.mp hi)
      exact mem_addresses.mpr ⟨k, hk, hka⟩
    · intro ha
      obtain ⟨i, hi, hia⟩ := hin a ha
      exact Finset.mem_image.mpr ⟨i, Finset.mem_range.mpr hi, hia⟩
  refine ⟨?_, fun a ha => ?_, hI.table.slot⟩
  · rw [← himage, Finset.card_image_of_injOn, Finset.card_range]
    intro i hi j hj heq
    exact hI.table.inj i (Finset.mem_range.mp hi) j (Finset.mem_range.mp hj) heq
  · obtain ⟨i, hi, hia⟩ := hin a ha
    exact ⟨i, ⟨hi, hia⟩, fun j hj => hI.table.inj j hj.1 i hi (hj.2.trans hia.symm)⟩

/-- **The call-site table.**  In every run with at most `MAX_NUM_STACKS` return addresses in which
    no search ends without finding an address that another thread is about to enter, and no thread
    takes an index for its slot while another one is writing a slot: no slot outside the arrays is
    written, no assertion fails, and when no thread is in a call the table has every return address
    once, with a stack that was captured by a call from there. -/
theorem call_sites_exact {c₀ c : Config ι Local Table} {tr : List (Event ι Action Local Table)}
    (hinit : Created c₀) (hrun : Run system c₀ tr c)
    (hdistinct : (addresses (calls tr)).card ≤ maxNumStacks) (hone : ∀ x ∈ tr, ¬ Overlaps x) :
    (∀ x ∈ tr, ∀ n, slotWritten x = some n → n < maxNumStacks) ∧ c.sh.aborted = false ∧
      ((∀ t, c.loc t = .idle) → Exact (calls tr) c.sh) := by
  obtain ⟨hI, hwritten⟩ := Inv.run hinit hrun hdistinct hone
  exact ⟨hwritten, hI.running, hI.exact⟩

/-! ### Two callers -/

/-- A new mutex, and two threads. -/
def created : Config Bool Local Table where
  loc := fun _ => .idle
  sh := { espOffset := fun _ => 0, eip := fun _ => 0, callStacks := fun _ => List.replicate 7 0 }

/-- The sample table has just been created. -/
theorem created_created : Created created := ⟨fun _ => rfl, rfl, rfl⟩

/-- A call from address `a`, with one caller on the stack. -/
def callFrom (a : BitVec 64) (h : a ≠ 0) : Call where
  retAddress := a
  espOffset := 64
  backtrace := ⟨[a], Nat.succ_le_succ (Nat.zero_le _), fun _ hb =>
    (List.mem_singleton.mp hb) ▸ h⟩

/-- A call from address 1. -/
def firstSite : Call := callFrom 1 (of_decide_eq_false rfl)

/-- A call from address 2. -/
def secondSite : Call := callFrom 2 (of_decide_eq_false rfl)

/-- One thread enters its address; then the other one looks up that address, and enters another. -/
def inTurn : List (Bool × Action) :=
  List.flatten [[(false, .call firstSite)], List.replicate 10 (false, .run),
    [(true, .call firstSite)], List.replicate 2 (true, .run), [(true, .call secondSite)],
    List.replicate 12 (true, .run)]

/-- What the calls one after the other lead to. -/
def inTurnEnd := system.execute created inTurn rfl

/-- Two callers in turn are entered once each. -/
theorem call_sites_exact_inTurn : Exact (calls inTurnEnd.1) inTurnEnd.2.sh :=
  (call_sites_exact created_created (system.execute_run _ _ _) (by decide +kernel)
    (by decide +kernel)).2.2 (by decide +kernel)

/-- Both threads call from one address, and search the table while it is empty. -/
def together : List (Bool × Action) :=
  List.flatten [[(false, .call firstSite), (true, .call firstSite), (false, .run), (true, .run)],
    List.replicate 9 (false, .run), List.replicate 9 (true, .run)]

/-- What the calls at once lead to. -/
def togetherEnd := system.execute created together rfl

/-- **Two first callers from one address enter it twice.** -/
theorem together_not_exact :
    Created created ∧ Run system created togetherEnd.1 togetherEnd.2 ∧
      (addresses (calls togetherEnd.1)).card ≤ maxNumStacks ∧
      (∀ t, togetherEnd.2.loc t = .idle) ∧ togetherEnd.2.sh.stackCount = 2 ∧
      ¬ Exact (calls togetherEnd.1) togetherEnd.2.sh := by
  have hcount : togetherEnd.2.sh.stackCount = 2 := by decide +kernel
  have hcard : (addresses (calls togetherEnd.1)).card = 1 := by decide +kernel
  refine ⟨created_created, system.execute_run _ _ _, by decide +kernel, by decide +kernel, hcount,
    fun h => ?_⟩
  have heq := h.count
  rw [hcount, hcard] at heq
  exact absurd heq (by decide)

end SyncPerf.CallSites
