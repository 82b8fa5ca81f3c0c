import SyncPerf.Backtrace
import SyncPerf.CallStackString
import SyncPerf.RawContext

namespace SyncPerf.RecordedStack

open CallSites Backtrace CallStackString RawContext

/-!
# Recorded stacks and those who read them

Whatever the frames of a thread are, `do_backtrace` leaves a row that is ended by a zero, and the
loops of the report that go through a row stop at the first zero.

* `Usable`, `doBacktrace_usable` — what is left in a row, for every memory and every size;
* `rawContext_isSome`, `stackString_ne_pastRow` — the loops that read a row with a zero in it;
* `recorded_stack_readable` — both together, for the rows of a mutex.
-/

/-- What `do_backtrace` has done with a row of `size` entries and one more: at most `size` addresses
    were stored, one after the other, and the zero was stored last, behind those that stay. -/
structure Usable (s : Stack) (size currentFrame : ℕ) (r : Walk) : Prop where
  steps : ∃ n ≤ size, r.written = List.range n ++ [r.found]
  followed : ∀ f ∈ r.followed, s.stackTop ≤ f ∧ f ≤ s.libcStackEnd
  written : ∀ i ∈ r.written, i ≤ size
  found_le : r.found ≤ size
  ended : r.row r.found = 0
  ne_zero : ∀ i < r.found, r.row i ≠ 0
  callers : ∀ i < r.found, r.row i = (s.frame (ancestor s (i + 2) currentFrame)).callerAddress

/-- **Every stack is usable.** -/
theorem doBacktrace_usable (s : Stack) (size currentFrame : ℕ) (row : ℕ → BitVec 64) :
    Usable s size currentFrame (Backtrace.doBacktrace s size currentFrame row) := by
  have hleft := doBacktrace_spec s size currentFrame row
  have hrecords := hleft.records
  generalize Backtrace.doBacktrace s size currentFrame row = r at hleft hrecords ⊢
  have hlength := s.collect_length size (s.skip 2 currentFrame)
  have homit := (omitLast_sublist (s.collect size (s.skip 2 currentFrame))).length_le
  have hfound : r.found ≤ size := by
    rw [hleft.found]
    exact homit.trans hlength
  refine ⟨⟨_, hlength, ?_⟩, fun f hf => ?_, fun i hi => ?_, hfound, hleft.ended, fun i hi => ?_,
    hrecords.callers⟩
  · rw [hleft.written, List.range_eq_range']
  · have hinside := hleft.inside f hf
    simp only [Stack.outside] at hinside
    omega
  · rw [hleft.written, List.mem_append, List.mem_range'_1, List.mem_singleton] at hi
    omega
  · have hlt : i < (omitLast (s.collect size (s.skip 2 currentFrame))).length := hleft.found ▸ hi
    rw [hleft.stored i hlt]
    exact s.collect_ne_zero _ _ _ ((omitLast_sublist _).subset (List.getElem_mem hlt))

/-! ### The loops of the report -/

theorem rawContext_isSome {row : List (BitVec 64)} (h : 0 ∈ row) : (rawContext row).isSome := by
  induction row with
  | nil => exact absurd h List.not_mem_nil
  | cons a row ih =>
    rw [rawContext]
    split
    · rfl
    · rename_i ha
      rw [Option.isSome_map]
      exact ih ((List.mem_cons.mp h).resolve_left (Ne.symm ha))

theorem sprintf_ne_pastRow (cmd : List Char) : sprintf cmd ≠ .error .pastRow := by
  unfold sprintf
  split <;> simp

theorem sourceLine_ne_pastRow (s : List Char) : sourceLine s ≠ .error .pastRow := by
  rw [sourceLine_eq]
  split
  · simp
  · split <;> simp

/-- A step that does not leave the row, and then others that do not. -/
theorem bind_ne_pastRow {α β : Type} {x : Except Failure α} {f : α → Except Failure β}
    (hx : x ≠ .error .pastRow) (hf : ∀ a, f a ≠ .error .pastRow) : x >>= f ≠ .error .pastRow := by
  cases x with
  | error e => exact fun h => hx (congrArg Except.error (Except.error.inj h))
  | ok a => exact hf a

theorem stackString_ne_pastRow {row : List (BitVec 64)} (h : 0 ∈ row) (curFilename : List Char)
    (popen : ℕ → List Char → Option (List Char)) (j : ℕ) (stackStr : List Char) :
    stackString curFilename popen j row stackStr ≠ .error .pastRow := by
  induction row generalizing j stackStr with
  | nil => exact absurd h List.not_mem_nil
  | cons a row ih =>
    by_cases ha : a = 0
    · rw [stackString, if_pos ha]
      simp
    · have hrow : 0 ∈ row := (List.mem_cons.mp h).resolve_left (Ne.symm ha)
      rw [stackString_cons ha]
      exact bind_ne_pastRow (sprintf_ne_pastRow _) fun buf =>
        bind_ne_pastRow (sourceLine_ne_pastRow _) fun shown => ih hrow _ _

/-! ### The rows of a mutex -/

/-- A row of `stacks` after a call of `do_backtrace`. -/
def recordedRow (s : Stack) (currentFrame : ℕ) (row : ℕ → BitVec 64) : List (BitVec 64) :=
  (List.range (maxCallStackDepth + 1)).map
    (Backtrace.doBacktrace s maxCallStackDepth currentFrame row).row

theorem zero_mem_recordedRow (s : Stack) (currentFrame : ℕ) (row : ℕ → BitVec 64) :
    0 ∈ recordedRow s currentFrame row := by
  have h := doBacktrace_usable s maxCallStackDepth currentFrame row
  exact List.mem_map.mpr ⟨_, List.mem_range.mpr (Nat.lt_succ_of_le h.found_le), h.ended⟩

/-- **Recorded stacks.**  For every memory of frames and every size the loops of `do_backtrace` end
    and leave a usable stack, and the loops of the report stop within the rows of a mutex. -/
theorem recorded_stack_readable (s : Stack) (currentFrame : ℕ) (row : ℕ → BitVec 64) :
    (∀ size, Usable s size currentFrame (Backtrace.doBacktrace s size currentFrame row)) ∧
      (rawContext (recordedRow s currentFrame row)).isSome ∧
      ∀ curFilename popen,
        getCallStackString curFilename popen (recordedRow s currentFrame row) ≠ .error .pastRow :=
  have hzero := zero_mem_recordedRow s currentFrame row
  ⟨fun size => doBacktrace_usable s size currentFrame row, rawContext_isSome hzero,
    fun curFilename popen => stackString_ne_pastRow hzero curFilename popen 0 []⟩

/-- The raw text of a recorded row is that of the stack that was captured. -/
theorem rawContext_recordedRow (s : Stack) (currentFrame : ℕ) {slot : List (BitVec 64)}
    (hslot : slot.length = maxCallStackDepth + 1) :
    rawContext (recordedRow s currentFrame fun j => slot.getD j 0) =
      some (rawText (CallSites.doBacktrace s currentFrame).callers) := by
  have hrow := doBacktrace_writeStack s currentFrame hslot
  rw [hslot] at hrow
  rw [recordedRow, hrow, rawContext_writeStack]

end SyncPerf.RecordedStack
