import Mathlib.Tactic.Ring
import SyncPerf.SyncTrack

namespace SyncPerf.SyncTrack

open MapTotals

/-!
# Which instructions are counted

`Image` chooses by the attributes of an instruction which call of `ProcessInst` is inserted before
it.  The branch for instructions that access no memory stands inside the test for those that do, so
that no call is ever inserted for them; and an instruction with a stack operand counts as a stack
access, whatever else it accesses.

* `Ins`, `image` — instructions, and the call that is inserted before one;
* `Exec`, `execute` — the run of the instrumented program;
* `execute_exact` — what a run adds to the totals;
* `instruction_total` — when that is the number of instructions.
-/

/-! ### Instrumentation -/

/-- What Pin says about an instruction. -/
structure Ins where
  isOriginal : Bool := true
  hasFallThrough : Bool := true
  isMemoryWrite : Bool := false
  isMemoryRead : Bool := false
  hasMemoryRead2 : Bool := false
  isStackWrite : Bool := false
  isStackRead : Bool := false
  deriving DecidableEq

/-- An address argument of an inserted call. -/
inductive AddrArg
  | memoryWriteEa
  | memoryReadEa
  | memoryRead2Ea
  | zero
  deriving DecidableEq

/-- The arguments of an inserted call of `ProcessInst`. -/
structure Inserted where
  isMemAccess : Bool
  isStackAccess : Bool
  waddr : AddrArg
  raddr : AddrArg
  raddr2 : AddrArg
  deriving DecidableEq

/-- The instruction reads or writes the stack. -/
def Ins.isStackAccess (ins : Ins) : Bool := ins.isStackRead || ins.isStackWrite

/-- `Image`: the call that is inserted before an instruction. -/
def image (ins : Ins) : Option Inserted :=
  if !ins.isOriginal then none
  else if (ins.isMemoryWrite || ins.isMemoryRead) && ins.hasFallThrough then
    if ins.isMemoryWrite && ins.isMemoryRead && ins.hasMemoryRead2 then
      some ⟨true, ins.isStackAccess, .memoryWriteEa, .memoryReadEa, .memoryRead2Ea⟩
    else if ins.isMemoryWrite && ins.isMemoryRead && !ins.hasMemoryRead2 then
      some ⟨true, ins.isStackAccess, .memoryWriteEa, .memoryReadEa, .zero⟩
    else if ins.isMemoryWrite && !ins.isMemoryRead then
      some ⟨true, ins.isStackAccess, .memoryWriteEa, .zero, .zero⟩
    else if !ins.isMemoryWrite && ins.isMemoryRead && ins.hasMemoryRead2 then
      some ⟨true, ins.isStackAccess, .zero, .memoryReadEa, .memoryRead2Ea⟩
    else if !ins.isMemoryWrite && ins.isMemoryRead && !ins.hasMemoryRead2 then
      some ⟨true, ins.isStackAccess, .zero, .memoryReadEa, .zero⟩
    else
      -- "not a memory operation"
      some ⟨false, false, .zero, .zero, .zero⟩
  else none

/-- An instruction is executed by a thread, with its effective addresses. -/
structure Exec where
  ins : Ins
  threadId : ℕ
  waddr : BitVec 64
  raddr : BitVec 64
  raddr2 : BitVec 64
  deriving DecidableEq

/-- The value that the inserted call gets for an address argument. -/
def AddrArg.value (x : Exec) : AddrArg → BitVec 64
  | .memoryWriteEa => x.waddr
  | .memoryReadEa => x.raddr
  | .memoryRead2Ea => x.raddr2
  | .zero => 0

/-- The inserted call, when the instruction is executed. -/
def Inserted.call (c : Inserted) (x : Exec) : InstCall :=
  ⟨x.threadId, c.isMemAccess, c.isStackAccess, c.waddr.value x, c.raddr.value x, c.raddr2.value x⟩

/-- An instruction of the instrumented program is executed. -/
def Tool.exec (s : Tool) (x : Exec) : Option Tool :=
  match image x.ins with
  | some c => processInst s (c.call x)
  | none => some s

/-- The instrumented program. -/
def execute (s : Tool) (trace : List Exec) : Option Tool := trace.foldlM Tool.exec s

/-! ### Instructions -/

/-- The instruction accesses memory. -/
def Ins.isMemoryAccess (ins : Ins) : Bool := ins.isMemoryWrite || ins.isMemoryRead

/-- The instruction accesses memory outside the stack. -/
def Ins.accessesNonStack (ins : Ins) : Bool :=
  ins.isMemoryWrite && !ins.isStackWrite || ins.isMemoryRead && !ins.isStackRead

/-- The instruction counts as an access of memory outside the stack. -/
def Ins.isShareable (ins : Ins) : Bool := ins.isMemoryAccess && !ins.isStackAccess

/-- An instruction that accesses memory outside the stack counts as such, or else it has a stack
    operand, too. -/
theorem Ins.accessesNonStack_count (ins : Ins) :
    (if ins.accessesNonStack then 1 else 0) =
      (if ins.isShareable then 1 else 0) +
        (if ins.accessesNonStack && ins.isStackAccess then 1 else 0) := by
  obtain ⟨o, f, w, r, r2, sw, sr⟩ := ins
  cases w <;> cases r <;> cases sw <;> cases sr <;> rfl

/-- One of the addresses that the instruction accesses is not zero. -/
def Exec.HasAddress (x : Exec) : Prop :=
  x.ins.isMemoryWrite ∧ x.waddr ≠ 0 ∨ x.ins.isMemoryRead ∧ x.raddr ≠ 0 ∨
    x.ins.isMemoryRead ∧ x.ins.hasMemoryRead2 ∧ x.raddr2 ≠ 0

instance (x : Exec) : Decidable x.HasAddress := inferInstanceAs (Decidable (_ ∨ _))

/-- `ProcessInst` does not assert the address of an access that it takes for one of the stack. -/
def Exec.Asserted (x : Exec) : Prop := x.ins.isShareable → x.HasAddress

instance (x : Exec) : Decidable x.Asserted := inferInstanceAs (Decidable (_ → _))

/-- Before an instruction without memory operands nothing is inserted. -/
theorem image_other {ins : Ins} (hmem : ins.isMemoryAccess = false) : image ins = none := by
  unfold Ins.isMemoryAccess at hmem
  unfold image
  rw [hmem, Bool.false_and]
  split <;> rfl

/-- **The inserted call** of an original instruction with memory operands and fall-through has their
    addresses. -/
theorem image_memory {ins : Ins} (ho : ins.isOriginal) (hf : ins.hasFallThrough)
    (hmem : ins.isMemoryAccess) :
    ∃ c, image ins = some c ∧ ∀ x : Exec, x.ins = ins → (c.call x).isShareable = ins.isShareable ∧
      (((c.call x).waddr ≠ 0 ∨ (c.call x).raddr ≠ 0 ∨ (c.call x).raddr2 ≠ 0) ↔ x.HasAddress) := by
  obtain ⟨o, f, w, r, r2, sw, sr⟩ := ins
  obtain rfl : o = true := ho
  obtain rfl : f = true := hf
  cases w <;> cases r <;> cases r2 <;> simp only [Ins.isMemoryAccess] at hmem <;>
  first
  | exact absurd hmem (by decide)
  | refine ⟨_, rfl, fun x hx => ⟨rfl, ?_⟩⟩
    simp [Inserted.call, Exec.HasAddress, AddrArg.value, hx]

/-! ### One instruction -/

/-- `1` when the condition holds. -/
def tick (b : Bool) : BitVec 32 := if b then 1 else 0

/-- What a step has added to the totals, with the flags and the number of threads as they were. -/
structure Adds (insts accs : BitVec 32) (s s' : Tool) : Prop where
  instruction : (fini s').instruction = (fini s).instruction + insts
  memoryAccessInst : (fini s').memoryAccessInst = (fini s).memoryAccessInst + accs
  record : s'.record = s.record
  totalThreads : s'.totalThreads = s.totalThreads

/-- Nothing is added. -/
theorem Adds.refl (s : Tool) : Adds 0 0 s s := ⟨(add_zero _).symm, (add_zero _).symm, rfl, rfl⟩

/-- Two additions, one after the other. -/
theorem Adds.trans {i j a b : BitVec 32} {s s₁ s₂ : Tool} (h : Adds i a s s₁) (h' : Adds j b s₁ s₂) :
    Adds (i + j) (a + b) s s₂ where
  instruction := by rw [h'.instruction, h.instruction, add_assoc]
  memoryAccessInst := by rw [h'.memoryAccessInst, h.memoryAccessInst, add_assoc]
  record := h'.record.trans h.record
  totalThreads := h'.totalThreads.trans h.totalThreads

/-- The counts of one thread go up. -/
theorem Adds.count {s : Tool} {t : ℕ} (ht : t < s.totalThreads) (mem : Bool) (m : MemAccessMap) :
    Adds 1 (tick mem) s
      { s with data := Function.update s.data t ((s.data t).count mem), memAccessMap := m } := by
  have hmem := Finset.mem_range.mpr ht
  have hinst := sum_update SyncData.instcount s.data hmem ((s.data t).count mem)
  have hacc := sum_update SyncData.instMemAccess s.data hmem ((s.data t).count mem)
  refine ⟨?_, ?_, rfl, rfl⟩
  · refine add_right_cancel (b := (s.data t).instcount) (hinst.trans ?_)
    simp only [fini, SyncData.count]
    ring
  · refine add_right_cancel (b := (s.data t).instMemAccess) (hacc.trans ?_)
    cases mem <;> simp only [fini, SyncData.count, tick, Bool.false_eq_true, if_false, if_true] <;>
      ring

/-- A recorded call adds its instruction, unless its assertion fails. -/
theorem processInst_adds {s : Tool} {e : InstCall} (ht : e.threadId < s.totalThreads)
    (hrecord : s.record e.threadId = true) :
    ((e.isShareable → e.waddr ≠ 0 ∨ e.raddr ≠ 0 ∨ e.raddr2 ≠ 0) →
      ∃ s', processInst s e = some s' ∧ Adds 1 (tick e.isShareable) s s') ∧
    (¬ (e.isShareable → e.waddr ≠ 0 ∨ e.raddr ≠ 0 ∨ e.raddr2 ≠ 0) → processInst s e = none) := by
  simp only [processInst, if_pos ht, if_pos hrecord]
  cases hmem : e.isShareable with
  | false =>
    refine ⟨fun _ => ⟨_, rfl, Adds.count ht false s.memAccessMap⟩, fun h => absurd ?_ h⟩
    exact fun h => absurd h Bool.false_ne_true
  | true =>
    refine ⟨fun h => ?_, fun h => ?_⟩
    · rw [if_pos rfl, if_pos (h rfl)]
      exact ⟨_, rfl, Adds.count ht true _⟩
    · rw [if_pos rfl, if_neg fun haddr => h fun _ => haddr]

/-- The conditions under which a trace is recorded: the threads are, and the instructions can be
    instrumented. -/
structure Exec.Recorded (s : Tool) (x : Exec) : Prop where
  lt : x.threadId < s.totalThreads
  record : s.record x.threadId = true
  isOriginal : x.ins.isOriginal = true
  hasFallThrough : x.ins.hasFallThrough = true

/-- **One instruction.** -/
theorem exec_adds {s : Tool} {x : Exec} (hx : x.Recorded s) :
    (x.Asserted →
      ∃ s', s.exec x = some s' ∧ Adds (tick x.ins.isMemoryAccess) (tick x.ins.isShareable) s s') ∧
    (¬ x.Asserted → s.exec x = none) := by
  cases hmem : x.ins.isMemoryAccess with
  | false =>
    have hshareable : x.ins.isShareable = false := by rw [Ins.isShareable, hmem, Bool.false_and]
    have hasserted : x.Asserted := fun h => absurd (hshareable.symm.trans h) Bool.false_ne_true
    rw [hshareable]
    refine ⟨fun _ => ⟨s, ?_, Adds.refl s⟩, fun h => absurd hasserted h⟩
    rw [Tool.exec, image_other hmem]
  | true =>
    obtain ⟨c, hc, hcall⟩ := image_memory hx.isOriginal hx.hasFallThrough hmem
    obtain ⟨hshareable, haddr⟩ := hcall x rfl
    have hexec : s.exec x = processInst s (c.call x) := by rw [Tool.exec, hc]
    obtain ⟨hsome, hnone⟩ := processInst_adds (e := c.call x) hx.lt hx.record
    rw [hshareable, haddr] at hsome hnone
    rw [hexec]
    exact ⟨hsome, hnone⟩

/-! ### Runs -/

/-- A count leaves it as it was whether accesses are recorded. -/
theorem Exec.Recorded.of_adds {i a : BitVec 32} {s s' : Tool} (h : Adds i a s s') {x : Exec}
    (hx : x.Recorded s) : x.Recorded s' :=
  ⟨by rw [h.totalThreads]; exact hx.lt, by rw [h.record]; exact hx.record, hx.isOriginal,
    hx.hasFallThrough⟩

/-- One more, if there is something to count. -/
theorem tick_add (b : Bool) (n : ℕ) :
    tick b + (n : BitVec 32) = ((n + if b then 1 else 0 : ℕ) : BitVec 32) := by
  cases b <;> simp [tick, add_comm]

/-- **What a run adds to the totals**: the instructions that access memory, and those of them that
    have no stack operand. -/
theorem execute_exact {s : Tool} {trace : List Exec} (htrace : ∀ x ∈ trace, x.Recorded s) :
    ((∀ x ∈ trace, x.Asserted) →
      ∃ s', execute s trace = some s' ∧
        Adds (trace.countP fun x => x.ins.isMemoryAccess : ℕ)
          (trace.countP fun x => x.ins.isShareable : ℕ) s s') ∧
    (¬ (∀ x ∈ trace, x.Asserted) → execute s trace = none) := by
  induction trace generalizing s with
  | nil => exact ⟨fun _ => ⟨s, rfl, Adds.refl s⟩, fun h => absurd (List.forall_mem_nil _) h⟩
  | cons x trace ih =>
    have hexec : execute s (x :: trace) = (s.exec x).bind fun s₁ => execute s₁ trace := rfl
    obtain ⟨hsome, hnone⟩ := exec_adds (htrace x List.mem_cons_self)
    rw [List.forall_mem_cons, hexec]
    by_cases hx : x.Asserted
    · obtain ⟨s₁, hs₁, hadds⟩ := hsome hx
      obtain ⟨hrest, hfail⟩ := ih fun y hy => (htrace y (List.mem_cons_of_mem x hy)).of_adds hadds
      rw [hs₁, Option.bind_some, and_iff_right hx]
      refine ⟨fun hall => ?_, hfail⟩
      obtain ⟨s', hs', hadds'⟩ := hrest hall
      refine ⟨s', hs', ?_⟩
      rw [List.countP_cons, List.countP_cons, ← tick_add, ← tick_add]
      exact hadds.trans hadds'
    · refine ⟨fun h => absurd h.1 hx, fun _ => ?_⟩
      rw [hnone hx]
      rfl

/-- The accesses outside the stack that are not counted as such. -/
theorem countP_accessesNonStack (trace : List Exec) :
    trace.countP (fun x => x.ins.accessesNonStack) =
      trace.countP (fun x => x.ins.isShareable) +
        trace.countP fun x => x.ins.accessesNonStack && x.ins.isStackAccess := by
  induction trace with
  | nil => rfl
  | cons x trace ih =>
    rw [List.countP_cons, List.countP_cons, List.countP_cons, ih, x.ins.accessesNonStack_count]
    omega

/-- A total is short by a number of instructions that the totals cannot tell from zero. -/
theorem add_eq_add_iff (total : BitVec 32) {n m k : ℕ} (hsum : n = m + k) :
    total + (m : BitVec 32) = total + (n : BitVec 32) ↔ k % 2 ^ 32 = 0 := by
  rw [add_right_inj, hsum, Nat.cast_add, eq_comm, add_eq_left, ← BitVec.toNat_inj]
  simp

/-- **The instruction totals.**  In every run of instructions with fall-through by recorded threads,
    the two totals go up by the number of instructions and by the number of those that access memory
    outside the stack exactly when every access that is recorded has an address, and the
    instructions that access no memory, and those that access the stack and other memory, are each a
    multiple of `2 ^ 32`. -/
theorem instruction_total {s : Tool} {trace : List Exec} (htrace : ∀ x ∈ trace, x.Recorded s) :
    (∃ s', execute s trace = some s' ∧
      (fini s').instruction = (fini s).instruction + (trace.length : BitVec 32) ∧
      (fini s').memoryAccessInst =
        (fini s).memoryAccessInst + (trace.countP (fun x => x.ins.accessesNonStack) : BitVec 32)) ↔
    (∀ x ∈ trace, x.Asserted) ∧
      trace.countP (fun x => !x.ins.isMemoryAccess) % 2 ^ 32 = 0 ∧
      trace.countP (fun x => x.ins.accessesNonStack && x.ins.isStackAccess) % 2 ^ 32 = 0 := by
  obtain ⟨hsome, hnone⟩ := execute_exact htrace
  have hlength : trace.length = trace.countP (fun x => x.ins.isMemoryAccess) +
      trace.countP fun x => !x.ins.isMemoryAccess := by
    rw [List.length_eq_countP_add_countP fun x : Exec => x.ins.isMemoryAccess]
    simp
  by_cases hall : ∀ x ∈ trace, x.Asserted
  · obtain ⟨s', hs', hadds⟩ := hsome hall
    rw [and_iff_right hall, ← add_eq_add_iff (fini s).instruction hlength,
      ← add_eq_add_iff (fini s).memoryAccessInst (countP_accessesNonStack trace),
      ← hadds.instruction, ← hadds.memoryAccessInst]
    constructor
    · rintro ⟨s'', hs'', h⟩
      rw [hs'] at hs''
      obtain rfl := Option.some.inj hs''
      exact h
    · exact fun h => ⟨s', hs', h⟩
  · refine iff_of_false ?_ fun h => hall h.1
    rintro ⟨s', hs', -⟩
    rw [hnone hall] at hs'
    cases hs'

/-- One thread, in a critical section that is watched. -/
def watchedTool : Tool where
  totalThreads := 1
  callSite := []
  record := fun _ => true

instance Exec.decidableRecorded (s : Tool) (x : Exec) : Decidable (x.Recorded s) :=
  decidable_of_iff (x.threadId < s.totalThreads ∧ s.record x.threadId = true ∧
      x.ins.isOriginal = true ∧ x.ins.hasFallThrough = true)
    ⟨fun h => ⟨h.1, h.2.1, h.2.2.1, h.2.2.2⟩,
      fun h => ⟨h.lt, h.record, h.isOriginal, h.hasFallThrough⟩⟩

/-- A load, a store to the stack, and a copy. -/
def memoryTrace : List Exec :=
  [⟨{ isMemoryRead := true }, 0, 0, 8, 0⟩,
    ⟨{ isMemoryWrite := true, isStackWrite := true }, 0, 16, 0, 0⟩,
    ⟨{ isMemoryWrite := true, isMemoryRead := true }, 0, 24, 8, 0⟩]

/-- Three instructions, of which two access memory. -/
theorem instruction_total_memoryTrace :
    ∃ s', execute watchedTool memoryTrace = some s' ∧
      (fini s').instruction = (fini watchedTool).instruction + (3 : ℕ) ∧
      (fini s').memoryAccessInst = (fini watchedTool).memoryAccessInst + (2 : ℕ) := by
  have htrace : ∀ x ∈ memoryTrace, x.Recorded watchedTool := by decide
  exact (instruction_total htrace).mpr ⟨by decide, rfl, rfl⟩

/-- An instruction on registers. -/
def registerTrace : List Exec := [⟨{}, 0, 0, 0, 0⟩]

/-- **An instruction that accesses no memory is not counted.** -/
theorem registerTrace_not_counted :
    (∀ x ∈ registerTrace, x.Recorded watchedTool) ∧
      execute watchedTool registerTrace = some watchedTool ∧
      (fini watchedTool).instruction = 0 ∧
      ¬ ∃ s', execute watchedTool registerTrace = some s' ∧
        (fini s').instruction =
          (fini watchedTool).instruction + (registerTrace.length : BitVec 32) := by
  refine ⟨by decide, rfl, rfl, ?_⟩
  rintro ⟨s', hs', htotal⟩
  obtain rfl := Option.some.inj hs'
  exact absurd htotal (by decide)

end SyncPerf.SyncTrack
