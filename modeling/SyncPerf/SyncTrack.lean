import Mathlib.Data.BitVec
import SyncPerf.MapTotals

namespace SyncPerf.SyncTrack

open MapTotals

/-!
# The diagnosis tool

The Pin tool watches the critical sections that are entered from the call sites of its input file:
in them it counts instructions, and notes for every address whether more than one thread accesses
it.  Each analysis routine is one step; an assertion that fails is the result `none`.

* `Tool` — the global variables;
* `threadBegin`, `threadEnd`, `processLock`, `processUnlock` — when recording is on;
* `doMemAccess`, `examine`, `processInst` — what is recorded;
* `fini` — the totals that are printed;
* `AnalysisCall`, `Tool.step`, `Tool.run` — the routines as the program calls them.
-/

/-! ### State -/

/-- `mem_track_t`: the one thread that has accessed the address, or `total_threads`. -/
structure MemTrack where
  threadId : ℕ
  accessCount : BitVec 32
  deriving DecidableEq

/-- `mem_access_map`. -/
abbrev MemAccessMap := Finmap fun _ : BitVec 64 => MemTrack

/-- `SyncData`. -/
structure SyncData where
  instcount : BitVec 32 := 0
  instMemAccess : BitVec 32 := 0
  criticalSections : BitVec 32 := 0
  deriving DecidableEq

/-- The global variables; `main` has set `total_threads` and `call_site`. -/
structure Tool where
  totalThreads : ℕ
  callSite : List (BitVec 64)
  activeThreads : BitVec 16 := 1
  startProfile : Bool := false
  record : ℕ → Bool := fun _ => false
  data : ℕ → SyncData := fun _ => {}
  memAccessMap : MemAccessMap := ∅

/-! ### Threads and critical sections -/

/-- `ThreadBegin`. -/
def threadBegin (s : Tool) (threadId : ℕ) : Option Tool :=
  let s := { s with activeThreads := s.activeThreads + 1 }
  if threadId < s.totalThreads then
    some { s with startProfile := s.startProfile || BitVec.slt 1 s.activeThreads }
  else none

/-- `ThreadEnd`. -/
def threadEnd (s : Tool) : Tool := { s with activeThreads := s.activeThreads - 1 }

/-- `ProcessLock`. -/
def processLock (s : Tool) (retAddress : BitVec 64) (threadId : ℕ) : Tool :=
  if s.startProfile then
    if retAddress ∈ s.callSite then
      { s with
        data := Function.update s.data threadId
          { s.data threadId with criticalSections := (s.data threadId).criticalSections + 1 }
        record := Function.update s.record threadId true }
    else s
  else s

/-- `ProcessUnlock`. -/
def processUnlock (s : Tool) (threadId : ℕ) : Tool :=
  if s.startProfile then { s with record := Function.update s.record threadId false } else s

/-- One of the sections was entered from a call site of the list. -/
def Watched (callSite sections : List (BitVec 64)) : Prop := ∃ a ∈ sections, a ∈ callSite

instance (callSite sections : List (BitVec 64)) : Decidable (Watched callSite sections) :=
  List.decidableBEx (· ∈ callSite) sections

/-! ### Memory accesses -/

/-- `doMemAccess`: whether the address is shared, and the new map. -/
def doMemAccess (totalThreads : ℕ) (memAddr : BitVec 64) (threadId : ℕ) (m : MemAccessMap) :
    Bool × MemAccessMap :=
  match m.lookup memAddr with
  | some it =>
    if it.threadId ≠ totalThreads then
      if it.threadId ≠ threadId then
        -- "at least 2 threads touched the mem address"
        (true, m.insert memAddr ⟨totalThreads, it.accessCount + 1⟩)
      else (false, m.insert memAddr { it with accessCount := it.accessCount + 1 })
    else (true, m.insert memAddr { it with accessCount := it.accessCount + 1 })
  | none => (false, m.insert memAddr ⟨threadId, 1⟩)

section DoMemAccess

variable {totalThreads : ℕ} {m : MemAccessMap}

theorem doMemAccess_lookup_of_ne {a addr : BitVec 64} {t : ℕ} (hne : a ≠ addr) :
    (doMemAccess totalThreads addr t m).2.lookup a = m.lookup a := by
  unfold doMemAccess
  split
  · split
    · split <;> exact Finmap.lookup_insert_of_ne m hne
    · exact Finmap.lookup_insert_of_ne m hne
  · exact Finmap.lookup_insert_of_ne m hne

/-- A new address belongs to the thread. -/
theorem doMemAccess_new {addr : BitVec 64} {t : ℕ} (h : m.lookup addr = none) :
    doMemAccess totalThreads addr t m = (false, m.insert addr ⟨t, 1⟩) := by
  unfold doMemAccess
  rw [h]

/-- The access is the first one of another thread, or the address is shared already. -/
def MemTrack.Foreign (totalThreads t : ℕ) (it : MemTrack) : Prop :=
  it.threadId = totalThreads ∨ it.threadId ≠ t

instance (totalThreads t : ℕ) (it : MemTrack) : Decidable (it.Foreign totalThreads t) :=
  inferInstanceAs (Decidable (_ ∨ _))

/-- An address that is in the map gets one more access, and is shared from now on when the access is
    a foreign one. -/
theorem doMemAccess_old {addr : BitVec 64} {t : ℕ} {it : MemTrack} (h : m.lookup addr = some it) :
    doMemAccess totalThreads addr t m =
      if it.Foreign totalThreads t then (true, m.insert addr ⟨totalThreads, it.accessCount + 1⟩)
      else (false, m.insert addr ⟨t, it.accessCount + 1⟩) := by
  obtain ⟨owner, n⟩ := it
  unfold doMemAccess
  rw [h]
  by_cases htotal : owner = totalThreads
  · subst htotal
    simp [MemTrack.Foreign]
  · by_cases ht : owner = t
    · subst ht
      simp [MemTrack.Foreign, htotal]
    · simp [MemTrack.Foreign, htotal, ht]

/-- **Every access is counted once** in a measure of the entries that an access increases. -/
theorem doMemAccess_total_of {M : Type} [AddCancelCommMonoid M] {f : MemTrack → M} {one : M}
    {addr : BitVec 64} {t : ℕ} (hnew : f ⟨t, 1⟩ = one)
    (hold : ∀ it ∈ m.lookup addr, ∀ owner, f ⟨owner, it.accessCount + 1⟩ = f it + one) :
    total f (doMemAccess totalThreads addr t m).2 = total f m + one := by
  have hinsert := fun b => total_insert f m addr b
  cases h : m.lookup addr with
  | none =>
    rw [doMemAccess_new h]
    have heq := hinsert ⟨t, 1⟩
    rw [h, hnew] at heq
    exact (add_zero _).symm.trans (heq.trans (add_comm ..))
  | some it =>
    have hentry : ∀ owner, total f (m.insert addr ⟨owner, it.accessCount + 1⟩) = total f m + one := by
      intro owner
      have heq := hinsert ⟨owner, it.accessCount + 1⟩
      rw [h, hold it h owner] at heq
      refine add_right_cancel (b := f it) (heq.trans ?_)
      rw [add_assoc, add_comm one, add_comm (f it)]
    rw [doMemAccess_old h]
    split <;> exact hentry _

/-- As the counts are added up by `Fini`, also when one of them wraps. -/
theorem doMemAccess_total {addr : BitVec 64} {t : ℕ} :
    total MemTrack.accessCount (doMemAccess totalThreads addr t m).2 =
      total MemTrack.accessCount m + 1 :=
  doMemAccess_total_of rfl fun _ _ _ => rfl

end DoMemAccess

/-- What the guarded calls of `ProcessInst` have done: the addresses that they gave to
    `doMemAccess`, `shared_data`, and the map. -/
structure Examined where
  called : List (BitVec 64) := []
  sharedData : Bool := false
  memAccessMap : MemAccessMap

/-- One call of `doMemAccess`. -/
def Examined.call (totalThreads threadId : ℕ) (addr : BitVec 64) (x : Examined) : Examined where
  called := x.called ++ [addr]
  sharedData := (doMemAccess totalThreads addr threadId x.memAccessMap).1
  memAccessMap := (doMemAccess totalThreads addr threadId x.memAccessMap).2

/-- `addr & !shared_data`: a bitwise operator on an address and a flag. -/
def Examined.guard (addr : BitVec 64) (x : Examined) : Bool :=
  addr &&& (BitVec.ofBool !x.sharedData).setWidth 64 ≠ 0

/-- The three guarded calls. -/
def examine (totalThreads threadId : ℕ) (waddr raddr raddr2 : BitVec 64) (m : MemAccessMap) :
    Examined :=
  let x : Examined := { memAccessMap := m }
  let x := if waddr ≠ 0 then x.call totalThreads threadId waddr else x
  let x := if x.guard raddr then x.call totalThreads threadId raddr else x
  if x.guard raddr2 then x.call totalThreads threadId raddr2 else x

/-- The arguments of `ProcessInst`. -/
structure InstCall where
  threadId : ℕ
  isMemAccess : Bool
  isStackAccess : Bool
  waddr : BitVec 64
  raddr : BitVec 64
  raddr2 : BitVec 64
  deriving DecidableEq

/-- The call is about memory outside the stack. -/
def InstCall.isShareable (e : InstCall) : Bool := e.isMemAccess && !e.isStackAccess

/-- What `ProcessInst` adds to the counts of its thread. -/
def SyncData.count (d : SyncData) (mem : Bool) : SyncData :=
  { d with
    instcount := d.instcount + 1
    instMemAccess := if mem then d.instMemAccess + 1 else d.instMemAccess }

/-- `ProcessInst`. -/
def processInst (s : Tool) (e : InstCall) : Option Tool :=
  if e.threadId < s.totalThreads then
    if s.record e.threadId then
      let s' := { s with
        data := Function.update s.data e.threadId ((s.data e.threadId).count e.isShareable) }
      if e.isShareable then
        if e.waddr ≠ 0 ∨ e.raddr ≠ 0 ∨ e.raddr2 ≠ 0 then
          some { s' with
            memAccessMap := (examine s.totalThreads e.threadId e.waddr e.raddr e.raddr2
              s.memAccessMap).memAccessMap }
        else none
      else some s'
    else some s
  else none

/-! ### Totals -/

/-- What `Fini` prints. -/
structure Totals where
  instruction : BitVec 32
  memoryAccessInst : BitVec 32
  criticalSections : BitVec 32
  memAccess : BitVec 32
  sharedAccess : BitVec 32
  deriving DecidableEq

/-- What an entry adds to the two totals of accesses. -/
def MemTrack.sharedCount (totalThreads : ℕ) (it : MemTrack) : BitVec 32 :=
  if it.threadId = totalThreads then it.accessCount else 0

/-- `Fini`. -/
def fini (s : Tool) : Totals where
  instruction := ∑ i ∈ Finset.range s.totalThreads, (s.data i).instcount
  memoryAccessInst := ∑ i ∈ Finset.range s.totalThreads, (s.data i).instMemAccess
  criticalSections := ∑ i ∈ Finset.range s.totalThreads, (s.data i).criticalSections
  memAccess := total MemTrack.accessCount s.memAccessMap
  sharedAccess := total (MemTrack.sharedCount s.totalThreads) s.memAccessMap

/-! ### Runs -/

/-- A call of an analysis routine. -/
inductive AnalysisCall
  | threadBegin (threadId : ℕ)
  | threadEnd (threadId : ℕ)
  | lock (retAddress : BitVec 64) (threadId : ℕ)
  | unlock (threadId : ℕ)
  | inst (e : InstCall)
  deriving DecidableEq

/-- What one of the inserted calls does. -/
def Tool.step (s : Tool) : AnalysisCall → Option Tool
  | .threadBegin threadId => threadBegin s threadId
  | .threadEnd _ => some (threadEnd s)
  | .lock retAddress threadId => some (processLock s retAddress threadId)
  | .unlock threadId => some (processUnlock s threadId)
  | .inst e => processInst s e

/-- The routines one after the other. -/
def Tool.run (s : Tool) (calls : List AnalysisCall) : Option Tool := calls.foldlM Tool.step s

/-- `P` holds of every call of `ProcessInst`, in the state in which it is made. -/
def Tool.Each (P : Tool → InstCall → Prop) (s : Tool) : List InstCall → Prop
  | [] => True
  | e :: es => P s e ∧ ∀ s' ∈ processInst s e, s'.Each P es

end SyncPerf.SyncTrack
