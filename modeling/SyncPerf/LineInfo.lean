import SyncPerf.CString
import SyncPerf.CallSites

namespace SyncPerf.LineInfo

open CallSites (maxCallStackDepth maxNumStacks)

/-!
# The context lines of a report entry

`Report::print` copies the contexts of a mutex into the rows of `line_info`, one after the other,
and `write_report` prints each row up to its terminator.  A row has `MAX_CALL_STACK_DEPTH * 50`
characters, and the assertion before the copy lets a context through that has as many without its
terminator.

* `SyncPerfT` — an entry as the memory that it takes up;
* `printContexts`, `writeReport` — the loop that fills an entry, and the report;
* `printContexts_spec` — what short contexts leave in the memory;
* `context_lines_iff` — when the report has the lines that were given.
-/

/-- A `char`; a string ends with `nul`. -/
def nul : Char := '\x00'

/-! ### The entry -/

/-- The number of characters of a row: `MAX_CALL_STACK_DEPTH * 50`. -/
def lineInfoSize : ℕ := maxCallStackDepth * 50

/-- `sync_perf_t`: the bytes of `line_info`, `conflict_rate` and `frequency`, which lie one after
    the other, and `count` behind them. -/
structure SyncPerfT where
  bytes : ℕ → Char
  count : ℕ := 0

/-- The address of `line_info[con]`. -/
def rowOf (con : ℕ) : ℕ := con * lineInfoSize

/-- The addresses of the two rates, and of what lies behind them. -/
def conflictRateAt : ℕ := rowOf maxNumStacks

/-- The address of `frequency`. -/
def frequencyAt : ℕ := conflictRateAt + 8

/-- The address of `count`. -/
def countAt : ℕ := frequencyAt + 8

namespace SyncPerfT

/-- The bytes of the `double` at an address. -/
def double (e : SyncPerfT) (src : ℕ) : List Char := (List.range 8).map fun k => e.bytes (src + k)

/-- The bytes of `conflict_rate`. -/
def conflictRate (e : SyncPerfT) : List Char := e.double conflictRateAt

/-- The bytes of `frequency`. -/
def frequency (e : SyncPerfT) : List Char := e.double frequencyAt

end SyncPerfT

/-! ### The loops -/

/-- The loop over the contexts of a mutex, from row `con` on; `none` when the assertion fails. -/
def printContexts : List (List Char) → ℕ → SyncPerfT → Option SyncPerfT
  | [], _, e => some e
  | s :: contexts, con, e =>
    if s.length ≤ lineInfoSize then
      printContexts contexts (con + 1)
        { bytes := CString.strcpy nul e.bytes (rowOf con) s, count := e.count + 1 }
    else none

/-- `it->line_info[i]` as a string; `none` when there is no terminator before `count`. -/
def lineInfo (e : SyncPerfT) (i : ℕ) : Option (List Char) :=
  CString.read nul e.bytes (rowOf i) (countAt - rowOf i)

/-- The lines of an entry before its contexts. -/
def entryHead (showDouble : List Char → List Char) (id : ℕ) (conflictRate frequency : List Char)
    (count : ℕ) : List (List Char) :=
  ["No.".toList ++ Nat.toDigits 10 id,
    "-------".toList,
    "\t\tConflict Rate: ".toList ++ showDouble conflictRate,
    "\t\tAcquisition Frequency: ".toList ++ showDouble frequency,
    "\t\tLine Numbers: ".toList ++ Nat.toDigits 10 count]

/-- The line of a context. -/
def contextLine (s : List Char) : List Char := "\t\t\t".toList ++ s

/-- The lines that `write_report` prints for the entry with this number; `showDouble` is how the
    stream shows the bytes of a `double`. -/
def writeEntry (showDouble : List Char → List Char) (id : ℕ) (e : SyncPerfT) :
    Option (List (List Char)) :=
  ((List.range e.count).mapM (lineInfo e)).map fun lines =>
    entryHead showDouble id e.conflictRate e.frequency e.count ++ lines.map contextLine

/-- The entries from a number on. -/
def writeEntries (showDouble : List Char → List Char) : ℕ → List SyncPerfT →
    Option (List (List Char))
  | _, [] => some []
  | id, e :: results =>
    match writeEntry showDouble (id + 1) e, writeEntries showDouble (id + 1) results with
    | some lines, some rest => some (lines ++ rest)
    | _, _ => none

/-- The first line. -/
def totalFound (results : List SyncPerfT) : List Char :=
  "Total found : ".toList ++ Nat.toDigits 10 results.length

/-- `write_report`, by lines. -/
def writeReport (showDouble : List Char → List Char) (results : List SyncPerfT) :
    Option (List (List Char)) :=
  (writeEntries showDouble 0 results).map fun lines => totalFound results :: lines

/-! ### What the loop leaves -/

/-- The next row. -/
theorem rowOf_succ (con : ℕ) : rowOf (con + 1) = rowOf con + lineInfoSize :=
  Nat.succ_mul con lineInfoSize

/-- Later rows lie higher. -/
theorem rowOf_mono {i j : ℕ} (h : i ≤ j) : rowOf i ≤ rowOf j := Nat.mul_le_mul_right _ h

/-- The contexts that pass the assertion are copied. -/
theorem printContexts_isSome {contexts : List (List Char)}
    (h : ∀ s ∈ contexts, s.length ≤ lineInfoSize) (con : ℕ) (e : SyncPerfT) :
    ∃ e', printContexts contexts con e = some e' := by
  induction contexts generalizing con e with
  | nil => exact ⟨e, rfl⟩
  | cons s contexts ih =>
    obtain ⟨hs, hrest⟩ := List.forall_mem_cons.mp h
    rw [printContexts, if_pos hs]
    exact ih hrest _ _

/-- What the loop has done from row `con` on: every context stands in its row, and nothing else was
    written. -/
structure Filled (contexts : List (List Char)) (con : ℕ) (e e' : SyncPerfT) : Prop where
  count : e'.count = e.count + contexts.length
  holds : ∀ k (h : k < contexts.length), CString.Holds nul e'.bytes (rowOf (con + k)) contexts[k]
  unchanged : ∀ a, a < rowOf con ∨ rowOf (con + contexts.length) ≤ a → e'.bytes a = e.bytes a

/-- **The loop** on contexts that leave room for their terminators. -/
theorem printContexts_spec {contexts : List (List Char)} {con : ℕ} {e e' : SyncPerfT}
    (h : printContexts contexts con e = some e') (hnul : ∀ s ∈ contexts, nul ∉ s)
    (hroom : ∀ s ∈ contexts, s.length < lineInfoSize) : Filled contexts con e e' := by
  induction contexts generalizing con e with
  | nil =>
    obtain rfl := Option.some.inj h
    exact ⟨rfl, fun k hk => absurd hk (Nat.not_lt_zero k), fun _ _ => rfl⟩
  | cons s contexts ih =>
    obtain ⟨hs, hrest⟩ := List.forall_mem_cons.mp hnul
    obtain ⟨hsize, hsizes⟩ := List.forall_mem_cons.mp hroom
    rw [printContexts, if_pos hsize.le] at h
    obtain ⟨hcount, hholds, hunchanged⟩ := ih h hrest hsizes
    simp only at hcount hunchanged
    have hrow := rowOf_succ con
    -- the copy stays in its row
    have hwritten : ∀ a, a < rowOf con ∨ rowOf (con + 1) ≤ a →
        a ∉ CString.written nul (rowOf con) s := by
      intro a ha
      rw [CString.written, CString.cstr_eq_self nul hs, List.mem_range'_1]
      omega
    refine ⟨?_, fun k hk => ?_, fun a ha => ?_⟩
    · rw [hcount, List.length_cons]
      omega
    · cases k with
      | zero =>
        refine (CString.strcpy_holds e.bytes (rowOf con) hs).of_same fun j hj => ?_
        exact hunchanged _ (.inl (by omega))
      | succ k =>
        have hnext := hholds k (Nat.lt_of_succ_lt_succ hk)
        rw [Nat.add_right_comm, Nat.add_assoc] at hnext
        exact hnext
    · rw [List.length_cons] at ha
      have hbehind := rowOf_mono (show con + 1 ≤ con + (contexts.length + 1) by omega)
      rw [hunchanged a ?_, CString.strcpy_outside (hwritten a ?_)]
      · rcases ha with ha | ha
        · exact .inl ha
        · exact .inr (hbehind.trans ha)
      · rw [Nat.add_right_comm, Nat.add_assoc]
        omega

/-! ### The report -/

/-- Entries that follow others. -/
theorem writeEntries_append {showDouble : List Char → List Char} {id : ℕ}
    {before after : List SyncPerfT} {linesBefore linesAfter : List (List Char)}
    (hb : writeEntries showDouble id before = some linesBefore)
    (ha : writeEntries showDouble (id + before.length) after = some linesAfter) :
    writeEntries showDouble id (before ++ after) = some (linesBefore ++ linesAfter) := by
  induction before generalizing id linesBefore with
  | nil =>
    obtain rfl := Option.some.inj hb
    exact ha
  | cons e before ih =>
    rw [List.length_cons, Nat.add_comm before.length 1, ← Nat.add_assoc] at ha
    rw [writeEntries] at hb
    split at hb
    next lines rest hlines hrest =>
      obtain rfl := Option.some.inj hb
      rw [List.cons_append, writeEntries, hlines, ih hrest ha, List.append_assoc]
    next => exact absurd hb (Option.some_ne_none _).symm

/-- Every copy, with its terminator, stays in its row. -/
def StaysInRows (contexts : List (List Char)) : Prop :=
  ∀ con (h : con < contexts.length), ∀ a ∈ CString.written nul (rowOf con) contexts[con],
    rowOf con ≤ a ∧ a < rowOf (con + 1)

/-- The entry has the rates that it had before the loop, and wherever it stands in a report, its
    lines are the contexts. -/
structure PrintsContexts (contexts : List (List Char)) (e e' : SyncPerfT) : Prop where
  conflictRate : e'.conflictRate = e.conflictRate
  frequency : e'.frequency = e.frequency
  report : ∀ showDouble before after linesBefore linesAfter,
    writeEntries showDouble 0 before = some linesBefore →
    writeEntries showDouble (before.length + 1) after = some linesAfter →
    writeReport showDouble (before ++ e' :: after) =
      some (totalFound (before ++ e' :: after) :: linesBefore ++
        (entryHead showDouble (before.length + 1) e.conflictRate e.frequency contexts.length ++
          contexts.map contextLine ++ linesAfter))

/-- The texts fit their rows when they are shorter. -/
theorem staysInRows_iff {contexts : List (List Char)} (hnul : ∀ s ∈ contexts, nul ∉ s) :
    StaysInRows contexts ↔ ∀ s ∈ contexts, s.length < lineInfoSize := by
  constructor
  · intro h s hs
    obtain ⟨con, hcon, rfl⟩ := List.getElem_of_mem hs
    -- the terminator is the last character that is written
    have hlast : rowOf con + contexts[con].length ∈
        CString.written nul (rowOf con) contexts[con] := by
      rw [CString.written, CString.cstr_eq_self nul (hnul _ hs), List.mem_range'_1]
      omega
    have hlt := (h con hcon _ hlast).2
    rw [rowOf_succ] at hlt
    omega
  · intro h con hcon a ha
    have hmem := List.getElem_mem hcon
    have hsize := h _ hmem
    rw [CString.written, CString.cstr_eq_self nul (hnul _ hmem), List.mem_range'_1] at ha
    rw [rowOf_succ]
    omega

/-- The indices of a list, looked up one after the other. -/
theorem mapM_range_eq_some {l : List (List Char)} {f : ℕ → Option (List Char)}
    (h : ∀ k (hk : k < l.length), f k = some l[k]) : (List.range l.length).mapM f = some l := by
  induction l generalizing f with
  | nil => rfl
  | cons s l ih =>
    have hrest : (List.range l.length).mapM (f ∘ Nat.succ) = some l :=
      ih fun k hk => h (k + 1) (Nat.succ_lt_succ hk)
    have hfirst : f 0 = some s := h 0 (Nat.succ_pos _)
    rw [List.length_cons, List.range_succ_eq_map, List.mapM_cons, hfirst, List.mapM_map, hrest]
    rfl

/-- The rates lie behind the rows. -/
theorem double_of_filled {contexts : List (List Char)} {e e' : SyncPerfT}
    (h : Filled contexts 0 e e') (hcount : contexts.length ≤ maxNumStacks) {src : ℕ}
    (hsrc : conflictRateAt ≤ src) : e'.double src = e.double src := by
  refine List.map_congr_left fun k _ => h.unchanged _ (.inr ?_)
  have hrows := rowOf_mono hcount
  rw [Nat.zero_add]
  exact hrows.trans (hsrc.trans (Nat.le_add_right src k))

/-- A row is read up to its terminator. -/
theorem Filled.readRow {contexts : List (List Char)} {e e' : SyncPerfT} (h : Filled contexts 0 e e')
    (hcount : contexts.length ≤ maxNumStacks) {k : ℕ} (hk : k < contexts.length)
    (hnul : nul ∉ contexts[k]) (hroom : contexts[k].length < lineInfoSize) :
    lineInfo e' k = some contexts[k] := by
  have hholds := h.holds k hk
  rw [Nat.zero_add] at hholds
  refine CString.read_of_holds hholds hnul ?_
  -- the row ends before the rates
  have hrow := rowOf_succ k
  have hrates : rowOf (k + 1) ≤ conflictRateAt := rowOf_mono (by omega)
  have hbehind : countAt = conflictRateAt + 8 + 8 := rfl
  omega

/-- The rows are printed. -/
theorem Filled.prints {contexts : List (List Char)} {e e' : SyncPerfT} (h : Filled contexts 0 e e')
    (hcount : contexts.length ≤ maxNumStacks) (hzero : e.count = 0)
    (hnul : ∀ s ∈ contexts, nul ∉ s) (hroom : ∀ s ∈ contexts, s.length < lineInfoSize) :
    PrintsContexts contexts e e' := by
  have hconflict : e'.conflictRate = e.conflictRate := double_of_filled h hcount le_rfl
  have hfrequency : e'.frequency = e.frequency :=
    double_of_filled h hcount (Nat.le_add_right _ _)
  have hlines : (List.range e'.count).mapM (lineInfo e') = some contexts := by
    rw [h.count, hzero, Nat.zero_add]
    exact mapM_range_eq_some fun k hk => h.readRow hcount hk (hnul _ (List.getElem_mem hk))
      (hroom _ (List.getElem_mem hk))
  refine ⟨hconflict, hfrequency, fun showDouble before after linesBefore linesAfter hb ha => ?_⟩
  have hentry : writeEntry showDouble (before.length + 1) e' =
      some (entryHead showDouble (before.length + 1) e.conflictRate e.frequency contexts.length ++
        contexts.map contextLine) := by
    rw [writeEntry, hlines, hconflict, hfrequency, h.count, hzero, Nat.zero_add]
    rfl
  have hrest : writeEntries showDouble before.length (e' :: after) =
      some (entryHead showDouble (before.length + 1) e.conflictRate e.frequency contexts.length ++
        contexts.map contextLine ++ linesAfter) := by
    rw [writeEntries, hentry, ha]
  rw [writeReport, writeEntries_append hb (by rw [Nat.zero_add]; exact hrest)]
  rfl

/-- **The context lines.**  Of the contexts that the assertion lets through, all stay in their rows
    and are printed as they were given just when none has as many characters as a row. -/
theorem context_lines_iff (contexts : List (List Char)) (e : SyncPerfT)
    (hcount : contexts.length ≤ maxNumStacks) (hzero : e.count = 0)
    (hnul : ∀ s ∈ contexts, nul ∉ s) (hsize : ∀ s ∈ contexts, s.length ≤ lineInfoSize) :
    ∃ e', printContexts contexts 0 e = some e' ∧
      ((StaysInRows contexts ∧ PrintsContexts contexts e e') ↔
        ∀ s ∈ contexts, s.length < lineInfoSize) := by
  obtain ⟨e', he'⟩ := printContexts_isSome hsize 0 e
  refine ⟨e', he', fun h => (staysInRows_iff hnul).mp h.1, fun hroom => ?_⟩
  have hfilled := printContexts_spec he' hnul hroom
  exact ⟨(staysInRows_iff hnul).mpr hroom, hfilled.prints hcount hzero hnul hroom⟩

/-- Two contexts of a few characters. -/
theorem context_lines_iff_two :
    ∃ e', printContexts [['m', ' '], ['f', ' ']] 0 ⟨fun _ => nul, 0⟩ = some e' ∧
      StaysInRows [['m', ' '], ['f', ' ']] ∧
      PrintsContexts [['m', ' '], ['f', ' ']] ⟨fun _ => nul, 0⟩ e' := by
  obtain ⟨e', he', hiff⟩ := context_lines_iff [['m', ' '], ['f', ' ']] ⟨fun _ => nul, 0⟩ (by decide)
    rfl (by decide) (by decide)
  exact ⟨e', he', hiff.mpr (by decide)⟩

/-- The first context takes up its row to the last character: the copy of the second one goes over
    its terminator, and the first line of the report shows both. -/
theorem context_lines_full_row :
    ∃ e', printContexts [List.replicate lineInfoSize 'a', ['b']] 0 ⟨fun _ => nul, 0⟩ = some e' ∧
      ¬ StaysInRows [List.replicate lineInfoSize 'a', ['b']] ∧
      lineInfo e' 0 = some (List.replicate lineInfoSize 'a' ++ ['b']) := by
  have hnul : ∀ s ∈ [List.replicate lineInfoSize 'a', ['b']], nul ∉ s := by decide +kernel
  have hroom : ¬ ∀ s ∈ [List.replicate lineInfoSize 'a', ['b']], s.length < lineInfoSize := by
    decide +kernel
  have hbehind : rowOf 0 + (List.replicate lineInfoSize 'a').length = rowOf 1 := by decide +kernel
  -- the second row begins at the terminator of the first context
  have hholds := (CString.strcpy_holds (fun _ => nul) (rowOf 0)
    (hnul _ List.mem_cons_self)).strcpy_behind (show nul ∉ ['b'] by decide)
  rw [hbehind] at hholds
  refine ⟨⟨CString.strcpy nul (CString.strcpy nul (fun _ => nul) (rowOf 0)
    (List.replicate lineInfoSize 'a')) (rowOf 1) ['b'], 2⟩, ?_,
    fun h => hroom ((staysInRows_iff hnul).mp h),
    CString.read_of_holds hholds (by decide +kernel) (by decide +kernel)⟩
  rw [printContexts, if_pos List.length_replicate.le, printContexts, if_pos (by decide),
    printContexts]

end SyncPerf.LineInfo
