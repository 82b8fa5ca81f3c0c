import SyncPerf.HexText
import SyncPerf.LineInfo

namespace SyncPerf.RawContext

open CallSites LineInfo

/-!
# Raw call stacks, from the report to the diagnosis tool

Without `REPORT_LINE_INFO` a context is printed as the addresses of its stack, and the diagnosis
tool takes the first address of every line of its input.  The two programs agree on nothing but the
text.

* `rawContext` — the loop over the row of a stack;
* `readLong`, `readInput` — a line of the input as a stream, and the addresses that are taken;
* `rawContext_inj` — the text tells the stack;
* `raw_contexts_printed` — a report prints the texts of the stacks as they are;
* `raw_context_read` — a context of the report is taken by its first address.
-/

/-! ### The text of a stack -/

/-- An address and the comma behind it. -/
def rawAddress (a : BitVec 64) : List Char := '0' :: 'x' :: (HexText.digits a.toNat ++ [','])

/-- The loop over `m->stacks[con]` up to its zero; `none` when it leaves the row. -/
def rawContext : List (BitVec 64) → Option (List Char)
  | [] => none
  | a :: row => if a = 0 then some [] else (rawContext row).map (rawAddress a ++ ·)

/-! ### The input of the diagnosis tool -/

/-- The characters of `isspace`. -/
def isspace (c : Char) : Bool := c ∈ [' ', '\t', '\n', '\x0b', '\x0c', '\r']

/-- An optional sign. -/
def sign : List Char → Bool × List Char
  | '-' :: cs => (true, cs)
  | '+' :: cs => (false, cs)
  | cs => (false, cs)

/-- The prefix that a number may have when the flag `hex` is set. -/
def hexPrefix : List Char → List Char
  | '0' :: 'x' :: cs => cs
  | '0' :: 'X' :: cs => cs
  | cs => cs

/-- A number that is out of the range of a `long` becomes the end of it. -/
def clampLong (negative : Bool) (n : ℕ) : BitVec 64 :=
  if negative then BitVec.ofInt 64 (-(min n (2 ^ 63) : ℕ)) else BitVec.ofNat 64 (min n (2 ^ 63 - 1))

/-- `ss >> hex >> ret_address`: a stream that has no character but white space leaves the variable
    as it is, and one without a number sets it to zero. -/
def readLong (retAddress : BitVec 64) (str : List Char) : BitVec 64 :=
  match str.dropWhile isspace with
  | [] => retAddress
  | cs => clampLong (sign cs).1 (HexText.scan 0 (hexPrefix (sign cs).2)).1

/-- `ReadInput` on the lines of the file, from line `n` on; `retAddress` is what the variable of
    each turn holds before the line is read. -/
def readLines (retAddress : ℕ → BitVec 64) : ℕ → List (List Char) → List (BitVec 64) →
    List (BitVec 64)
  | _, [], callSite => callSite
  | n, str :: lines, callSite =>
    readLines retAddress (n + 1) lines (callSite ++ [readLong (retAddress n) str])

/-- `ReadInput`: what is in `call_site` afterwards. -/
def readInput (retAddress : ℕ → BitVec 64) (lines : List (List Char)) : List (BitVec 64) :=
  readLines retAddress 0 lines []

/-! ### The text tells the stack -/

/-- The text of a stack without its zero. -/
def rawText (callers : List (BitVec 64)) : List Char := callers.flatMap rawAddress

/-- The text of the first address comes first. -/
theorem rawText_cons (a : BitVec 64) (callers : List (BitVec 64)) :
    rawText (a :: callers) = '0' :: 'x' :: (HexText.digits a.toNat ++ ',' :: rawText callers) := by
  rw [rawText, List.flatMap_cons, rawAddress, List.cons_append, List.cons_append, List.append_assoc]
  rfl

/-- The loop stops at the zero that ends a stack. -/
theorem rawContext_ended {callers : List (BitVec 64)} (h : ∀ a ∈ callers, a ≠ 0)
    (rest : List (BitVec 64)) : rawContext (callers ++ 0 :: rest) = some (rawText callers) := by
  induction callers with
  | nil => rfl
  | cons a callers ih =>
    obtain ⟨ha, hcallers⟩ := List.forall_mem_cons.mp h
    rw [List.cons_append, rawContext, if_neg ha, ih hcallers]
    rfl

/-- What was written is printed. -/
theorem rawContext_writeStack (slot : List (BitVec 64)) (b : Backtrace) :
    rawContext (writeStack slot b) = some (rawText b.callers) :=
  rawContext_ended b.ne_zero _

example : rawContext [0x40, 0x1f, 0, 7] = some "0x40,0x1f,".toList := by decide +kernel

/-- A comma ends a number. -/
theorem comma_ends : HexText.digitVal ',' = none := by decide

/-- **The text tells the stack.** -/
theorem rawText_inj {callers callers' : List (BitVec 64)} (h : rawText callers = rawText callers') :
    callers = callers' := by
  induction callers generalizing callers' with
  | nil =>
    cases callers' with
    | nil => rfl
    | cons a callers' =>
      rw [rawText_cons] at h
      exact absurd h (List.cons_ne_nil _ _).symm
  | cons a callers ih =>
    cases callers' with
    | nil =>
      rw [rawText_cons] at h
      exact absurd h (List.cons_ne_nil _ _)
    | cons a' callers' =>
      rw [rawText_cons, rawText_cons] at h
      have hbody := (List.cons.inj (List.cons.inj h).2).2
      obtain ⟨hnum, hrest⟩ := HexText.digits_append_inj comma_ends hbody
      rw [BitVec.eq_of_toNat_eq hnum, ih hrest]

/-- A backtrace is its callers. -/
theorem backtrace_eq {b b' : Backtrace} (h : b.callers = b'.callers) : b = b' := by
  cases b
  cases b'
  cases h
  rfl

/-- An address has at most nineteen characters: the prefix, sixteen digits and the comma. -/
theorem rawAddress_length (a : BitVec 64) : (rawAddress a).length ≤ 19 := by
  have hdigits : (HexText.digits a.toNat).length ≤ 16 := HexText.length_digits_le (by decide) a.isLt
  rw [rawAddress, List.length_cons, List.length_cons, List.length_append, List.length_singleton]
  omega

/-- An address takes at most 19 characters. -/
theorem rawText_length (callers : List (BitVec 64)) :
    (rawText callers).length ≤ 19 * callers.length := by
  induction callers with
  | nil => exact le_rfl
  | cons a callers ih =>
    have ha := rawAddress_length a
    rw [rawText, List.flatMap_cons, List.length_append, List.length_cons]
    rw [rawText] at ih
    omega

/-! ### The number at the front of a line -/

/-- Some lines, and then others. -/
theorem readLines_append (retAddress : ℕ → BitVec 64) (n : ℕ) (lines lines' : List (List Char))
    (callSite : List (BitVec 64)) :
    readLines retAddress n (lines ++ lines') callSite =
      readLines retAddress (n + lines.length) lines' (readLines retAddress n lines callSite) := by
  induction lines generalizing n callSite with
  | nil => rfl
  | cons str lines ih =>
    rw [List.cons_append, readLines, readLines, ih, List.length_cons]
    congr 1
    omega

/-- White space at the front of a line is skipped. -/
theorem readLong_skip {blanks : List Char} (h : ∀ c ∈ blanks, isspace c) (retAddress : BitVec 64)
    (str : List Char) : readLong retAddress (blanks ++ str) = readLong retAddress str := by
  rw [readLong, readLong, List.dropWhile_append_of_pos h]

/-- The text of a stack is read up to its first comma. -/
theorem readLong_rawText (retAddress a : BitVec 64) (callers : List (BitVec 64))
    (ha : a.toNat < 2 ^ 63) : readLong retAddress (rawText (a :: callers)) = a := by
  have hfront : (rawText (a :: callers)).dropWhile isspace = rawText (a :: callers) := by
    rw [rawText_cons]
    rfl
  rw [readLong, hfront, rawText_cons]
  show clampLong false (HexText.scan 0 (HexText.digits a.toNat ++ ',' :: rawText callers)).1 = a
  rw [HexText.scan_digits _ comma_ends]
  show BitVec.ofNat 64 (min a.toNat (2 ^ 63 - 1)) = a
  rw [min_eq_left (by omega), BitVec.ofNat_toNat, BitVec.setWidth_eq]

/-! ### The context in a report -/

/-- The text of a stack leaves room in its row of a report entry. -/
theorem rawText_short (b : Backtrace) : (rawText b.callers).length < lineInfoSize := by
  have hlength := rawText_length b.callers
  have hdepth := b.length_le
  simp only [lineInfoSize, maxCallStackDepth] at hdepth ⊢
  omega

/-- A text has no terminator in it. -/
theorem nul_notMem_rawText (callers : List (BitVec 64)) : nul ∉ rawText callers := by
  intro h
  obtain ⟨a, -, ha⟩ := List.mem_flatMap.mp h
  rw [rawAddress, List.mem_cons, List.mem_cons, List.mem_append] at ha
  rcases ha with ha | ha | ha | ha
  · exact absurd ha (by decide)
  · exact absurd ha (by decide)
  · exact HexText.digitVal_ne_none_of_mem ha (by decide)
  · exact absurd ha (by decide)

/-- **The report** of a mutex prints the texts of its stacks as they are. -/
theorem raw_contexts_printed {captured : List Backtrace} {e e' : SyncPerfT}
    (hcount : captured.length ≤ maxNumStacks) (hzero : e.count = 0)
    (h : printContexts (captured.map fun b => rawText b.callers) 0 e = some e') :
    PrintsContexts (captured.map fun b => rawText b.callers) e e' := by
  have hnul : ∀ s ∈ captured.map fun b => rawText b.callers, nul ∉ s := by
    intro s hs
    obtain ⟨b, -, rfl⟩ := List.mem_map.mp hs
    exact nul_notMem_rawText _
  have hroom : ∀ s ∈ captured.map fun b => rawText b.callers, s.length < lineInfoSize := by
    intro s hs
    obtain ⟨b, -, rfl⟩ := List.mem_map.mp hs
    exact rawText_short b
  refine (printContexts_spec h hnul hroom).prints ?_ hzero hnul hroom
  rw [List.length_map]
  exact hcount

/-- The tabs that `write_report` prints before a context. -/
theorem readLong_contextLine (retAddress : BitVec 64) (s : List Char) :
    readLong retAddress (contextLine s) = readLong retAddress s := by
  have htabs : "\t\t\t".toList = List.replicate 3 '\t' := rfl
  rw [contextLine, htabs]
  refine readLong_skip (fun c hc => ?_) retAddress s
  rw [List.eq_of_mem_replicate hc]
  rfl

/-- **The round trip.**  The loop over the row of a stack gives a text that passes the assertion and
    is the text of no other stack; from its line in the report the tool takes the first address. -/
theorem raw_context_read (slot : List (BitVec 64)) (b : Backtrace) :
    ∃ s, rawContext (writeStack slot b) = some s ∧ s.length ≤ lineInfoSize ∧
      (∀ slot' b', rawContext (writeStack slot' b') = some s → b' = b) ∧
      ∀ a ∈ b.callers.head?, a.toNat < 2 ^ 63 → ∀ retAddress before after,
        readInput retAddress (before ++ contextLine s :: after) =
          readLines retAddress (before.length + 1) after (readInput retAddress before ++ [a]) := by
  refine ⟨rawText b.callers, rawContext_writeStack slot b, (rawText_short b).le,
    fun slot' b' h => ?_, fun a ha hrange retAddress before after => ?_⟩
  · rw [rawContext_writeStack] at h
    exact backtrace_eq (rawText_inj (Option.some.inj h))
  · obtain ⟨callers, hcallers⟩ := List.head?_eq_some_iff.mp ha
    rw [readInput, readLines_append, Nat.zero_add, readLines, readLong_contextLine, hcallers,
      readLong_rawText _ a callers hrange]
    rfl

/-- A stack of three addresses. -/
def threeCallers : Backtrace where
  callers := [0x40, 0x7fffffffffff, 0x10f]
  length_le := by decide
  ne_zero := by simp

/-- Three addresses, printed and read back. -/
theorem raw_context_read_three :
    ∃ s, rawContext (writeStack (List.replicate 7 0) threeCallers) = some s ∧
      s.length ≤ lineInfoSize ∧
      (∀ slot b, rawContext (writeStack slot b) = some s → b = threeCallers) ∧
      readInput (fun _ => 0) [contextLine s] = [0x40] := by
  obtain ⟨s, hs, hsize, honly, hread⟩ := raw_context_read (List.replicate 7 0) threeCallers
  exact ⟨s, hs, hsize, honly, hread 0x40 rfl (by decide) (fun _ => 0) [] []⟩

end SyncPerf.RawContext
