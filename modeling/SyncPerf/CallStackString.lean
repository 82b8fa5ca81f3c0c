import Mathlib.Data.List.DropRight
import SyncPerf.HexText
import SyncPerf.LineInfo

namespace SyncPerf.CallStackString

open CallSites LineInfo

/-!
# Call stacks as line numbers

With `REPORT_LINE_INFO` the report asks `addr2line` for every address of a stack, and takes the file
name and the line number out of what the command prints.  What it prints is not in the hands of the
profiler, and nothing may have been printed.

* `exec`, `setFileName`, `getCallStackString` — the functions, with the ways in which a stack fails;
* `partAfter_eq` — the position arithmetic on one line;
* `symbolised` — what the text of a stack should be;
* `getCallStackString_eq_iff` — when it is.
-/

/-- `MAXBUFSIZE`. -/
def maxBufSize : ℕ := 4096

/-- The ways in which a stack fails: a command that does not fit into `buf`, a position behind the
    end of a string, and a row without a zero. -/
inductive Failure where
  | bufferOverflow
  | outOfRange
  | pastRow
  deriving DecidableEq

/-! ### The command and its output -/

/-- `readlink` puts at most `MAXBUFSIZE` characters of the path into `_curFilename`, or fails;
    `none` when `setFileName` exits. -/
def setFileName (target : Option (List Char)) : Option (List Char) :=
  match target with
  | none => none
  | some path =>
    let count := min path.length maxBufSize
    if count = 0 ∨ count ≥ maxBufSize then none else some (path.take count)

/-- `fgets`: at most `n` characters, up to the end of the line. -/
def fgets : ℕ → List Char → List Char × List Char
  | 0, pipe => ([], pipe)
  | _, [] => ([], [])
  | n + 1, c :: pipe => if c = '\n' then ([c], pipe) else (c :: (fgets n pipe).1, (fgets n pipe).2)

/-- The loop of `exec`, for at most `k` turns. -/
def readPipe : ℕ → List Char → List Char
  | 0, _ => []
  | _, [] => []
  | k + 1, c :: pipe =>
    CString.cstr nul (fgets 127 (c :: pipe)).1 ++ readPipe k (fgets 127 (c :: pipe)).2

/-- `exec`, with what comes out of the pipe, if it was opened. -/
def exec : Option (List Char) → List Char
  | none => "ERROR".toList
  | some pipe => readPipe pipe.length pipe

/-- The text that `sprintf` makes for an address. -/
def command (curFilename : List Char) (a : BitVec 64) : List Char :=
  "addr2line -e ".toList ++ CString.cstr nul curFilename ++ "  -a 0x".toList ++
    HexText.digits a.toNat ++ "  | tail -1".toList

/-- `sprintf` into `buf`. -/
def sprintf (cmd : List Char) : Except Failure (List Char) :=
  if cmd.length < maxBufSize then .ok cmd else .error .bufferOverflow

/-! ### The position arithmetic -/

/-- The characters of `"/\\"`. -/
def isSeparator (c : Char) : Bool := c = '/' ∨ c = '\\'

/-- `find_last_of("/\\")`; `none` is `npos`. -/
def findLastOf : List Char → Option ℕ
  | [] => none
  | c :: s =>
    match findLastOf s with
    | some found => some (found + 1)
    | none => if isSeparator c then some 0 else none

/-- `found + 1`: behind `npos` comes zero. -/
def plusOne : Option ℕ → ℕ
  | none => 0
  | some found => found + 1

/-- `size() - 1`: before zero comes `npos`. -/
def minusOne : ℕ → Option ℕ
  | 0 => none
  | n + 1 => some n

/-- `substr(pos)`. -/
def substr (s : List Char) (pos : ℕ) : Except Failure (List Char) :=
  if pos ≤ s.length then .ok (s.drop pos) else .error .outOfRange

/-- `erase(pos)`; `npos` is behind the end of every string. -/
def erase (s : List Char) : Option ℕ → Except Failure (List Char)
  | none => .error .outOfRange
  | some pos => if pos ≤ s.length then .ok (s.take pos) else .error .outOfRange

/-- `source_line[0]`: the character behind the last one is a terminator. -/
def front (s : List Char) : Char := s.headD nul

/-- What an output adds to the text of a stack. -/
def sourceLine (s : List Char) : Except Failure (List Char) :=
  if front s ≠ '?' then do
    let part ← substr s (plusOne (findLastOf s))
    let shown ← erase part (minusOne part.length)
    return shown ++ [' ']
  else return []

/-- The loop of `get_call_stack_string` from call `j` on; `popen` is what comes out of the pipe of a
    call with its command. -/
def stackString (curFilename : List Char) (popen : ℕ → List Char → Option (List Char)) :
    ℕ → List (BitVec 64) → List Char → Except Failure (List Char)
  | _, [], _ => .error .pastRow
  | j, a :: row, stackStr =>
    if a = 0 then .ok stackStr
    else do
      let buf ← sprintf (command curFilename a)
      let shown ← sourceLine (exec (popen j buf))
      stackString curFilename popen (j + 1) row (stackStr ++ shown)

/-- `get_call_stack_string`. -/
def getCallStackString (curFilename : List Char) (popen : ℕ → List Char → Option (List Char))
    (callStack : List (BitVec 64)) : Except Failure (List Char) :=
  stackString curFilename popen 0 callStack []

/-! ### What is wanted -/

/-- The part after the last separator. -/
def partAfter (s : List Char) : List Char := s.rtakeWhile fun c => ¬ isSeparator c

/-- A line without the newline at its end. -/
def withoutNewline (s : List Char) : List Char := if s.getLast? = some '\n' then s.dropLast else s

/-- What an output should add. -/
def wanted (s : List Char) : List Char :=
  if s.head? = some '?' then [] else withoutNewline (partAfter s) ++ [' ']

/-- The outputs of the calls for these addresses, from call `j` on. -/
def outputs (curFilename : List Char) (popen : ℕ → List Char → Option (List Char)) :
    ℕ → List (BitVec 64) → List (List Char)
  | _, [] => []
  | j, a :: callers =>
    exec (popen j (command curFilename a)) :: outputs curFilename popen (j + 1) callers

/-- The text that a stack should have. -/
def symbolised (curFilename : List Char) (popen : ℕ → List Char → Option (List Char))
    (callers : List (BitVec 64)) : List Char := (outputs curFilename popen 0 callers).flatMap wanted

/-! ### The command and its output -/

/-- The paths that `setFileName` takes leave room for their terminator in `_curFilename`. -/
theorem setFileName_eq_some_iff {target : Option (List Char)} {path : List Char} :
    setFileName target = some path ↔
      target = some path ∧ 0 < path.length ∧ path.length < maxBufSize := by
  cases target with
  | none => simp [setFileName]
  | some link =>
    show (if min link.length maxBufSize = 0 ∨ min link.length maxBufSize ≥ maxBufSize then none
      else some (link.take (min link.length maxBufSize))) = some path ↔ _
    rw [Option.some_inj]
    by_cases hcount : min link.length maxBufSize = 0 ∨ min link.length maxBufSize ≥ maxBufSize
    · have hsize : ¬ (0 < link.length ∧ link.length < maxBufSize) := by
        have hmax : 0 < maxBufSize := by decide
        omega
      rw [if_pos hcount]
      refine ⟨fun h => absurd h (by simp), ?_⟩
      rintro ⟨rfl, h⟩
      exact absurd h hsize
    · have hsize : 0 < link.length ∧ link.length < maxBufSize := by omega
      rw [if_neg hcount, min_eq_left hsize.2.le, List.take_length, Option.some_inj]
      refine ⟨?_, fun h => h.1⟩
      rintro rfl
      exact ⟨rfl, hsize⟩

/-! ### One output -/

/-- A text without separators is all one part. -/
theorem partAfter_of_not_mem {s : List Char} (h : ∀ c ∈ s, ¬ isSeparator c) : partAfter s = s :=
  List.rtakeWhile_eq_self_iff.mpr fun c hc => decide_eq_true (h c hc)

/-- The part behind the last separator. -/
theorem partAfter_append {c : Char} {behind : List Char} (hc : isSeparator c)
    (h : ∀ c ∈ behind, ¬ isSeparator c) (before : List Char) :
    partAfter (before ++ c :: behind) = behind := by
  have hbehind : ∀ c ∈ behind.reverse, decide (¬ isSeparator c) = true := fun c hmem =>
    decide_eq_true (h c (List.mem_reverse.mp hmem))
  rw [partAfter, List.rtakeWhile, List.reverse_append, List.reverse_cons, List.append_assoc,
    List.takeWhile_append_of_pos hbehind, List.singleton_append,
    List.takeWhile_cons_of_neg (by simp [hc]), List.append_nil, List.reverse_reverse]

/-- What `find_last_of` finds. -/
theorem findLastOf_spec (s : List Char) :
    match findLastOf s with
    | none => ∀ c ∈ s, ¬ isSeparator c
    | some found => ∃ before c behind, s = before ++ c :: behind ∧ before.length = found ∧
        isSeparator c ∧ ∀ c ∈ behind, ¬ isSeparator c := by
  induction s with
  | nil => exact fun c hc => absurd hc List.not_mem_nil
  | cons c s ih =>
    rw [findLastOf]
    cases hfound : findLastOf s with
    | some found =>
      rw [hfound] at ih
      obtain ⟨before, c', behind, rfl, rfl, hc', hbehind⟩ := ih
      exact ⟨c :: before, c', behind, rfl, rfl, hc', hbehind⟩
    | none =>
      rw [hfound] at ih
      by_cases hc : isSeparator c
      · simp only [hc, if_true]
        exact ⟨[], c, s, rfl, rfl, hc, ih⟩
      · simp only [hc]
        exact List.forall_mem_cons.mpr ⟨hc, ih⟩

/-- **The position arithmetic** takes the part after the last separator. -/
theorem substr_findLastOf (s : List Char) :
    substr s (plusOne (findLastOf s)) = .ok (partAfter s) := by
  have hspec := findLastOf_spec s
  cases hfound : findLastOf s with
  | none =>
    rw [hfound] at hspec
    rw [plusOne, substr, if_pos (Nat.zero_le _), partAfter_of_not_mem hspec]
    rfl
  | some found =>
    rw [hfound] at hspec
    obtain ⟨before, c, behind, rfl, rfl, hc, hbehind⟩ := hspec
    rw [plusOne, substr, if_pos (by simp), partAfter_append hc hbehind, ← List.drop_drop,
      List.drop_left]
    rfl

/-- The last character is taken away, if there is one. -/
theorem erase_minusOne (s : List Char) :
    erase s (minusOne s.length) = if s = [] then .error .outOfRange else .ok s.dropLast := by
  cases s with
  | nil => rfl
  | cons c s =>
    rw [if_neg (List.cons_ne_nil c s), List.length_cons, minusOne, erase, if_pos (by simp),
      List.dropLast_eq_take]
    rfl

/-- `front` of a text that begins with a question mark. -/
theorem front_eq_iff (s : List Char) : front s = '?' ↔ s.head? = some '?' := by
  cases s with
  | nil => decide
  | cons c s => exact (Option.some_inj (a := c)).symm

/-- What an output adds. -/
theorem sourceLine_eq (s : List Char) :
    sourceLine s =
      if s.head? = some '?' then .ok []
      else if partAfter s = [] then .error .outOfRange
      else .ok ((partAfter s).dropLast ++ [' ']) := by
  rw [sourceLine, substr_findLastOf]
  by_cases hfront : front s = '?'
  · rw [if_neg (not_not.mpr hfront), if_pos ((front_eq_iff s).mp hfront)]
    rfl
  · rw [if_pos hfront, if_neg ((front_eq_iff s).not.mp hfront)]
    show (erase (partAfter s) (minusOne (partAfter s).length) >>=
      fun shown => .ok (shown ++ [' '])) = _
    rw [erase_minusOne]
    split <;> rfl

/-- An output that the function can take: it begins with a question mark, or it is a line. -/
def Shown (s : List Char) : Prop := s.head? = some '?' ∨ s.getLast? = some '\n'

instance (s : List Char) : Decidable (Shown s) := inferInstanceAs (Decidable (_ ∨ _))

/-- The part of a line is a line. -/
theorem partAfter_line {s : List Char} (h : s.getLast? = some '\n') :
    (partAfter s).getLast? = some '\n' := by
  obtain ⟨line, rfl⟩ := List.getLast?_eq_some_iff.mp h
  rw [partAfter, List.rtakeWhile_concat_pos _ _ _ (by decide), List.getLast?_concat]

/-- A newline at the end of the last part is one at the end of the line. -/
theorem line_of_partAfter {s : List Char} (h : (partAfter s).getLast? = some '\n') :
    s.getLast? = some '\n' := by
  obtain ⟨before, hbefore⟩ := List.rtakeWhile_suffix (fun c => ¬ isSeparator c) s
  obtain ⟨line, hline⟩ := List.getLast?_eq_some_iff.mp h
  rw [← hbefore]
  show (before ++ partAfter s).getLast? = _
  rw [hline, ← List.append_assoc, List.getLast?_concat]

/-- **One output**, when it can be taken. -/
theorem sourceLine_shown {s : List Char} (h : Shown s) : sourceLine s = .ok (wanted s) := by
  rw [sourceLine_eq, wanted]
  by_cases hfront : s.head? = some '?'
  · rw [if_pos hfront, if_pos hfront]
  · have hline := partAfter_line (h.resolve_left hfront)
    have hne : partAfter s ≠ [] := by
      intro hnil
      rw [hnil] at hline
      exact absurd hline (by decide)
    rw [if_neg hfront, if_neg hfront, if_neg hne, withoutNewline, if_pos hline]

/-- Any other output fails, or loses a character. -/
theorem sourceLine_short {s t : List Char} (h : sourceLine s = .ok t) (hs : ¬ Shown s) :
    t.length < (wanted s).length := by
  obtain ⟨hfront, hline⟩ := not_or.mp hs
  rw [sourceLine_eq, if_neg hfront] at h
  split at h
  next => exact absurd h (by simp)
  next hne =>
    obtain rfl := Except.ok.inj h
    have hpos := List.length_pos_iff.mpr hne
    rw [wanted, if_neg hfront, withoutNewline, if_neg fun hlast => hline (line_of_partAfter hlast),
      List.length_append, List.length_append, List.length_dropLast]
    omega

/-! ### The loop -/

section Loop

variable {curFilename : List Char} {popen : ℕ → List Char → Option (List Char)}

/-- A computation that succeeds has succeeded in both its parts. -/
theorem bind_eq_ok {α β : Type} {x : Except Failure α} {f : α → Except Failure β} {r : β}
    (h : x >>= f = .ok r) : ∃ a, x = .ok a ∧ f a = .ok r := by
  cases x with
  | error e => exact absurd h (by simp [bind, Except.bind])
  | ok a => exact ⟨a, rfl, h⟩

/-- One turn. -/
theorem stackString_cons {a : BitVec 64} (ha : a ≠ 0) (j : ℕ) (row : List (BitVec 64))
    (stackStr : List Char) :
    stackString curFilename popen j (a :: row) stackStr =
      (sprintf (command curFilename a) >>= fun buf =>
        sourceLine (exec (popen j buf)) >>= fun shown =>
          stackString curFilename popen (j + 1) row (stackStr ++ shown)) := by
  rw [stackString, if_neg ha]

/-- A stack whose commands fit, and whose outputs can be taken. -/
theorem stackString_eq_ok {callers : List (BitVec 64)} (hne : ∀ a ∈ callers, a ≠ 0)
    (hfits : ∀ a ∈ callers, (command curFilename a).length < maxBufSize) (j : ℕ)
    (hshown : ∀ s ∈ outputs curFilename popen j callers, Shown s) (rest : List (BitVec 64))
    (stackStr : List Char) :
    stackString curFilename popen j (callers ++ 0 :: rest) stackStr =
      .ok (stackStr ++ (outputs curFilename popen j callers).flatMap wanted) := by
  induction callers generalizing j stackStr with
  | nil =>
    rw [outputs, List.flatMap_nil, List.append_nil]
    rfl
  | cons a callers ih =>
    obtain ⟨ha, hcallers⟩ := List.forall_mem_cons.mp hne
    obtain ⟨hfit, hfits⟩ := List.forall_mem_cons.mp hfits
    obtain ⟨hout, houts⟩ := List.forall_mem_cons.mp hshown
    rw [List.cons_append, stackString_cons ha, sprintf, if_pos hfit]
    show (sourceLine (exec (popen j (command curFilename a))) >>= _) = _
    rw [sourceLine_shown hout]
    show stackString curFilename popen (j + 1) (callers ++ 0 :: rest) _ = _
    rw [ih hcallers hfits (j + 1) houts, outputs, List.flatMap_cons, List.append_assoc]

/-- What is known when the loop has come to the end: the commands fit, and every output that could
    not be taken has lost a character. -/
theorem stackString_length {callers : List (BitVec 64)} (hne : ∀ a ∈ callers, a ≠ 0) {j : ℕ}
    {rest : List (BitVec 64)} {stackStr t : List Char}
    (h : stackString curFilename popen j (callers ++ 0 :: rest) stackStr = .ok t) :
    (∀ a ∈ callers, (command curFilename a).length < maxBufSize) ∧
      t.length ≤ stackStr.length + ((outputs curFilename popen j callers).flatMap wanted).length ∧
      (stackStr.length + ((outputs curFilename popen j callers).flatMap wanted).length ≤ t.length →
        ∀ s ∈ outputs curFilename popen j callers, Shown s) := by
  induction callers generalizing j stackStr with
  | nil =>
    obtain rfl := Except.ok.inj h
    exact ⟨fun a ha => absurd ha List.not_mem_nil, Nat.le_add_right _ _,
      fun _ s hs => absurd hs List.not_mem_nil⟩
  | cons a callers ih =>
    obtain ⟨ha, hcallers⟩ := List.forall_mem_cons.mp hne
    rw [List.cons_append, stackString_cons ha] at h
    obtain ⟨buf, hbuf, hturn⟩ := bind_eq_ok h
    obtain ⟨shown, hline, hnext⟩ := bind_eq_ok hturn
    obtain ⟨hfit, rfl⟩ : (command curFilename a).length < maxBufSize ∧
        command curFilename a = buf := by
      rw [sprintf] at hbuf
      split at hbuf
      next hfit => exact ⟨hfit, Except.ok.inj hbuf⟩
      next => exact absurd hbuf (by simp)
    obtain ⟨hfits, hlength, hall⟩ := ih hcallers hnext
    have hone : shown.length ≤ (wanted (exec (popen j (command curFilename a)))).length := by
      by_cases hs : Shown (exec (popen j (command curFilename a)))
      · rw [sourceLine_shown hs] at hline
        rw [Except.ok.inj hline]
      · exact (sourceLine_short hline hs).le
    rw [List.length_append] at hlength hall
    rw [outputs, List.flatMap_cons, List.length_append]
    refine ⟨List.forall_mem_cons.mpr ⟨hfit, hfits⟩, by omega, fun hge => ?_⟩
    refine List.forall_mem_cons.mpr ⟨?_, hall (by omega)⟩
    by_contra hs
    have hshort := sourceLine_short hline hs
    omega

/-- The length of a command. -/
theorem command_length (curFilename : List Char) (a : BitVec 64) :
    (command curFilename a).length =
      (CString.cstr nul curFilename).length + (HexText.digits a.toNat).length + 31 := by
  have hcommand : command curFilename a = "addr2line -e ".toList ++ CString.cstr nul curFilename ++
      "  -a 0x".toList ++ HexText.digits a.toNat ++ "  | tail -1".toList := rfl
  have hname : "addr2line -e ".toList.length = 13 := by decide
  have haddress : "  -a 0x".toList.length = 7 := by decide
  have htail : "  | tail -1".toList.length = 11 := by decide
  simp only [hcommand, List.length_append, hname, haddress, htail]
  omega

/-- **Symbolising a stack.**  The text is the wanted one just when every command fits into the
    buffer and every output begins with a question mark or ends with a newline. -/
theorem getCallStackString_eq_iff {callers : List (BitVec 64)} (hne : ∀ a ∈ callers, a ≠ 0)
    (curFilename : List Char) (popen : ℕ → List Char → Option (List Char))
    (rest : List (BitVec 64)) :
    getCallStackString curFilename popen (callers ++ 0 :: rest) =
        .ok (symbolised curFilename popen callers) ↔
      (∀ a ∈ callers, (CString.cstr nul curFilename).length + (HexText.digits a.toNat).length + 31 <
        maxBufSize) ∧
      ∀ s ∈ outputs curFilename popen 0 callers, Shown s := by
  simp only [← command_length]
  constructor
  · intro h
    obtain ⟨hfits, -, hall⟩ := stackString_length hne h
    refine ⟨hfits, hall ?_⟩
    rw [List.length_nil, Nat.zero_add]
    exact le_rfl
  · rintro ⟨hfits, hshown⟩
    exact stackString_eq_ok hne hfits 0 hshown rest []

end Loop

/-- A stack of one address, and a line for it. -/
theorem getCallStackString_eq_iff_one :
    getCallStackString ['p'] (fun _ _ => some ['/', 'm', ':', '1', '\n']) ([0x40] ++ 0 :: []) =
      .ok (symbolised ['p'] (fun _ _ => some ['/', 'm', ':', '1', '\n']) [0x40]) :=
  (getCallStackString_eq_iff (List.forall_mem_singleton.mpr (by decide)) _ _ _).mpr
    ⟨List.forall_mem_singleton.mpr (by decide +kernel), by decide +kernel⟩

/-- Nothing was printed; the pipe was not opened; the path leaves no room for the command. -/
theorem getCallStackString_failures :
    getCallStackString ['p'] (fun _ _ => some []) [1, 0] = .error .outOfRange ∧
      getCallStackString ['p'] (fun _ _ => none) [1, 0] = .ok ['E', 'R', 'R', 'O', ' '] ∧
      symbolised ['p'] (fun _ _ => none) [1] = ['E', 'R', 'R', 'O', 'R', ' '] ∧
      setFileName (some (List.replicate 4095 'p')) = some (List.replicate 4095 'p') ∧
      getCallStackString (List.replicate 4095 'p') (fun _ _ => some ['m', '\n']) [1, 0] =
        .error .bufferOverflow := by
  have hnul : nul ∉ List.replicate 4095 'p' := fun h =>
    absurd (List.eq_of_mem_replicate h) (by decide)
  have hlong : ¬ (command (List.replicate 4095 'p') 1).length < maxBufSize := by
    rw [command_length, CString.cstr_eq_self nul hnul, List.length_replicate]
    decide
  refine ⟨by decide +kernel, by decide +kernel, by decide +kernel,
    setFileName_eq_some_iff.mpr ⟨rfl, by rw [List.length_replicate]; decide⟩, ?_⟩
  rw [getCallStackString, stackString_cons (by decide), sprintf, if_neg hlong]
  rfl

end SyncPerf.CallStackString
