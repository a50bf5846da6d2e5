import Mathlib.Tactic

/-!
# The crash handler

`crash_handler` writes a report to standard error when a process dies: the signal, a backtrace, the
first hundred lines of `/proc/self/maps` and all of `/proc/self/status`.  It reads the two files in
whatever pieces `read` returns.  Processes that Electron starts as children do not get it.

* `sigToStr`, `dumpProcFile`, `crashHandler` — the report;
* `Shown` — what of a file stands in the report: `dumpPieces_shown`, for every way it is read in;
* `crashHandler_report` — the report as a whole;
* `isElectronChild`, `isElectronChildDrm` — which processes are children, for this library and for
  the DRM shim: `isElectronChild_iff`.
-/

namespace Wldroid.Shims.Crash

/-- A string literal of the source. -/
def literal (s : String) : List UInt8 := s.toList.map fun c => UInt8.ofNat c.toNat

/-- `'\n'`. -/
def newline : UInt8 := 0x0a

/-! ### Numbers -/

/-- The loop of `sig_to_str`, with room for so many digits in front of those that are written. -/
def sigDigits : ℕ → ℕ → List UInt8 → List UInt8
  | 0, _, digits => digits
  | room + 1, val, digits =>
    if val = 0 then digits else sigDigits room (val / 10) (UInt8.ofNat (0x30 + val % 10) :: digits)

/-- `sig_to_str`, with a buffer of 16 bytes whose last is the NUL. -/
def sigToStr (sig : Int32) : List UInt8 :=
  let val := sig.toInt.natAbs
  if val = 0 then [0x30] else sigDigits 15 val []

/-- The number that decimal digits write. -/
def decimalValue (digits : List UInt8) : ℕ := digits.foldl (fun v c => v * 10 + (c.toNat - 0x30)) 0

/-- Decimal digits that write a number, without a zero in front. -/
structure Writes (digits : List UInt8) (n : ℕ) : Prop where
  digit : ∀ c ∈ digits, 0x30 ≤ c.toNat ∧ c.toNat ≤ 0x39
  value : decimalValue digits = n
  first : digits.head? = some 0x30 → digits = [0x30]

theorem foldl_decimal (digits : List UInt8) (v : ℕ) :
    digits.foldl (fun v c => v * 10 + (c.toNat - 0x30)) v =
      v * 10 ^ digits.length + decimalValue digits := by
  induction digits generalizing v with
  | nil => simp [decimalValue]
  | cons d digits ih =>
    show digits.foldl _ (v * 10 + (d.toNat - 0x30)) =
      v * 10 ^ (d :: digits).length + digits.foldl _ (0 * 10 + (d.toNat - 0x30))
    rw [ih, ih, List.length_cons, pow_succ]
    ring

theorem decimalValue_cons (c : UInt8) (digits : List UInt8) :
    decimalValue (c :: digits) = (c.toNat - 0x30) * 10 ^ digits.length + decimalValue digits := by
  show digits.foldl _ (0 * 10 + (c.toNat - 0x30)) = _
  rw [foldl_decimal, Nat.zero_mul, Nat.zero_add]

theorem toNat_digit (n : ℕ) : (UInt8.ofNat (0x30 + n % 10)).toNat = 0x30 + n % 10 :=
  UInt8.toNat_ofNat_of_lt' (show 0x30 + n % 10 < 256 by omega)

/-- By induction on the room: what is left of the number is written in front. -/
theorem sigDigits_writes {room val : ℕ} (hroom : val < 10 ^ room) (digits : List UInt8)
    (hdigits : ∀ c ∈ digits, 0x30 ≤ c.toNat ∧ c.toNat ≤ 0x39)
    (hfirst : val = 0 → digits.head? ≠ some 0x30) :
    (∀ c ∈ sigDigits room val digits, 0x30 ≤ c.toNat ∧ c.toNat ≤ 0x39) ∧
      decimalValue (sigDigits room val digits) = val * 10 ^ digits.length + decimalValue digits ∧
      (sigDigits room val digits).head? ≠ some 0x30 := by
  induction room generalizing val digits with
  | zero =>
    obtain rfl : val = 0 := by simpa using hroom
    exact ⟨hdigits, by simp [sigDigits], hfirst rfl⟩
  | succ room ih =>
    by_cases hval : val = 0
    · subst hval
      rw [sigDigits, if_pos rfl]
      exact ⟨hdigits, by simp, hfirst rfl⟩
    · rw [sigDigits, if_neg hval]
      have hdigit := toNat_digit val
      have hrest : val / 10 < 10 ^ room := by
        rw [Nat.div_lt_iff_lt_mul (by decide), ← pow_succ]
        exact hroom
      have hall : ∀ c ∈ UInt8.ofNat (0x30 + val % 10) :: digits, 0x30 ≤ c.toNat ∧ c.toNat ≤ 0x39 := by
        intro c hc
        rcases List.mem_cons.mp hc with rfl | hc
        · rw [hdigit]
          omega
        · exact hdigits c hc
      have hhead : val / 10 = 0 →
          (UInt8.ofNat (0x30 + val % 10) :: digits).head? ≠ some 0x30 := by
        intro hlast heq
        have hzero := congrArg UInt8.toNat (Option.some.inj heq)
        rw [hdigit] at hzero
        have hnumber : (0x30 : UInt8).toNat = 0x30 := rfl
        omega
      obtain ⟨hdigits', hvalue, hhead'⟩ := ih hrest _ hall hhead
      refine ⟨hdigits', ?_, hhead'⟩
      rw [hvalue, decimalValue_cons, hdigit, List.length_cons, pow_succ, Nat.add_sub_cancel_left]
      calc val / 10 * (10 ^ digits.length * 10) +
            (val % 10 * 10 ^ digits.length + decimalValue digits)
          = (10 * (val / 10) + val % 10) * 10 ^ digits.length + decimalValue digits := by ring
        _ = val * 10 ^ digits.length + decimalValue digits := by rw [Nat.div_add_mod]

/-- The signal number is written out. -/
theorem sigToStr_writes (sig : Int32) : Writes (sigToStr sig) sig.toInt.natAbs := by
  by_cases hzero : sig.toInt.natAbs = 0
  · rw [sigToStr, if_pos hzero, hzero]
    exact ⟨fun c hc => List.mem_singleton.mp hc ▸ by decide, rfl, fun _ => rfl⟩
  · rw [sigToStr, if_neg hzero]
    have hroom : sig.toInt.natAbs < 10 ^ 15 := by
      have hlt := sig.toInt_lt
      have hge := sig.le_toInt
      omega
    obtain ⟨hdigits, hvalue, hhead⟩ :=
      sigDigits_writes hroom [] (List.forall_mem_nil _) (fun h => absurd h hzero)
    refine ⟨hdigits, ?_, fun h => absurd h hhead⟩
    rw [hvalue, List.length_nil, pow_zero, mul_one]
    rfl

/-! ### Files -/

/-- What is written after the last line shown. -/
def truncated : List UInt8 := literal "  ... (truncated)\n"

/-- The loop over the bytes of one piece: where the limit is reached, all up to that newline; else
the number of lines so far. -/
def scanPiece (maxLines : ℕ) : ℕ → List UInt8 → List UInt8 ⊕ ℕ
  | lines, [] => .inr lines
  | lines, c :: piece =>
    if c = newline ∧ maxLines ≤ lines + 1 then .inl [c]
    else
      match scanPiece maxLines (if c = newline then lines + 1 else lines) piece with
      | .inl front => .inl (c :: front)
      | .inr lines => .inr lines

/-- What is read of a file: the pieces that `read` returns, up to the first that is empty. -/
def readAll : List (List UInt8) → List UInt8
  | [] => []
  | piece :: pieces => if piece = [] then [] else piece ++ readAll pieces

/-- The loop of `dump_proc_file` over what `read` returns, which ends at an empty piece. -/
def dumpPieces (maxLines : ℕ) : ℕ → List (List UInt8) → List UInt8
  | _, [] => []
  | lines, piece :: pieces =>
    if piece = [] then []
    else
      match scanPiece maxLines lines piece with
      | .inl front => front ++ truncated
      | .inr lines => piece ++ dumpPieces maxLines lines pieces

/-- `dump_proc_file`, of a file that can be opened or not, in the pieces in which it is read. -/
def dumpProcFile (header : String) (maxLines : ℤ) (pieces : Option (List (List UInt8))) : List UInt8 :=
  literal header ++
    match pieces with
    | none => literal "  (could not open)\n"
    | some pieces =>
      if maxLines ≤ 0 then readAll pieces else dumpPieces maxLines.toNat 0 pieces

/-- What a text shows if it is cut after so many lines. -/
inductive Shown (n : ℕ) (text : List UInt8) : List UInt8 → Prop where
  | whole (few : text.count newline < n) : Shown n text text
  | cut {front back : List UInt8} (htext : text = front ++ newline :: back)
      (hcount : front.count newline + 1 = n) : Shown n text (front ++ newline :: truncated)

/-- The scan of a piece stops at the newline that reaches the limit. -/
theorem scanPiece_spec {maxLines lines : ℕ} (hlines : lines < maxLines) (piece : List UInt8) :
    (∃ front back, piece = front ++ newline :: back ∧ lines + front.count newline + 1 = maxLines ∧
        scanPiece maxLines lines piece = .inl (front ++ [newline])) ∨
      (lines + piece.count newline < maxLines ∧
        scanPiece maxLines lines piece = .inr (lines + piece.count newline)) := by
  induction piece generalizing lines with
  | nil => exact .inr ⟨hlines, rfl⟩
  | cons c piece ih =>
    by_cases hlast : c = newline ∧ maxLines ≤ lines + 1
    · left
      refine ⟨[], piece, by rw [hlast.1, List.nil_append], ?_, ?_⟩
      · rw [List.count_nil]
        omega
      · rw [scanPiece, if_pos hlast, hlast.1, List.nil_append]
    · have hcount : lines + (c :: piece).count newline =
          (if c = newline then lines + 1 else lines) + piece.count newline := by
        by_cases hc : c = newline
        · rw [hc, List.count_cons_self, if_pos rfl]
          omega
        · rw [List.count_cons_of_ne hc, if_neg hc]
      have hnext : (if c = newline then lines + 1 else lines) < maxLines := by
        split
        · rename_i hc
          have hroom : ¬ maxLines ≤ lines + 1 := fun hle => hlast ⟨hc, hle⟩
          omega
        · exact hlines
      rw [scanPiece, if_neg hlast, hcount]
      rcases ih hnext with ⟨front, back, hpiece, hfront, hscan⟩ | ⟨hfew, hscan⟩
      · left
        refine ⟨c :: front, back, by rw [hpiece, List.cons_append], ?_, ?_⟩
        · by_cases hc : c = newline
          · rw [hc, List.count_cons_self]
            rw [if_pos hc] at hfront
            omega
          · rw [List.count_cons_of_ne hc]
            rwa [if_neg hc] at hfront
        · rw [hscan]
          rfl
      · right
        refine ⟨hfew, ?_⟩
        rw [hscan]

/-- By induction on the pieces: the lines that were counted are those of the pieces before. -/
theorem dumpPieces_shown {maxLines lines : ℕ} (hlines : lines < maxLines)
    (pieces : List (List UInt8)) :
    Shown (maxLines - lines) (readAll pieces) (dumpPieces maxLines lines pieces) := by
  have hnothing : Shown (maxLines - lines) [] [] := .whole (by rw [List.count_nil]; omega)
  induction pieces generalizing lines with
  | nil => exact hnothing
  | cons piece pieces ih =>
    rw [readAll, dumpPieces]
    by_cases hend : piece = []
    · rw [if_pos hend, if_pos hend]
      exact hnothing
    rw [if_neg hend, if_neg hend]
    rcases scanPiece_spec hlines piece with ⟨front, back, hpiece, hfront, hscan⟩ | ⟨hfew, hscan⟩
    · rw [hscan, hpiece, List.append_assoc]
      show Shown (maxLines - lines) (front ++ newline :: (back ++ readAll pieces))
        (front ++ [newline] ++ truncated)
      rw [List.append_assoc, List.singleton_append]
      exact .cut rfl (by omega)
    · rw [hscan]
      have hrest := ih hfew (.whole (by rw [List.count_nil]; omega))
      show Shown (maxLines - lines) (piece ++ readAll pieces)
        (piece ++ dumpPieces maxLines (lines + piece.count newline) pieces)
      generalize dumpPieces maxLines (lines + piece.count newline) pieces = out at hrest
      cases hrest with
      | whole few =>
        refine .whole ?_
        rw [List.count_append]
        omega
      | @cut front back htext hcount =>
        rw [htext, ← List.append_assoc, ← List.append_assoc]
        refine .cut rfl ?_
        rw [List.count_append]
        omega

/-! ### The report -/

/-- `crash_handler`, up to the point where it raises the signal again.  `symbols` is what
`backtrace_symbols_fd` writes if there are frames. -/
def crashHandler (sig : Int32) (symbols : Option (List UInt8))
    (maps status : Option (List (List UInt8))) : List UInt8 :=
  literal "\n=== NETSTUB CRASH HANDLER: signal " ++ sigToStr sig ++ literal " caught ===\n" ++
    literal "\n--- backtrace ---\n" ++ symbols.getD (literal "  (no frames captured)\n") ++
    dumpProcFile "\n--- /proc/self/maps (first 100 lines) ---\n" 100 maps ++
    dumpProcFile "\n--- /proc/self/status ---\n" 0 status ++
    literal "\n=== END CRASH HANDLER ===\n"

/-- What a file shows, if it can be opened. -/
def ShownFile (n : ℕ) : Option (List UInt8) → List UInt8 → Prop
  | none, out => out = literal "  (could not open)\n"
  | some text, out => Shown n text out

/-- **The report.**  It has the number of the signal, the backtrace, a hundred lines of the one file
and all of the other, and depends on the files only, not on how `read` cut them into pieces. -/
theorem crashHandler_report (sig : Int32) (symbols : Option (List UInt8))
    (maps status : Option (List (List UInt8))) :
    ∃ number shown, Writes number sig.toInt.natAbs ∧
      ShownFile 100 (maps.map readAll) shown ∧
      crashHandler sig symbols maps status =
        literal "\n=== NETSTUB CRASH HANDLER: signal " ++ number ++ literal " caught ===\n" ++
          literal "\n--- backtrace ---\n" ++ symbols.getD (literal "  (no frames captured)\n") ++
          (literal "\n--- /proc/self/maps (first 100 lines) ---\n" ++ shown) ++
          (literal "\n--- /proc/self/status ---\n" ++
            (status.map readAll).getD (literal "  (could not open)\n")) ++
          literal "\n=== END CRASH HANDLER ===\n" := by
  have hstatus : dumpProcFile "\n--- /proc/self/status ---\n" 0 status =
      literal "\n--- /proc/self/status ---\n" ++
        (status.map readAll).getD (literal "  (could not open)\n") := by
    cases status with
    | none => rfl
    | some pieces => rfl
  have hmaps : ∃ shown, ShownFile 100 (maps.map readAll) shown ∧
      dumpProcFile "\n--- /proc/self/maps (first 100 lines) ---\n" 100 maps =
        literal "\n--- /proc/self/maps (first 100 lines) ---\n" ++ shown := by
    cases maps with
    | none => exact ⟨_, rfl, rfl⟩
    | some pieces =>
      have hshown : Shown 100 (readAll pieces) (dumpPieces 100 0 pieces) :=
        dumpPieces_shown (show 0 < 100 by decide) pieces
      exact ⟨_, hshown, rfl⟩
  obtain ⟨shown, hshown, hmaps⟩ := hmaps
  refine ⟨sigToStr sig, shown, sigToStr_writes sig, hshown, ?_⟩
  rw [crashHandler, hmaps, hstatus]

/-! ### Children of Electron -/

/-- `"--type="`. -/
def typePrefix : List UInt8 := literal "--type="

/-- `"--type=gpu-process"`. -/
def gpuPrefix : List UInt8 := literal "--type=gpu-process"

/-- The loop over the command line: where an argument starts, it is tested, and what is left of it
is skipped up to its NUL. -/
def scanArgs (found : List UInt8 → Bool) : Bool → List UInt8 → Bool
  | _, [] => false
  | true, c :: rest =>
    if c = 0 then scanArgs found true rest
    else if typePrefix.isPrefixOf (c :: rest) then found (c :: rest)
    else scanArgs found false rest
  | false, c :: rest => scanArgs found (c = 0) rest

/-- `is_electron_child` of this library, for the bytes of `/proc/self/cmdline` that its buffer
takes; `runAsNode` tells whether `ELECTRON_RUN_AS_NODE` is set. -/
def isElectronChild (runAsNode : Bool) (cmdline : Option (List UInt8)) : Bool :=
  runAsNode || cmdline.any fun bytes => scanArgs (fun _ => true) true bytes

/-- `is_electron_child` of the DRM shim, which the GPU process needs. -/
def isElectronChildDrm (runAsNode : Bool) (cmdline : Option (List UInt8)) : Bool :=
  runAsNode || cmdline.any fun bytes => scanArgs (fun arg => !gpuPrefix.isPrefixOf arg) true bytes

/-- A command line: arguments that end with a NUL each, and what is left at the end of the
buffer. -/
structure Cmdline where
  args : List (List UInt8)
  last : List UInt8
  noNul : ∀ arg ∈ args ++ [last], 0 ∉ arg

def Cmdline.bytes (c : Cmdline) : List UInt8 := c.args.flatMap (fun arg => arg ++ [0]) ++ c.last

/-- All bytes are those of a command line. -/
theorem exists_cmdline (bytes : List UInt8) : ∃ c : Cmdline, c.bytes = bytes := by
  induction bytes with
  | nil => exact ⟨⟨[], [], by simp⟩, rfl⟩
  | cons b bytes ih =>
    obtain ⟨⟨args, last, noNul⟩, rfl⟩ := ih
    by_cases hb : b = 0
    · subst hb
      refine ⟨⟨[] :: args, last, ?_⟩, rfl⟩
      exact List.forall_mem_cons.mpr ⟨List.not_mem_nil, noNul⟩
    · have hcons : ∀ arg, 0 ∉ arg → 0 ∉ b :: arg := fun arg harg =>
        List.not_mem_cons_of_ne_of_not_mem (Ne.symm hb) harg
      cases args with
      | nil =>
        refine ⟨⟨[], b :: last, ?_⟩, rfl⟩
        exact List.forall_mem_singleton.mpr (hcons last (noNul last (.head _)))
      | cons arg args =>
        refine ⟨⟨(b :: arg) :: args, last, ?_⟩, rfl⟩
        obtain ⟨harg, hrest⟩ := List.forall_mem_cons.mp noNul
        exact List.forall_mem_cons.mpr ⟨hcons arg harg, hrest⟩

/-- A prefix without a NUL is not met beyond the NUL. -/
theorem isPrefixOf_append_nul {p : List UInt8} (hp : 0 ∉ p) (arg rest : List UInt8) :
    p.isPrefixOf (arg ++ 0 :: rest) = p.isPrefixOf arg := by
  induction p generalizing arg with
  | nil => rfl
  | cons c p ih =>
    obtain ⟨hc, hp⟩ := List.ne_and_not_mem_of_not_mem_cons hp
    cases arg with
    | nil =>
      show (c == 0 && p.isPrefixOf rest) = false
      rw [beq_false_of_ne (Ne.symm hc), Bool.false_and]
    | cons d arg =>
      show (c == d && p.isPrefixOf (arg ++ 0 :: rest)) = (c == d && p.isPrefixOf arg)
      rw [ih hp]

section Scanning

variable {found : List UInt8 → Bool} {arg : List UInt8}

theorem scanArgs_skip (h : 0 ∉ arg) (rest : List UInt8) :
    scanArgs found false (arg ++ 0 :: rest) = scanArgs found true rest := by
  induction arg with
  | nil => rfl
  | cons c arg ih =>
    obtain ⟨hc, harg⟩ := List.ne_and_not_mem_of_not_mem_cons h
    rw [List.cons_append, scanArgs, decide_eq_false (Ne.symm hc)]
    exact ih harg

theorem scanArgs_skip_last (h : 0 ∉ arg) : scanArgs found false arg = false := by
  induction arg with
  | nil => rfl
  | cons c arg ih =>
    obtain ⟨hc, harg⟩ := List.ne_and_not_mem_of_not_mem_cons h
    rw [scanArgs, decide_eq_false (Ne.symm hc)]
    exact ih harg

theorem typePrefix_noNul : 0 ∉ typePrefix := by decide

/-- One argument is tested, and the scan goes on after it. -/
theorem scanArgs_arg (h : 0 ∉ arg) (rest : List UInt8)
    (hfound : found (arg ++ 0 :: rest) = found arg) :
    scanArgs found true (arg ++ 0 :: rest) =
      if typePrefix.isPrefixOf arg then found arg else scanArgs found true rest := by
  cases arg with
  | nil => rfl
  | cons c arg =>
    obtain ⟨hc, harg⟩ := List.ne_and_not_mem_of_not_mem_cons h
    rw [List.cons_append, scanArgs, if_neg (Ne.symm hc), ← List.cons_append,
      isPrefixOf_append_nul typePrefix_noNul, hfound, scanArgs_skip harg]

theorem scanArgs_last (h : 0 ∉ arg) :
    scanArgs found true arg = (typePrefix.isPrefixOf arg && found arg) := by
  cases arg with
  | nil => rfl
  | cons c arg =>
    obtain ⟨hc, harg⟩ := List.ne_and_not_mem_of_not_mem_cons h
    rw [scanArgs, if_neg (Ne.symm hc), scanArgs_skip_last harg]
    cases typePrefix.isPrefixOf (c :: arg) <;> rfl

/-- The first argument with a type is the one that counts. -/
theorem scanArgs_bytes (hfound : ∀ arg rest, 0 ∉ arg → found (arg ++ 0 :: rest) = found arg)
    (c : Cmdline) :
    scanArgs found true c.bytes =
      ((c.args ++ [c.last]).find? typePrefix.isPrefixOf).any found := by
  obtain ⟨args, last, noNul⟩ := c
  induction args with
  | nil =>
    show scanArgs found true last = _
    rw [scanArgs_last (noNul last (.head _)), List.nil_append, List.find?_singleton]
    cases typePrefix.isPrefixOf last <;> rfl
  | cons arg args ih =>
    obtain ⟨harg, hrest⟩ := List.forall_mem_cons.mp noNul
    have hbytes : Cmdline.bytes ⟨arg :: args, last, noNul⟩ =
        arg ++ 0 :: Cmdline.bytes ⟨args, last, hrest⟩ := by
      simp [Cmdline.bytes]
    rw [hbytes, scanArgs_arg harg _ (hfound arg _ harg), ih hrest, List.cons_append,
      List.find?_cons]
    cases typePrefix.isPrefixOf arg <;> rfl

end Scanning

/-- **Who is a child.**  For all bytes of a command line: this library takes those with an argument
`--type=…` for children, and the DRM shim as well, unless the first of these arguments is that of
the GPU process. -/
theorem isElectronChild_iff (runAsNode : Bool) (bytes : List UInt8) :
    ∃ c : Cmdline, c.bytes = bytes ∧
      (isElectronChild runAsNode (some bytes) = true ↔
        runAsNode = true ∨ ∃ arg ∈ c.args ++ [c.last], typePrefix <+: arg) ∧
      (isElectronChildDrm runAsNode (some bytes) = true ↔
        runAsNode = true ∨ ∃ before arg after, c.args ++ [c.last] = before ++ arg :: after ∧
          (∀ other ∈ before, ¬ typePrefix <+: other) ∧ typePrefix <+: arg ∧
          ¬ gpuPrefix <+: arg) := by
  obtain ⟨c, rfl⟩ := exists_cmdline bytes
  refine ⟨c, rfl, ?_, ?_⟩
  · rw [isElectronChild, Option.any_some, Bool.or_eq_true, scanArgs_bytes (fun _ _ _ => rfl)]
    refine or_congr_right ?_
    rw [Option.any_eq_true]
    constructor
    · rintro ⟨arg, hfind, -⟩
      exact ⟨arg, List.mem_of_find?_eq_some hfind,
        List.isPrefixOf_iff_prefix.mp (List.find?_some hfind)⟩
    · rintro ⟨arg, hmem, hstarts⟩
      have hsome : ((c.args ++ [c.last]).find? typePrefix.isPrefixOf).isSome = true :=
        List.find?_isSome.mpr ⟨arg, hmem, List.isPrefixOf_iff_prefix.mpr hstarts⟩
      obtain ⟨first, hfirst⟩ := Option.isSome_iff_exists.mp hsome
      exact ⟨first, hfirst, rfl⟩
  · have hfound : ∀ arg rest, 0 ∉ arg → (!gpuPrefix.isPrefixOf (arg ++ 0 :: rest)) =
        !gpuPrefix.isPrefixOf arg := by
      intro arg rest _
      rw [isPrefixOf_append_nul (by decide)]
    rw [isElectronChildDrm, Option.any_some, Bool.or_eq_true, scanArgs_bytes hfound]
    refine or_congr_right ?_
    rw [Option.any_eq_true]
    constructor
    · rintro ⟨arg, hfind, hnot⟩
      obtain ⟨hstarts, before, after, hargs, hbefore⟩ := List.find?_eq_some_iff_append.mp hfind
      refine ⟨before, arg, after, hargs, ?_, List.isPrefixOf_iff_prefix.mp hstarts, ?_⟩
      · intro other hother hpre
        have hnone := hbefore other hother
        rw [List.isPrefixOf_iff_prefix.mpr hpre] at hnone
        cases hnone
      · intro hgpu
        rw [List.isPrefixOf_iff_prefix.mpr hgpu] at hnot
        cases hnot
    · rintro ⟨before, arg, after, hargs, hbefore, hstarts, hgpu⟩
      refine ⟨arg, List.find?_eq_some_iff_append.mpr
        ⟨List.isPrefixOf_iff_prefix.mpr hstarts, before, after, hargs, ?_⟩, ?_⟩
      · intro other hother
        rw [Bool.not_eq_true', ← Bool.not_eq_true]
        exact fun hpre => hbefore other hother (List.isPrefixOf_iff_prefix.mp hpre)
      · rw [Bool.not_eq_true', ← Bool.not_eq_true]
        exact fun hpre => hgpu (List.isPrefixOf_iff_prefix.mp hpre)

end Wldroid.Shims.Crash
