import Mathlib.Data.Nat.Digits.Lemmas
import Mathlib.Data.List.TakeWhile
import Mathlib.Tactic.Ring

/-!
# Text scanned by its characters

* `StopsAt` — a scan for characters of a kind ends where a text begins;
* `takeWhile_run`, `dropWhile_run` — a scan takes exactly the run in front of such a text;
* `hexDigit`, `hexValue` — hexadecimal digits, and the number that they write;
* `fgets`, `fgetsLines` — the lines of a file as a buffer of bounded size receives them.
-/

namespace Wldroid.Foundation

/-! ### Runs -/

section Runs

variable {α : Type*} {p : α → Bool} {run rest : List α}

/-- The text is at its end, or its first character is not of the kind. -/
def StopsAt (p : α → Bool) (rest : List α) : Prop := ∀ c ∈ rest.head?, p c = false

theorem stopsAt_nil (p : α → Bool) : StopsAt p [] := nofun

theorem stopsAt_cons {c : α} (hc : p c = false) (rest : List α) : StopsAt p (c :: rest) := by
  rintro d hd
  obtain rfl := Option.mem_some_iff.mp hd
  exact hc

theorem takeWhile_eq_nil_of_stopsAt (h : StopsAt p rest) : rest.takeWhile p = [] := by
  cases rest with
  | nil => rfl
  | cons c rest => exact List.takeWhile_cons_of_neg (by simp [h c rfl])

theorem dropWhile_eq_self_of_stopsAt (h : StopsAt p rest) : rest.dropWhile p = rest := by
  cases rest with
  | nil => rfl
  | cons c rest => exact List.dropWhile_cons_of_neg (by simp [h c rfl])

theorem takeWhile_run (hrun : ∀ c ∈ run, p c = true) (hrest : StopsAt p rest) :
    (run ++ rest).takeWhile p = run := by
  rw [List.takeWhile_append_of_pos hrun, takeWhile_eq_nil_of_stopsAt hrest, List.append_nil]

theorem dropWhile_run (hrun : ∀ c ∈ run, p c = true) (hrest : StopsAt p rest) :
    (run ++ rest).dropWhile p = rest := by
  rw [List.dropWhile_append_of_pos hrun, dropWhile_eq_self_of_stopsAt hrest]

theorem stopsAt_dropWhile (p : α → Bool) (s : List α) : StopsAt p (s.dropWhile p) := by
  intro c hc
  have hnot := List.head?_dropWhile_not p s
  rw [Option.mem_def.mp hc] at hnot
  simpa using hnot

end Runs

/-! ### Hexadecimal numbers -/

/-- The value of a hexadecimal digit. -/
def hexDigit (c : UInt8) : Option ℕ :=
  if 0x30 ≤ c ∧ c ≤ 0x39 then some (c.toNat - 0x30)
  else if 0x61 ≤ c ∧ c ≤ 0x66 then some (c.toNat - 0x61 + 10)
  else if 0x41 ≤ c ∧ c ≤ 0x46 then some (c.toNat - 0x41 + 10)
  else none

def isHexDigit (c : UInt8) : Bool := (hexDigit c).isSome

/-- The number that digits write, the first of them the highest. -/
def hexValue (digits : List UInt8) : ℕ := digits.foldl (fun v c => v * 16 + (hexDigit c).getD 0) 0

section Lines

variable {α : Type*} [DecidableEq α]

/-- `fgets` with a buffer for `size` characters: those up to a newline, and what is left of the
file. -/
def fgets (nl : α) : ℕ → List α → List α × List α
  | 0, file => ([], file)
  | _ + 1, [] => ([], [])
  | size + 1, c :: file =>
    if c = nl then ([c], file)
    else
      let more := fgets nl size file
      (c :: more.1, more.2)

theorem fgets_rest_le (nl : α) (size : ℕ) (file : List α) :
    (fgets nl size file).2.length ≤ file.length := by
  induction file generalizing size with
  | nil => cases size <;> exact le_rfl
  | cons c file ih =>
    cases size with
    | zero => exact le_rfl
    | succ size =>
      unfold fgets
      split
      · exact Nat.le_succ _
      · exact (ih size).trans (Nat.le_succ _)

/-- What `fgets` returns until the end of the file; its buffer takes `size + 1` characters. -/
def fgetsLines (nl : α) (size : ℕ) : List α → List (List α)
  | [] => []
  | c :: file =>
    if c = nl then [c] :: fgetsLines nl size file
    else
      have := fgets_rest_le nl size file
      (c :: (fgets nl size file).1) :: fgetsLines nl size (fgets nl size file).2
  termination_by file => file.length

theorem fgets_line {nl : α} {line : List α} (hnl : nl ∉ line) {size : ℕ} (hsize : line.length < size)
    (file : List α) : fgets nl size (line ++ nl :: file) = (line ++ [nl], file) := by
  induction line generalizing size with
  | nil =>
    obtain ⟨size, rfl⟩ := Nat.exists_eq_add_of_lt hsize
    simp [fgets]
  | cons c line ih =>
    obtain ⟨hc, hnl⟩ := List.ne_and_not_mem_of_not_mem_cons hnl
    cases size with
    | zero => exact absurd hsize (Nat.not_lt_zero _)
    | succ size =>
      rw [List.cons_append, fgets, if_neg (Ne.symm hc), ih hnl (Nat.lt_of_succ_lt_succ hsize)]
      rfl

theorem fgets_last {nl : α} {line : List α} (hnl : nl ∉ line) {size : ℕ}
    (hsize : line.length ≤ size) : fgets nl size line = (line, []) := by
  induction line generalizing size with
  | nil => cases size <;> rfl
  | cons c line ih =>
    obtain ⟨hc, hnl⟩ := List.ne_and_not_mem_of_not_mem_cons hnl
    cases size with
    | zero => exact absurd hsize (Nat.not_succ_le_zero _)
    | succ size => rw [fgets, if_neg (Ne.symm hc), ih hnl (Nat.le_of_succ_le_succ hsize)]

/-- A line that fits the buffer is received whole. -/
theorem fgetsLines_line {nl : α} {line : List α} (hnl : nl ∉ line) {size : ℕ}
    (hsize : line.length ≤ size) (file : List α) :
    fgetsLines nl size (line ++ nl :: file) = (line ++ [nl]) :: fgetsLines nl size file := by
  cases line with
  | nil => rw [List.nil_append, fgetsLines, if_pos rfl, List.nil_append]
  | cons c line =>
    obtain ⟨hc, hnl⟩ := List.ne_and_not_mem_of_not_mem_cons hnl
    rw [List.cons_append, fgetsLines, if_neg (Ne.symm hc), fgets_line hnl hsize]
    rfl

theorem fgetsLines_last {nl : α} {line : List α} (hnl : nl ∉ line) {size : ℕ}
    (hsize : line.length ≤ size) (hne : line ≠ []) : fgetsLines nl size line = [line] := by
  cases line with
  | nil => exact absurd rfl hne
  | cons c line =>
    obtain ⟨hc, hnl⟩ := List.ne_and_not_mem_of_not_mem_cons hnl
    rw [fgetsLines, if_neg (Ne.symm hc), fgets_last hnl ((Nat.le_succ _).trans hsize), fgetsLines]

end Lines

end Wldroid.Foundation
