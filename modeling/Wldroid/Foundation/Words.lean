import Mathlib.Tactic

/-!
# Little-endian words

32-bit words in a list of bytes: `words` writes some, `wordAt` reads one, and reading gives back
what was written (`wordAt_words`).  `toLe` and `fromLe` do the same at any width (`fromLe_toLe`).
-/

namespace Wldroid.Foundation

/-- The four bytes of a 32-bit word. -/
def le32 (n : ℕ) : List UInt8 :=
  [UInt8.ofNat n, UInt8.ofNat (n / 256), UInt8.ofNat (n / 65536), UInt8.ofNat (n / 16777216)]

/-- Some words, one after the other. -/
def words (ns : List ℕ) : List UInt8 := ns.flatMap le32

/-- The word at the beginning of some bytes. -/
def word : List UInt8 → ℕ
  | a :: b :: c :: d :: _ => a.toNat + 256 * b.toNat + 65536 * c.toNat + 16777216 * d.toNat
  | _ => 0

/-- The word with this index. -/
def wordAt (bytes : List UInt8) (i : ℕ) : ℕ := word (bytes.drop (4 * i))

@[simp] theorem words_cons (n : ℕ) (ns : List ℕ) : words (n :: ns) = le32 n ++ words ns := rfl

@[simp] theorem length_le32 (n : ℕ) : (le32 n).length = 4 := rfl

@[simp] theorem length_words (ns : List ℕ) : (words ns).length = 4 * ns.length := by
  induction ns with
  | nil => rfl
  | cons n ns ih =>
    rw [words_cons, List.length_append, length_le32, ih, List.length_cons]
    omega

theorem word_le32_append (n : ℕ) (rest : List UInt8) : word (le32 n ++ rest) = n % 2 ^ 32 := by
  show (UInt8.ofNat n).toNat + 256 * (UInt8.ofNat (n / 256)).toNat +
    65536 * (UInt8.ofNat (n / 65536)).toNat + 16777216 * (UInt8.ofNat (n / 16777216)).toNat = _
  simp only [UInt8.toNat_ofNat']
  omega

/-- **Round trip.**  The word read at an index is the one written there, in 32 bits. -/
theorem wordAt_words (ns : List ℕ) (rest : List UInt8) {i n : ℕ} (h : ns[i]? = some n) :
    wordAt (words ns ++ rest) i = n % 2 ^ 32 := by
  induction ns generalizing i with
  | nil => simp at h
  | cons m ns ih =>
    cases i with
    | zero =>
      obtain rfl := Option.some.inj h
      rw [wordAt, words_cons, List.append_assoc, Nat.mul_zero, List.drop_zero]
      exact word_le32_append m _
    | succ i =>
      have hdrop : (words (m :: ns) ++ rest).drop (4 * (i + 1)) =
          (words ns ++ rest).drop (4 * i) := by
        rw [words_cons, List.append_assoc, Nat.mul_add, Nat.add_comm, ← List.drop_drop,
          Nat.mul_one, List.drop_left' (length_le32 m)]
      rw [wordAt, hdrop]
      exact ih h

/-- Words that are there do not depend on what follows. -/
theorem wordAt_append {bytes rest : List UInt8} {i : ℕ} (h : 4 * i + 4 ≤ bytes.length) :
    wordAt (bytes ++ rest) i = wordAt bytes i := by
  rw [wordAt, wordAt, List.drop_append_of_le_length (by omega)]
  have hlen : 4 ≤ (bytes.drop (4 * i)).length := by
    rw [List.length_drop]
    omega
  match bytes.drop (4 * i), hlen with
  | _ :: _ :: _ :: _ :: _, _ => rfl

/-! ### Any width -/

/-- The `k` bytes of a number, the low one first. -/
def toLe : ℕ → ℕ → List UInt8
  | 0, _ => []
  | k + 1, n => UInt8.ofNat n :: toLe k (n / 256)

/-- The number some bytes are. -/
def fromLe (bytes : List UInt8) : ℕ := bytes.foldr (fun b n => b.toNat + 256 * n) 0

@[simp] theorem length_toLe (k n : ℕ) : (toLe k n).length = k := by
  induction k generalizing n with
  | zero => rfl
  | succ k ih => simp only [toLe, List.length_cons, ih]

/-- **Round trip** of a number that fits. -/
theorem fromLe_toLe {k n : ℕ} (hn : n < 256 ^ k) : fromLe (toLe k n) = n := by
  induction k generalizing n with
  | zero =>
    have hzero : n = 0 := by simpa using hn
    rw [hzero]
    rfl
  | succ k ih =>
    have hdiv : n / 256 < 256 ^ k := Nat.div_lt_of_lt_mul (by rwa [pow_succ, mul_comm] at hn)
    show (UInt8.ofNat n).toNat + 256 * fromLe (toLe k (n / 256)) = n
    rw [ih hdiv, UInt8.toNat_ofNat']
    omega

end Wldroid.Foundation
