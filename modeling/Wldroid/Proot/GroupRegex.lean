import Mathlib.Data.List.TakeWhile
import Wldroid.Foundation.Tokens

/-!
# The regular expressions for the sudo line

`configureRootfs` looks for the sudo line in the text of `etc/group` with `sudo:x:\d+:`, and adds
the user with a replacement of `(sudo:x:\d+:)(.*)`.

* `RegexClasses` — what `\d` and `.` stand for, which is not the same on all platforms;
* `matchSudo`, `findSudo`, `findMember` — a match at a place, the first one, and one with `.*user`;
* `replaceSudo` — the replacement, with `replaceSudo_eq`, one match at a time;
* `lines_replaceSudo` — it can be made line by line;
* `infix_replaceSudo` — what ends with a colon is not destroyed.
-/

namespace Wldroid.Proot

open Wldroid.Foundation

/-! ### Matches -/

/-- `\d`, and the characters that `.` does not match. -/
structure RegexClasses where
  digit : Char → Bool
  terminator : Char → Bool
  digit_ascii : ∀ c ∈ ['0', '1', '2', '3', '4', '5', '6', '7', '8', '9'], digit c
  digit_colon : ¬ digit ':'
  digit_terminator : ∀ c, digit c → ¬ terminator c
  newline : terminator '\n'
  printable : ∀ c : Char, 0x20 ≤ c.toNat → c.toNat < 0x7F → ¬ terminator c

/-- The classes of `java.util.regex.Pattern`. -/
def javaClasses : RegexClasses where
  digit c := c ∈ ['0', '1', '2', '3', '4', '5', '6', '7', '8', '9']
  terminator c := c ∈ ['\n', '\r', '\u0085', '\u2028', '\u2029']
  digit_ascii := List.all_eq_true.mp (by decide)
  digit_colon := by decide
  digit_terminator := by
    intro c hc
    simp only [List.mem_cons, List.not_mem_nil, or_false, decide_eq_true_eq] at hc
    rcases hc with rfl | rfl | rfl | rfl | rfl | rfl | rfl | rfl | rfl | rfl <;> decide
  newline := by decide
  printable := by
    intro c hlow hhigh hc
    simp only [List.mem_cons, List.not_mem_nil, or_false, decide_eq_true_eq] at hc
    rcases hc with rfl | rfl | rfl | rfl | rfl <;> revert hlow hhigh <;> decide

/-- The two groups of a match. -/
structure SudoMatch where
  head : List Char
  members : List Char
  deriving DecidableEq

/-- The first match, with what is before and after it. -/
structure SudoFound extends SudoMatch where
  before : List Char
  after : List Char
  deriving DecidableEq

/-- `"sudo:x:"`. -/
def sudoStart : List Char := "sudo:x:".toList

def user : List Char := "user".toList

variable (k : RegexClasses)

/-- `.`. -/
def RegexClasses.dot (c : Char) : Bool := !k.terminator c

/-- The characters that `.*` matches. -/
def dots (t : List Char) : List Char := t.takeWhile k.dot

/-- The match of `(sudo:x:\d+:)(.*)` at the first character. -/
def matchSudo (t : List Char) : Option SudoMatch :=
  if sudoStart <+: t then
    let digits := (t.drop sudoStart.length).takeWhile k.digit
    match (t.drop sudoStart.length).dropWhile k.digit with
    | ':' :: rest =>
      if digits = [] then none
      else some ⟨sudoStart ++ digits ++ [':'], dots k rest⟩
    | _ => none
  else none

/-- `contains(Regex("sudo:x:\\d+:.*user"))`. -/
def findMember : List Char → Bool
  | [] => false
  | c :: t =>
    (match matchSudo k (c :: t) with
      | some m => decide (user <:+: m.members)
      | none => false) || findMember t

/-- The first match of `(sudo:x:\d+:)(.*)`. -/
def findSudo : List Char → Option SudoFound
  | [] => none
  | c :: t =>
    match matchSudo k (c :: t) with
    | some m => some ⟨m, [], (c :: t).drop (m.head.length + m.members.length)⟩
    | none => (findSudo t).map fun f => { f with before := c :: f.before }

/-- `isWhitespace` of Kotlin, which includes the spaces that do not break. -/
def isWhitespace (c : Char) : Bool :=
  let v := c.toNat
  (0x09 ≤ v ∧ v ≤ 0x0D) ∨ (0x1C ≤ v ∧ v ≤ 0x20) ∨ v = 0xA0 ∨ v = 0x1680 ∨
    (0x2000 ≤ v ∧ v ≤ 0x200A) ∨ v = 0x2028 ∨ v = 0x2029 ∨ v = 0x202F ∨ v = 0x205F ∨ v = 0x3000

def isBlank (t : List Char) : Bool := t.all isWhitespace

/-- The members with the user added. -/
def withMember (members : List Char) : List Char :=
  if isBlank members then user else members ++ ',' :: user

/-- The replacement, where some characters belong to the match before. -/
def replaceFrom : ℕ → List Char → List Char
  | _, [] => []
  | skip + 1, _ :: t => replaceFrom skip t
  | 0, c :: t =>
    match matchSudo k (c :: t) with
    | some m =>
      m.head ++ withMember m.members ++ replaceFrom (m.head.length + m.members.length - 1) t
    | none => c :: replaceFrom 0 t

/-- `replace(Regex("(sudo:x:\\d+:)(.*)"))`. -/
def replaceSudo (t : List Char) : List Char := replaceFrom k 0 t

/-! ### One match -/

variable {k} {t a b : List Char} {c : Char} {m : SudoMatch} {f : SudoFound}

/-- What `sudo:x:\d+:` matches. -/
def IsHead (k : RegexClasses) (head : List Char) : Prop :=
  ∃ digits, digits ≠ [] ∧ (∀ d ∈ digits, k.digit d) ∧ head = sudoStart ++ digits ++ [':']

/-- What can come after the characters that `.*` matches. -/
def IsAfter (k : RegexClasses) (t : List Char) : Prop :=
  t = [] ∨ ∃ c rest, k.terminator c ∧ t = c :: rest

theorem not_terminator_of_mem_ascii {word : List Char}
    (h : word.all (fun c => 0x20 ≤ c.toNat ∧ c.toNat < 0x7F) = true) :
    ∀ c ∈ word, ¬ k.terminator c := by
  intro c hc
  obtain ⟨hlow, hhigh⟩ := of_decide_eq_true (List.all_eq_true.mp h c hc)
  exact k.printable c hlow hhigh

theorem IsHead.not_terminator {head : List Char} (h : IsHead k head) :
    ∀ c ∈ head, ¬ k.terminator c := by
  obtain ⟨digits, -, hdigits, rfl⟩ := h
  intro c hc
  rcases List.mem_append.mp hc with hc | hc
  · rcases List.mem_append.mp hc with hc | hc
    · exact not_terminator_of_mem_ascii (by decide) c hc
    · exact k.digit_terminator c (hdigits c hc)
  · exact not_terminator_of_mem_ascii (by decide) c hc

/-- A head has the three colons after the first three fields. -/
theorem IsHead.count {head : List Char} (h : IsHead k head) : head.count ':' = 3 := by
  obtain ⟨digits, -, hdigits, rfl⟩ := h
  have hnone : digits.count ':' = 0 :=
    List.count_eq_zero_of_not_mem fun hmem => k.digit_colon (hdigits _ hmem)
  rw [List.count_append, List.count_append, hnone]
  rfl

theorem dot_iff : k.dot c = true ↔ ¬ k.terminator c := by simp [RegexClasses.dot]

theorem dots_append (h : ∀ c ∈ a, ¬ k.terminator c) (b : List Char) :
    dots k (a ++ b) = a ++ dots k b :=
  List.takeWhile_append_of_pos fun c hc => dot_iff.mpr (h c hc)

theorem dots_cons (h : k.terminator c) (t : List Char) : dots k (c :: t) = [] :=
  List.takeWhile_cons_of_neg fun hdot => dot_iff.mp hdot h

theorem not_terminator_of_mem_dots : ∀ c ∈ dots k t, ¬ k.terminator c :=
  fun _ hc => dot_iff.mp (List.mem_takeWhile_imp hc)

theorem exists_dots (k : RegexClasses) (t : List Char) :
    ∃ after, t = dots k t ++ after ∧ IsAfter k after := by
  refine ⟨t.dropWhile k.dot, List.takeWhile_append_dropWhile.symm, ?_⟩
  cases hdrop : t.dropWhile k.dot with
  | nil => exact .inl rfl
  | cons c rest =>
    have hc : k.dot c = false := by
      have hhead := List.head?_dropWhile_not k.dot t
      rw [hdrop] at hhead
      exact Bool.eq_false_iff.mpr fun h => by simp [h] at hhead
    exact .inr ⟨c, rest, not_not.mp fun h => Bool.eq_false_iff.mp hc (dot_iff.mpr h), rfl⟩

theorem dots_append_cons (hc : k.terminator c) (a b : List Char) :
    dots k (a ++ c :: b) = dots k a := by
  obtain ⟨after, ha, hafter⟩ := exists_dots k a
  conv_lhs => rw [ha, List.append_assoc, dots_append not_terminator_of_mem_dots]
  rcases hafter with rfl | ⟨d, rest, hd, rfl⟩
  · rw [List.nil_append, dots_cons hc, List.append_nil]
  · rw [List.cons_append, dots_cons hd, List.append_nil]

theorem matchSudo_eq_some_iff :
    matchSudo k t = some m ↔
      ∃ rest, IsHead k m.head ∧ t = m.head ++ rest ∧ m.members = dots k rest := by
  constructor
  · intro h
    unfold matchSudo at h
    split at h
    · rename_i hstart
      obtain ⟨rest, rfl⟩ := hstart
      rw [List.drop_left] at h
      simp only at h
      split at h
      · rename_i after hafter
        split at h
        · cases h
        · rename_i hdigits
          cases h
          refine ⟨after, ⟨rest.takeWhile k.digit, hdigits, fun d hd => List.mem_takeWhile_imp hd, rfl⟩,
            ?_, rfl⟩
          have hsplit := List.takeWhile_append_dropWhile (p := k.digit) (l := rest)
          rw [hafter] at hsplit
          show sudoStart ++ rest = sudoStart ++ rest.takeWhile k.digit ++ [':'] ++ after
          rw [List.append_assoc, List.append_assoc, List.singleton_append, hsplit]
      · cases h
    · cases h
  · rintro ⟨rest, ⟨digits, hne, hdigits, hhead⟩, rfl, hmembers⟩
    have hrest : m.head ++ rest = sudoStart ++ (digits ++ ':' :: rest) := by
      rw [hhead]
      simp only [List.append_assoc, List.singleton_append]
    have htake : (digits ++ ':' :: rest).takeWhile k.digit = digits := by
      rw [List.takeWhile_append_of_pos hdigits, List.takeWhile_cons_of_neg k.digit_colon,
        List.append_nil]
    have hdrop : (digits ++ ':' :: rest).dropWhile k.digit = ':' :: rest := by
      rw [List.dropWhile_append_of_pos hdigits, List.dropWhile_cons_of_neg k.digit_colon]
    unfold matchSudo
    rw [hrest, if_pos (List.prefix_append _ _), List.drop_left]
    simp only [htake, hdrop]
    rw [if_neg hne, ← hmembers, ← hhead]

/-- A match does not go over the end of what `.` matches. -/
theorem matchSudo_append (hc : k.terminator c) (a b : List Char) :
    matchSudo k (a ++ c :: b) = matchSudo k a := by
  refine Option.ext fun m => ?_
  simp only [matchSudo_eq_some_iff]
  constructor
  · rintro ⟨rest, hhead, hsplit, hmembers⟩
    rcases List.append_eq_append_iff.mp hsplit with ⟨z, hz, hrest⟩ | ⟨z, rfl, rfl⟩
    · cases z with
      | nil =>
        rw [List.append_nil] at hz
        rw [List.nil_append] at hrest
        rw [← hrest, dots_cons hc] at hmembers
        exact ⟨[], hhead, by rw [List.append_nil, hz], hmembers⟩
      | cons d z =>
        obtain ⟨rfl, -⟩ := List.cons.inj hrest
        exact absurd hc (hhead.not_terminator c (by simp [hz]))
    · rw [dots_append_cons hc] at hmembers
      exact ⟨z, hhead, rfl, hmembers⟩
  · rintro ⟨rest, hhead, rfl, hmembers⟩
    rw [← dots_append_cons hc rest b] at hmembers
    exact ⟨rest ++ c :: b, hhead, List.append_assoc .., hmembers⟩

/-- What is left after a match. -/
theorem exists_after (h : matchSudo k t = some m) :
    ∃ after, t = m.head ++ m.members ++ after ∧ IsAfter k after := by
  obtain ⟨rest, -, rfl, hmembers⟩ := matchSudo_eq_some_iff.mp h
  obtain ⟨after, hrest, hafter⟩ := exists_dots k rest
  rw [← hmembers] at hrest
  exact ⟨after, by rw [List.append_assoc, ← hrest], hafter⟩

theorem matchSudo_nil : matchSudo k [] = none := if_neg (by decide)

/-! ### The replacement -/

theorem replaceFrom_drop (k : RegexClasses) (skip : ℕ) (t : List Char) :
    replaceFrom k skip t = replaceSudo k (t.drop skip) := by
  induction t generalizing skip with
  | nil =>
    rw [List.drop_nil]
    cases skip <;> rfl
  | cons c t ih =>
    cases skip with
    | zero => rfl
    | succ skip => exact ih skip

theorem replaceSudo_cons_none (h : matchSudo k (c :: t) = none) :
    replaceSudo k (c :: t) = c :: replaceSudo k t := by
  unfold replaceSudo
  rw [replaceFrom, h]

theorem replaceSudo_cons_some (h : matchSudo k (c :: t) = some m) :
    replaceSudo k (c :: t) = m.head ++ withMember m.members
      ++ replaceSudo k ((c :: t).drop (m.head.length + m.members.length)) := by
  obtain ⟨_, ⟨digits, _, _, hhead⟩, _, _⟩ := matchSudo_eq_some_iff.mp h
  have hlength : m.head.length + m.members.length
      = (m.head.length + m.members.length - 1) + 1 := by
    rw [hhead, List.length_append]
    simp only [List.length_singleton]
    omega
  rw [hlength, List.drop_succ_cons, ← replaceFrom_drop]
  show replaceFrom k 0 (c :: t) = _
  rw [replaceFrom, h]

/-- **One match at a time.**  Nothing changes before the first match, and after it the replacement
goes on. -/
theorem replaceSudo_eq :
    (findSudo k t = none ∧ replaceSudo k t = t) ∨
      ∃ f, findSudo k t = some f ∧ matchSudo k (f.head ++ f.members ++ f.after) = some f.toSudoMatch ∧
        IsAfter k f.after ∧ t = f.before ++ (f.head ++ f.members ++ f.after) ∧
        replaceSudo k t = f.before ++ (f.head ++ withMember f.members ++ replaceSudo k f.after) := by
  induction t with
  | nil => exact .inl ⟨rfl, rfl⟩
  | cons c t ih =>
    cases hmatch : matchSudo k (c :: t) with
    | some m =>
      obtain ⟨after, hsplit, hafter⟩ := exists_after hmatch
      have hdrop : (c :: t).drop (m.head.length + m.members.length) = after := by
        rw [hsplit, ← List.length_append, List.drop_left]
      refine .inr ⟨⟨m, [], after⟩, ?_, ?_, hafter, hsplit, ?_⟩
      · simp only [findSudo, hmatch, hdrop]
      · rw [← hsplit]
        exact hmatch
      · rw [replaceSudo_cons_some hmatch, hdrop]
        rfl
    | none =>
      rw [replaceSudo_cons_none hmatch, findSudo, hmatch]
      rcases ih with ⟨hfind, hsame⟩ | ⟨f, hfind, hmatch', hafter, hsplit, hreplace⟩
      · rw [hfind, hsame]
        exact .inl ⟨rfl, rfl⟩
      · rw [hfind]
        refine .inr ⟨{ f with before := c :: f.before }, rfl, hmatch', hafter, ?_, ?_⟩
        · rw [List.cons_append, ← hsplit]
        · rw [List.cons_append, ← hreplace]

/-- Induction over the matches. -/
theorem replaceSudo_induction {P : List Char → List Char → Prop}
    (none : ∀ t, findSudo k t = none → P t t)
    (some : ∀ f : SudoFound, matchSudo k (f.head ++ f.members ++ f.after) = some f.toSudoMatch →
      IsAfter k f.after → P f.after (replaceSudo k f.after) →
      P (f.before ++ (f.head ++ f.members ++ f.after))
        (f.before ++ (f.head ++ withMember f.members ++ replaceSudo k f.after))) :
    ∀ t, P t (replaceSudo k t) := by
  intro t
  rcases replaceSudo_eq (k := k) (t := t) with ⟨hfind, hsame⟩ | ⟨f, -, hmatch, hafter, hsplit, hreplace⟩
  · rw [hsame]
    exact none t hfind
  · rw [hreplace]
    conv => arg 1; rw [hsplit]
    exact some f hmatch hafter (replaceSudo_induction none some f.after)
termination_by t => t.length
decreasing_by
  obtain ⟨_, ⟨digits, _, _, hhead⟩, _, _⟩ := matchSudo_eq_some_iff.mp hmatch
  have hlength := congrArg List.length hsplit
  simp only [List.length_append, hhead, List.length_singleton] at hlength
  omega

theorem withMember_ascii {members : List Char} (hmem : c ∈ withMember members) :
    c ∈ members ∨ c ∈ ',' :: user := by
  unfold withMember at hmem
  split at hmem
  · exact .inr (List.mem_cons_of_mem _ hmem)
  · exact List.mem_append.mp hmem

theorem withMember_dots {members : List Char} (h : ∀ c ∈ members, ¬ k.terminator c) :
    ∀ c ∈ withMember members, ¬ k.terminator c := by
  intro c hc
  rcases withMember_ascii hc with hc | hc
  · exact h c hc
  · exact not_terminator_of_mem_ascii (by decide) c hc

theorem user_infix_withMember (members : List Char) : user <:+: withMember members := by
  unfold withMember
  split
  · exact List.infix_refl user
  · exact ((List.suffix_cons ',' user).trans (List.suffix_append members (',' :: user))).isInfix

theorem colon_notMem_blank {members : List Char} (h : isBlank members) : ':' ∉ members :=
  fun hmem => absurd (List.all_eq_true.mp h ':' hmem) (by decide)

/-! ### Line by line -/

theorem replaceFrom_append (hc : k.terminator c) (b : List Char) {skip : ℕ} (hskip : skip ≤ a.length) :
    replaceFrom k skip (a ++ c :: b) = replaceFrom k skip a ++ c :: replaceSudo k b := by
  induction a generalizing skip with
  | nil =>
    obtain rfl : skip = 0 := by simpa using hskip
    have hnone := matchSudo_append hc [] b
    rw [matchSudo_nil] at hnone
    exact replaceSudo_cons_none hnone
  | cons d a ih =>
    cases skip with
    | succ skip => exact ih (by simpa using hskip)
    | zero =>
      have hmatch := matchSudo_append hc (d :: a) b
      show replaceFrom k 0 (d :: (a ++ c :: b)) = replaceFrom k 0 (d :: a) ++ c :: replaceSudo k b
      rw [replaceFrom, replaceFrom, ← List.cons_append, hmatch]
      cases hfirst : matchSudo k (d :: a) with
      | some m =>
        obtain ⟨after, hsplit, -⟩ := exists_after hfirst
        have hlength := congrArg List.length hsplit
        simp only [List.length_cons, List.length_append] at hlength
        simp only
        rw [ih (by omega), List.append_assoc _ (replaceFrom k _ a)]
      | none =>
        simp only
        rw [ih (Nat.zero_le _), List.cons_append]

/-- The replacement does not go over line ends. -/
theorem replaceSudo_append (hc : k.terminator c) (a b : List Char) :
    replaceSudo k (a ++ c :: b) = replaceSudo k a ++ c :: replaceSudo k b :=
  replaceFrom_append hc b (Nat.zero_le _)

theorem findMember_append (hc : k.terminator c) (a b : List Char) :
    findMember k (a ++ c :: b) = (findMember k a || findMember k b) := by
  induction a with
  | nil =>
    have hnone := matchSudo_append hc [] b
    rw [matchSudo_nil] at hnone
    rw [List.nil_append] at hnone
    simp [findMember, hnone]
  | cons d a ih =>
    have hmatch := matchSudo_append hc (d :: a) b
    rw [List.cons_append] at hmatch
    rw [List.cons_append, findMember, findMember, hmatch, ih, Bool.or_assoc]

theorem findSudo_append (hc : k.terminator c) (a b : List Char) :
    findSudo k (a ++ c :: b) = none ↔ findSudo k a = none ∧ findSudo k b = none := by
  induction a with
  | nil =>
    have hnone := matchSudo_append hc [] b
    rw [matchSudo_nil] at hnone
    rw [List.nil_append] at hnone
    simp [findSudo, hnone]
  | cons d a ih =>
    have hmatch := matchSudo_append hc (d :: a) b
    rw [List.cons_append] at hmatch
    rw [List.cons_append, findSudo, findSudo, hmatch]
    cases matchSudo k (d :: a) with
    | some m => simp
    | none => simpa using ih

/-- Only the user and a comma are added. -/
theorem mem_replaceSudo : c ∈ replaceSudo k t → c ∈ t ∨ c ∈ ',' :: user := by
  refine replaceSudo_induction (P := fun t t' => c ∈ t' → c ∈ t ∨ c ∈ ',' :: user) ?_ ?_ t
  · exact fun t _ hmem => .inl hmem
  · intro f _ _ ih hmem
    simp only [List.mem_append] at hmem ⊢
    rcases hmem with hmem | (hmem | hmem) | hmem
    · exact .inl (.inl hmem)
    · exact .inl (.inr (.inl (.inl hmem)))
    · rcases withMember_ascii hmem with hmem | hmem
      · exact .inl (.inr (.inl (.inr hmem)))
      · exact .inr hmem
    · rcases ih hmem with hmem | hmem
      · exact .inl (.inr (.inr hmem))
      · exact .inr hmem

theorem replaceSudo_ne_nil (h : t ≠ []) : replaceSudo k t ≠ [] := by
  rcases replaceSudo_eq (k := k) (t := t) with ⟨-, hsame⟩ | ⟨f, -, hmatch, -, -, hreplace⟩
  · rwa [hsame]
  · obtain ⟨_, ⟨digits, _, _, hhead⟩, _, _⟩ := matchSudo_eq_some_iff.mp hmatch
    rw [hreplace, hhead]
    simp

/-- **Line by line.** -/
theorem lines_replaceSudo (k : RegexClasses) (t : List Char) :
    lines '\n' (replaceSudo k t) = (lines '\n' t).map (replaceSudo k) := by
  have hnot : ∀ part : List Char, '\n' ∉ part → '\n' ∉ replaceSudo k part := by
    intro part hpart hmem
    rcases mem_replaceSudo hmem with hmem | hmem
    · exact hpart hmem
    · exact absurd hmem (by decide)
  refine parts_induction '\n'
    (P := fun t => lines '\n' (replaceSudo k t) = (lines '\n' t).map (replaceSudo k)) ?_ ?_ t
  · intro part hpart
    rcases eq_or_ne part [] with rfl | hne
    · rfl
    · rw [lines_single hpart hne, lines_single (hnot part hpart) (replaceSudo_ne_nil hne)]
      rfl
  · intro part rest hpart ih
    rw [replaceSudo_append k.newline, lines_cons (hnot part hpart), ih, lines_cons hpart]
    rfl

theorem findMember_iff_lines : findMember k t ↔ ∃ line ∈ lines '\n' t, findMember k line := by
  refine parts_induction '\n'
    (P := fun t => findMember k t ↔ ∃ line ∈ lines '\n' t, findMember k line) ?_ ?_ t
  · intro part hpart
    rcases eq_or_ne part [] with rfl | hne
    · simp [findMember]
    · rw [lines_single hpart hne]
      simp
  · intro part rest hpart ih
    rw [findMember_append k.newline, lines_cons hpart, Bool.or_eq_true, ih]
    simp

theorem findSudo_iff_lines : findSudo k t = none ↔ ∀ line ∈ lines '\n' t, findSudo k line = none := by
  refine parts_induction '\n'
    (P := fun t => findSudo k t = none ↔ ∀ line ∈ lines '\n' t, findSudo k line = none) ?_ ?_ t
  · intro part hpart
    rcases eq_or_ne part [] with rfl | hne
    · simp [findSudo]
    · rw [lines_single hpart hne]
      simp
  · intro part rest hpart ih
    rw [findSudo_append k.newline, lines_cons hpart, ih]
    simp

/-! ### What a replacement keeps and adds -/

/-- What ends with a colon is not destroyed by the replacement. -/
theorem infix_replaceSudo (pat : List Char) (hpat : ∀ c ∈ pat ++ [':'], ¬ k.terminator c) :
    pat ++ [':'] <:+: t → pat ++ [':'] <:+: replaceSudo k t := by
  refine replaceSudo_induction (P := fun t t' => pat ++ [':'] <:+: t → pat ++ [':'] <:+: t') ?_ ?_ t
  · exact fun t _ h => h
  · intro f _ hafter ih h
    have hparts : pat ++ [':'] <:+: f.before ++ f.head ++ f.members ∨ pat ++ [':'] <:+: f.after := by
      rw [← List.append_assoc f.before, ← List.append_assoc f.before] at h
      rcases hafter with hnil | ⟨c, rest, hc, hrest⟩
      · rw [hnil, List.append_nil] at h
        exact .inl h
      · rw [hrest] at h ⊢
        have hnot : c ∉ pat ++ [':'] := fun hmem => hpat c hmem hc
        exact ((infix_append_cons_iff hnot).mp h).imp_right
          fun hin => hin.trans (List.suffix_cons c rest).isInfix
    rw [← List.append_assoc f.before, ← List.append_assoc f.before]
    rcases hparts with hfirst | hrest
    · refine List.IsInfix.trans ?_ (List.prefix_append _ _).isInfix
      unfold withMember
      split
      · rename_i hblank
        exact (infix_of_append (colon_notMem_blank hblank) hfirst).trans
          (List.prefix_append _ _).isInfix
      · rw [← List.append_assoc]
        exact hfirst.trans (List.prefix_append _ _).isInfix
    · exact (ih hrest).trans (List.suffix_append _ _).isInfix

/-- A match with the user is found wherever it is. -/
theorem findMember_of_match (before : List Char) (h : matchSudo k t = some m)
    (huser : user <:+: m.members) : findMember k (before ++ t) := by
  induction before with
  | nil =>
    cases t with
    | nil =>
      rw [matchSudo_nil] at h
      cases h
    | cons c t => simp [findMember, h, huser]
  | cons c before ih =>
    rw [List.cons_append, findMember, ih, Bool.or_true]

/-- Where the user is found, the sudo line is. -/
theorem findSudo_of_findMember (h : findMember k t) : findSudo k t ≠ none := by
  induction t with
  | nil => cases h
  | cons c t ih =>
    unfold findMember at h
    unfold findSudo
    cases hmatch : matchSudo k (c :: t) with
    | some m => simp
    | none =>
      rw [hmatch] at h
      simpa using ih h

theorem infix_of_findSudo (h : findSudo k t ≠ none) : sudoStart <:+: t := by
  rcases replaceSudo_eq (k := k) (t := t) with ⟨hnone, -⟩ | ⟨f, -, hmatch, -, hsplit, -⟩
  · exact absurd hnone h
  · obtain ⟨_, ⟨digits, _, _, hhead⟩, _, _⟩ := matchSudo_eq_some_iff.mp hmatch
    rw [hsplit, hhead]
    exact ⟨f.before, digits ++ [':'] ++ f.members ++ f.after, by simp only [List.append_assoc]⟩

/-- After a replacement, the user is found. -/
theorem findMember_replaceSudo (h : findSudo k t ≠ none) : findMember k (replaceSudo k t) := by
  rcases replaceSudo_eq (k := k) (t := t) with ⟨hnone, -⟩ | ⟨f, -, hmatch, -, -, hreplace⟩
  · exact absurd hnone h
  · obtain ⟨rest, hhead, hsplit, hmembers⟩ := matchSudo_eq_some_iff.mp hmatch
    have hdots : ∀ c ∈ withMember f.members, ¬ k.terminator c := by
      refine withMember_dots ?_
      rw [hmembers]
      exact not_terminator_of_mem_dots
    have hagain : matchSudo k (f.head ++ withMember f.members ++ replaceSudo k f.after)
        = some ⟨f.head, withMember f.members ++ dots k (replaceSudo k f.after)⟩ :=
      matchSudo_eq_some_iff.mpr ⟨_, hhead, List.append_assoc .., (dots_append hdots _).symm⟩
    rw [hreplace]
    exact findMember_of_match f.before hagain
      ((user_infix_withMember f.members).trans (List.prefix_append _ _).isInfix)

end Wldroid.Proot
