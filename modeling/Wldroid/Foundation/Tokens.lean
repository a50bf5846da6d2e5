import Mathlib.Tactic

/-!
# Tokens, lines and substrings

Lists that are split at a separator, and the places of one list in another.

* `tokens` — the parts between separators that are not empty; `tokens_append`, `tokens_single`;
* `IsFront`, `IsRest` — what can stand before and after a part, with `tokens_front`, `tokens_part`;
* `lines` — the terminated parts, and the last one if it is not empty; `lines_append`, `lines_map`;
* `parts_induction` — the induction over the parts of a list;
* `strstr` — the first place of a pattern, with `strstr_eq_some` and `strstr_eq_none`;
* `ne_cons_filter` — a list is not one of its own elements before what is left of it.
-/

namespace Wldroid.Foundation

variable {α : Type*}

/-! ### Parts -/

section Parts

variable {sep : α} {s t : List α}

/-- What can come before a part: nothing, or a separator at the end. -/
def IsFront (sep : α) (s : List α) : Prop := s = [] ∨ ∃ more, s = more ++ [sep]

/-- What can come after a part: nothing, or a separator first. -/
def IsRest (sep : α) (s : List α) : Prop := s = [] ∨ ∃ more, s = sep :: more

/-- Up to its first separator, a list is one part, and the rest starts there. -/
theorem exists_part (sep : α) (s : List α) :
    ∃ part rest, s = part ++ rest ∧ sep ∉ part ∧ IsRest sep rest := by
  by_cases hsep : sep ∈ s
  · obtain ⟨part, more, rfl, hpart⟩ := List.eq_append_cons_of_mem hsep
    exact ⟨part, sep :: more, rfl, hpart, .inr ⟨more, rfl⟩⟩
  · exact ⟨s, [], (List.append_nil s).symm, hsep, .inl rfl⟩

/-- From its last separator on, a list is one part. -/
theorem exists_last_part (sep : α) (s : List α) :
    ∃ front part, s = front ++ part ∧ sep ∉ part ∧ IsFront sep front := by
  obtain ⟨part, rest, hs, hpart, hrest⟩ := exists_part sep s.reverse
  refine ⟨rest.reverse, part.reverse, ?_, by rwa [List.mem_reverse], ?_⟩
  · rw [← List.reverse_append, ← hs, List.reverse_reverse]
  · rcases hrest with rfl | ⟨more, rfl⟩
    · exact .inl rfl
    · exact .inr ⟨more.reverse, List.reverse_cons⟩

/-- A front ends a part, so that nothing is left of it. -/
theorem isFront_append_iff (hfront : IsFront sep s) (ht : sep ∉ t) :
    IsFront sep (s ++ t) ↔ t = [] := by
  constructor
  · intro h
    rcases List.eq_nil_or_concat t with hnil | ⟨t', c, rfl⟩
    · exact hnil
    · rcases h with hnil | ⟨more, hmore⟩
      · exact (List.append_eq_nil_iff.mp hnil).2
      · rw [List.concat_eq_append, ← List.append_assoc] at hmore
        have hlast := (List.append_inj' hmore rfl).2
        rw [List.concat_eq_append, List.singleton_inj.mp hlast] at ht
        exact absurd (List.mem_append_right t' (List.mem_singleton_self sep)) ht
  · rintro rfl
    rwa [List.append_nil]

theorem isRest_append_iff (ht : sep ∉ t) (hrest : IsRest sep s) :
    IsRest sep (t ++ s) ↔ t = [] := by
  constructor
  · intro h
    cases t with
    | nil => rfl
    | cons c t =>
      rcases h with hnil | ⟨more, hmore⟩
      · cases hnil
      · rw [(List.cons.inj hmore).1] at ht
        exact absurd List.mem_cons_self ht
  · rintro rfl
    exact hrest

/-- **Induction over the parts.**  A list is a single part, or a part before a separator and the
rest. -/
theorem parts_induction (sep : α) {P : List α → Prop} (single : ∀ part, sep ∉ part → P part)
    (cons : ∀ part rest, sep ∉ part → P rest → P (part ++ sep :: rest)) : ∀ s, P s := by
  intro s
  obtain ⟨part, rest, hs, hpart, hrest⟩ := exists_part sep s
  rcases hrest with rfl | ⟨more, rfl⟩
  · rw [hs, List.append_nil]
    exact single part hpart
  · rw [hs]
    exact cons part more hpart (parts_induction sep single cons more)
termination_by s => s.length
decreasing_by
  rw [hs, List.length_append, List.length_cons]
  omega

/-- A pattern without the separator is on one side of it. -/
theorem infix_append_cons_iff (h : sep ∉ t) {a b : List α} :
    t <:+: a ++ sep :: b ↔ t <:+: a ∨ t <:+: b := by
  constructor
  · rintro ⟨x, y, hxy⟩
    rw [List.append_assoc] at hxy
    rcases List.append_eq_append_iff.mp hxy with ⟨z, rfl, hz⟩ | ⟨z, rfl, hz⟩
    · rcases List.append_eq_append_iff.mp hz with ⟨w, rfl, -⟩ | ⟨w, rfl, hw⟩
      · exact .inl ⟨x, w, by rw [List.append_assoc]⟩
      · cases w with
        | nil => exact .inl ⟨x, [], by simp⟩
        | cons c w =>
          obtain ⟨rfl, -⟩ := List.cons.inj hw
          exact absurd (List.mem_append_right z List.mem_cons_self) h
    · cases z with
      | nil =>
        cases t with
        | nil => exact .inl List.nil_infix
        | cons c t =>
          obtain ⟨rfl, -⟩ := List.cons.inj hz
          exact absurd List.mem_cons_self h
      | cons c z =>
        obtain ⟨-, rfl⟩ := List.cons.inj hz
        exact .inr ⟨z, y, List.append_assoc z t y⟩
  · rintro (hinside | hinside)
    · exact hinside.trans (List.prefix_append a (sep :: b)).isInfix
    · exact hinside.trans ((List.suffix_cons sep b).trans (List.suffix_append a (sep :: b))).isInfix

/-- A pattern whose last element is not in the second list ends in the first. -/
theorem infix_of_append {a x : List α} (hx : sep ∉ x) (h : t ++ [sep] <:+: a ++ x) :
    t ++ [sep] <:+: a := by
  obtain ⟨p, y, hpy⟩ := h
  rcases List.append_eq_append_iff.mp hpy with ⟨z, rfl, -⟩ | ⟨z, hz, rfl⟩
  · exact ⟨p, z, rfl⟩
  · rcases List.eq_nil_or_concat z with rfl | ⟨z', c, rfl⟩
    · rw [List.append_nil] at hz
      exact ⟨p, [], by rw [List.append_nil, hz]⟩
    · rw [← List.append_assoc, List.concat_eq_append, ← List.append_assoc] at hz
      have hlast := List.singleton_inj.mp (List.append_inj' hz rfl).2
      rw [hlast] at hx
      exact absurd (by simp) hx

end Parts

variable [DecidableEq α]

/-! ### Tokens -/

/-- The parts between separators, as far as they are not empty. -/
def tokens (sep : α) (s : List α) : List (List α) := (s.splitOn sep).filter (· ≠ [])

section Tokens

variable {sep : α} {s s' t : List α}

@[simp] theorem tokens_nil (sep : α) : tokens sep [] = [] := rfl

theorem tokens_append (sep : α) (s s' : List α) :
    tokens sep (s ++ sep :: s') = tokens sep s ++ tokens sep s' := by
  unfold tokens
  rw [List.splitOn_append_cons_self, List.filter_append]

/-- A leading separator does not matter. -/
theorem tokens_cons_sep (sep : α) (s : List α) : tokens sep (sep :: s) = tokens sep s :=
  tokens_append sep [] s

/-- A list without separators is one token, unless it is empty. -/
theorem tokens_single (h : sep ∉ s) : tokens sep s = if s = [] then [] else [s] := by
  unfold tokens
  rw [List.splitOn_eq_singleton h]
  split
  · rename_i hnil
    rw [hnil]
    rfl
  · rename_i hne
    exact List.filter_cons_of_pos (decide_eq_true hne)

theorem tokens_of_ne_nil (h : sep ∉ s) (hne : s ≠ []) : tokens sep s = [s] := by
  rw [tokens_single h, if_neg hne]

/-- A token is a part of the list. -/
theorem infix_of_mem_tokens : t ∈ tokens sep s → t <:+: s := by
  refine parts_induction sep (P := fun s => t ∈ tokens sep s → t <:+: s) ?_ ?_ s
  · intro part hpart ht
    rw [tokens_single hpart] at ht
    split at ht
    · cases ht
    · rw [List.mem_singleton.mp ht]
  · intro part rest hpart ih ht
    rw [tokens_append, tokens_single hpart] at ht
    rcases List.mem_append.mp ht with ht | ht
    · split at ht
      · cases ht
      · rw [List.mem_singleton.mp ht]
        exact (List.prefix_append part (sep :: rest)).isInfix
    · have hrest : rest <:+: part ++ sep :: rest :=
        ((List.suffix_cons sep rest).trans (List.suffix_append part (sep :: rest))).isInfix
      exact (ih ht).trans hrest

/-- In front of a part there are only whole ones. -/
theorem tokens_front (h : IsFront sep s) (s' : List α) :
    tokens sep (s ++ s') = tokens sep s ++ tokens sep s' := by
  rcases h with rfl | ⟨more, rfl⟩
  · rfl
  · rw [List.append_assoc, List.singleton_append, tokens_append, tokens_append, tokens_nil,
      List.append_nil]

/-- The first token of what starts with a part that is not empty. -/
theorem tokens_part (h : sep ∉ s) (hne : s ≠ []) (hrest : IsRest sep s') :
    tokens sep (s ++ s') = s :: tokens sep s'.tail := by
  rcases hrest with rfl | ⟨more, rfl⟩
  · rw [List.append_nil, tokens_of_ne_nil h hne]
    rfl
  · rw [tokens_append, tokens_of_ne_nil h hne]
    rfl

theorem tokens_tail (h : IsRest sep s) : tokens sep s.tail = tokens sep s := by
  rcases h with rfl | ⟨more, rfl⟩
  · rfl
  · exact (tokens_cons_sep sep more).symm

/-- Of an element that stays there is not one more in the list than in what stays. -/
theorem ne_cons_filter {p : α → Bool} {l : List α} {x : α} (hx : p x = true) :
    l ≠ x :: l.filter p := by
  intro h
  have hcount := congrArg (List.count x) h
  rw [List.count_cons_self, List.count_filter hx] at hcount
  omega

end Tokens

/-! ### Lines -/

/-- The lines of a text: the last one need not be terminated. -/
def lines (nl : α) (s : List α) : List (List α) :=
  if (s.splitOn nl).getLast? = some [] then (s.splitOn nl).dropLast else s.splitOn nl

section Lines

variable {nl : α} {s s' t : List α}

@[simp] theorem lines_nil (nl : α) : lines nl [] = [] := rfl

/-- A line without terminator. -/
theorem lines_single (h : nl ∉ s) (hne : s ≠ []) : lines nl s = [s] := by
  unfold lines
  rw [List.splitOn_eq_singleton h]
  exact if_neg fun hlast => hne (Option.some.inj hlast)

theorem lines_append_cons (nl : α) (s s' : List α) :
    lines nl (s ++ nl :: s') = s.splitOn nl ++ lines nl s' := by
  unfold lines
  have hne : s'.splitOn nl ≠ [] := List.splitOn_ne_nil nl s'
  rw [List.splitOn_append_cons_self, List.getLast?_append_of_ne_nil _ hne,
    List.dropLast_append_of_ne_nil hne]
  split <;> rfl

/-- The first line. -/
theorem lines_cons (h : nl ∉ s) (s' : List α) : lines nl (s ++ nl :: s') = s :: lines nl s' := by
  rw [lines_append_cons, List.splitOn_eq_singleton h]
  rfl

/-- What comes after a terminator are lines of their own. -/
theorem lines_append (h : IsFront nl s) (s' : List α) :
    lines nl (s ++ s') = lines nl s ++ lines nl s' := by
  rcases h with rfl | ⟨more, rfl⟩
  · rfl
  · rw [List.append_assoc, List.singleton_append, lines_append_cons, lines_append_cons, lines_nil,
      List.append_nil]

/-- A line is a part of the text without terminators. -/
theorem of_mem_lines : t ∈ lines nl s → t <:+: s ∧ nl ∉ t := by
  refine parts_induction nl (P := fun s => t ∈ lines nl s → t <:+: s ∧ nl ∉ t) ?_ ?_ s
  · intro part hpart ht
    rcases eq_or_ne part [] with rfl | hne
    · cases ht
    · rw [lines_single hpart hne] at ht
      rw [List.mem_singleton.mp ht]
      exact ⟨List.infix_refl part, hpart⟩
  · intro part rest hpart ih ht
    rw [lines_cons hpart] at ht
    rcases List.mem_cons.mp ht with rfl | ht
    · exact ⟨(List.prefix_append t (nl :: rest)).isInfix, hpart⟩
    · have hrest : rest <:+: part ++ nl :: rest :=
        ((List.suffix_cons nl rest).trans (List.suffix_append part (nl :: rest))).isInfix
      exact ⟨(ih ht).1.trans hrest, (ih ht).2⟩

/-- Lines under a map that keeps the terminators. -/
theorem lines_map {β : Type*} [DecidableEq β] {f : α → β} {nl' : β} (hf : ∀ x, f x = nl' ↔ x = nl)
    (s : List α) : lines nl' (s.map f) = (lines nl s).map (List.map f) := by
  have hnot : ∀ part : List α, nl ∉ part → nl' ∉ part.map f := by
    intro part hpart hmem
    obtain ⟨x, hx, hfx⟩ := List.mem_map.mp hmem
    exact hpart ((hf x).mp hfx ▸ hx)
  refine parts_induction nl (P := fun s => lines nl' (s.map f) = (lines nl s).map (List.map f))
    ?_ ?_ s
  · intro part hpart
    rcases eq_or_ne part [] with rfl | hne
    · rfl
    · rw [lines_single hpart hne, lines_single (hnot part hpart) (by simp [hne])]
      rfl
  · intro part rest hpart ih
    rw [List.map_append, List.map_cons, (hf nl).mpr rfl, lines_cons (hnot part hpart), ih,
      lines_cons hpart]
    rfl

end Lines

/-! ### Substrings -/

/-- `strstr`: the first place of a pattern. -/
def strstr (pat : List α) : List α → Option ℕ
  | [] => if pat = [] then some 0 else none
  | c :: s => if pat <+: c :: s then some 0 else (strstr pat s).map (· + 1)

section Substrings

variable {pat s pre post : List α} {k : ℕ}

theorem strstr_eq_none : strstr pat s = none ↔ ¬ pat <:+: s := by
  induction s with
  | nil =>
    unfold strstr
    rw [ite_eq_right_iff, List.infix_nil]
    simp
  | cons c s ih =>
    unfold strstr
    rw [List.infix_cons_iff, not_or, ← ih]
    split
    · rename_i hhead
      simp [hhead]
    · rename_i hhead
      simp [hhead]

/-- The place that is found splits the list, and no earlier one does. -/
theorem strstr_eq_some (h : strstr pat s = some k) :
    ∃ pre post, s = pre ++ pat ++ post ∧ pre.length = k ∧
      ∀ pre' post', s = pre' ++ pat ++ post' → k ≤ pre'.length := by
  induction s generalizing k with
  | nil =>
    unfold strstr at h
    split at h
    · rename_i hpat
      cases h
      exact ⟨[], [], by rw [hpat]; rfl, rfl, fun _ _ _ => Nat.zero_le _⟩
    · cases h
  | cons c s ih =>
    unfold strstr at h
    split at h
    · rename_i hhead
      cases h
      obtain ⟨post, hpost⟩ := hhead
      exact ⟨[], post, hpost.symm, rfl, fun _ _ _ => Nat.zero_le _⟩
    · rename_i hhead
      obtain ⟨j, hj, rfl⟩ := Option.map_eq_some_iff.mp h
      obtain ⟨pre, post, hs, hlength, hfirst⟩ := ih hj
      refine ⟨c :: pre, post, by rw [hs]; rfl, by rw [List.length_cons, hlength], ?_⟩
      intro pre' post' hsplit
      cases pre' with
      | nil => exact absurd ⟨post', hsplit.symm⟩ hhead
      | cons d pre' =>
        obtain ⟨-, htail⟩ := List.cons.inj hsplit
        exact Nat.succ_le_succ (hfirst pre' post' htail)

end Substrings

end Wldroid.Foundation
