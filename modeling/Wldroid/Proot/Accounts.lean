import Wldroid.Proot.ConfigureRootfs

/-!
# The account of the user

What `configureRootfs` must do for the account: each of `etc/passwd`, `etc/group` and `etc/shadow`
has one line for the user afterwards, the user is a member of the group sudo, and all lines that
were there before are there still.

* `SetsUpUser` — these demands on a run;
* `AccountFits`, `SudoFits` — the conditions on the files before it;
* `addsMember_iff` — when the regular expression edits one line as it should;
* `sudo_iff` — the same for the group sudo and all lines of the file;
* **`setsUpUser_iff`** — the demands are met exactly under the conditions;
* `superuser_taken` — an account with a name that ends with `user` is taken for the account.
-/

namespace Wldroid.Proot

open Wldroid.Foundation

/-! ### The demands -/

def newline : TextPiece := .char '\n'
def colon : TextPiece := .char ':'
def comma : TextPiece := .char ','

/-- `"sudo"`. -/
def sudoGroup : List Char := "sudo".toList

def contentLines (content : Content) : List Content := lines newline content

/-- The first field of the line is the name. -/
def HasName (name : List Char) (line : Content) : Prop := encode (name ++ [':']) <+: line

instance (name : List Char) (line : Content) : Decidable (HasName name line) :=
  inferInstanceAs (Decidable (_ <+: _))

/-- The first three fields of a group's line, with their colons. -/
structure IsGroupHead (name : List Char) (head : Content) : Prop where
  hasName : HasName name head
  fields : head.count colon = 3
  ends : ∃ front, head = front ++ [colon]

/-- The line is one of the group, and has the member in its last field. -/
def HasMember (name member : List Char) (line : Content) : Prop :=
  ∃ head members, line = head ++ members ∧ IsGroupHead name head ∧
    encode member ∈ members.splitOn comma

/-- There are no members but spaces. -/
def Blank (members : Content) : Prop := ∃ text, members = encode text ∧ isBlank text

/-- The line is the one of the group sudo, and gets the user for a further member; spaces may be
dropped if there are no members yet. -/
def AddsMember (line line' : Content) : Prop :=
  ∃ head members, line = head ++ members ∧ IsGroupHead sudoGroup head ∧
    (line' = line ++ encode (',' :: user) ∨ (Blank members ∧ line' = head ++ encode user))

/-- The line is unchanged, but for what may change in it. -/
def Kept (change : Content → Content → Prop) (line line' : Content) : Prop :=
  line' = line ∨ change line line'

/-- All lines are kept, and others may come after them. -/
def KeepsLines (change : Content → Content → Prop) (ls ls' : List Content) : Prop :=
  ∃ kept added, ls' = kept ++ added ∧ List.Forall₂ (Kept change) ls kept

def nameCount (content : Content) : ℕ := (contentLines content).countP fun line => HasName user line

/-- The file has a line for the user, and no second one has been added. -/
structure HasAccount (change : Content → Content → Prop) (before after : Content) : Prop where
  named : nameCount after = max 1 (nameCount before)
  kept : KeepsLines change (contentLines before) (contentLines after)

def NoChange : Content → Content → Prop := fun _ _ => False

/-- The content of a file, if it is there. -/
def Rootfs.content (r : Rootfs) (path : List String) : Content := (r.files path).getD []

/-- **The demands** on a configuration. -/
structure SetsUpUser (before after : Rootfs) : Prop where
  passwd : HasAccount NoChange (before.content passwdFile) (after.content passwdFile)
  group : HasAccount AddsMember (before.content groupFile) (after.content groupFile)
  member : ∃ line ∈ contentLines (after.content groupFile), HasMember sudoGroup user line
  shadow : HasAccount NoChange (before.content shadowFile) (after.content shadowFile)

/-! ### The conditions -/

/-- The key is in the text if, and only if, there is a line for the user; if it is not, the last
line is terminated. -/
structure AccountFits (key : List Char) (content : Content) : Prop where
  key_iff : key <:+: readText content ↔ ∃ line ∈ contentLines content, HasName user line
  terminated : ¬ key <:+: readText content → IsFront newline content

/-- The match of the regular expression is in the line of the group sudo, and no other character
that `.` does not match comes after it; if only spaces come after it, then it ends with the third
colon. -/
def Extendable (k : RegexClasses) (line : Content) : Prop :=
  ∀ f, findSudo k (readText line) = some f →
    f.after = [] ∧ HasName sudoGroup line ∧ (isBlank f.members → (f.before ++ f.head).count ':' = 3)

/-- All of it is UTF-8. -/
def IsText (content : Content) : Prop := encode (readText content) = content

/-- If the user is found as a member, then there is one in the group sudo.  If only lines of groups
are found, these can be extended and the file is UTF-8.  If none is found, the last line is
terminated. -/
def SudoFits (k : RegexClasses) (content : Content) : Prop :=
  if findMember k (readText content) then
    ∃ line ∈ contentLines content, HasMember sudoGroup user line
  else if findSudo k (readText content) ≠ none then
    IsText content ∧ ∀ line ∈ contentLines content, Extendable k line
  else IsFront newline content

/-! ### One line -/

section OneLine

variable {k : RegexClasses} {a b t : List Char} {line line' : Content}

theorem encode_injective : Function.Injective encode :=
  List.map_injective_iff.mpr fun _ _ h => TextPiece.char.inj h

theorem encode_append (a b : List Char) : encode (a ++ b) = encode a ++ encode b := List.map_append

theorem count_encode (c : Char) (t : List Char) : (encode t).count (.char c) = t.count c :=
  List.count_map_of_injective t TextPiece.char (fun _ _ h => TextPiece.char.inj h) c

theorem encode_prefix_iff : encode a <+: encode b ↔ a <+: b :=
  List.prefix_map_iff_of_injective fun _ _ h => TextPiece.char.inj h

theorem isText_append {c c' : Content} : IsText (c ++ c') ↔ IsText c ∧ IsText c' := by
  unfold IsText
  rw [readText_append, encode_append]
  constructor
  · intro h
    exact List.append_inj h (by simp [encode, readText])
  · rintro ⟨h, h'⟩
    rw [h, h']

theorem isText_encode (t : List Char) : IsText (encode t) := by
  unfold IsText
  rw [readText_encode]

/-- Two starts of a list that end with the same number of colons are the same. -/
theorem colon_start_unique {x y x' y' : List Char} (h : x ++ ':' :: y = x' ++ ':' :: y')
    (hcount : x.count ':' = x'.count ':') : x = x' := by
  induction x generalizing x' with
  | nil =>
    cases x' with
    | nil => rfl
    | cons c x' =>
      obtain ⟨rfl, -⟩ := List.cons.inj h
      simp at hcount
  | cons d x ih =>
    cases x' with
    | nil =>
      obtain ⟨rfl, -⟩ := List.cons.inj h
      simp at hcount
    | cons c x' =>
      obtain ⟨rfl, htail⟩ := List.cons.inj h
      rw [List.count_cons, List.count_cons] at hcount
      rw [ih htail (Nat.add_right_cancel hcount)]

/-- A list with enough colons has a start that ends with a given one. -/
theorem exists_colon_start {n : ℕ} (h : n < t.count ':') :
    ∃ x y, t = x ++ ':' :: y ∧ x.count ':' = n := by
  induction t generalizing n with
  | nil => cases h
  | cons c t ih =>
    rcases eq_or_ne c ':' with rfl | hne
    · cases n with
      | zero => exact ⟨[], t, rfl, rfl⟩
      | succ n =>
        rw [List.count_cons_self] at h
        obtain ⟨x, y, rfl, hx⟩ := ih (Nat.lt_of_succ_lt_succ h)
        exact ⟨':' :: x, y, rfl, by rw [List.count_cons_self, hx]⟩
    · rw [List.count_cons_of_ne hne] at h
      obtain ⟨x, y, rfl, hx⟩ := ih h
      exact ⟨c :: x, y, rfl, by rw [List.count_cons_of_ne hne, hx]⟩

/-- The name of a line is in its first three fields. -/
theorem name_of_start {front ms : List Char} (hname : sudoGroup ++ [':'] <+: front ++ ':' :: ms)
    (hcount : front.count ':' = 2) : sudoGroup ++ [':'] <+: front ++ [':'] := by
  have hstart : front ++ [':'] <+: front ++ ':' :: ms := ⟨ms, by simp⟩
  rcases List.prefix_or_prefix_of_prefix hname hstart with h | h
  · exact h
  · have hle := h.sublist.count_le ':'
    rw [List.count_append, hcount] at hle
    exact absurd hle (by decide)

/-- A line of the group that gets the user, as text. -/
theorem addsMember_encode_iff :
    AddsMember (encode a) (encode b) ↔
      ∃ front ms, a = front ++ ':' :: ms ∧ front.count ':' = 2 ∧ sudoGroup ++ [':'] <+: a ∧
        (b = a ++ ',' :: user ∨ (isBlank ms ∧ b = front ++ ':' :: user)) := by
  constructor
  · rintro ⟨head, members, hsplit, ⟨hname, hfields, start, hends⟩, hcase⟩
    obtain ⟨head', ms, rfl, rfl, rfl⟩ := List.map_eq_append_iff.mp hsplit
    obtain ⟨front, last, rfl, -, hlast⟩ := List.map_eq_append_iff.mp hends
    have hcolon : last = [':'] := encode_injective (hlast : encode last = encode [':'])
    subst hcolon
    have hcount : (front ++ [':']).count ':' = 3 := by
      rw [← count_encode]
      exact hfields
    rw [List.count_append] at hcount
    refine ⟨front, ms, by simp, Nat.add_right_cancel (m := 1) hcount,
      (encode_prefix_iff.mp hname).trans (List.prefix_append _ _), ?_⟩
    rcases hcase with hlong | ⟨⟨text, htext, hblank⟩, hshort⟩
    · exact .inl (encode_injective (hlong.trans (encode_append _ _).symm))
    · rw [encode_injective (htext : encode ms = encode text)]
      have hjoin : front ++ ':' :: user = front ++ [':'] ++ user := by simp
      refine .inr ⟨hblank, encode_injective ?_⟩
      rw [hshort, hjoin, encode_append]
      rfl
  · rintro ⟨front, ms, rfl, hcount, hname, hcase⟩
    refine ⟨encode (front ++ [':']), encode ms, ?_, ⟨?_, ?_, encode front, encode_append _ _⟩, ?_⟩
    · rw [← encode_append, List.append_assoc, List.singleton_append]
    · exact encode_prefix_iff.mpr (name_of_start hname hcount)
    · refine (count_encode ':' _).trans ?_
      rw [List.count_append, hcount]
      rfl
    · rcases hcase with rfl | ⟨hblank, rfl⟩
      · exact .inl (encode_append _ _)
      · refine .inr ⟨⟨ms, rfl, hblank⟩, ?_⟩
        rw [← encode_append, List.append_assoc, List.singleton_append]

theorem count_blank {ms : List Char} (h : isBlank ms) : ms.count ':' = 0 :=
  List.count_eq_zero_of_not_mem (colon_notMem_blank h)

theorem withMember_ne (members : List Char) : withMember members ≠ members := by
  unfold withMember
  split
  · rename_i hblank
    rintro rfl
    exact absurd hblank (by decide)
  · simp

/-- A match has a colon at the end of its head. -/
theorem IsHead.front {head : List Char} (h : IsHead k head) :
    ∃ front, head = front ++ [':'] ∧ front.count ':' = 2 := by
  have hcount := h.count
  obtain ⟨digits, -, -, rfl⟩ := h
  rw [List.count_append] at hcount
  exact ⟨sudoStart ++ digits, rfl, Nat.add_right_cancel (m := 1) hcount⟩

/-- **One line.**  The replacement adds the member exactly if the match is in the last fields of the
right line. -/
theorem addsMember_iff {f : SudoFound}
    (hmatch : matchSudo k (f.head ++ f.members ++ f.after) = some f.toSudoMatch)
    (hafter : IsAfter k f.after) (ht : t = f.before ++ (f.head ++ f.members ++ f.after)) :
    AddsMember (encode t)
        (encode (f.before ++ (f.head ++ withMember f.members ++ replaceSudo k f.after))) ↔
      f.after = [] ∧ sudoGroup ++ [':'] <+: t ∧
        (isBlank f.members → (f.before ++ f.head).count ':' = 3) := by
  obtain ⟨rest, hhead, hrest, hmembers⟩ := matchSudo_eq_some_iff.mp hmatch
  obtain ⟨start, hstart, hcount⟩ := hhead.front
  have hdots : ∀ c ∈ f.members, ¬ k.terminator c := by
    rw [hmembers]
    exact not_terminator_of_mem_dots
  rw [addsMember_encode_iff]
  constructor
  · rintro ⟨front, ms, hsplit, hfront, hname, hcase⟩
    have hthree : isBlank ms → t.count ':' = 3 := by
      intro hblank
      rw [hsplit, List.count_append, hfront, List.count_cons_self, count_blank hblank]
    have hnil : f.after = [] := by
      rcases hafter with hnil | ⟨c, more, hc, hmore⟩
      · exact hnil
      have hreplace : replaceSudo k f.after = c :: replaceSudo k more := by
        rw [hmore]
        exact replaceSudo_append hc [] more
      rcases hcase with hlong | ⟨hblank, hshort⟩
      · -- the line goes on as before, so that its members must be the old ones
        rw [ht, hreplace, hmore] at hlong
        simp only [List.append_assoc, List.append_cancel_left_eq, List.cons_append] at hlong
        have hsame := congrArg (dots k) hlong
        rw [dots_append (withMember_dots hdots), dots_append hdots, dots_cons hc, dots_cons hc,
          List.append_nil, List.append_nil] at hsame
        exact absurd hsame (withMember_ne f.members)
      · -- there are three colons, so that the head ends where the match does
        have hall := hthree hblank
        rw [ht, List.count_append, List.count_append, List.count_append, hhead.count] at hall
        have hline : front ++ ':' :: ms = (f.before ++ start) ++ ':' :: (f.members ++ f.after) := by
          rw [← hsplit, ht, hstart]
          simp
        have hsame : front = f.before ++ start := by
          refine colon_start_unique hline ?_
          rw [List.count_append, hcount, hfront]
          omega
        rw [hsame, hstart, hreplace] at hshort
        simp only [List.append_assoc, List.append_cancel_left_eq, List.cons_append,
          List.nil_append, List.cons.injEq, true_and] at hshort
        have hmem : c ∈ user := by
          rw [← hshort]
          simp
        exact absurd hc (not_terminator_of_mem_ascii (by decide) c hmem)
    refine ⟨hnil, hname, fun hblank => ?_⟩
    have hreplace : replaceSudo k f.after = [] := by
      rw [hnil]
      rfl
    rcases hcase with hlong | ⟨hblank', -⟩
    · rw [ht, hreplace, hnil] at hlong
      unfold withMember at hlong
      rw [if_pos hblank] at hlong
      have hlength := congrArg List.length hlong
      simp only [List.length_append, List.length_nil, List.length_cons] at hlength
      omega
    · have hall := hthree hblank'
      rw [ht, hnil, List.append_nil, ← List.append_assoc, List.count_append, count_blank hblank] at hall
      exact hall
  · rintro ⟨hnil, hname, hthree⟩
    have hreplace : replaceSudo k f.after = [] := by
      rw [hnil]
      rfl
    rw [hreplace, List.append_nil]
    rw [hnil, List.append_nil] at ht
    by_cases hblank : isBlank f.members
    · refine ⟨f.before ++ start, f.members, ?_, ?_, hname, .inr ⟨hblank, ?_⟩⟩
      · rw [ht, hstart]
        simp
      · have hall := hthree hblank
        rw [hstart, ← List.append_assoc, List.count_append] at hall
        exact Nat.add_right_cancel (m := 1) hall
      · unfold withMember
        rw [if_pos hblank, hstart]
        simp
    · have henough : 2 < t.count ':' := by
        have hhave := hhead.count
        rw [ht, List.count_append, List.count_append]
        omega
      obtain ⟨front, ms, hsplit, hfront⟩ := exists_colon_start henough
      refine ⟨front, ms, hsplit, hfront, hname, .inl ?_⟩
      unfold withMember
      rw [if_neg hblank, ht]
      simp only [List.append_assoc]

/-- What the replacement makes of a line. -/
def edited (k : RegexClasses) (line : Content) : Content := encode (replaceSudo k (readText line))

/-- A line that is kept as text is text. -/
theorem isText_of_kept (h : Kept AddsMember line (encode t)) : IsText line := by
  rcases h with hsame | ⟨head, members, rfl, -, hlong | ⟨⟨text, rfl, -⟩, hshort⟩⟩
  · rw [← hsame]
    exact isText_encode t
  · have hall := isText_encode t
    rw [hlong] at hall
    exact (isText_append.mp hall).1
  · have hall := isText_encode t
    rw [hshort] at hall
    exact isText_append.mpr ⟨(isText_append.mp hall).1, isText_encode text⟩

/-- A line of text is kept exactly if it can be extended. -/
theorem kept_encode_iff (hmember : ¬ findMember k t) :
    Kept AddsMember (encode t) (encode (replaceSudo k t)) ↔ Extendable k (encode t) := by
  unfold Extendable
  rw [readText_encode]
  rcases replaceSudo_eq (k := k) (t := t) with
    ⟨hfind, hsame⟩ | ⟨f, hfind, hmatch, hafter, hsplit, hreplace⟩
  · rw [hsame, hfind]
    exact iff_of_true (.inl rfl) nofun
  · have hiff := addsMember_iff hmatch hafter hsplit
    rw [← hreplace, ← encode_prefix_iff] at hiff
    have hchanged : encode (replaceSudo k t) ≠ encode t := by
      intro hsame
      have hfound := findMember_replaceSudo (k := k) (t := t) (by rw [hfind]; nofun)
      rw [encode_injective hsame] at hfound
      exact hmember hfound
    rw [hfind]
    constructor
    · rintro (hsame | hadds) f' ⟨⟩
      · exact absurd hsame hchanged
      · exact hiff.mp hadds
    · intro h
      exact .inr (hiff.mpr (h f rfl))

/-- **One line of the file.** -/
theorem kept_edited_iff (hmember : ¬ findMember k (readText line)) :
    Kept AddsMember line (edited k line) ↔ IsText line ∧ Extendable k line := by
  have hiff := kept_encode_iff hmember
  constructor
  · intro h
    have htext := isText_of_kept h
    rw [htext] at hiff
    exact ⟨htext, hiff.mp h⟩
  · rintro ⟨htext, h⟩
    rw [htext] at hiff
    exact hiff.mpr h

/-- A line that gets the user has it. -/
theorem AddsMember.hasMember (h : AddsMember line line') : HasMember sudoGroup user line' := by
  obtain ⟨head, members, rfl, hhead, hlong | ⟨-, hshort⟩⟩ := h
  · refine ⟨head, members ++ encode (',' :: user), by rw [hlong, List.append_assoc], hhead, ?_⟩
    show encode user ∈ (members ++ comma :: encode user).splitOn comma
    rw [List.splitOn_append_cons_self, List.splitOn_eq_singleton (by decide : comma ∉ encode user)]
    exact List.mem_append_right _ (List.mem_singleton_self _)
  · refine ⟨head, encode user, hshort, hhead, ?_⟩
    rw [List.splitOn_eq_singleton (by decide : comma ∉ encode user)]
    exact List.mem_singleton_self _

/-- A line that may change is not the line of another account. -/
theorem Kept.hasName_iff (h : Kept AddsMember line line') :
    HasName user line' ↔ HasName user line := by
  have hother : ∀ {line}, HasName sudoGroup line → ¬ HasName user line := by
    intro line hsudo huser
    rcases List.prefix_or_prefix_of_prefix hsudo huser with h | h <;> revert h <;> decide
  rcases h with rfl | ⟨head, members, rfl, hhead, hcase⟩
  · rfl
  · refine iff_of_false (hother ?_) (hother (hhead.hasName.trans (List.prefix_append _ _)))
    rcases hcase with rfl | ⟨-, rfl⟩
    · exact (hhead.hasName.trans (List.prefix_append _ _)).trans (List.prefix_append _ _)
    · exact hhead.hasName.trans (List.prefix_append _ _)

/-- A key that ends with a colon is not added to a line. -/
theorem Kept.infix (key : List Char) (h : Kept AddsMember line line')
    (hkey : key ++ [':'] <:+: readText line') : key ++ [':'] <:+: readText line := by
  rcases h with rfl | ⟨head, members, rfl, -, rfl | ⟨-, rfl⟩⟩
  · exact hkey
  · rw [readText_append, readText_encode] at hkey
    exact infix_of_append (by decide) hkey
  · rw [readText_append, readText_encode] at hkey
    rw [readText_append]
    exact (infix_of_append (by decide) hkey).trans (List.prefix_append _ _).isInfix

end OneLine

/-! ### All lines -/

section AllLines

variable {k : RegexClasses} {c : Content} {ls added : List Content}
  {change : Content → Content → Prop}

theorem read_eq_newline (p : TextPiece) : p.read = '\n' ↔ p = newline := by
  cases p with
  | char c => exact ⟨congrArg TextPiece.char, fun h => TextPiece.char.inj h⟩
  | malformed bytes => exact iff_of_false (show ¬ '\uFFFD' = '\n' by decide) nofun

theorem lines_readText (c : Content) : lines '\n' (readText c) = (contentLines c).map readText :=
  lines_map read_eq_newline c

theorem contentLines_encode (t : List Char) :
    contentLines (encode t) = (lines '\n' t).map encode :=
  lines_map (fun _ => ⟨fun h => TextPiece.char.inj h, congrArg TextPiece.char⟩) t

theorem findMember_iff : findMember k (readText c) ↔
    ∃ line ∈ contentLines c, findMember k (readText line) := by
  rw [findMember_iff_lines, lines_readText]
  simp

theorem findSudo_iff : findSudo k (readText c) = none ↔
    ∀ line ∈ contentLines c, findSudo k (readText line) = none := by
  rw [findSudo_iff_lines, lines_readText]
  simp

theorem isText_iff (c : Content) : IsText c ↔ ∀ line ∈ contentLines c, IsText line := by
  have hcons : ∀ rest, IsText (newline :: rest) ↔ IsText rest := by
    intro rest
    rw [← List.singleton_append, isText_append]
    exact and_iff_right rfl
  refine parts_induction newline (P := fun c => IsText c ↔ ∀ line ∈ contentLines c, IsText line)
    ?_ ?_ c
  · intro part hpart
    rcases eq_or_ne part [] with rfl | hne
    · exact iff_of_true rfl nofun
    · unfold contentLines
      rw [lines_single hpart hne]
      simp
  · intro part rest hpart ih
    unfold contentLines at ih ⊢
    rw [isText_append, hcons, ih, lines_cons hpart]
    simp

/-- The lines that are there at first are the ones that must be kept. -/
theorem keepsLines_append_iff {first : List Content} (hlength : ls.length = first.length) :
    KeepsLines change ls (first ++ added) ↔ List.Forall₂ (Kept change) ls first := by
  constructor
  · rintro ⟨kept, more, hsplit, hkept⟩
    have hsame := (List.append_inj hsplit (by rw [← hlength, hkept.length_eq])).1
    rwa [hsame]
  · exact fun h => ⟨first, added, rfl, h⟩

/-- The last line is kept in its place. -/
theorem KeepsLines.last {first first' : List Content} {part part' : Content}
    (h : KeepsLines change (first ++ [part]) (first' ++ part' :: added))
    (hlength : first'.length = first.length) : Kept change part part' := by
  rw [List.append_cons first', keepsLines_append_iff (by simp [hlength])] at h
  have hlast := List.forall₂_drop_append _ _ _ h
  rw [hlength, List.drop_left, List.forall₂_cons] at hlast
  exact hlast.1

theorem keepsLines_self (ls added : List Content) : KeepsLines change ls (ls ++ added) :=
  ⟨ls, added, rfl, List.forall₂_same.mpr fun _ _ => .inl rfl⟩

theorem keepsLines_map_iff {f : Content → Content} (ls rest added : List Content) :
    KeepsLines change ls ((ls ++ rest).map f ++ added) ↔ ∀ line ∈ ls, Kept change line (f line) := by
  rw [List.map_append, List.append_assoc, keepsLines_append_iff (List.length_map f).symm,
    List.forall₂_map_right_iff, List.forall₂_same]

/-- The edited file, line by line. -/
theorem contentLines_edited (c : Content) :
    contentLines (encode (replaceSudo k (readText c))) = (contentLines c).map (edited k) := by
  rw [contentLines_encode, lines_replaceSudo, lines_readText, List.map_map, List.map_map]
  rfl

/-- An entry at the end of a terminated file is a line. -/
theorem contentLines_append {entry : List Char} (hc : IsFront newline c) (hentry : '\n' ∉ entry) :
    contentLines (c ++ encode (entry ++ ['\n'])) = contentLines c ++ [encode entry] := by
  unfold contentLines
  rw [lines_append hc]
  show _ ++ contentLines (encode (entry ++ '\n' :: [])) = _
  rw [contentLines_encode, lines_cons hentry]
  rfl

/-- At the end of a file that is not terminated, it continues the last line. -/
theorem contentLines_continued (hc : ¬ IsFront newline c) : ∃ first part,
    contentLines c = first ++ [part] ∧ ∀ entry : List Char, '\n' ∉ entry →
      contentLines (c ++ encode (entry ++ ['\n'])) = first ++ [part ++ encode entry] := by
  obtain ⟨front, part, rfl, hpart, hfront⟩ := exists_last_part newline c
  have hne : part ≠ [] := by
    rintro rfl
    rw [List.append_nil] at hc
    exact hc hfront
  refine ⟨contentLines front, part, ?_, fun entry hentry => ?_⟩
  · unfold contentLines
    rw [lines_append hfront, lines_single hpart hne]
  · have hnot : newline ∉ part ++ encode entry := by
      intro hmem
      rcases List.mem_append.mp hmem with hmem | hmem
      · exact hpart hmem
      · obtain ⟨c, hc, hcc⟩ := List.mem_map.mp hmem
        exact hentry (TextPiece.char.inj hcc ▸ hc)
    have hsplit : front ++ part ++ encode (entry ++ ['\n'])
        = front ++ ((part ++ encode entry) ++ newline :: []) := by
      rw [encode_append]
      simp only [List.append_assoc]
      rfl
    unfold contentLines
    rw [hsplit, lines_append hfront, lines_cons hnot]
    rfl

/-- A line with more than the member appended is not kept. -/
theorem not_kept_append {line : Content} {entry : List Char} (hentry : entry ≠ ',' :: user)
    (hlong : 4 < entry.length) : ¬ Kept AddsMember line (line ++ encode entry) := by
  rintro (hsame | ⟨head, members, rfl, -, hadds | ⟨-, hshort⟩⟩)
  · have hnil := List.append_right_eq_self.mp hsame
    rw [List.map_eq_nil_iff.mp hnil] at hlong
    cases hlong
  · exact hentry (encode_injective (List.append_cancel_left hadds))
  · have hlength := congrArg List.length hshort
    simp only [List.length_append, encode, List.length_map] at hlength
    have huser : user.length = 4 := rfl
    omega

/-- The line that is appended for the group sudo. -/
def sudoLine : List Char := "sudo:x:27:user".toList

theorem sudoEntry_eq : sudoEntry = sudoLine ++ ['\n'] := by decide

theorem hasMember_sudoLine : HasMember sudoGroup user (encode sudoLine) :=
  ⟨encode "sudo:x:27:".toList, encode user, by decide,
    ⟨by decide, by decide, encode "sudo:x:27".toList, by decide⟩, by decide⟩

/-- Lines that have nothing to do with the group sudo. -/
def Unrelated (k : RegexClasses) (line : Content) : Prop :=
  IsText line ∧ findSudo k (readText line) = none

/-- **The group sudo.**  The lines at the start are kept and the user is a member exactly under the
condition. -/
theorem sudo_iff {rest : List Content} (hlines : contentLines c = ls ++ rest)
    (hrest : ∀ line ∈ rest, Unrelated k line) (hend : rest = [] ∨ IsFront newline c) :
    KeepsLines AddsMember ls (contentLines (withSudo k c)) ∧
        (∃ line ∈ contentLines (withSudo k c), HasMember sudoGroup user line) ↔
      SudoFits k c := by
  unfold withSudo SudoFits
  by_cases hmember : findMember k (readText c)
  · rw [if_pos hmember, if_pos hmember]
    refine and_iff_right ?_
    rw [hlines]
    exact keepsLines_self ls rest
  rw [if_neg hmember, if_neg hmember]
  have hnone : ∀ line ∈ contentLines c, ¬ findMember k (readText line) :=
    fun line hline h => hmember (findMember_iff.mpr ⟨line, hline, h⟩)
  by_cases hfound : findSudo k (readText c) ≠ none
  · rw [if_pos hfound, if_pos hfound, contentLines_edited]
    have hkept : KeepsLines AddsMember ls ((contentLines c).map (edited k)) ↔
        IsText c ∧ ∀ line ∈ contentLines c, Extendable k line := by
      rw [hlines, ← List.append_nil (List.map (edited k) _), keepsLines_map_iff, isText_iff, hlines]
      rw [hlines] at hnone
      constructor
      · intro h
        have hboth := fun line hline =>
          (kept_edited_iff (hnone line (List.mem_append_left rest hline))).mp (h line hline)
        constructor
        · intro line hline
          rcases List.mem_append.mp hline with hline | hline
          · exact (hboth line hline).1
          · exact (hrest line hline).1
        · intro line hline
          rcases List.mem_append.mp hline with hline | hline
          · exact (hboth line hline).2
          · intro f hf
            rw [(hrest line hline).2] at hf
            cases hf
      · rintro ⟨htext, hextendable⟩ line hline
        have hin := List.mem_append_left rest hline
        exact (kept_edited_iff (hnone line hin)).mpr ⟨htext line hin, hextendable line hin⟩
    refine Iff.trans (and_iff_left_of_imp fun h => ?_) hkept
    rw [Ne, findSudo_iff, not_forall₂] at hfound
    obtain ⟨line, hline, hmatch⟩ := hfound
    have hkeeps : Kept AddsMember line (edited k line) :=
      (kept_edited_iff (hnone line hline)).mpr
        ⟨(isText_iff c).mp (hkept.mp h).1 line hline, (hkept.mp h).2 line hline⟩
    rcases hkeeps with hsame | hadds
    · have htext := congrArg readText hsame
      unfold edited at htext
      rw [readText_encode] at htext
      have hfind := findMember_replaceSudo hmatch
      rw [htext] at hfind
      exact absurd hfind (hnone line hline)
    · exact ⟨edited k line, List.mem_map_of_mem hline, hadds.hasMember⟩
  · rw [if_neg hfound, if_neg hfound]
    have hnot : '\n' ∉ sudoLine := by decide
    rw [sudoEntry_eq]
    by_cases hfront : IsFront newline c
    · rw [contentLines_append hfront hnot, hlines, List.append_assoc]
      refine iff_of_true ⟨keepsLines_self ls _, encode sudoLine, ?_, hasMember_sudoLine⟩ hfront
      simp
    · obtain ⟨first, part, hfirst, hcontinued⟩ := contentLines_continued hfront
      rw [hcontinued sudoLine hnot]
      rw [hend.resolve_right hfront, List.append_nil, hfirst] at hlines
      refine iff_of_false (fun h => ?_) hfront
      have hkept := h.1
      rw [← hlines] at hkept
      exact not_kept_append (by decide) (by decide) (hkept.last rfl)

/-- The group sudo is not the user's own. -/
theorem nameCount_withSudo (h : SudoFits k c) : nameCount (withSudo k c) = nameCount c := by
  unfold withSudo SudoFits at *
  by_cases hmember : findMember k (readText c)
  · rw [if_pos hmember]
  rw [if_neg hmember] at h ⊢
  by_cases hfound : findSudo k (readText c) ≠ none
  · rw [if_pos hfound] at h ⊢
    unfold nameCount
    rw [contentLines_edited, List.countP_map]
    refine List.countP_congr fun line hline => ?_
    have hnone : ¬ findMember k (readText line) := fun hin =>
      hmember (findMember_iff.mpr ⟨line, hline, hin⟩)
    have hkept := (kept_edited_iff hnone).mpr ⟨(isText_iff c).mp h.1 line hline, h.2 line hline⟩
    rw [Function.comp_apply, decide_eq_true_eq, decide_eq_true_eq]
    exact hkept.hasName_iff
  · rw [if_neg hfound] at h ⊢
    have hother : ¬ HasName user (encode sudoLine) := by decide
    unfold nameCount
    rw [sudoEntry_eq, contentLines_append h (by decide), List.countP_append]
    simp [hother]

theorem nameCount_pos_iff : 1 ≤ nameCount c ↔ ∃ line ∈ contentLines c, HasName user line := by
  unfold nameCount
  rw [Nat.one_le_iff_ne_zero, Nat.ne_zero_iff_zero_lt, List.countP_pos_iff]
  simp

/-- An entry that is appended as a line of its own is one more line for the user. -/
theorem nameCount_append {entry : List Char} (hc : IsFront newline c) (hentry : '\n' ∉ entry)
    (hname : HasName user (encode entry)) :
    nameCount (c ++ encode (entry ++ ['\n'])) = nameCount c + 1 := by
  unfold nameCount
  rw [contentLines_append hc hentry, List.countP_append]
  simp [hname]

/-- A file that has the key must have the line. -/
theorem accountFits_of_key {key : List Char} (hkey : key <:+: readText c) :
    AccountFits key c ↔ nameCount c = max 1 (nameCount c) := by
  rw [eq_comm, max_eq_right_iff, nameCount_pos_iff]
  constructor
  · exact fun h => h.key_iff.mp hkey
  · exact fun h => ⟨iff_of_true hkey h, fun hnot => absurd hkey hnot⟩

/-- A terminated file that has not must have none. -/
theorem accountFits_of_no_key {key : List Char} (hkey : ¬ key <:+: readText c)
    (hc : IsFront newline c) : AccountFits key c ↔ nameCount c + 1 = max 1 (nameCount c) := by
  have hzero : nameCount c + 1 = max 1 (nameCount c) ↔ ¬ 1 ≤ nameCount c := by omega
  rw [hzero, nameCount_pos_iff]
  constructor
  · exact fun h hline => hkey (h.key_iff.mpr hline)
  · exact fun h => ⟨iff_of_false hkey h, fun _ => hc⟩

/-- **One entry.**  A file gets its line for the user exactly under the condition. -/
theorem account_iff {key text entry : List Char} (htext : text = entry ++ ['\n'])
    (hentry : '\n' ∉ entry) (hne : entry ≠ []) (hname : HasName user (encode entry)) (c : Content) :
    HasAccount NoChange c (withEntry key text c) ↔ AccountFits key c := by
  rw [htext]
  unfold withEntry
  by_cases hkey : key <:+: readText c
  · rw [if_pos hkey, accountFits_of_key hkey]
    have hkept : KeepsLines NoChange (contentLines c) (contentLines c) := by
      have hself : KeepsLines NoChange (contentLines c) (contentLines c ++ []) :=
        keepsLines_self _ _
      rwa [List.append_nil] at hself
    exact ⟨fun h => h.named, fun h => ⟨h, hkept⟩⟩
  rw [if_neg hkey]
  by_cases hc : IsFront newline c
  · rw [accountFits_of_no_key hkey hc, ← nameCount_append hc hentry hname]
    have hkept : KeepsLines NoChange (contentLines c)
        (contentLines (c ++ encode (entry ++ ['\n']))) := by
      rw [contentLines_append hc hentry]
      exact keepsLines_self _ _
    exact ⟨fun h => h.named, fun h => ⟨h, hkept⟩⟩
  · refine iff_of_false (fun h => ?_) fun h => hc (h.terminated hkey)
    obtain ⟨first, part, hfirst, hcontinued⟩ := contentLines_continued hc
    have hkept := h.kept
    rw [hcontinued entry hentry, hfirst] at hkept
    rcases hkept.last rfl with hsame | hchange
    · exact hne (List.map_eq_nil_iff.mp (List.append_right_eq_self.mp hsame))
    · exact hchange

/-- The line for the user's own group. -/
def groupLine : List Char := "user:x:1000:user".toList

theorem groupEntry_eq : groupEntry = groupLine ++ ['\n'] := by decide

theorem contentLines_groupEntry (hc : IsFront newline c) :
    contentLines (c ++ encode groupEntry) = contentLines c ++ [encode groupLine] := by
  rw [groupEntry_eq, contentLines_append hc (by decide)]

theorem isFront_groupEntry (c : Content) : IsFront newline (c ++ encode groupEntry) :=
  .inr ⟨c ++ encode groupLine, by rw [groupEntry_eq, encode_append, List.append_assoc]; rfl⟩

theorem findSudo_groupLine : findSudo k groupLine = none := by
  by_contra hfound
  exact absurd (infix_of_findSudo hfound) (by decide)

/-- The user's own group does not matter for the group sudo. -/
theorem sudoFits_append (hc : IsFront newline c) :
    SudoFits k (c ++ encode groupEntry) ↔ SudoFits k c := by
  have hlines := contentLines_groupEntry hc
  have hmember : findMember k (readText (c ++ encode groupEntry)) ↔ findMember k (readText c) := by
    have hnot : ¬ findMember k groupLine := fun h => findSudo_of_findMember h findSudo_groupLine
    rw [findMember_iff, findMember_iff, hlines]
    simp [hnot]
  have hsudo : findSudo k (readText (c ++ encode groupEntry)) ≠ none ↔
      findSudo k (readText c) ≠ none := by
    rw [Ne, findSudo_iff, Ne, findSudo_iff, hlines]
    simp [findSudo_groupLine]
  have hext : Extendable k (encode groupLine) := by
    intro f hf
    rw [readText_encode, findSudo_groupLine] at hf
    cases hf
  have hother : ¬ HasMember sudoGroup user (encode groupLine) := by
    rintro ⟨head, members, hsplit, hhead, -⟩
    have hname := hhead.hasName.trans (List.prefix_append head members)
    rw [← hsplit] at hname
    revert hname
    decide
  unfold SudoFits
  refine iff_of_eq (if_congr hmember (propext ?_) (if_congr hsudo (propext ?_) (propext ?_)))
  · rw [hlines]
    simp [hother]
  · rw [hlines, isText_append, List.forall_mem_append, List.forall_mem_singleton]
    exact and_congr (and_iff_left (isText_encode _)) (and_iff_left hext)
  · exact iff_of_true (isFront_groupEntry c) hc

/-- Whatever is done for the group sudo, a line with the key of the user's group has it still. -/
theorem exists_groupKey_lines (hc : IsFront newline c) :
    ∃ (f : Content → Content) (added : List Content),
      contentLines (withSudo k c) = (contentLines c).map f ++ added ∧
        ∀ line, groupKey <:+: readText line → groupKey <:+: readText (f line) := by
  unfold withSudo
  by_cases hmember : findMember k (readText c)
  · rw [if_pos hmember]
    exact ⟨id, [], by simp, fun _ h => h⟩
  rw [if_neg hmember]
  by_cases hfound : findSudo k (readText c) ≠ none
  · rw [if_pos hfound, contentLines_edited]
    refine ⟨edited k, [], by simp, fun line h => ?_⟩
    unfold edited
    rw [readText_encode]
    exact infix_replaceSudo "user:x:1000".toList (not_terminator_of_mem_ascii (by decide)) h
  · rw [if_neg hfound, sudoEntry_eq, contentLines_append hc (by decide)]
    exact ⟨id, [encode sudoLine], by simp, fun _ h => h⟩

/-- An entry that continues a line destroys it. -/
theorem not_keepsLines_groups (hkey : ¬ groupKey <:+: readText c) (hc : ¬ IsFront newline c) :
    ¬ KeepsLines AddsMember (contentLines c)
        (contentLines (withSudo k (c ++ encode groupEntry))) := by
  intro hkept
  obtain ⟨first, part, hfirst, hcontinued⟩ := contentLines_continued hc
  obtain ⟨f, added, hlines, hf⟩ := exists_groupKey_lines (k := k) (isFront_groupEntry c)
  rw [hlines, groupEntry_eq, hcontinued groupLine (by decide), hfirst, List.map_append,
    List.append_assoc, List.map_singleton, List.singleton_append] at hkept
  have hthere : groupKey <:+: readText (part ++ encode groupLine) := by
    rw [readText_append, readText_encode]
    exact (show groupKey <:+: groupLine by decide).trans (List.suffix_append _ _).isInfix
  have hpart := Kept.infix "user:x:1000".toList (hkept.last (List.length_map f)) (hf _ hthere)
  have hin : part ∈ contentLines c := by
    rw [hfirst]
    simp
  have hpartc := (of_mem_lines hin).1.map TextPiece.read
  exact hkey (hpart.trans hpartc)

/-- The account in the file of groups, when the group sudo has been seen to. -/
theorem hasAccount_withSudo_iff {d : Content}
    (hsudo : KeepsLines AddsMember (contentLines c) (contentLines (withSudo k d)) ∧
      (∃ line ∈ contentLines (withSudo k d), HasMember sudoGroup user line) ↔ SudoFits k d) :
    HasAccount AddsMember c (withSudo k d) ∧
        (∃ line ∈ contentLines (withSudo k d), HasMember sudoGroup user line) ↔
      nameCount d = max 1 (nameCount c) ∧ SudoFits k d := by
  constructor
  · rintro ⟨⟨hnamed, hkept⟩, hmember⟩
    have hfits := hsudo.mp ⟨hkept, hmember⟩
    exact ⟨(nameCount_withSudo hfits).symm.trans hnamed, hfits⟩
  · rintro ⟨hnamed, hfits⟩
    obtain ⟨hkept, hmember⟩ := hsudo.mpr hfits
    exact ⟨⟨(nameCount_withSudo hfits).trans hnamed, hkept⟩, hmember⟩

/-- **The groups.** -/
theorem group_iff (k : RegexClasses) (c : Content) :
    HasAccount AddsMember c (withSudo k (withEntry groupKey groupEntry c)) ∧
        (∃ line ∈ contentLines (withSudo k (withEntry groupKey groupEntry c)),
          HasMember sudoGroup user line) ↔
      AccountFits groupKey c ∧ SudoFits k c := by
  by_cases hkey : groupKey <:+: readText c
  · rw [withEntry_of_key hkey, accountFits_of_key hkey]
    have hsudo := sudo_iff (k := k)
      (show contentLines c = contentLines c ++ [] from (List.append_nil _).symm) nofun (.inl rfl)
    exact hasAccount_withSudo_iff hsudo
  have hentry : withEntry groupKey groupEntry c = c ++ encode groupEntry := if_neg hkey
  rw [hentry]
  by_cases hc : IsFront newline c
  · have hcount : nameCount (c ++ encode groupEntry) = nameCount c + 1 := by
      rw [groupEntry_eq, nameCount_append hc (by decide) (by decide)]
    have hunrelated : ∀ line ∈ [encode groupLine], Unrelated k line := by
      intro line hline
      rw [List.mem_singleton.mp hline]
      exact ⟨isText_encode groupLine, by rw [readText_encode, findSudo_groupLine]⟩
    have hsudo := sudo_iff (contentLines_groupEntry hc) hunrelated (.inr (isFront_groupEntry c))
    rw [accountFits_of_no_key hkey hc, ← hcount, ← sudoFits_append hc]
    exact hasAccount_withSudo_iff hsudo
  · exact iff_of_false (fun h => not_keepsLines_groups hkey hc h.1.kept)
      fun h => hc (h.1.terminated hkey)

end AllLines

theorem content_passwd (k : RegexClasses) (r : Rootfs) :
    (configureRootfs k r).content passwdFile
      = withEntry userKey passwdEntry (r.content passwdFile) := by
  unfold Rootfs.content
  rw [configureRootfs_files]
  rfl

theorem content_group (k : RegexClasses) (r : Rootfs) :
    (configureRootfs k r).content groupFile
      = withSudo k (withEntry groupKey groupEntry (r.content groupFile)) := by
  unfold Rootfs.content
  rw [configureRootfs_files]
  rfl

theorem content_shadow (k : RegexClasses) (r : Rootfs) :
    (configureRootfs k r).content shadowFile
      = withEntry userKey shadowEntry (r.content shadowFile) := by
  unfold Rootfs.content
  rw [configureRootfs_files]
  rfl

/-- **The account.**  The configuration sets up the account, and damages no other, exactly if the
three files meet the conditions. -/
theorem setsUpUser_iff (k : RegexClasses) (r : Rootfs) :
    SetsUpUser r (configureRootfs k r) ↔
      AccountFits userKey (r.content passwdFile) ∧
        (AccountFits groupKey (r.content groupFile) ∧ SudoFits k (r.content groupFile)) ∧
        AccountFits userKey (r.content shadowFile) := by
  have hpasswdIff : HasAccount NoChange (r.content passwdFile)
      (withEntry userKey passwdEntry (r.content passwdFile)) ↔ _ :=
    account_iff (show passwdEntry = passwdEntry.dropLast ++ ['\n'] by decide) (by decide) (by decide)
      (by decide) (r.content passwdFile)
  have hgroupIff := group_iff k (r.content groupFile)
  have hshadowIff : HasAccount NoChange (r.content shadowFile)
      (withEntry userKey shadowEntry (r.content shadowFile)) ↔ _ :=
    account_iff (show shadowEntry = shadowEntry.dropLast ++ ['\n'] by decide) (by decide) (by decide)
      (by decide) (r.content shadowFile)
  rw [← content_passwd k] at hpasswdIff
  rw [← content_group] at hgroupIff
  rw [← content_shadow k] at hshadowIff
  rw [← hpasswdIff, ← hgroupIff, ← hshadowIff]
  constructor
  · rintro ⟨hp, hg, hm, hs⟩
    exact ⟨hp, ⟨hg, hm⟩, hs⟩
  · rintro ⟨hp, ⟨hg, hm⟩, hs⟩
    exact ⟨hp, hg, hm, hs⟩

/-- A root file system with an account `superuser`. -/
def superuserRootfs : Rootfs where
  files path :=
    if path = passwdFile then some (encode "superuser:x:500:500::/home/superuser:/bin/sh\n".toList)
    else none
  dirs _ := false

/-- The account is taken for the one of the user, which is then not created. -/
theorem superuser_taken :
    ¬ ∀ (k : RegexClasses) (r : Rootfs), SetsUpUser r (configureRootfs k r) := by
  intro h
  have hnamed := (h javaClasses superuserRootfs).passwd.named
  rw [content_passwd] at hnamed
  revert hnamed
  decide +kernel

end Wldroid.Proot
