import Wldroid.Foundation.CTypes
import Wldroid.Foundation.Tokens
import Wldroid.Foundation.Transition

/-!
# The extensions of `eglQueryString`

In GPU mode the wrapper takes one extension out of the list that Mesa answers.  The shortened list
is made once, in a buffer that all later queries share, and it is made by a search for the name as a
substring.

* `eglQueryString` — the function, with its buffer;
* `kept` — the list without the extension, which is the right answer;
* `tokens_strip_iff` — when the substring search removes just that extension;
* **`kept_iff_filterable`** — every answer of a run is right exactly if each query meets the
  condition `Filterable`;
* `second_display` — a second display is answered with the list of the first.
-/

namespace Wldroid.Egl

open Wldroid.Foundation

/-! ### The function -/

/-- `EGL_EXTENSIONS`. -/
def eglExtensions : Int32 := 0x3055

/-- The character that separates the extensions. -/
def space : UInt8 := 0x20

/-- The characters of a string literal. -/
def ascii (s : String) : List UInt8 := s.toList.map fun c => UInt8.ofNat c.toNat

def nativeFenceSync : List UInt8 := ascii "EGL_ANDROID_native_fence_sync"

/-- `sizeof(filtered_extensions)`. -/
def filteredExtensionsSize : ℕ := 8192

/-- The static variables: the buffer is empty at first. -/
structure FilterCache where
  filteredExtensions : CString
  extensionsFiltered : Bool
  deriving DecidableEq

/-- `if (*end == ' ') end++`. -/
def skipSpace : List UInt8 → List UInt8
  | [] => []
  | c :: s => if c = space then s else c :: s

/-- What is done to the copy: from the first place of the name up to the next space, characters are
removed, and that space with them. -/
def strip (s : List UInt8) : List UInt8 :=
  match strstr nativeFenceSync s with
  | none => s
  | some pos => s.take pos ++ skipSpace ((s.drop pos).dropWhile (· ≠ space))

theorem skipSpace_sublist (s : List UInt8) : (skipSpace s).Sublist s := by
  cases s with
  | nil => exact List.Sublist.refl []
  | cons c s =>
    show (if c = space then s else c :: s).Sublist (c :: s)
    split
    · exact List.sublist_cons_self c s
    · exact List.Sublist.refl _

/-- The copy only gets shorter, so that it is a string still. -/
theorem strip_sublist (s : List UInt8) : (strip s).Sublist s := by
  unfold strip
  split
  · exact List.Sublist.refl s
  · rename_i pos _
    have hrest : (skipSpace ((s.drop pos).dropWhile (· ≠ space))).Sublist (s.drop pos) :=
      (skipSpace_sublist _).trans (List.dropWhile_sublist _)
    have hboth := (List.Sublist.refl (s.take pos)).append hrest
    rwa [List.take_append_drop] at hboth

/-- The copy as it is returned. -/
def stripped (s : CString) : CString where
  bytes := strip s.bytes
  no_nul := fun h => s.no_nul ((strip_sublist s.bytes).subset h)
  fits := lt_of_le_of_lt (strip_sublist s.bytes).length_le s.fits

/-- The cache when a list with the name in it has come: it is filled only once, and only from a list
that fits. -/
def fill (extensions : CString) (cache : FilterCache) : FilterCache :=
  if ¬ cache.extensionsFiltered ∧ extensions.strlen < filteredExtensionsSize - 1 then
    { filteredExtensions := stripped extensions, extensionsFiltered := true }
  else cache

/-- `eglQueryString`, where `result` is the answer of the real one. -/
def eglQueryString (gpuMode : Bool) (name : Int32) (result : Option CString) (cache : FilterCache) :
    Option CString × FilterCache :=
  match result with
  | none => (none, cache)
  | some extensions =>
    if name = eglExtensions ∧ gpuMode ∧ strstr nativeFenceSync extensions.bytes ≠ none then
      (some (fill extensions cache).filteredExtensions, fill extensions cache)
    else (some extensions, cache)

def stays (extension : List UInt8) : Bool := extension ≠ nativeFenceSync

/-- Mesa's list without the extension. -/
def kept (s : List UInt8) : List (List UInt8) := (tokens space s).filter stays

theorem stays_of_ne {extension : List UInt8} (h : extension ≠ nativeFenceSync) :
    stays extension = true := decide_eq_true h

theorem space_notMem : space ∉ nativeFenceSync := by decide

theorem nativeFenceSync_ne_nil : nativeFenceSync ≠ [] := by decide

/-! ### One list -/

/-- The lists from which the substring search removes just the extension.  In the first case the
name is found as a token, and it is the only such token.  In the second it is found at the end of a
longer name, which is shortened and then joined to the one token that is to be removed. -/
inductive StripsRight (s : List UInt8) : Prop where
  | token (pre post : List UInt8) (split : s = pre ++ nativeFenceSync ++ post)
      (first : strstr nativeFenceSync s = some pre.length) (front : IsFront space pre)
      (rest : IsRest space post) (once : nativeFenceSync ∉ tokens space post)
  | joined (pre post : List UInt8)
      (split : s = pre ++ nativeFenceSync ++ space :: (nativeFenceSync ++ post))
      (first : strstr nativeFenceSync s = some pre.length) (inside : ¬ IsFront space pre)
      (rest : IsRest space post) (once : nativeFenceSync ∉ tokens space post)

section OneList

variable {s pre post front part run rest : List UInt8}

/-- What is cut off at the name is up to the next space. -/
theorem skipSpace_rest (h : IsRest space rest) : skipSpace rest = rest.tail := by
  rcases h with rfl | ⟨more, rfl⟩
  · rfl
  · show (if space = space then more else space :: more) = more
    exact if_pos rfl

theorem strip_eq (first : strstr nativeFenceSync s = some pre.length)
    (hs : s = pre ++ (nativeFenceSync ++ run ++ rest)) (hrun : space ∉ run)
    (hrest : IsRest space rest) : strip s = pre ++ rest.tail := by
  have hword : ∀ c ∈ nativeFenceSync ++ run, decide (c ≠ space) = true := by
    intro c hc
    refine decide_eq_true ?_
    rintro rfl
    rcases List.mem_append.mp hc with hc | hc
    · exact space_notMem hc
    · exact hrun hc
  have hdrop : rest.dropWhile (· ≠ space) = rest := by
    rcases hrest with rfl | ⟨more, rfl⟩
    · rfl
    · exact List.dropWhile_cons_of_neg (by simp)
  unfold strip
  rw [first]
  show s.take pre.length ++ skipSpace ((s.drop pre.length).dropWhile (· ≠ space)) = _
  rw [hs, List.take_left, List.drop_left, List.dropWhile_append_of_pos hword, hdrop,
    skipSpace_rest hrest]

/-- The name is not a token before its first place. -/
theorem notMem_tokens_front (first : strstr nativeFenceSync s = some pre.length)
    (hs : s = pre ++ (nativeFenceSync ++ post)) (hpre : pre = front ++ part) :
    nativeFenceSync ∉ tokens space front := by
  intro hmem
  obtain ⟨a, b, hab⟩ := infix_of_mem_tokens hmem
  obtain ⟨_, _, _, _, hfirst⟩ := strstr_eq_some first
  have hle := hfirst a (b ++ part ++ (nativeFenceSync ++ post)) (by
    rw [hs, hpre, ← hab]
    simp only [List.append_assoc])
  have hlength := congrArg List.length hab
  have hpos := List.length_pos_of_ne_nil nativeFenceSync_ne_nil
  rw [hpre, List.length_append] at hle
  simp only [List.length_append] at hlength
  omega

/-- A token that is longer than the name stays. -/
theorem filter_longer (tail : List (List UInt8)) (h : part ≠ [] ∨ run ≠ []) :
    ((part ++ nativeFenceSync ++ run) :: tail).filter stays
      = (part ++ nativeFenceSync ++ run) :: tail.filter stays := by
  refine List.filter_cons_of_pos (stays_of_ne ?_)
  intro heq
  have hlength := congrArg List.length heq
  simp only [List.length_append] at hlength
  rcases h with h | h
  · have hpos := List.length_pos_of_ne_nil h
    omega
  · have hpos := List.length_pos_of_ne_nil h
    omega

/-- The name itself does not. -/
theorem filter_name (tail : List (List UInt8)) :
    (nativeFenceSync :: tail).filter stays = tail.filter stays :=
  List.filter_cons_of_neg (by simp [stays])

theorem filter_eq_self_iff (l : List (List UInt8)) :
    l = l.filter stays ↔ nativeFenceSync ∉ l := by
  rw [eq_comm, List.filter_eq_self]
  constructor
  · intro h hmem
    exact of_decide_eq_true (h nativeFenceSync hmem) rfl
  · intro h t ht
    refine stays_of_ne ?_
    rintro rfl
    exact h ht

/-- Where the name ends its token, and begins it too, all depends on what comes after. -/
theorem whole_iff (more : List UInt8) :
    tokens space more
        = (nativeFenceSync :: tokens space more).filter stays ↔
      nativeFenceSync ∉ tokens space more := by
  rw [filter_name, filter_eq_self_iff]

/-- Where a token goes on after the name, the list comes out wrong: one such token would be left
less than there is. -/
theorem shortened_ne (hpart : space ∉ part) (hrun : run ≠ []) (more : List UInt8) :
    tokens space (part ++ more)
      ≠ ((part ++ nativeFenceSync ++ run) :: tokens space more).filter stays := by
  rw [filter_longer _ (.inr hrun)]
  intro h
  have hword : stays (nativeFenceSync ++ run) = true :=
    stays_of_ne fun heq => hrun (List.append_right_eq_self.mp heq)
  rcases eq_or_ne part [] with rfl | hne
  · exact ne_cons_filter hword h
  · obtain ⟨first, rest, rfl, hfirst, hrest⟩ := exists_part space more
    have hjoined : space ∉ part ++ first := by
      rw [List.mem_append, not_or]
      exact ⟨hpart, hfirst⟩
    rw [← List.append_assoc part first, tokens_part hjoined (by simp [hne]) hrest,
      List.append_assoc part] at h
    obtain ⟨hhead, htail⟩ := List.cons.inj h
    have hfirst' := List.append_cancel_left hhead
    rw [hfirst'] at hfirst htail
    rw [tokens_part hfirst (by simp [hrun]) hrest, List.filter_cons_of_pos hword] at htail
    exact ne_cons_filter hword htail

/-- Where the name ends a longer token, what is left of it must get the name back. -/
theorem rejoined_iff (hpart : space ∉ part) (hne : part ≠ []) (more : List UInt8) :
    tokens space (part ++ more)
        = ((part ++ nativeFenceSync) :: tokens space more).filter stays ↔
      ∃ post, more = nativeFenceSync ++ post ∧ IsRest space post ∧
        nativeFenceSync ∉ tokens space post := by
  have hlonger : ((part ++ nativeFenceSync ++ []) :: tokens space more).filter stays = _ :=
    filter_longer (tokens space more) (.inl hne)
  rw [List.append_nil] at hlonger
  rw [hlonger]
  constructor
  · intro h
    obtain ⟨first, rest, rfl, hfirst, hrest⟩ := exists_part space more
    have hjoined : space ∉ part ++ first := by
      rw [List.mem_append, not_or]
      exact ⟨hpart, hfirst⟩
    rw [← List.append_assoc part first, tokens_part hjoined (by simp [hne]) hrest] at h
    obtain ⟨hhead, htail⟩ := List.cons.inj h
    have hfirst' := List.append_cancel_left hhead
    subst hfirst'
    rw [tokens_part hfirst nativeFenceSync_ne_nil hrest, whole_iff, tokens_tail hrest] at htail
    exact ⟨rest, rfl, hrest, htail⟩
  · rintro ⟨post, rfl, hrest, honce⟩
    have hjoined : space ∉ part ++ nativeFenceSync := by
      rw [List.mem_append, not_or]
      exact ⟨hpart, space_notMem⟩
    rw [← List.append_assoc part, tokens_part hjoined (by simp [hne]) hrest,
      tokens_part space_notMem nativeFenceSync_ne_nil hrest]
    rw [← tokens_tail hrest, ← whole_iff] at honce
    exact congrArg _ honce

/-- What the search leaves is the right list exactly in the cases of `StripsRight`, for a given
first place. -/
theorem tokens_strip_split (first : strstr nativeFenceSync s = some pre.length)
    (hs : s = pre ++ (nativeFenceSync ++ post)) :
    tokens space (strip s) = kept s ↔
      IsRest space post ∧ ((IsFront space pre ∧ nativeFenceSync ∉ tokens space post) ∨
        (¬ IsFront space pre ∧ ∃ post', post = space :: (nativeFenceSync ++ post') ∧
          IsRest space post' ∧ nativeFenceSync ∉ tokens space post')) := by
  obtain ⟨front, part, hpre, hpart, hfront⟩ := exists_last_part space pre
  obtain ⟨run, rest, hpost, hrun, hrest⟩ := exists_part space post
  have hbefore := notMem_tokens_front first hs hpre
  have hsplit : s = pre ++ (nativeFenceSync ++ run ++ rest) := by
    rw [hs, hpost, List.append_assoc]
  have hwhole : s = front ++ ((part ++ nativeFenceSync ++ run) ++ rest) := by
    rw [hsplit, hpre]
    simp only [List.append_assoc]
  have hword : space ∉ part ++ nativeFenceSync ++ run := by
    simp only [List.mem_append, not_or]
    exact ⟨⟨hpart, space_notMem⟩, hrun⟩
  have hkept : kept s = tokens space front
      ++ ((part ++ nativeFenceSync ++ run) :: tokens space rest.tail).filter
        stays := by
    unfold kept
    rw [hwhole, tokens_front hfront, List.filter_append,
      tokens_part hword (by simp [nativeFenceSync_ne_nil]) hrest,
      ← (filter_eq_self_iff _).mpr hbefore]
  rw [strip_eq first hsplit hrun hrest, hkept, hpre, List.append_assoc, tokens_front hfront,
    List.append_right_inj, isFront_append_iff hfront hpart, hpost, isRest_append_iff hrun hrest]
  rcases eq_or_ne run [] with rfl | hne
  · rw [List.append_nil, List.nil_append]
    rcases eq_or_ne part [] with rfl | hne
    · rw [List.nil_append, List.nil_append, whole_iff, tokens_tail hrest]
      simp
    · rw [rejoined_iff hpart hne]
      constructor
      · rintro ⟨post', hmore, hrest', honce⟩
        refine ⟨rfl, .inr ⟨hne, post', ?_, hrest', honce⟩⟩
        rcases hrest with rfl | ⟨more, rfl⟩
        · exact absurd (List.append_eq_nil_iff.mp hmore.symm).1 nativeFenceSync_ne_nil
        · exact congrArg _ hmore
      · rintro ⟨-, ⟨hnil, -⟩ | ⟨-, post', rfl, hrest', honce⟩⟩
        · exact absurd hnil hne
        · exact ⟨post', rfl, hrest', honce⟩
  · constructor
    · exact fun h => absurd h (shortened_ne hpart hne _)
    · exact fun h => absurd h.1 hne

/-- **One list.**  The substring search gives the right list in the cases of `StripsRight` and in no
others. -/
theorem tokens_strip_iff (h : strstr nativeFenceSync s ≠ none) :
    tokens space (strip s) = kept s ↔ StripsRight s := by
  constructor
  · obtain ⟨k, hk⟩ := Option.ne_none_iff_exists'.mp h
    obtain ⟨pre, post, hs, rfl, -⟩ := strstr_eq_some hk
    intro hright
    have hsplit : s = pre ++ (nativeFenceSync ++ post) := by rw [hs, List.append_assoc]
    obtain ⟨hrest, ⟨hfront, honce⟩ | ⟨hinside, post', rfl, hrest', honce⟩⟩ :=
      (tokens_strip_split hk hsplit).mp hright
    · exact .token pre post hs hk hfront hrest honce
    · exact .joined pre post' hs hk hinside hrest' honce
  · rintro (⟨pre, post, hs, hk, hfront, hrest, honce⟩ | ⟨pre, post, hs, hk, hinside, hrest, honce⟩)
    · rw [List.append_assoc] at hs
      exact (tokens_strip_split hk hs).mpr ⟨hrest, .inl ⟨hfront, honce⟩⟩
    · rw [List.append_assoc] at hs
      exact (tokens_strip_split hk hs).mpr
        ⟨.inr ⟨_, rfl⟩, .inr ⟨hinside, post, rfl, hrest, honce⟩⟩

end OneList

/-! ### Runs of queries -/

/-- A query, and what the real function answers to it. -/
structure Query where
  dpy : ℕ
  name : Int32
  result : Option CString
  deriving DecidableEq

/-- The cache, and the list it was made from if there has been one. -/
structure QueryState where
  cache : FilterCache
  source : Option (List UInt8)
  deriving DecidableEq

def start : QueryState := ⟨⟨CString.empty, false⟩, none⟩

/-- A query in GPU mode; the list is the source of the cache if it is the one that fills it. -/
def query (s : QueryState) (q : Query) : QueryState where
  cache := (eglQueryString true q.name q.result s.cache).2
  source :=
    if (eglQueryString true q.name q.result s.cache).2.extensionsFiltered then
      s.source.or (q.result.map CString.bytes)
    else none

/-- The runs of queries. -/
def queries : System QueryState Query := System.ofFun (· = start) query

/-- The answer is Mesa's list without the extension. -/
def Kept (s : QueryState) (q : Query) : Prop :=
  q.name = eglExtensions →
    (eglQueryString true q.name q.result s.cache).1.map (fun answer => tokens space answer.bytes)
      = q.result.map fun extensions => kept extensions.bytes

/-- The condition on a query whose list has the name in it.  Once the cache is filled, the list
differs from that in the cache by the name at most.  Before, a list that fits is one of
`StripsRight`, and one that does not fit has nothing but the name. -/
def Filterable (s : QueryState) (q : Query) : Prop :=
  q.name = eglExtensions → ∀ extensions ∈ q.result,
    strstr nativeFenceSync extensions.bytes ≠ none →
      match s.source with
      | some first => kept first = kept extensions.bytes
      | none =>
        if extensions.strlen < filteredExtensionsSize - 1 then StripsRight extensions.bytes
        else kept extensions.bytes = []

/-- What the cache is while all answers have been right. -/
def CacheRight (s : QueryState) : Prop :=
  match s.source with
  | some first =>
    s.cache.extensionsFiltered ∧ tokens space s.cache.filteredExtensions.bytes = kept first
  | none => s.cache = ⟨CString.empty, false⟩

section Runs

variable {s : QueryState} {q : Query} {extensions : CString} {cache : FilterCache}

theorem eglQueryString_passed {name : Int32}
    (h : ¬ (name = eglExtensions ∧ strstr nativeFenceSync extensions.bytes ≠ none)) :
    eglQueryString true name (some extensions) cache = (some extensions, cache) :=
  if_neg fun hall => h ⟨hall.1, hall.2.2⟩

theorem eglQueryString_found (hfound : strstr nativeFenceSync extensions.bytes ≠ none) :
    eglQueryString true eglExtensions (some extensions) cache
      = (some (fill extensions cache).filteredExtensions, fill extensions cache) :=
  if_pos ⟨rfl, rfl, hfound⟩

theorem fill_filtered (h : cache.extensionsFiltered) : fill extensions cache = cache :=
  if_neg fun hempty => hempty.1 h

theorem fill_fits (h : ¬ cache.extensionsFiltered)
    (hfits : extensions.strlen < filteredExtensionsSize - 1) :
    fill extensions cache = ⟨stripped extensions, true⟩ := if_pos ⟨h, hfits⟩

theorem fill_tooLong (hfits : ¬ extensions.strlen < filteredExtensionsSize - 1) :
    fill extensions cache = cache := if_neg fun hempty => hfits hempty.2

/-- A list without the name is right as it is. -/
theorem tokens_eq_kept {s : List UInt8} (h : strstr nativeFenceSync s = none) :
    tokens space s = kept s := by
  unfold kept
  rw [← (filter_eq_self_iff _).mpr]
  exact fun hmem => strstr_eq_none.mp h (infix_of_mem_tokens hmem)

/-- While the answers have been right, the next one is exactly under the condition. -/
theorem kept_iff (h : CacheRight s) : Kept s q ↔ Filterable s q := by
  refine imp_congr_right fun hname => ?_
  rw [hname]
  cases hresult : q.result with
  | none => exact iff_of_true rfl nofun
  | some extensions =>
    simp only [Option.mem_some_iff, forall_eq', Option.map_some]
    by_cases hfound : strstr nativeFenceSync extensions.bytes ≠ none
    · rw [eglQueryString_found hfound, Option.map_some, Option.some_inj, forall_prop_of_true hfound]
      unfold CacheRight at h
      cases hsource : s.source with
      | some first =>
        rw [hsource] at h
        rw [fill_filtered h.1, h.2]
      | none =>
        rw [hsource] at h
        rw [h]
        show _ ↔ if _ then _ else _
        split
        · rename_i hfits
          rw [fill_fits (by simp) hfits]
          exact tokens_strip_iff hfound
        · rename_i hfits
          rw [fill_tooLong hfits]
          exact eq_comm
    · rw [eglQueryString_passed fun hall => hfound hall.2]
      exact iff_of_true (congrArg some (tokens_eq_kept (not_not.mp hfound)))
        fun hthere => absurd hthere hfound

/-- What a query can do to the cache: nothing, or fill it. -/
theorem eglQueryString_cache (name : Int32) (result : Option CString) (cache : FilterCache) :
    (eglQueryString true name result cache).2 = cache ∨
      ∃ extensions, name = eglExtensions ∧ result = some extensions ∧
        strstr nativeFenceSync extensions.bytes ≠ none ∧ ¬ cache.extensionsFiltered ∧
        extensions.strlen < filteredExtensionsSize - 1 ∧
        (eglQueryString true name result cache).2 = ⟨stripped extensions, true⟩ := by
  cases result with
  | none => exact .inl rfl
  | some extensions =>
    by_cases h : name = eglExtensions ∧ strstr nativeFenceSync extensions.bytes ≠ none
    · obtain ⟨rfl, hfound⟩ := h
      rw [eglQueryString_found hfound]
      by_cases hfill : ¬ cache.extensionsFiltered ∧
          extensions.strlen < filteredExtensionsSize - 1
      · exact .inr ⟨extensions, rfl, rfl, hfound, hfill.1, hfill.2, if_pos hfill⟩
      · exact .inl (if_neg hfill)
    · rw [eglQueryString_passed h]
      exact .inl rfl

/-- A query that meets the condition leaves the cache right. -/
theorem cacheRight_query (h : CacheRight s) (hq : Filterable s q) : CacheRight (query s q) := by
  rcases eglQueryString_cache q.name q.result s.cache with
    hsame | ⟨extensions, hname, hresult, hfound, hempty, hfits, hfill⟩
  · unfold query
    rw [hsame]
    unfold CacheRight at h ⊢
    cases hsource : s.source with
    | some first =>
      rw [hsource] at h
      rw [if_pos h.1]
      exact h
    | none =>
      rw [hsource] at h
      rw [h]
      rfl
  · unfold query
    rw [hfill, hresult]
    unfold CacheRight at h
    cases hsource : s.source with
    | some first =>
      rw [hsource] at h
      exact absurd h.1 hempty
    | none =>
      have hright := hq hname extensions (by rw [hresult]; rfl) hfound
      rw [hsource] at hright
      have hstrips : StripsRight extensions.bytes := (if_pos hfits).mp hright
      exact ⟨rfl, (tokens_strip_iff hfound).mpr hstrips⟩

/-- **The extension filter.**  All answers of a run in GPU mode are Mesa's lists with just the one
extension taken out exactly if all its queries meet the condition. -/
theorem kept_iff_filterable {run : List (Query × QueryState)} (h : queries.Exec start run) :
    AllSteps Kept start run ↔ AllSteps Filterable start run := by
  refine System.Exec.allSteps_iff_of_kept (I := CacheRight) ?_ ?_ h rfl
  · rintro s q t hs rfl hq
    exact cacheRight_query hs hq
  · rintro s q t hs -
    exact kept_iff hs

end Runs

/-! ### Two displays -/

def imageBase : CString :=
  ⟨ascii "EGL_KHR_image_base EGL_ANDROID_native_fence_sync EGL_KHR_fence_sync", by decide, by decide⟩

def imageBaseOnly : CString :=
  ⟨ascii "EGL_KHR_image_base EGL_KHR_fence_sync", by decide, by decide⟩

def colorspace : CString :=
  ⟨ascii "EGL_ANDROID_native_fence_sync EGL_KHR_gl_colorspace", by decide, by decide⟩

/-- One display, asked twice, and another one without the extension. -/
def sameList : List Query :=
  [⟨1, eglExtensions, some imageBase⟩, ⟨1, eglExtensions, some imageBase⟩,
    ⟨2, eglExtensions, some imageBaseOnly⟩]

theorem kept_sameList : AllSteps Kept start (trace query start sameList) := by
  refine (kept_iff_filterable (System.exec_trace _ _ sameList)).mpr ⟨?_, ?_, ?_, trivial⟩
  · rintro - extensions ⟨⟩ -
    exact .token (ascii "EGL_KHR_image_base ") (ascii " EGL_KHR_fence_sync") (by decide)
      (by decide +kernel) (.inr ⟨ascii "EGL_KHR_image_base", by decide⟩)
      (.inr ⟨ascii "EGL_KHR_fence_sync", by decide⟩) (by decide +kernel)
  · rintro - extensions ⟨⟩ -
    have hsource : (query start ⟨1, eglExtensions, some imageBase⟩).source = some imageBase.bytes := by
      decide +kernel
    rw [hsource]
  · rintro - extensions ⟨⟩ hfound
    exact absurd (by decide +kernel) hfound

/-- Two displays with different lists. -/
def twoDisplays : List Query :=
  [⟨1, eglExtensions, some imageBase⟩, ⟨2, eglExtensions, some colorspace⟩]

/-- The second display is answered with the list of the first. -/
theorem second_display :
    ¬ ∀ run : List (Query × QueryState), queries.Exec start run → AllSteps Kept start run := by
  intro h
  have hsecond := (h _ (System.exec_trace _ _ twoDisplays)).2.1 rfl
  revert hsecond
  decide +kernel

end Wldroid.Egl
