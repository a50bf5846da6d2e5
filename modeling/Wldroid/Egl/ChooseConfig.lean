import Wldroid.Foundation.Loops
import Wldroid.Foundation.Memory

/-!
# The attributes of `eglChooseConfig`

In software mode the wrapper copies the attribute list of the application into an array of 64
entries and replaces the window bit by the pbuffer bit in the surface types.  The copy ends after 31
pairs.

* `IsAttribs` — a list of pairs in memory, terminated by `EGL_NONE`;
* `useAttribs` — the list that is handed on;
* **`handsOn_iff`** — it is the application's with the bits replaced exactly if that has at most 31
  pairs, or no bits to replace;
* `attribs_cut_off` — of 32 pairs the last one is lost.
-/

namespace Wldroid.Egl

open Wldroid.Foundation

/-! ### The rewrite -/

def eglNone : Int32 := 0x3038
def eglSurfaceType : Int32 := 0x3033
def eglWindowBit : Int32 := 0x0004
def eglPbufferBit : Int32 := 0x0001

/-- `MAX_EGL_ATTRIBS`. -/
def maxEglAttribs : ℕ := 64

/-- The variables of the copy loop. -/
structure AttribCopy where
  i : ℕ
  modified : RawMemory Int32
  modifiedCount : ℕ
  didModify : Bool

/-- One round: a pair is copied, and its window bit replaced. -/
def copyRound (attribList : RawMemory Int32) (s : AttribCopy) : Option AttribCopy :=
  if attribList s.i ≠ eglNone ∧ s.modifiedCount < maxEglAttribs - 2 then
    let val := attribList (s.i + 1)
    let replaced := attribList s.i = eglSurfaceType ∧ val &&& eglWindowBit ≠ 0
    let modified := Function.update s.modified s.modifiedCount (attribList s.i)
    some
      { i := s.i + 2
        modified := Function.update modified (s.modifiedCount + 1)
          (if replaced then (val &&& ~~~eglWindowBit) ||| eglPbufferBit else val)
        modifiedCount := s.modifiedCount + 2
        didModify := s.didModify || replaced }
  else none

/-- The loop; the array is full before the bound on the rounds is reached. -/
def copyAttribs (attribList stack : RawMemory Int32) : AttribCopy :=
  loopRun (copyRound attribList) maxEglAttribs ⟨0, stack, 0, false⟩

/-- `eglChooseConfig` up to its call of the real one: the list it hands on. -/
def useAttribs (gpuMode : Bool) (attribList : Option (RawMemory Int32)) (stack : RawMemory Int32) :
    Option (RawMemory Int32) :=
  if gpuMode then attribList
  else
    match attribList with
    | none => none
    | some list =>
        let s := copyAttribs list stack
        some (if s.didModify then Function.update s.modified s.modifiedCount eglNone else list)

/-! ### The property -/

/-- A list of attributes in memory. -/
structure IsAttribs (m : RawMemory Int32) (pairs : List (Int32 × Int32)) : Prop where
  pair : ∀ k p, pairs[k]? = some p → m (2 * k) = p.1 ∧ m (2 * k + 1) = p.2
  key : ∀ p ∈ pairs, p.1 ≠ eglNone
  terminated : m (2 * pairs.length) = eglNone

/-- The attribute asks for windows. -/
def AsksWindow (p : Int32 × Int32) : Prop := p.1 = eglSurfaceType ∧ p.2 &&& eglWindowBit ≠ 0

instance : DecidablePred AsksWindow := fun p =>
  inferInstanceAs (Decidable (p.1 = eglSurfaceType ∧ p.2 &&& eglWindowBit ≠ 0))

/-- The attribute with the pbuffer bit for the window bit. -/
def toPbuffer (p : Int32 × Int32) : Int32 × Int32 :=
  if AsksWindow p then (p.1, (p.2 &&& ~~~eglWindowBit) ||| eglPbufferBit) else p

/-- In software mode a list is handed on with the bits replaced, and nothing else. -/
def HandsOn (attribList stack : RawMemory Int32) (pairs : List (Int32 × Int32)) : Prop :=
  ∃ m, useAttribs false (some attribList) stack = some m ∧ IsAttribs m (pairs.map toPbuffer)

/-! ### Lists in memory -/

section Attribs

variable {m attribList stack : RawMemory Int32} {pairs pairs' : List (Int32 × Int32)}

theorem IsAttribs.getElem (h : IsAttribs m pairs) {k : ℕ} (hk : k < pairs.length) :
    m (2 * k) = pairs[k].1 ∧ m (2 * k + 1) = pairs[k].2 :=
  h.pair k _ (List.getElem?_eq_getElem hk)

theorem IsAttribs.length_le (h : IsAttribs m pairs) (h' : IsAttribs m pairs') :
    pairs'.length ≤ pairs.length := by
  by_contra hlt
  rw [not_le] at hlt
  have hkey := h'.key _ (List.getElem_mem hlt)
  rw [← (h'.getElem hlt).1, h.terminated] at hkey
  exact hkey rfl

/-- There is one list at a place. -/
theorem IsAttribs.unique (h : IsAttribs m pairs) (h' : IsAttribs m pairs') : pairs = pairs' := by
  refine List.ext_getElem (le_antisymm (h'.length_le h) (h.length_le h')) fun k hk hk' => ?_
  obtain ⟨hkey, hval⟩ := h.getElem hk
  obtain ⟨hkey', hval'⟩ := h'.getElem hk'
  exact Prod.ext (hkey.symm.trans hkey') (hval.symm.trans hval')

theorem toPbuffer_key (p : Int32 × Int32) : (toPbuffer p).1 = p.1 := by
  unfold toPbuffer
  split <;> rfl

/-- Where the window bit is replaced, it is gone. -/
theorem toPbuffer_ne {p : Int32 × Int32} (h : AsksWindow p) : toPbuffer p ≠ p := by
  unfold toPbuffer
  rw [if_pos h]
  intro hsame
  refine h.2 ?_
  rw [← congrArg Prod.snd hsame]
  apply Int32.toBitVec_inj.mp
  show ((p.2.toBitVec &&& ~~~4#32) ||| 1#32) &&& 4#32 = 0#32
  rw [BitVec.and_or_distrib_right, BitVec.and_assoc, BitVec.not_and_self]
  exact congrArg (· ||| 1#32 &&& 4#32) BitVec.and_zero

theorem map_toPbuffer_eq_self_iff : pairs.map toPbuffer = pairs ↔ ∀ p ∈ pairs, ¬ AsksWindow p := by
  constructor
  · intro hsame p hp hasks
    refine toPbuffer_ne hasks ?_
    have hall : pairs.map toPbuffer = pairs.map id := hsame.trans pairs.map_id.symm
    exact List.map_inj_left.mp hall p hp
  · intro hnone
    refine (List.map_congr_left fun p hp => ?_).trans pairs.map_id
    exact if_neg (hnone p hp)

/-! ### The loop -/

/-- After `k` pairs. -/
structure CopyInv (pairs : List (Int32 × Int32)) (s : AttribCopy) (k : ℕ) : Prop where
  place : s.i = 2 * k ∧ s.modifiedCount = 2 * k
  bound : k ≤ pairs.length ∧ 2 * k < maxEglAttribs
  copied : ∀ j < k, ∀ p, pairs[j]? = some p →
    s.modified (2 * j) = (toPbuffer p).1 ∧ s.modified (2 * j + 1) = (toPbuffer p).2
  modified : s.didModify = true ↔ ∃ p ∈ pairs.take k, AsksWindow p

/-- One round copies one pair. -/
theorem copyRound_eq (hlist : IsAttribs attribList pairs) {s : AttribCopy} {k : ℕ}
    (hi : s.i = 2 * k) (hcount : s.modifiedCount = 2 * k) (hlt : k < pairs.length)
    (hroom : 2 * k < maxEglAttribs - 2) :
    copyRound attribList s = some
      { i := 2 * (k + 1)
        modified := Function.update (Function.update s.modified (2 * k) (toPbuffer pairs[k]).1)
          (2 * k + 1) (toPbuffer pairs[k]).2
        modifiedCount := 2 * (k + 1)
        didModify := s.didModify || decide (AsksWindow pairs[k]) } := by
  obtain ⟨hfirst, hsecond⟩ := hlist.getElem hlt
  have hgoes : attribList s.i ≠ eglNone ∧ s.modifiedCount < maxEglAttribs - 2 := by
    rw [hi, hfirst, hcount]
    exact ⟨hlist.key _ (List.getElem_mem hlt), hroom⟩
  have hval : (toPbuffer pairs[k]).2 = if AsksWindow pairs[k] then
      (pairs[k].2 &&& ~~~eglWindowBit) ||| eglPbufferBit else pairs[k].2 := by
    unfold toPbuffer
    split <;> rfl
  unfold copyRound
  rw [if_pos hgoes, hi, hcount, hfirst, hsecond, toPbuffer_key, hval]
  rfl

/-- The loop is left at the end of the list, or when the array is full. -/
theorem copyRound_eq_none (hlist : IsAttribs attribList pairs) {s : AttribCopy} {k : ℕ}
    (hi : s.i = 2 * k) (hcount : s.modifiedCount = 2 * k) (hle : k ≤ pairs.length) :
    copyRound attribList s = none ↔ k = pairs.length ∨ maxEglAttribs - 2 ≤ 2 * k := by
  unfold copyRound
  rw [ite_eq_right_iff, hi, hcount]
  simp only [reduceCtorEq, imp_false, not_and_or, not_not, not_lt]
  refine or_congr_left ⟨fun hend => ?_, ?_⟩
  · by_contra hne
    have hlt := lt_of_le_of_ne hle hne
    rw [(hlist.getElem hlt).1] at hend
    exact hlist.key _ (List.getElem_mem hlt) hend
  · rintro rfl
    exact hlist.terminated

theorem CopyInv.round (hlist : IsAttribs attribList pairs) {s t : AttribCopy} {k : ℕ}
    (h : CopyInv pairs s k) (hround : copyRound attribList s = some t) : CopyInv pairs t (k + 1) := by
  obtain ⟨⟨hi, hcount⟩, ⟨hle, -⟩, hcopied, hmodified⟩ := h
  have hgoes : ¬ (k = pairs.length ∨ maxEglAttribs - 2 ≤ 2 * k) := by
    rw [← copyRound_eq_none hlist hi hcount hle, hround]
    exact Option.some_ne_none t
  rw [not_or, not_le] at hgoes
  have hlt := lt_of_le_of_ne hle hgoes.1
  have hroom : 2 * (k + 1) < maxEglAttribs := by
    have := hgoes.2
    unfold maxEglAttribs at *
    omega
  rw [copyRound_eq hlist hi hcount hlt hgoes.2] at hround
  cases hround
  refine ⟨⟨rfl, rfl⟩, ⟨hlt, hroom⟩, fun j hj p hp => ?_, ?_⟩
  · simp only
    rcases Nat.lt_succ_iff_lt_or_eq.mp hj with hbefore | rfl
    · rw [Function.update_of_ne (by omega), Function.update_of_ne (by omega),
        Function.update_of_ne (by omega), Function.update_of_ne (by omega)]
      exact hcopied j hbefore p hp
    · rw [List.getElem?_eq_getElem hlt] at hp
      cases hp
      rw [Function.update_of_ne (by omega), Function.update_self, Function.update_self]
      exact ⟨rfl, rfl⟩
  · rw [List.take_add_one, List.getElem?_eq_getElem hlt]
    simp only [Bool.or_eq_true, decide_eq_true_eq, hmodified, Option.toList_some,
      List.mem_append, List.mem_singleton, or_and_right, exists_or, exists_eq_left]

/-- The number of pairs there is room for. -/
def attribRoom : ℕ := (maxEglAttribs - 2) / 2

/-- The loop copies the pairs there is room for. -/
theorem copyInv_copyAttribs (hlist : IsAttribs attribList pairs) (stack : RawMemory Int32) :
    CopyInv pairs (copyAttribs attribList stack) (min pairs.length attribRoom) := by
  have hstart : CopyInv pairs ⟨0, stack, 0, false⟩ 0 :=
    ⟨⟨rfl, rfl⟩, ⟨Nat.zero_le _, by decide⟩, nofun, by simp⟩
  have hinv : ∃ k, CopyInv pairs (copyAttribs attribList stack) k :=
    loopRun_invariant (I := fun s => ∃ k, CopyInv pairs s k)
      (fun s t ⟨k, hk⟩ hround => ⟨k + 1, hk.round hlist hround⟩) maxEglAttribs _ ⟨0, hstart⟩
  have hdecreases : ∀ s t, copyRound attribList s = some t →
      maxEglAttribs - t.modifiedCount < maxEglAttribs - s.modifiedCount := by
    intro s t hround
    unfold copyRound at hround
    split at hround <;> cases hround
    rename_i hgoes
    have := hgoes.2
    simp only
    omega
  have hend : copyRound attribList (copyAttribs attribList stack) = none :=
    (loopEnds_loopRun (fun s : AttribCopy => maxEglAttribs - s.modifiedCount) hdecreases
      maxEglAttribs ⟨0, stack, 0, false⟩ le_rfl).left
  obtain ⟨k, hk⟩ := hinv
  have hwhere := (copyRound_eq_none hlist hk.place.1 hk.place.2 hk.bound.1).mp hend
  have hsame : k = min pairs.length attribRoom := by
    have hle := hk.bound.1
    have hroom := hk.bound.2
    unfold attribRoom maxEglAttribs at *
    omega
  exact hsame ▸ hk

/-- What is in the array in the end. -/
theorem isAttribs_modified (hlist : IsAttribs attribList pairs) (stack : RawMemory Int32) :
    IsAttribs (Function.update (copyAttribs attribList stack).modified
      (copyAttribs attribList stack).modifiedCount eglNone)
      ((pairs.take attribRoom).map toPbuffer) := by
  obtain ⟨⟨-, hcount⟩, ⟨hle, -⟩, hcopied, -⟩ := copyInv_copyAttribs hlist stack
  have hlength : ((pairs.take attribRoom).map toPbuffer).length = min pairs.length attribRoom := by
    rw [List.length_map, List.length_take, min_comm]
  refine ⟨fun j p hp => ?_, fun p hp => ?_, ?_⟩
  · have hj : j < min pairs.length attribRoom := by
      rw [← hlength]
      exact (List.getElem?_eq_some_iff.mp hp).1
    rw [List.getElem?_map, List.getElem?_take_of_lt (lt_min_iff.mp hj).2] at hp
    obtain ⟨q, hq, rfl⟩ := Option.map_eq_some_iff.mp hp
    rw [hcount, Function.update_of_ne (by omega), Function.update_of_ne (by omega)]
    exact hcopied j hj q hq
  · obtain ⟨q, hq, rfl⟩ := List.mem_map.mp hp
    rw [toPbuffer_key]
    exact hlist.key q (List.mem_of_mem_take hq)
  · rw [hlength, hcount]
    exact Function.update_self _ _ _

end Attribs

/-! ### What is handed on -/

/-- **The attributes handed on.**  They are the application's with the window bits replaced exactly
if there are at most 31 pairs, or no window bits. -/
theorem handsOn_iff {attribList : RawMemory Int32} {pairs : List (Int32 × Int32)}
    (hlist : IsAttribs attribList pairs) (stack : RawMemory Int32) :
    HandsOn attribList stack pairs ↔ pairs.length ≤ 31 ∨ ∀ p ∈ pairs, ¬ AsksWindow p := by
  have hmodified := isAttribs_modified hlist stack
  have hflag := (copyInv_copyAttribs hlist stack).modified
  have htake : pairs.take (min pairs.length attribRoom) = pairs.take attribRoom := by
    rw [← List.take_take, List.take_of_length_le]
    exact List.length_take_le' _ _
  rw [htake] at hflag
  -- the list that is handed on is the copy or the original
  have hresult : HandsOn attribList stack pairs ↔
      if (copyAttribs attribList stack).didModify then
        (pairs.take attribRoom).map toPbuffer = pairs.map toPbuffer
      else pairs.map toPbuffer = pairs := by
    unfold HandsOn useAttribs
    simp only [Bool.false_eq_true, if_false, Option.some.injEq, exists_eq_left']
    split
    · exact ⟨fun h => hmodified.unique h, fun h => h ▸ hmodified⟩
    · exact ⟨fun h => h.unique hlist, fun h => h.symm ▸ hlist⟩
  rw [hresult]
  split
  · rename_i hdid
    obtain ⟨p, hp, hasks⟩ := hflag.mp hdid
    have hasked : ¬ ∀ p ∈ pairs, ¬ AsksWindow p := fun hnone =>
      hnone p (List.mem_of_mem_take hp) hasks
    rw [or_iff_left hasked]
    constructor
    · intro hsame
      have hlength := congrArg List.length hsame
      rw [List.length_map, List.length_map, List.length_take] at hlength
      exact min_eq_right_iff.mp hlength
    · intro hfits
      rw [show pairs.take attribRoom = pairs from List.take_of_length_le hfits]
  · rename_i hdid
    rw [map_toPbuffer_eq_self_iff]
    refine ⟨.inr, fun hguard p hp hasks => hdid (hflag.mpr ?_)⟩
    rcases hguard with hfits | hnone
    · rw [show pairs.take attribRoom = pairs from List.take_of_length_le hfits]
      exact ⟨p, hp, hasks⟩
    · exact absurd hasks (hnone p hp)

/-- A list laid out in memory. -/
def attribsOf (pairs : List (Int32 × Int32)) : RawMemory Int32 :=
  fun a => ((pairs.flatMap fun p => [p.1, p.2]) ++ [eglNone]).getD a 0

theorem isAttribs_attribsOf {pairs : List (Int32 × Int32)} (hkeys : ∀ p ∈ pairs, p.1 ≠ eglNone) :
    IsAttribs (attribsOf pairs) pairs := by
  have hstep : ∀ (p : Int32 × Int32) (rest : List (Int32 × Int32)) (a : ℕ),
      attribsOf (p :: rest) (a + 2) = attribsOf rest a := fun _ _ _ => rfl
  refine ⟨?_, hkeys, ?_⟩
  · clear hkeys
    induction pairs with
    | nil => exact nofun
    | cons p rest ih =>
      intro k q hq
      cases k with
      | zero =>
        cases hq
        exact ⟨rfl, rfl⟩
      | succ k => exact ih k q hq
  · clear hkeys
    induction pairs with
    | nil => rfl
    | cons p rest ih =>
      rw [List.length_cons, Nat.mul_succ, hstep]
      exact ih

/-- A window surface, of eight bits of red. -/
def shortAttribs : List (Int32 × Int32) := [(eglSurfaceType, eglWindowBit), (0x3024, 8)]

theorem handsOn_shortAttribs : HandsOn (attribsOf shortAttribs) (fun _ => 0) shortAttribs := by
  have hkeys : ∀ p ∈ shortAttribs, p.1 ≠ eglNone :=
    List.forall_mem_cons.mpr ⟨by decide, List.forall_mem_singleton.mpr (by decide)⟩
  exact (handsOn_iff (isAttribs_attribsOf hkeys) _).mpr (.inl (by decide))

/-- A window surface, of eight bits of red, 31 times over. -/
def longAttribs : List (Int32 × Int32) :=
  (eglSurfaceType, eglWindowBit) :: List.replicate 31 (0x3024, 8)

/-- The last pair is lost. -/
theorem attribs_cut_off : ¬ HandsOn (attribsOf longAttribs) (fun _ => 0) longAttribs := by
  rintro ⟨m, hm, hattribs⟩
  have hend : (useAttribs false (some (attribsOf longAttribs)) fun _ => 0).map (fun m => m 62) =
      some eglNone := by decide
  rw [hm, Option.map_some, Option.some.injEq] at hend
  have hlast := (hattribs.pair 31 (0x3024, 8) rfl).1
  rw [hend] at hlast
  exact absurd hlast (by decide)

end Wldroid.Egl
