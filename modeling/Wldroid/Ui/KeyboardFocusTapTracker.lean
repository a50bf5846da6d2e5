import Mathlib.Algebra.Order.Ring.Rat
import Mathlib.Tactic.NormNum
import Wldroid.Foundation.Transition

/-!
# Taps that focus the keyboard

The tracker of the pointer that may still be a tap, as a function of the whole trace of its calls.

* `KeyboardFocusTapTracker` — its slop and its candidate, with `begin`, `update`, `consume` and
  `cancel`;
* `Pending` — what a trace says of the candidate: the last `begin`, nothing that forgets it, and no
  update beyond the slop;
* `candidate_iff_pending` — the candidate is exactly what the trace says;
* **`consume_iff`** — a tap is consumed exactly if one is pending, and once at most.
-/

namespace Wldroid.Ui

open Wldroid.Foundation

/-! ### The tracker -/

structure Candidate where
  pointerId : ℤ
  downX : ℚ
  downY : ℚ
  deriving DecidableEq, Repr

structure KeyboardFocusTapTracker where
  slopPx : ℚ
  candidate : Option Candidate
  deriving DecidableEq, Repr

namespace KeyboardFocusTapTracker

/-- A new tracker. -/
def ofSlop (slopPx : ℚ) : KeyboardFocusTapTracker := ⟨slopPx, none⟩

def pendingPointerId (t : KeyboardFocusTapTracker) : Option ℤ := t.candidate.map (·.pointerId)

def begin (t : KeyboardFocusTapTracker) (pointerId : ℤ) (x y : ℚ) : KeyboardFocusTapTracker :=
  { t with candidate := some ⟨pointerId, x, y⟩ }

def update (t : KeyboardFocusTapTracker) (pointerId : ℤ) (x y : ℚ) :
    KeyboardFocusTapTracker × Bool :=
  match t.candidate with
  | none => (t, false)
  | some current =>
    if pointerId ≠ current.pointerId then (t, true)
    else
      let dx := x - current.downX
      let dy := y - current.downY
      if dx * dx + dy * dy > t.slopPx * t.slopPx then ({ t with candidate := none }, false)
      else (t, true)

def consume (t : KeyboardFocusTapTracker) (pointerId : ℤ) (x y : ℚ) :
    KeyboardFocusTapTracker × Bool :=
  match t.candidate with
  | none => (t, false)
  | some current =>
    if pointerId ≠ current.pointerId then ({ t with candidate := none }, false)
    else
      let valid := (t.update pointerId x y).1.candidate.isSome
      ({ t with candidate := none }, valid)

def cancel (t : KeyboardFocusTapTracker) : KeyboardFocusTapTracker := { t with candidate := none }

end KeyboardFocusTapTracker

/-- A call of the tracker. -/
inductive TrackerCall where
  | begin (pointerId : ℤ) (x y : ℚ)
  | update (pointerId : ℤ) (x y : ℚ)
  | consume (pointerId : ℤ) (x y : ℚ)
  | cancel
  deriving DecidableEq, Repr

namespace KeyboardFocusTapTracker

/-- The tracker after a call. -/
def call (t : KeyboardFocusTapTracker) : TrackerCall → KeyboardFocusTapTracker
  | .begin pointerId x y => t.begin pointerId x y
  | .update pointerId x y => (t.update pointerId x y).1
  | .consume pointerId x y => (t.consume pointerId x y).1
  | .cancel => t.cancel

/-- The tracker after a trace of calls. -/
def calls (t : KeyboardFocusTapTracker) (trace : List TrackerCall) : KeyboardFocusTapTracker :=
  trace.foldl call t

/-- The taps that the consumes of a trace report. -/
def taps (t : KeyboardFocusTapTracker) : List TrackerCall → ℕ
  | [] => 0
  | .consume pointerId x y :: trace =>
    (t.consume pointerId x y).2.toNat + (t.call (.consume pointerId x y)).taps trace
  | other :: trace => (t.call other).taps trace

end KeyboardFocusTapTracker

/-! ### One call -/

/-- A position no further than the slop from where the pointer went down. -/
def WithinSlop (slopPx : ℚ) (current : Candidate) (x y : ℚ) : Prop :=
  (x - current.downX) ^ 2 + (y - current.downY) ^ 2 ≤ slopPx ^ 2

/-- The call leaves the candidate as it is. -/
def Keeps (slopPx : ℚ) (current : Candidate) : TrackerCall → Prop
  | .update pointerId x y => pointerId = current.pointerId → WithinSlop slopPx current x y
  | .begin .. | .consume .. | .cancel => False

namespace KeyboardFocusTapTracker

variable (t : KeyboardFocusTapTracker)

theorem beyond_iff (slopPx : ℚ) (current : Candidate) (x y : ℚ) :
    (x - current.downX) * (x - current.downX) + (y - current.downY) * (y - current.downY) >
      slopPx * slopPx ↔ ¬ WithinSlop slopPx current x y := by
  rw [WithinSlop, not_le, gt_iff_lt, pow_two, pow_two, pow_two]

theorem update_candidate_iff (pointerId : ℤ) (x y : ℚ) (c : Candidate) :
    (t.update pointerId x y).1.candidate = some c ↔
      t.candidate = some c ∧ (pointerId = c.pointerId → WithinSlop t.slopPx c x y) := by
  obtain ⟨slopPx, _ | current⟩ := t
  · simp [update]
  · by_cases hid : pointerId = current.pointerId
    · have hupdate : update ⟨slopPx, some current⟩ pointerId x y =
          if (x - current.downX) * (x - current.downX) +
              (y - current.downY) * (y - current.downY) > slopPx * slopPx
          then (⟨slopPx, none⟩, false) else (⟨slopPx, some current⟩, true) := by
        show (if _ then _ else _) = _
        rw [if_neg (not_not.mpr hid)]
      rw [hupdate]
      by_cases hw : WithinSlop slopPx current x y
      · rw [if_neg ((beyond_iff slopPx current x y).not.mpr (not_not.mpr hw))]
        exact ⟨fun h => ⟨h, fun _ => Option.some.inj h ▸ hw⟩, fun h => h.1⟩
      · rw [if_pos ((beyond_iff slopPx current x y).mpr hw)]
        refine iff_of_false nofun ?_
        rintro ⟨hc, h⟩
        obtain rfl := Option.some.inj hc
        exact hw (h hid)
    · have hupdate : update ⟨slopPx, some current⟩ pointerId x y =
          (⟨slopPx, some current⟩, true) := by
        show (if _ then _ else _) = _
        rw [if_pos hid]
      rw [hupdate]
      exact ⟨fun h => ⟨h, fun h' => absurd (Option.some.inj h ▸ h') hid⟩, fun h => h.1⟩

theorem update_slopPx (pointerId : ℤ) (x y : ℚ) : (t.update pointerId x y).1.slopPx = t.slopPx := by
  unfold update
  split
  · rfl
  · split
    · rfl
    · simp only
      split <;> rfl

/-- A consume reports the candidate if it is the pointer's and the position is within the slop. -/
theorem consume_true_iff (pointerId : ℤ) (x y : ℚ) :
    (t.consume pointerId x y).2 = true ↔
      ∃ c, t.candidate = some c ∧ c.pointerId = pointerId ∧ WithinSlop t.slopPx c x y := by
  rcases ht : t.candidate with _ | current
  · simp [consume, ht]
  · simp only [consume, ht]
    by_cases hid : pointerId = current.pointerId
    · simp only [hid, ne_eq, not_true_eq_false, if_false, Option.isSome_iff_exists,
        update_candidate_iff, ht, Option.some.injEq]
      constructor
      · rintro ⟨c, rfl, hw⟩
        exact ⟨_, rfl, rfl, hw rfl⟩
      · rintro ⟨c, rfl, -, hw⟩
        exact ⟨_, rfl, fun _ => hw⟩
    · simp only [ne_eq, hid, not_false_eq_true, if_true, Bool.false_eq_true, Option.some.injEq,
        false_iff, not_exists, not_and]
      rintro c rfl h
      exact absurd h.symm hid

theorem consume_candidate (pointerId : ℤ) (x y : ℚ) :
    (t.consume pointerId x y).1 = { t with candidate := none } := by
  rcases t with ⟨slopPx, _ | current⟩
  · rfl
  · simp only [consume]
    split <;> rfl

theorem call_slopPx (c : TrackerCall) : (t.call c).slopPx = t.slopPx := by
  cases c with
  | begin => rfl
  | update pointerId x y => exact t.update_slopPx pointerId x y
  | consume pointerId x y => rw [call, consume_candidate]
  | cancel => rfl

/-- What a call does to the candidate. -/
theorem call_candidate_iff (op : TrackerCall) (c : Candidate) :
    (t.call op).candidate = some c ↔
      op = .begin c.pointerId c.downX c.downY ∨ t.candidate = some c ∧ Keeps t.slopPx c op := by
  cases op with
  | begin pointerId x y =>
    obtain ⟨cId, cX, cY⟩ := c
    simp [call, begin, Keeps]
  | update pointerId x y => simp [call, update_candidate_iff, Keeps]
  | consume pointerId x y => simp [call, consume_candidate, Keeps]
  | cancel => simp [call, cancel, Keeps]

end KeyboardFocusTapTracker

/-! ### Traces -/

/-- The candidate that the trace leaves: that of its last `begin`, kept by every call since. -/
def Pending (slopPx : ℚ) (trace : List TrackerCall) (c : Candidate) : Prop :=
  ∃ earlier later, trace = earlier ++ .begin c.pointerId c.downX c.downY :: later ∧
    ∀ op ∈ later, Keeps slopPx c op

theorem not_pending_nil (slopPx : ℚ) (c : Candidate) : ¬ Pending slopPx [] c := by
  rintro ⟨earlier, later, h, -⟩
  simp at h

theorem pending_concat (slopPx : ℚ) (trace : List TrackerCall) (op : TrackerCall) (c : Candidate) :
    Pending slopPx (trace ++ [op]) c ↔
      op = .begin c.pointerId c.downX c.downY ∨ Pending slopPx trace c ∧ Keeps slopPx c op := by
  constructor
  · rintro ⟨earlier, later, h, hkeep⟩
    rcases List.eq_nil_or_concat' later with rfl | ⟨later, last, rfl⟩
    · obtain ⟨-, hop⟩ := List.append_inj' h rfl
      exact .inl (List.singleton_injective hop)
    · rw [← List.cons_append, ← List.append_assoc] at h
      obtain ⟨htrace, hop⟩ := List.append_inj' h rfl
      obtain rfl := List.singleton_injective hop
      exact .inr ⟨⟨earlier, later, htrace, fun o ho => hkeep o (List.mem_append_left _ ho)⟩,
        hkeep _ (List.mem_append_right _ (List.mem_singleton_self _))⟩
  · rintro (rfl | ⟨⟨earlier, later, rfl, hkeep⟩, hop⟩)
    · exact ⟨trace, [], rfl, by simp⟩
    · refine ⟨earlier, later ++ [op], by simp, fun o ho => ?_⟩
      rcases List.mem_append.mp ho with ho | ho
      · exact hkeep o ho
      · exact List.mem_singleton.mp ho ▸ hop

namespace KeyboardFocusTapTracker

theorem calls_slopPx (t : KeyboardFocusTapTracker) (trace : List TrackerCall) :
    (t.calls trace).slopPx = t.slopPx := by
  induction trace generalizing t with
  | nil => rfl
  | cons op trace ih => exact (ih (t.call op)).trans (t.call_slopPx op)

/-- **The candidate is what the trace says.**  By induction on the trace from its end, where the
last call either begins the candidate or keeps it. -/
theorem candidate_iff_pending (slopPx : ℚ) (trace : List TrackerCall) (c : Candidate) :
    ((ofSlop slopPx).calls trace).candidate = some c ↔ Pending slopPx trace c := by
  induction trace using List.reverseRecOn with
  | nil =>
    exact iff_of_false (by simp [calls, ofSlop]) (not_pending_nil slopPx c)
  | append_singleton trace op ih =>
    have hstep : (ofSlop slopPx).calls (trace ++ [op]) = ((ofSlop slopPx).calls trace).call op := by
      simp [calls]
    rw [hstep, call_candidate_iff, calls_slopPx, ih, pending_concat]
    rfl

/-- Calls without a `begin` report a tap only if there is a candidate, and then one at most. -/
theorem taps_le (t : KeyboardFocusTapTracker) (trace : List TrackerCall)
    (hbegin : ∀ pointerId x y, .begin pointerId x y ∉ trace) :
    t.taps trace ≤ t.candidate.isSome.toNat := by
  induction trace generalizing t with
  | nil => exact Nat.zero_le _
  | cons op trace ih =>
    have hrest := ih (t.call op) fun pointerId x y h => hbegin pointerId x y (.tail _ h)
    -- a call that is no `begin` leaves no candidate where there was none
    have hnone : (t.call op).candidate.isSome.toNat ≤ t.candidate.isSome.toNat := by
      refine Bool.toNat_le_toNat fun h => ?_
      obtain ⟨c, hc⟩ := Option.isSome_iff_exists.mp h
      rcases (t.call_candidate_iff op c).mp hc with rfl | ⟨hc', -⟩
      · exact absurd (.head _) (hbegin _ _ _)
      · exact Option.isSome_iff_exists.mpr ⟨c, hc'⟩
    cases op with
    | begin pointerId x y => exact absurd (.head _) (hbegin pointerId x y)
    | update pointerId x y => exact hrest.trans hnone
    | cancel => exact hrest.trans hnone
    | consume pointerId x y =>
      have hforgot : (t.call (.consume pointerId x y)).candidate = none := by
        rw [call, consume_candidate]
      rw [hforgot] at hrest
      have htap : (t.consume pointerId x y).2.toNat ≤ t.candidate.isSome.toNat := by
        refine Bool.toNat_le_toNat fun h => ?_
        obtain ⟨c, hc, -⟩ := (t.consume_true_iff pointerId x y).mp h
        exact Option.isSome_iff_exists.mpr ⟨c, hc⟩
      simp only [taps]
      have hzero : Bool.toNat (none : Option Candidate).isSome = 0 := rfl
      omega

/-- **A tap is consumed exactly if one is pending.**  After any trace, `consume` reports a tap
exactly if the last `begin` was the pointer's, no `cancel` and no `consume` came after it, and every
update of the pointer since, and the position now, is within the slop of where it went down; and
until the next `begin` only one is reported. -/
theorem consume_iff (slopPx : ℚ) (trace : List TrackerCall) :
    (∀ pointerId x y, (((ofSlop slopPx).calls trace).consume pointerId x y).2 = true ↔
      ∃ c, Pending slopPx trace c ∧ c.pointerId = pointerId ∧ WithinSlop slopPx c x y) ∧
    ∀ pointerId x y later, (∀ pointerId' x' y', .begin pointerId' x' y' ∉ later) →
      (((ofSlop slopPx).calls trace).begin pointerId x y).taps later ≤ 1 := by
  constructor
  · intro pointerId x y
    simp only [consume_true_iff, candidate_iff_pending, calls_slopPx]
    rfl
  · intro pointerId x y later hbegin
    exact (taps_le _ later hbegin).trans (Bool.toNat_le _)

/-- Another pointer moves far between the two calls, and the tap is reported once. -/
theorem consume_tap :
    (((ofSlop 10).calls [.begin 1 100 100, .update 2 500 0]).consume 1 104 103).2 = true ∧
      ((ofSlop 10).calls [.cancel] |>.begin 1 100 100).taps
        [.consume 1 104 103, .consume 1 104 103] ≤ 1 := by
  refine ⟨((consume_iff 10 [.begin 1 100 100, .update 2 500 0]).1 1 104 103).mpr ?_,
    (consume_iff 10 [.cancel]).2 1 100 100 _ (by simp)⟩
  refine ⟨⟨1, 100, 100⟩, ⟨[], [.update 2 500 0], rfl, ?_⟩, rfl, ?_⟩
  · intro op hop
    obtain rfl := List.mem_singleton.mp hop
    exact fun h => absurd h (by decide)
  · norm_num [WithinSlop]

end KeyboardFocusTapTracker

end Wldroid.Ui
