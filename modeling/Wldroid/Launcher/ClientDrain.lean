import Wldroid.Launcher.DesktopLauncher

/-!
# Waiting until the clients have drained

The polls that `awaitClientsDrained` makes after the launch process has exited.

* `ClientPoll` — what one round of the loop finds, and when;
* `drainLoop`, `awaitClientsDrained` — the polls made when the wait returns;
* `GraceMet` — the last polls found no client, for as long as the grace period;
* `DrainedSince` — what the start of the drain period says of the polls made so far, kept by a poll;
* **`awaitClientsDrained_returns`** — the wait returns at its first look or after a whole period.
-/

namespace Wldroid.Launcher

/-! ### The wait -/

/-- A round of the loop: the launcher's state before the delay, and then whether the compositor
runs, how many clients there are, when they were counted, and the readings of `System.nanoTime()`
for a period that starts and for the time elapsed. -/
structure ClientPoll where
  state : DesktopLauncherState
  compositorRunning : Bool
  count : ℤ
  time : ℕ
  started : ℕ
  now : ℕ
  time_le : time ≤ started

/-- The polls made when the loop of `awaitClientsDrained` returns; `none` while it goes on. -/
def drainLoop (drainStartNanos : ℕ) : List ClientPoll → Option ℕ
  | [] => none
  | poll :: polls =>
    if poll.state ≠ .running then some 0
    else
      match drainPoll drainStartNanos poll.compositorRunning poll.count poll.started poll.now with
      | none => some 1
      | some start => (drainLoop start polls).map (· + 1)

/-- `awaitClientsDrained`: a first look, and the loop if it found a client. -/
def awaitClientsDrained (state : DesktopLauncherState) (compositorRunning : Bool)
    (initialClients : ℤ) (polls : List ClientPoll) : Option ℕ :=
  if sessionComplete state compositorRunning initialClients then some 0 else drainLoop 0 polls

/-! ### The grace period -/

/-- The last of the polls made, from some `first` on, found no client, and the grace period has
passed since that one. -/
def GraceMet (made : List ClientPoll) : Prop :=
  ∃ earlier period first last, made = earlier ++ period ∧ period.head? = some first ∧
    period.getLast? = some last ∧ (∀ poll ∈ period, poll.count ≤ 0) ∧
    first.time + clientDrainGraceMs * 1000000 ≤ last.now

/-- The drain period, unless it has not started, began at the first of the polls without a client
that came last. -/
def DrainedSince (drainStartNanos : ℕ) (made : List ClientPoll) : Prop :=
  drainStartNanos = 0 ∨ ∃ earlier period first, made = earlier ++ period ∧
    period.head? = some first ∧ (∀ poll ∈ period, poll.count ≤ 0) ∧ first.started = drainStartNanos

theorem not_graceMet_nil : ¬ GraceMet [] := by
  rintro ⟨earlier, period, first, last, hmade, hfirst, -⟩
  obtain ⟨-, rfl⟩ := List.append_eq_nil_iff.mp hmade.symm
  cases hfirst

/-- A poll without a client continues the period, or starts one. -/
theorem DrainedSince.poll {start : ℕ} {made : List ClientPoll} (h : DrainedSince start made)
    (poll : ClientPoll) (hcount : poll.count ≤ 0) :
    ∃ earlier period first, made ++ [poll] = earlier ++ period ∧ period.head? = some first ∧
      period.getLast? = some poll ∧ (∀ p ∈ period, p.count ≤ 0) ∧
      first.started = if start = 0 then poll.started else start := by
  rcases h with hzero | ⟨earlier, period, first, rfl, hfirst, hall, hstart⟩
  · refine ⟨made, [poll], poll, rfl, rfl, rfl, fun p hp => ?_, (if_pos hzero).symm⟩
    exact List.mem_singleton.mp hp ▸ hcount
  · by_cases hzero : start = 0
    · refine ⟨earlier ++ period, [poll], poll, rfl, rfl, rfl, fun p hp => ?_, (if_pos hzero).symm⟩
      exact List.mem_singleton.mp hp ▸ hcount
    · refine ⟨earlier, period ++ [poll], first, List.append_assoc .., ?_, ?_, fun p hp => ?_, ?_⟩
      · rw [List.head?_append, hfirst]
        rfl
      · exact List.getLast?_concat ..
      · rcases List.mem_append.mp hp with hp | hp
        · exact hall p hp
        · exact List.mem_singleton.mp hp ▸ hcount
      · rw [if_neg hzero, hstart]

/-- A poll of a running compositor either keeps what the start of the period says, or ends the wait
with the grace period met. -/
theorem drainPoll_spec {start : ℕ} {made : List ClientPoll} (h : DrainedSince start made)
    (poll : ClientPoll) (hrunning : poll.compositorRunning = true) :
    match drainPoll start poll.compositorRunning poll.count poll.started poll.now with
    | none => GraceMet (made ++ [poll])
    | some next => DrainedSince next (made ++ [poll]) := by
  by_cases hcount : 0 < poll.count
  · have hpoll : drainPoll start poll.compositorRunning poll.count poll.started poll.now =
        some 0 := by
      simp [drainPoll, hrunning, hcount]
    rw [hpoll]
    exact .inl rfl
  · obtain ⟨earlier, period, first, hmade, hfirst, hlast, hall, hstart⟩ :=
      h.poll poll (not_lt.mp hcount)
    have hpoll : drainPoll start poll.compositorRunning poll.count poll.started poll.now =
        if clientDrainGraceMs ≤ (poll.now - first.started) / 1000000 then none
        else some first.started := by
      simp [drainPoll, hrunning, hcount, hstart]
    rw [hpoll]
    by_cases hgrace : clientDrainGraceMs ≤ (poll.now - first.started) / 1000000
    · rw [if_pos hgrace]
      refine ⟨earlier, period, first, poll, hmade, hfirst, hlast, hall, ?_⟩
      have hpos : 0 < clientDrainGraceMs * 1000000 := Nat.mul_pos (by decide) (by decide)
      have hmul : clientDrainGraceMs * 1000000 ≤ poll.now - first.started :=
        (Nat.le_div_iff_mul_le (by decide)).mp hgrace
      calc
        first.time + clientDrainGraceMs * 1000000
            ≤ first.started + (poll.now - first.started) := Nat.add_le_add first.time_le hmul
        _ = poll.now := Nat.add_sub_of_le (Nat.lt_of_sub_pos (hpos.trans_le hmul)).le
    · rw [if_neg hgrace]
      exact .inr ⟨earlier, period, first, hmade, hfirst, hall, rfl⟩

/-- By induction on the polls to come, with what the start of the period says of those made. -/
theorem drainLoop_returns {start : ℕ} {made polls : List ClientPoll} {n : ℕ}
    (h : DrainedSince start made)
    (hrunning : ∀ poll ∈ polls, poll.state = .running ∧ poll.compositorRunning = true)
    (hn : drainLoop start polls = some n) : GraceMet (made ++ polls.take n) := by
  induction polls generalizing start made n with
  | nil => cases hn
  | cons poll polls ih =>
    obtain ⟨⟨hstate, hcompositor⟩, hrest⟩ := List.forall_mem_cons.mp hrunning
    have hstep := drainPoll_spec h poll hcompositor
    rw [drainLoop, if_neg (not_not.mpr hstate)] at hn
    cases hpoll : drainPoll start poll.compositorRunning poll.count poll.started poll.now with
    | none =>
      rw [hpoll] at hn hstep
      obtain rfl : 1 = n := Option.some.inj hn
      exact hstep
    | some next =>
      rw [hpoll] at hn hstep
      obtain ⟨m, hm, rfl⟩ := Option.map_eq_some_iff.mp hn
      have hlater := ih hstep hrest hm
      rw [List.append_assoc] at hlater
      exact hlater

/-- **The wait returns at its first look, or after a whole grace period.**  While the launcher and
the compositor run, it makes no poll exactly if the first look finds no client; and if it returns
after polls, the last of these found no client for as long as the grace period. -/
theorem awaitClientsDrained_returns (initialClients : ℤ) (polls : List ClientPoll) (n : ℕ)
    (hrunning : ∀ poll ∈ polls, poll.state = .running ∧ poll.compositorRunning = true)
    (hn : awaitClientsDrained .running true initialClients polls = some n) :
    if initialClients ≤ 0 then n = 0 else GraceMet (polls.take n) := by
  by_cases hinitial : initialClients ≤ 0
  · have hfirst : awaitClientsDrained .running true initialClients polls = some 0 := by
      simp [awaitClientsDrained, sessionComplete, hinitial]
    rw [if_pos hinitial]
    exact (Option.some.inj (hfirst.symm.trans hn)).symm
  · have hloop : awaitClientsDrained .running true initialClients polls = drainLoop 0 polls := by
      simp [awaitClientsDrained, sessionComplete, hinitial]
    rw [if_neg hinitial]
    have hstart : DrainedSince 0 [] := .inl rfl
    exact drainLoop_returns hstart hrunning (hloop.symm.trans hn)

/-- A poll made at a time, by clocks that stand still during it. -/
def ClientPoll.at (time : ℕ) (count : ℤ) : ClientPoll :=
  ⟨.running, true, count, time, time, time, le_rfl⟩

/-- The client comes back once, and the period starts again. -/
theorem reconnected_returns :
    GraceMet [.at 1000000000 0, .at 2000000000 1, .at 3000000000 0, .at 8000000000 0] :=
  awaitClientsDrained_returns 1
    [.at 1000000000 0, .at 2000000000 1, .at 3000000000 0, .at 8000000000 0, .at 9000000000 1] 4
    (by simp [ClientPoll.at]) (by decide)

/-- The launch process exits while its client reconnects: the wait is over before the first poll. -/
theorem reconnecting_returns_early :
    awaitClientsDrained .running true 0 [.at 1000000000 1] = some 0 ∧
      ¬ GraceMet ([ClientPoll.at 1000000000 1].take 0) :=
  ⟨by decide, not_graceMet_nil⟩

end Wldroid.Launcher
