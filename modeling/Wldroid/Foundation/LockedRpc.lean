import Wldroid.Foundation.FifoRpc

/-!
# One lock around every exchange

The discipline under which calls over one stream stay in sync: whoever writes or reads holds the
lock, writes whole requests, reads each answer to the end before it writes again or lets go of the
lock, and touches the shared state in that time only.

* `Mode` — what a call knows: a lower bound of the shared state outside the lock; inside, the state
  itself, the part of a request written, and the answer that is owed;
* `Speaks` — the discipline, along every path of a program;
* `rpcInv_of_reachable` — what the discipline keeps in every reachable state;
* `inSync_of_reachable` — **soundness**: if all handlers keep the discipline, every reachable state
  is in sync.
-/

namespace Wldroid.Foundation

variable {σ β φ ρ α ω : Type}

/-! ### The discipline -/

/-- What a call knows. -/
inductive Mode (σ β φ : Type) where
  | outside (known : σ)
  | inside (exact : σ) (written : List β) (owed : List (Item β φ))

/-- No whole request begins these bytes. -/
def Protocol.Partial (P : Protocol β φ α) (bytes : List β) : Prop :=
  ∀ request, P.complete request → ¬ request <+: bytes

/-- The server never answers these requests, or always. -/
def Protocol.Definite (P : Protocol β φ α) (request : List β) : Prop :=
  (∀ a, P.respond request a = []) ∨ ∀ a, P.respond request a ≠ []

section Discipline

variable [Preorder σ] (P : Protocol β φ α) (free : σ → Prop)

/-- **The discipline.**  `free` is what holds of the shared state while nobody has the lock; outside
the lock the state is only known to grow. -/
def Speaks : Prog σ β φ ρ → Mode σ β φ → Prop
  | .done _, .outside _ => True
  | .done _, .inside _ _ _ => False
  | .lock next, .outside known => ∀ y, known ≤ y → free y → Speaks next (.inside y [] [])
  | .lock _, .inside _ _ _ => False
  | .unlock _, .outside _ => False
  | .unlock next, .inside x written owed =>
      written = [] ∧ owed = [] ∧ free x ∧ Speaks next (.outside x)
  | .load next, .outside known => ∀ y, known ≤ y → Speaks (next y) (.outside y)
  | .load next, .inside x written owed => Speaks (next x) (.inside x written owed)
  | .store _ _, .outside _ => False
  | .store f next, .inside x written owed => x ≤ f x ∧ Speaks next (.inside (f x) written owed)
  | .write _ _, .outside _ => False
  | .write bytes next, .inside x written owed =>
      owed = [] ∧
        (P.Partial (written ++ bytes) ∧ Speaks next (.inside x (written ++ bytes) []) ∨
          P.complete (written ++ bytes) ∧ P.Definite (written ++ bytes) ∧
            ∀ a, Speaks next (.inside x [] (P.respond (written ++ bytes) a)))
  | .read _ _, .outside _ => False
  | .read count next, .inside x written owed =>
      written = [] ∧ ∃ bytes rest, owed = bytes.map Item.byte ++ rest ∧ bytes.length = count ∧
        Speaks (next bytes) (.inside x [] rest)
  | .recvFd _, .outside _ => False
  | .recvFd next, .inside x written owed =>
      written = [] ∧ ∃ b f rest, owed = .fd b f :: rest ∧
        Speaks (next (some f)) (.inside x [] rest)

end Discipline

/-! ### Whole and partial requests -/

section Requests

variable {P : Protocol β φ α}

theorem Protocol.partial_nil : P.Partial [] := by
  intro request hrequest hbegins
  exact P.complete_ne_nil request hrequest (List.prefix_nil.mp hbegins)

/-- What is left of the bytes begins no whole request either. -/
theorem Protocol.Partial.of_append {bytes more : List β} (h : P.Partial (bytes ++ more)) :
    P.Partial bytes :=
  fun request hrequest hbegins => h request hrequest (hbegins.trans (List.prefix_append _ _))

/-- A whole request is partial before its last byte. -/
theorem Protocol.partial_of_complete {bytes more : List β} (h : P.complete (bytes ++ more))
    (hmore : more ≠ []) : P.Partial bytes := by
  intro request hrequest hbegins
  have heq := P.frames_apart request (bytes ++ more) hrequest h
    (hbegins.trans (List.prefix_append _ _))
  have hle := hbegins.length_le
  have hpos := List.length_pos_iff.mpr hmore
  rw [heq, List.length_append] at hle
  omega

/-- Whole requests that are never answered. -/
inductive Silent (P : Protocol β φ α) : List β → Prop where
  | nil : Silent P []
  | cons {request rest : List β} : P.complete request → (∀ a, P.respond request a = []) →
      Silent P rest → Silent P (request ++ rest)

theorem Silent.append {l l' : List β} (h : Silent P l) (h' : Silent P l') : Silent P (l ++ l') := by
  induction h with
  | nil => exact h'
  | cons hrequest hsilent _ ih =>
    rw [List.append_assoc]
    exact .cons hrequest hsilent ih

/-- A whole request taken off the stream is a silent one, or no silent one is left before it. -/
theorem Silent.take {request old new rest : List β} (h : Silent P old)
    (hrequest : P.complete request) (heq : old ++ new = request ++ rest) :
    (∃ old', old = request ++ old' ∧ rest = old' ++ new ∧ Silent P old' ∧
      ∀ a, P.respond request a = []) ∨
    old = [] ∧ new = request ++ rest := by
  cases h with
  | nil => exact .inr ⟨rfl, heq⟩
  | @cons first old' hfirst hsilent hold =>
    have hsame : first = request := by
      rw [List.append_assoc] at heq
      rcases List.append_eq_append_iff.mp heq with ⟨d, hd, _⟩ | ⟨d, hd, _⟩
      · exact P.frames_apart _ _ hfirst hrequest (hd ▸ List.prefix_append _ _)
      · exact (P.frames_apart _ _ hrequest hfirst (hd ▸ List.prefix_append _ _)).symm
    subst hsame
    rw [List.append_assoc] at heq
    exact .inl ⟨old', rfl, (List.append_cancel_left heq).symm, hold, hsilent⟩

/-- The same with the bytes' origins. -/
theorem Silent.take_tagged {taken old new rest : List (β × ℕ)} (h : Silent P (old.map Prod.fst))
    (htaken : P.complete (taken.map Prod.fst)) (heq : old ++ new = taken ++ rest) :
    (∃ old', rest = old' ++ new ∧ Silent P (old'.map Prod.fst) ∧
      ∀ a, P.respond (taken.map Prod.fst) a = []) ∨
    old = [] ∧ new = taken ++ rest := by
  have hmap := congrArg (List.map Prod.fst) heq
  rw [List.map_append, List.map_append] at hmap
  rcases h.take htaken hmap with ⟨old', hold, _, hsilent, hrespond⟩ | ⟨hnil, _⟩
  · obtain ⟨first, old', rfl, hfirst, rfl⟩ := List.map_eq_append_iff.mp hold
    rw [List.append_assoc] at heq
    have hlength : first.length = taken.length := by
      simpa using congrArg List.length hfirst
    exact .inl ⟨old', (List.append_inj heq hlength).2.symm, hsilent, hrespond⟩
  · rw [List.map_eq_nil_iff] at hnil
    subst hnil
    exact .inr ⟨rfl, heq⟩

/-- A request whose bytes all come from one call comes from no other. -/
theorem forall_mem_tagged_iff {request : List β} (h : request ≠ []) (i j : ℕ) :
    (∀ b ∈ request.map fun b => (b, i), b.2 = j) ↔ i = j := by
  constructor
  · intro hall
    obtain ⟨b, hb⟩ := List.exists_mem_of_ne_nil request h
    exact hall (b, i) (List.mem_map.mpr ⟨b, hb, rfl⟩)
  · rintro rfl c hc
    obtain ⟨b, _, rfl⟩ := List.mem_map.mp hc
    rfl

end Requests

/-! ### The invariant -/

section Invariant

variable [Preorder σ] {P : Protocol β φ α} {free : σ → Prop}

/-- What the streams are like while a call holds the lock.  Before the holder's bytes only silent
requests are left.  The holder has written part of a request and is owed what is unread, or it has
written a whole request and will be owed the answer. -/
inductive Holding (P : Protocol β φ α) (free : σ → Prop) (shared : σ) (i : ℕ)
    (p : Prog σ β φ ρ) : List (β × ℕ) → List (Item β φ) → Prop where
  | served {old : List (β × ℕ)} {written : List β} {owed : List (Item β φ)} :
      Silent P (old.map Prod.fst) → P.Partial written →
      Speaks P free p (.inside shared written owed) →
      Holding P free shared i p (old ++ written.map fun b => (b, i)) owed
  | asked {old : List (β × ℕ)} {request : List β} :
      Silent P (old.map Prod.fst) → P.complete request → (∀ a, P.respond request a ≠ []) →
      (∀ a, Speaks P free p (.inside shared [] (P.respond request a))) →
      Holding P free shared i p (old ++ request.map fun b => (b, i)) []

/-- The state of the lock and the streams. -/
def RpcState.Channel (P : Protocol β φ α) (free : σ → Prop) (s : RpcState σ β φ ρ) : Prop :=
  match s.holder with
  | none => free s.shared ∧ Silent P (s.toServer.map Prod.fst) ∧ s.toClient = []
  | some i => ∃ p, s.calls i = some p ∧ Holding P free s.shared i p s.toServer s.toClient

/-- What holds in every reachable state. -/
structure RpcInv (P : Protocol β φ α) (free : σ → Prop) (s : RpcState σ β φ ρ) : Prop where
  channel : s.Channel P free
  outside : ∀ i p, s.calls i = some p → s.holder ≠ some i →
    ∃ known, known ≤ s.shared ∧ Speaks P free p (.outside known)
  accounts : ∀ i, s.answered i = s.received i ++ if s.holder = some i then s.toClient else []

/-! ### Partial reads and writes -/

section Parts

variable {x : σ} {written : List β} {owed : List (Item β φ)}

/-- The part of a read that has come is part of the answer, and the rest of the read speaks. -/
theorem Speaks.readRest {count n : ℕ} {next : List β → Prog σ β φ ρ}
    (h : Speaks P free (.read count next) (.inside x written owed)) (hn : n ≤ count) :
    Speaks P free (.readRest count ((owed.take n).map Item.value) next)
        (.inside x written (owed.drop n)) ∧
      (owed.take n).map Item.plain = owed.take n := by
  obtain ⟨hwritten, bytes, rest, howed, hcount, hnext⟩ := h
  have htake : owed.take n = (bytes.take n).map Item.byte := by
    rw [howed, List.take_append_of_le_length (by simp; omega), List.map_take]
  have hdrop : owed.drop n = (bytes.drop n).map Item.byte ++ rest := by
    rw [howed, List.drop_append_of_le_length (by simp; omega), List.map_drop]
  have hvalue : (owed.take n).map Item.value = bytes.take n := by
    rw [htake, List.map_map]
    exact List.map_id _
  have hlength : (bytes.take n).length = n := by
    rw [List.length_take]
    omega
  refine ⟨?_, ?_⟩
  · rw [hvalue, hdrop, Prog.readRest, hlength]
    by_cases hall : n = count
    · have hdone : bytes.drop n = [] := List.drop_eq_nil_iff.mpr (by omega)
      rw [if_pos hall, List.take_of_length_le (by omega), hdone, hwritten]
      exact hnext
    · rw [if_neg hall]
      refine ⟨hwritten, bytes.drop n, rest, rfl, by rw [List.length_drop]; omega, ?_⟩
      show Speaks P free (next (bytes.take n ++ bytes.drop n)) _
      rw [List.take_append_drop]
      exact hnext
  · rw [htake, List.map_map]
    rfl

/-- With part of the bytes written nothing whole has been sent yet, and the rest speaks. -/
theorem Speaks.writeMore {part left : List β} {next : Prog σ β φ ρ} (hleft : left ≠ [])
    (h : Speaks P free (.write (part ++ left) next) (.inside x written owed)) :
    P.Partial (written ++ part) ∧
      Speaks P free (.write left next) (.inside x (written ++ part) owed) := by
  obtain ⟨howed, hcases⟩ := h
  rw [← List.append_assoc] at hcases
  refine ⟨?_, howed, hcases⟩
  rcases hcases with ⟨hbegun, _⟩ | ⟨hcomplete, _⟩
  · exact hbegun.of_append
  · exact Protocol.partial_of_complete hcomplete hleft

end Parts

/-! ### The holder's steps -/

section Holder

variable {shared : σ} {i : ℕ} {toServer : List (β × ℕ)} {toClient : List (Item β φ)}

theorem Holding.load {next : σ → Prog σ β φ ρ}
    (h : Holding P free shared i (.load next) toServer toClient) :
    Holding P free shared i (next shared) toServer toClient := by
  cases h with
  | served hold hbegun hspeaks => exact .served hold hbegun hspeaks
  | asked hold hrequest hanswer hspeaks => exact .asked hold hrequest hanswer hspeaks

theorem Holding.store [Nonempty α] {f : σ → σ} {next : Prog σ β φ ρ}
    (h : Holding P free shared i (.store f next) toServer toClient) :
    shared ≤ f shared ∧ Holding P free (f shared) i next toServer toClient := by
  cases h with
  | served hold hbegun hspeaks => exact ⟨hspeaks.1, .served hold hbegun hspeaks.2⟩
  | asked hold hrequest hanswer hspeaks =>
    exact ⟨(hspeaks (Classical.arbitrary α)).1,
      .asked hold hrequest hanswer fun a => (hspeaks a).2⟩

theorem Holding.unlock [Nonempty α] {next : Prog σ β φ ρ}
    (h : Holding P free shared i (.unlock next) toServer toClient) :
    free shared ∧ Silent P (toServer.map Prod.fst) ∧ toClient = [] ∧
      Speaks P free next (.outside shared) := by
  cases h with
  | @served old written owed hold hbegun hspeaks =>
    obtain ⟨rfl, rfl, hfree, hnext⟩ := hspeaks
    rw [List.map_nil, List.append_nil]
    exact ⟨hfree, hold, rfl, hnext⟩
  | asked hold hrequest hanswer hspeaks =>
    exact absurd (hspeaks (Classical.arbitrary α)).2.1 (hanswer _)

theorem Holding.write [Nonempty α] {bytes : List β} {next : Prog σ β φ ρ}
    (h : Holding P free shared i (.write bytes next) toServer toClient) (amount : ℕ) :
    Holding P free shared i (.writeRest (bytes.drop amount) next)
      (toServer ++ (bytes.take amount).map fun b => (b, i)) toClient := by
  cases h with
  | asked hold hrequest hanswer hspeaks =>
    exact absurd (hspeaks (Classical.arbitrary α)).1 (hanswer _)
  | @served old written owed hold hbegun hspeaks =>
    rw [List.append_assoc, ← List.map_append]
    by_cases hleft : bytes.drop amount = []
    · -- the whole write is done: the bytes so far are partial, or a request of either kind
      have hall : bytes.take amount = bytes :=
        List.take_of_length_le (List.drop_eq_nil_iff.mp hleft)
      rw [hall, hleft]
      show Holding P free shared i next _ _
      obtain ⟨rfl, ⟨hmore, hnext⟩ | ⟨hrequest, hsilent | hanswer, hnext⟩⟩ := hspeaks
      · exact .served hold hmore hnext
      · have hnext := hnext (Classical.arbitrary α)
        rw [hsilent] at hnext
        have hwhole : Silent P ((old ++ (written ++ bytes).map fun b => (b, i)).map Prod.fst) := by
          rw [List.map_append, List.map_map]
          refine hold.append ?_
          have := Silent.cons hrequest hsilent .nil
          rw [List.append_nil] at this
          simpa [Function.comp_def] using this
        have hheld := Holding.served (i := i) hwhole Protocol.partial_nil hnext
        rwa [List.map_nil, List.append_nil] at hheld
      · exact .asked hold hrequest hanswer hnext
    · have hrest : Prog.writeRest (bytes.drop amount) next = .write (bytes.drop amount) next := by
        rw [Prog.writeRest, if_neg (by simpa using hleft)]
      rw [hrest]
      rw [← List.take_append_drop amount bytes] at hspeaks
      obtain ⟨hpart, hmore⟩ := hspeaks.writeMore hleft
      exact .served hold hpart hmore

theorem Holding.read {count n : ℕ} {next : List β → Prog σ β φ ρ}
    (h : Holding P free shared i (.read count next) toServer toClient) (hn : n ≤ count) :
    Holding P free shared i (.readRest count ((toClient.take n).map Item.value) next) toServer
        (toClient.drop n) ∧
      (toClient.take n).map Item.plain = toClient.take n := by
  cases h with
  | served hold hbegun hspeaks =>
    obtain ⟨hrest, hplain⟩ := hspeaks.readRest hn
    exact ⟨.served hold hbegun hrest, hplain⟩
  | asked hold hrequest hanswer hspeaks =>
    rw [List.take_nil, List.drop_nil]
    refine ⟨.asked hold hrequest hanswer fun a => ?_, rfl⟩
    have hrest := ((hspeaks a).readRest (Nat.zero_le count)).1
    rwa [List.take_zero, List.drop_zero] at hrest

theorem Holding.recvFd {next : Option φ → Prog σ β φ ρ} {y : Item β φ}
    (h : Holding P free shared i (.recvFd next) toServer (y :: toClient)) :
    Holding P free shared i (next y.attached) toServer toClient := by
  cases h with
  | served hold hbegun hspeaks =>
    obtain ⟨rfl, b, f, rest, howed, hnext⟩ := hspeaks
    obtain ⟨rfl, rfl⟩ := List.cons.inj howed
    exact .served hold hbegun hnext

/-- The holder has not returned. -/
theorem Holding.not_returned [Nonempty α] {p : Prog σ β φ ρ}
    (h : Holding P free shared i p toServer toClient) : ¬ p.Returned := by
  intro hreturned
  cases p with
  | done result =>
    cases h with
    | served _ _ hspeaks => exact hspeaks
    | asked _ _ _ hspeaks => exact hspeaks (Classical.arbitrary α)
  | _ => exact hreturned

/-- Nobody waits in vain: what the holder waits for is there, or it has asked for it. -/
theorem Holding.waits {p : Prog σ β φ ρ} (h : Holding P free shared i p toServer toClient)
    (hp : p.Waits) :
    toClient ≠ [] ∨ ∃ n, P.complete ((toServer.take n).map Prod.fst) := by
  cases h with
  | @served old written owed hold hbegun hspeaks =>
    refine .inl ?_
    cases p with
    | read count next =>
      obtain ⟨_, bytes, rest, rfl, hcount, _⟩ := hspeaks
      have hpos : bytes ≠ [] := by
        rintro rfl
        exact hp hcount.symm
      simp [hpos]
    | recvFd next =>
      obtain ⟨_, b, f, rest, rfl, _⟩ := hspeaks
      simp
    | _ => exact absurd hp id
  | @asked old request hold hrequest hanswer hspeaks =>
    refine .inr ?_
    cases hmap : old.map Prod.fst with
    | nil =>
      obtain rfl := List.map_eq_nil_iff.mp hmap
      exact ⟨request.length, by simpa [Function.comp_def] using hrequest⟩
    | cons b l =>
      rw [hmap] at hold
      generalize hbl : b :: l = bytes at hold
      cases hold with
      | nil => exact absurd hbl (List.cons_ne_nil _ _)
      | @cons first rest hfirst _ _ =>
        refine ⟨first.length, ?_⟩
        have hlen : first.length ≤ old.length := by
          rw [← List.length_map (f := Prod.fst), hmap, hbl, List.length_append]
          omega
        rw [List.take_append_of_le_length hlen, List.map_take, hmap, hbl, List.take_left]
        exact hfirst

end Holder

/-! ### Steps keep the invariant -/

section Steps

variable {s t : RpcState σ β φ ρ} {i : ℕ} {p : Prog σ β φ ρ}

theorem RpcInv.holding (h : RpcInv P free s) (hi : s.holder = some i) (hp : s.calls i = some p) :
    Holding P free s.shared i p s.toServer s.toClient := by
  have hchannel := h.channel
  rw [RpcState.Channel, hi] at hchannel
  obtain ⟨q, hq, hholding⟩ := hchannel
  obtain rfl := Option.some.inj (hp.symm.trans hq)
  exact hholding

theorem RpcInv.unheld (h : RpcInv P free s) (hnone : s.holder = none) :
    free s.shared ∧ Silent P (s.toServer.map Prod.fst) ∧ s.toClient = [] := by
  have hchannel := h.channel
  rwa [RpcState.Channel, hnone] at hchannel

/-- What is unread belongs to the holder, so another call has got all its answers. -/
theorem RpcInv.settled (h : RpcInv P free s) (hi : s.holder ≠ some i) :
    s.received i = s.answered i := by
  rw [h.accounts i, if_neg hi, List.append_nil]

theorem RpcInv.fresh {shared : σ} (hfree : free shared) :
    RpcInv P free (.fresh shared : RpcState σ β φ ρ) where
  channel := ⟨hfree, .nil, rfl⟩
  outside i p hp := by cases hp
  accounts i := rfl

/-- A call outside the lock goes on. -/
theorem RpcInv.goto (h : RpcInv P free s) (hi : s.holder ≠ some i) {known : σ}
    (hle : known ≤ s.shared) (hp : Speaks P free p (.outside known)) :
    RpcInv P free (s.goto i p) where
  channel := by
    have hchannel := h.channel
    unfold RpcState.Channel at hchannel ⊢
    show (match s.holder with
      | none => _
      | some j => _)
    cases hholder : s.holder with
    | none =>
      rw [hholder] at hchannel
      exact hchannel
    | some j =>
      rw [hholder] at hchannel
      obtain ⟨q, hq, hholding⟩ := hchannel
      have hne : j ≠ i := fun hj => hi (hj ▸ hholder)
      exact ⟨q, by rw [RpcState.goto_calls_of_ne _ hne, hq], hholding⟩
  outside j q hq hj := by
    by_cases hji : j = i
    · subst hji
      rw [RpcState.goto_calls_self] at hq
      obtain rfl := Option.some.inj hq
      exact ⟨known, hle, hp⟩
    · rw [RpcState.goto_calls_of_ne _ hji] at hq
      exact h.outside j q hq hj
  accounts := h.accounts

/-- The holder goes on and keeps the lock. -/
theorem RpcInv.held (h : RpcInv P free s) (hi : s.holder = some i) (hholder : t.holder = some i)
    (hcalls : t.calls = Function.update s.calls i (some p)) (hle : s.shared ≤ t.shared)
    (hholding : Holding P free t.shared i p t.toServer t.toClient)
    (hanswered : t.answered = s.answered)
    (hreceived : ∃ got, t.received = Function.update s.received i (s.received i ++ got) ∧
      s.toClient = got ++ t.toClient) : RpcInv P free t where
  channel := by
    rw [RpcState.Channel, hholder]
    exact ⟨p, by rw [hcalls, Function.update_self], hholding⟩
  outside j q hq hj := by
    have hne : j ≠ i := by
      rintro rfl
      exact hj hholder
    rw [hcalls, Function.update_of_ne hne] at hq
    have hother : s.holder ≠ some j := by
      rw [hi]
      exact fun heq => hne (Option.some.inj heq).symm
    obtain ⟨known, hknown, hspeaks⟩ := h.outside j q hq hother
    exact ⟨known, hknown.trans hle, hspeaks⟩
  accounts j := by
    obtain ⟨got, hupdate, hsplit⟩ := hreceived
    have haccount := h.accounts j
    rw [hi, hsplit] at haccount
    rw [hanswered, hupdate, hholder]
    by_cases hji : j = i
    · subst hji
      rw [if_pos rfl] at haccount
      rw [Function.update_self, if_pos rfl, List.append_assoc]
      exact haccount
    · have hne : some i ≠ some j := fun heq => hji (Option.some.inj heq).symm
      rw [if_neg hne] at haccount
      rw [Function.update_of_ne hji, if_neg hne]
      exact haccount

/-- A call takes the lock. -/
theorem RpcInv.lock (h : RpcInv P free s) (hnone : s.holder = none)
    (hp : Speaks P free p (.inside s.shared [] [])) :
    RpcInv P free ({ s with holder := some i }.goto i p) := by
  obtain ⟨_, hsilent, hclient⟩ := h.unheld hnone
  refine ⟨⟨p, RpcState.goto_calls_self .., ?_⟩, fun j q hq hj => ?_, fun j => ?_⟩
  · have hheld := Holding.served (i := i) hsilent Protocol.partial_nil hp
    rw [List.map_nil, List.append_nil] at hheld
    show Holding P free s.shared i p s.toServer s.toClient
    rwa [hclient]
  · have hne : j ≠ i := by
      rintro rfl
      exact hj rfl
    rw [RpcState.goto_calls_of_ne _ hne] at hq
    exact h.outside j q hq (by simp [hnone])
  · have haccount := h.accounts j
    rw [hclient, ite_self] at haccount
    show s.answered j = s.received j ++ if some i = some j then s.toClient else []
    rw [hclient, ite_self]
    exact haccount

/-- The holder lets go of the lock. -/
theorem RpcInv.unlock [Nonempty α] {next : Prog σ β φ ρ} (h : RpcInv P free s)
    (hi : s.holder = some i) (hp : s.calls i = some (.unlock next)) :
    RpcInv P free ({ s with holder := none }.goto i next) := by
  obtain ⟨hfree, hsilent, hclient, hnext⟩ := (h.holding hi hp).unlock
  refine ⟨⟨hfree, hsilent, hclient⟩, fun j q hq hj => ?_, fun j => ?_⟩
  · by_cases hji : j = i
    · subst hji
      rw [RpcState.goto_calls_self] at hq
      obtain rfl := Option.some.inj hq
      exact ⟨s.shared, le_rfl, hnext⟩
    · rw [RpcState.goto_calls_of_ne _ hji] at hq
      refine h.outside j q hq ?_
      rw [hi]
      exact fun heq => hji (Option.some.inj heq).symm
  · have haccount := h.accounts j
    rw [hclient, ite_self] at haccount
    exact haccount

/-- A step of a call outside the lock: it takes the lock or looks at the shared state. -/
theorem RpcInv.run_outside {amount : ℕ} (h : RpcInv P free s) (hi : s.holder ≠ some i)
    (hp : s.calls i = some p) (hrun : s.run i amount p = some t) : RpcInv P free t := by
  obtain ⟨known, hle, hspeaks⟩ := h.outside i p hp hi
  cases p with
  | lock next =>
    simp only [RpcState.run] at hrun
    split at hrun
    · rename_i hnone
      obtain rfl := Option.some.inj hrun
      rw [Option.isNone_iff_eq_none] at hnone
      exact h.lock hnone (hspeaks _ hle (h.unheld hnone).1)
    · cases hrun
  | load next =>
    obtain rfl := Option.some.inj hrun
    exact h.goto hi le_rfl (hspeaks _ hle)
  | done result => cases hrun
  | _ => exact hspeaks.elim

/-- A step of the holder. -/
theorem RpcInv.run_inside [Nonempty α] {amount : ℕ} (h : RpcInv P free s) (hi : s.holder = some i)
    (hp : s.calls i = some p) (hrun : s.run i amount p = some t) : RpcInv P free t := by
  have hholding := h.holding hi hp
  have hsame : ∃ got, s.received = Function.update s.received i (s.received i ++ got) ∧
      s.toClient = got ++ s.toClient :=
    ⟨[], by rw [List.append_nil, Function.update_eq_self], rfl⟩
  cases p with
  | done result => cases hrun
  | lock next =>
    simp only [RpcState.run, hi, Option.isNone_some] at hrun
    cases hrun
  | unlock next =>
    obtain rfl := Option.some.inj hrun
    exact h.unlock hi hp
  | load next =>
    obtain rfl := Option.some.inj hrun
    exact h.held hi hi rfl le_rfl hholding.load rfl hsame
  | store f next =>
    obtain rfl := Option.some.inj hrun
    exact h.held hi hi rfl hholding.store.1 hholding.store.2 rfl hsame
  | write bytes next =>
    obtain rfl := Option.some.inj hrun
    exact h.held hi hi rfl le_rfl (hholding.write amount) rfl hsame
  | read count next =>
    obtain rfl := Option.some.inj hrun
    obtain ⟨hnext, hplain⟩ := hholding.read (min_le_right amount count)
    refine h.held hi hi rfl le_rfl hnext rfl ⟨_, rfl, ?_⟩
    rw [hplain]
    exact (List.take_append_drop _ _).symm
  | recvFd next =>
    cases hclient : s.toClient with
    | nil =>
      rw [RpcState.run, hclient] at hrun
      cases hrun
    | cons y rest =>
      rw [RpcState.run, hclient] at hrun
      obtain rfl := Option.some.inj hrun
      rw [hclient] at hholding
      have hrest : s.toClient.drop 1 = rest := by rw [hclient, List.drop_one, List.tail_cons]
      refine h.held hi hi rfl le_rfl ?_ rfl ⟨[y], rfl, ?_⟩
      · show Holding P free s.shared i _ s.toServer (s.toClient.drop 1)
        rw [hrest]
        exact hholding.recvFd
      · show s.toClient = [y] ++ s.toClient.drop 1
        rw [hrest, hclient, List.singleton_append]

/-- A silent request changes nothing but the stream it is taken off. -/
theorem RpcInv.answer_nil {taken left : List (β × ℕ)} (h : RpcInv P free s)
    (hchannel : RpcState.Channel P free { s with toServer := left }) :
    RpcInv P free (s.answer taken left []) := by
  unfold RpcState.answer
  simp only [List.append_nil, ite_self]
  exact ⟨hchannel, h.outside, h.accounts⟩

/-- The holder's request is answered. -/
theorem RpcInv.answer_holder {request : List β} {items : List (Item β φ)} (h : RpcInv P free s)
    (hi : s.holder = some i) (hp : s.calls i = some p) (hrequest : request ≠ [])
    (hclient : s.toClient = []) (hspeaks : Speaks P free p (.inside s.shared [] items)) :
    RpcInv P free (s.answer (request.map fun b => (b, i)) [] items) where
  channel := by
    rw [RpcState.Channel, show (s.answer _ [] items).holder = some i from hi]
    have hsilent : Silent P (([] : List (β × ℕ)).map Prod.fst) := .nil
    have hheld := Holding.served (i := i) hsilent Protocol.partial_nil hspeaks
    refine ⟨p, hp, ?_⟩
    show Holding P free s.shared i p [] (s.toClient ++ items)
    rwa [hclient]
  outside := h.outside
  accounts j := by
    have haccount := h.accounts j
    rw [hclient, ite_self, List.append_nil] at haccount
    show s.answered j ++ (if ∀ b ∈ request.map fun b => (b, i), b.2 = j then items else []) =
      s.received j ++ if s.holder = some j then s.toClient ++ items else []
    simp only [forall_mem_tagged_iff hrequest, hi, hclient, haccount, List.nil_append,
      Option.some.injEq]

/-- The server takes a request and answers: a silent one from before, or the holder's. -/
theorem RpcInv.serve {n : ℕ} {a : α} (h : RpcInv P free s) (hserve : s.serve P n a = some t) :
    RpcInv P free t := by
  simp only [RpcState.serve] at hserve
  split at hserve
  swap
  · cases hserve
  rename_i htaken
  obtain rfl := Option.some.inj hserve
  have hsplit : s.toServer = s.toServer.take n ++ s.toServer.drop n :=
    (List.take_append_drop n _).symm
  generalize s.toServer.take n = taken at htaken hsplit ⊢
  generalize s.toServer.drop n = left at hsplit ⊢
  by_cases hnone : s.holder = none
  · obtain ⟨hfree, hold, hclient⟩ := h.unheld hnone
    rcases hold.take_tagged htaken ((List.append_nil _).trans hsplit) with
      ⟨old, hleft, hold, hsilent⟩ | ⟨_, hnil⟩
    · rw [hsilent a]
      refine h.answer_nil ?_
      rw [List.append_nil] at hleft
      simp only [RpcState.Channel, hnone]
      exact ⟨hfree, hleft ▸ hold, hclient⟩
    · rw [(List.append_eq_nil_iff.mp hnil.symm).1] at htaken
      exact absurd rfl (P.complete_ne_nil _ htaken)
  · obtain ⟨i, hi⟩ := Option.ne_none_iff_exists'.mp hnone
    have hchannel := h.channel
    rw [RpcState.Channel, hi] at hchannel
    obtain ⟨p, hp, hholding⟩ := hchannel
    generalize hserver : s.toServer = toServer at hholding hsplit
    generalize hclient : s.toClient = toClient at hholding
    cases hholding with
    | @served old written owed hold hbegun hspeaks =>
      rcases hold.take_tagged htaken hsplit with ⟨old', hleft, hold', hsilent⟩ | ⟨_, hnew⟩
      · rw [hsilent a]
        refine h.answer_nil ?_
        simp only [RpcState.Channel, hi]
        exact ⟨p, hp, hleft ▸ hclient ▸ .served hold' hbegun hspeaks⟩
      · have hbegins := congrArg (List.map Prod.fst) hnew
        rw [List.map_append, List.map_map] at hbegins
        exact absurd ⟨_, by simpa [Function.comp_def] using hbegins.symm⟩ (hbegun _ htaken)
    | @asked old request hold hrequest hanswer hspeaks =>
      rcases hold.take_tagged htaken hsplit with ⟨old', hleft, hold', hsilent⟩ | ⟨_, hnew⟩
      · rw [hsilent a]
        refine h.answer_nil ?_
        simp only [RpcState.Channel, hi]
        exact ⟨p, hp, hleft ▸ hclient ▸ .asked hold' hrequest hanswer hspeaks⟩
      · have hmap := congrArg (List.map Prod.fst) hnew
        rw [List.map_append, List.map_map] at hmap
        have hwhole : request = taken.map Prod.fst ++ left.map Prod.fst := by
          simpa [Function.comp_def] using hmap
        have hsame := P.frames_apart _ _ htaken hrequest (hwhole ▸ List.prefix_append _ _)
        have hleft : left = [] := by
          rw [← hsame] at hwhole
          simpa using hwhole
        rw [hleft, List.append_nil] at hnew
        rw [hsame, hleft, ← hnew]
        exact h.answer_holder hi hp (P.complete_ne_nil _ hrequest) hclient (hspeaks a)

end Steps

/-! ### Every reachable state -/

section Reachable

variable {handler : ω → Prog σ β φ ρ} {shared : σ} {s : RpcState σ β φ ρ}

/-- If all handlers keep the discipline, every step keeps the invariant. -/
theorem RpcInv.next [Nonempty α] (hhandler : ∀ op known, Speaks P free (handler op) (.outside known))
    {t : RpcState σ β φ ρ} {e : RpcEvent ω α} (h : RpcInv P free s)
    (hnext : s.next P handler e = some t) : RpcInv P free t := by
  cases e with
  | start i op =>
    simp only [RpcState.next] at hnext
    split at hnext
    · rename_i hidle
      obtain rfl := Option.some.inj hnext
      rw [Option.isNone_iff_eq_none] at hidle
      have hi : s.holder ≠ some i := by
        intro hi
        have hchannel := h.channel
        rw [RpcState.Channel, hi] at hchannel
        obtain ⟨p, hp, _⟩ := hchannel
        rw [hidle] at hp
        cases hp
      exact h.goto hi le_rfl (hhandler op s.shared)
    · cases hnext
  | run i amount =>
    obtain ⟨p, hp, hrun⟩ := Option.bind_eq_some_iff.mp hnext
    by_cases hi : s.holder = some i
    · exact h.run_inside hi hp hrun
    · exact h.run_outside hi hp hrun
  | serve n a => exact h.serve hnext

theorem rpcInv_of_reachable [Nonempty α]
    (hhandler : ∀ op known, Speaks P free (handler op) (.outside known)) (hfree : free shared)
    (h : (rpcSystem P handler shared).Reachable s) : RpcInv P free s :=
  h.invariant (fun _ hs => hs ▸ RpcInv.fresh hfree) fun _ _ _ hs hstep => hs.next hhandler hstep

/-- Outside the lock nobody waits for an answer. -/
theorem RpcInv.holder_of_waits {i : ℕ} {p : Prog σ β φ ρ} (h : RpcInv P free s)
    (hp : s.calls i = some p) (hwaits : p.Waits) : s.holder = some i := by
  by_contra hi
  obtain ⟨known, _, hspeaks⟩ := h.outside i p hp hi
  cases p with
  | read count next => exact hspeaks
  | recvFd next => exact hspeaks
  | _ => exact hwaits

/-- **Soundness of the discipline.**  If all handlers keep it, every reachable state is in sync. -/
theorem inSync_of_reachable [Nonempty α]
    (hhandler : ∀ op known, Speaks P free (handler op) (.outside known)) (hfree : free shared)
    (h : (rpcSystem P handler shared).Reachable s) : InSync P s where
  received_begins i := by
    rw [(rpcInv_of_reachable hhandler hfree h).accounts i]
    exact List.prefix_append _ _
  returned i p hp hreturned := by
    have hinv := rpcInv_of_reachable hhandler hfree h
    exact hinv.settled fun hi => (hinv.holding hi hp).not_returned hreturned
  quiet hall := by
    have hinv := rpcInv_of_reachable hhandler hfree h
    by_cases hnone : s.holder = none
    · exact (hinv.unheld hnone).2.2
    · obtain ⟨i, hi⟩ := Option.ne_none_iff_exists'.mp hnone
      have hchannel := hinv.channel
      rw [RpcState.Channel, hi] at hchannel
      obtain ⟨p, hp, hholding⟩ := hchannel
      exact absurd (hall i p hp) hholding.not_returned
  awaited i p hp hwaits := by
    have hinv := rpcInv_of_reachable hhandler hfree h
    exact (hinv.holding (hinv.holder_of_waits hp hwaits) hp).waits hwaits

end Reachable

end Invariant

end Wldroid.Foundation
