import Wldroid.Compositor.AhbRegistry
import Wldroid.Foundation.FifoRpc
import Wldroid.Foundation.ShortReads
import Wldroid.Foundation.Words

/-!
# Receiving hardware buffers

The thread that reads messages off a client's socket and makes calls of the registry.  A message is
a tag, an inode and, after a register, a buffer handle.

* **`handleClient`** — the loop, over any stream and any sizes of the reads;
* **`frontMessages`** — the messages a stream begins with;
* **`handleClient_eq`** — the receiver applies the messages of the front, and then, if a register
  came without its handle, those it takes the rest of the stream for;
* **`handleClient_applies_front_iff`** — exactly when that makes no difference.
-/

namespace Wldroid.Compositor

open Wldroid.Foundation

/-! ### The loop -/

/-- `AHB_MSG_REGISTER`. -/
def ahbMsgRegister : UInt8 := 0x01

/-- `AHB_MSG_UNREGISTER`. -/
def ahbMsgUnregister : UInt8 := 0x02

/-- What the thread reads from, the registry, and the references the thread owns itself. -/
structure Receiver (β : Type) where
  inbox : Inbox (Item UInt8 β)
  registry : AhbRegistry β
  owned : List β

/-- What `AHardwareBuffer_recvHandleFromUnixSocket` finds on a stream: the buffer, if there is one,
and how much it takes off the stream. -/
abbrev RecvHandle (β : Type) := List (Item UInt8 β) → Option β × ℕ

variable {β : Type}

/-- The bytes of some items. -/
def itemBytes (items : List (Item UInt8 β)) : List UInt8 := items.map Item.value

/-- `memcpy(&inode, inode_buf, sizeof(inode))`, little-endian. -/
def inodeOf (bytes : List UInt8) : UInt64 := UInt64.ofNat (fromLe bytes)

/-- The body of the loop in `handle_client`, and whether the loop goes on. -/
def handleMessage [DecidableEq β] (sizes : ℕ → ℕ) (recvHandle : RecvHandle β) (c : Receiver β) :
    Receiver β × Bool :=
  let tagRead := readExact sizes c.inbox 1
  match tagRead.1 with
  | none => ({ c with inbox := tagRead.2 }, false)
  | some tagItems =>
      let tag := (itemBytes tagItems).headD 0
      let inodeRead := readExact sizes tagRead.2 8
      let c := { c with inbox := inodeRead.2 }
      match inodeRead.1 with
      | none => (c, false)
      | some inodeBuf =>
          let inode := inodeOf (itemBytes inodeBuf)
          if tag = ahbMsgRegister then
            let received := recvHandle c.inbox.unread
            let c := { c with inbox := { c.inbox with unread := c.inbox.unread.drop received.2 } }
            match received.1 with
            -- this `break` leaves the switch, not the loop
            | none => (c, true)
            | some ahb =>
                let c := { c with owned := ahb :: c.owned }
                let c := { c with registry := ahbRegistryRegister c.registry inode ahb }
                ({ c with owned := c.owned.erase ahb }, true)
          else if tag = ahbMsgUnregister then
            ({ c with registry := ahbRegistryUnregister c.registry inode }, true)
          else (c, false)

/-! ### Messages -/

/-- A complete message. -/
inductive AhbMessage (β : Type) where
  | register (inode : UInt64) (ahb : β)
  | unregister (inode : UInt64)

/-- The call of the registry a message is for. -/
def applyMessage [DecidableEq β] (r : AhbRegistry β) : AhbMessage β → AhbRegistry β
  | .register inode ahb => ahbRegistryRegister r inode ahb
  | .unregister inode => ahbRegistryUnregister r inode

/-- What a stream begins with: a message, a register without its handle, or neither.  The rest is
counted in items. -/
inductive Front (β : Type) where
  | message (m : AhbMessage β) (size : ℕ)
  | noHandle (size : ℕ)
  | ended

/-- The beginning of a stream. -/
def front (recvHandle : RecvHandle β) (s : List (Item UInt8 β)) : Front β :=
  if s.length < 9 then .ended
  else
    let tag := (itemBytes s).headD 0
    let inode := inodeOf (itemBytes ((s.drop 1).take 8))
    if tag = ahbMsgRegister then
      match recvHandle (s.drop 9) with
      | (some ahb, size) => .message (.register inode ahb) (9 + size)
      | (none, size) => .noHandle (9 + size)
    else if tag = ahbMsgUnregister then .message (.unregister inode) 9
    else .ended

/-- What is left of a stream is shorter than it was. -/
theorem front_lt {recvHandle : RecvHandle β} {s : List (Item UInt8 β)} {size : ℕ}
    (h : (∃ m, front recvHandle s = .message m size) ∨ front recvHandle s = .noHandle size) :
    (s.drop size).length < s.length := by
  have hfront : 9 ≤ s.length ∧ 9 ≤ size := by
    unfold front at h
    split at h
    · simp at h
    · refine ⟨by omega, ?_⟩
      simp only at h
      split at h
      · split at h
        · simp at h
          omega
        · simp at h
          omega
      · split at h
        · simp at h
          omega
        · simp at h
  rw [List.length_drop]
  omega

/-- The messages a stream begins with. -/
def frontMessages (recvHandle : RecvHandle β) (s : List (Item UInt8 β)) : List (AhbMessage β) :=
  match _h : front recvHandle s with
  | .message m size => m :: frontMessages recvHandle (s.drop size)
  | .noHandle _ => []
  | .ended => []
termination_by s.length
decreasing_by exact front_lt (.inl ⟨_, _h⟩)

/-- The messages found when a register without its handle is passed over. -/
def foundMessages (recvHandle : RecvHandle β) (s : List (Item UInt8 β)) : List (AhbMessage β) :=
  match _h : front recvHandle s with
  | .message m size => m :: foundMessages recvHandle (s.drop size)
  | .noHandle size => foundMessages recvHandle (s.drop size)
  | .ended => []
termination_by s.length
decreasing_by
  · exact front_lt (.inl ⟨_, _h⟩)
  · exact front_lt (.inr _h)

/-- The messages found behind a register without its handle. -/
def laterMessages (recvHandle : RecvHandle β) (s : List (Item UInt8 β)) : List (AhbMessage β) :=
  match _h : front recvHandle s with
  | .message _ size => laterMessages recvHandle (s.drop size)
  | .noHandle size => foundMessages recvHandle (s.drop size)
  | .ended => []
termination_by s.length
decreasing_by exact front_lt (.inl ⟨_, _h⟩)

section Unfolding

variable {recvHandle : RecvHandle β} {s : List (Item UInt8 β)} {m : AhbMessage β} {size : ℕ}

theorem messages_of_message (h : front recvHandle s = .message m size) :
    frontMessages recvHandle s = m :: frontMessages recvHandle (s.drop size) ∧
      foundMessages recvHandle s = m :: foundMessages recvHandle (s.drop size) ∧
        laterMessages recvHandle s = laterMessages recvHandle (s.drop size) := by
  refine ⟨?_, ?_, ?_⟩
  · rw [frontMessages]
    split <;> simp_all
  · rw [foundMessages]
    split <;> simp_all
  · rw [laterMessages]
    split <;> simp_all

theorem messages_of_noHandle (h : front recvHandle s = .noHandle size) :
    frontMessages recvHandle s = [] ∧
      foundMessages recvHandle s = foundMessages recvHandle (s.drop size) ∧
        laterMessages recvHandle s = foundMessages recvHandle (s.drop size) := by
  refine ⟨?_, ?_, ?_⟩
  · rw [frontMessages]
    split <;> simp_all
  · rw [foundMessages]
    split <;> simp_all
  · rw [laterMessages]
    split <;> simp_all

theorem messages_of_ended (h : front recvHandle s = .ended) :
    frontMessages recvHandle s = [] ∧ foundMessages recvHandle s = [] ∧
      laterMessages recvHandle s = [] := by
  refine ⟨?_, ?_, ?_⟩
  · rw [frontMessages]
    split <;> simp_all
  · rw [foundMessages]
    split <;> simp_all
  · rw [laterMessages]
    split <;> simp_all

end Unfolding

/-- What is found is the front and what comes later. -/
theorem foundMessages_eq (recvHandle : RecvHandle β) (s : List (Item UInt8 β)) :
    foundMessages recvHandle s = frontMessages recvHandle s ++ laterMessages recvHandle s := by
  induction hlen : s.length using Nat.strong_induction_on generalizing s with
  | _ n ih =>
    cases hfront : front recvHandle s with
    | message m size =>
      obtain ⟨hf, ha, hl⟩ := messages_of_message hfront
      have hlt := front_lt (.inl ⟨m, hfront⟩)
      rw [hf, ha, hl, ih _ (hlen ▸ hlt) _ rfl, List.cons_append]
    | noHandle size =>
      obtain ⟨hf, ha, hl⟩ := messages_of_noHandle hfront
      rw [hf, ha, hl, List.nil_append]
    | ended =>
      obtain ⟨hf, ha, hl⟩ := messages_of_ended hfront
      rw [hf, ha, hl, List.nil_append]

/-! ### What a client writes -/

theorem inodeOf_toLe (inode : UInt64) : inodeOf (toLe 8 inode.toNat) = inode := by
  have hlt : inode.toNat < 256 ^ 8 := inode.toNat_lt
  rw [inodeOf, fromLe_toLe hlt, UInt64.ofNat_toNat]

/-- A header that a client has written, seen on the stream. -/
theorem front_header (recvHandle : RecvHandle β) (tag : UInt8) (inode : UInt64)
    (rest : List (Item UInt8 β)) :
    front recvHandle ((tag :: toLe 8 inode.toNat).map Item.byte ++ rest) =
      if tag = ahbMsgRegister then
        match recvHandle rest with
        | (some ahb, size) => .message (.register inode ahb) (9 + size)
        | (none, size) => .noHandle (9 + size)
      else if tag = ahbMsgUnregister then .message (.unregister inode) 9
      else .ended := by
  have hbytes : ((toLe 8 inode.toNat).map (Item.byte : UInt8 → Item UInt8 β)).length = 8 := by
    rw [List.length_map, length_toLe]
  have hdrop : ((tag :: toLe 8 inode.toNat).map Item.byte ++ rest).drop 9 = rest := by
    rw [List.map_cons, List.cons_append, List.drop_succ_cons]
    exact List.drop_left' hbytes
  have hinode : inodeOf (itemBytes ((((tag :: toLe 8 inode.toNat).map Item.byte ++ rest).drop
      1).take 8)) = inode := by
    rw [List.map_cons, List.cons_append, List.drop_succ_cons, List.drop_zero,
      List.take_left' hbytes]
    unfold itemBytes
    rw [List.map_map]
    show inodeOf ((toLe 8 inode.toNat).map id) = inode
    rw [List.map_id, inodeOf_toLe]
  have hlong : ¬ ((tag :: toLe 8 inode.toNat).map Item.byte ++ rest).length < 9 := by
    rw [List.length_append, List.length_map, List.length_cons, length_toLe]
    omega
  unfold front
  rw [if_neg hlong]
  simp only [hdrop, hinode]
  rfl

/-! ### What the receiver does -/

variable [DecidableEq β]

/-- One round of the loop takes what the stream begins with, however it is delivered. -/
theorem handleMessage_cases (sizes : ℕ → ℕ) (recvHandle : RecvHandle β) (c : Receiver β) :
    (∃ m size inbox, front recvHandle c.inbox.unread = .message m size ∧
      inbox.unread = c.inbox.unread.drop size ∧
        handleMessage sizes recvHandle c = (⟨inbox, applyMessage c.registry m, c.owned⟩, true)) ∨
    (∃ size inbox, front recvHandle c.inbox.unread = .noHandle size ∧
      inbox.unread = c.inbox.unread.drop size ∧
        handleMessage sizes recvHandle c = ({ c with inbox := inbox }, true)) ∨
    (front recvHandle c.inbox.unread = .ended ∧
      ∃ inbox, handleMessage sizes recvHandle c = ({ c with inbox := inbox }, false)) := by
  obtain ⟨htag, htagRest⟩ := readExact_eq sizes c.inbox 1
  obtain ⟨hinode, hinodeRest⟩ := readExact_eq sizes (readExact sizes c.inbox 1).2 8
  rw [htagRest, List.length_drop] at hinode
  rw [htagRest, List.drop_drop] at hinodeRest
  by_cases hshort : c.inbox.unread.length < 9
  · -- the stream ends in the tag or in the inode
    refine .inr (.inr ⟨by rw [front, if_pos hshort], ?_⟩)
    unfold handleMessage
    by_cases hone : 1 ≤ c.inbox.unread.length
    · rw [if_pos hone] at htag
      rw [if_neg (by omega)] at hinode
      simp only [htag, hinode]
      exact ⟨_, rfl⟩
    · rw [if_neg hone] at htag
      simp only [htag]
      exact ⟨_, rfl⟩
  · rw [if_pos (by omega)] at htag hinode
    have hhead : (itemBytes (c.inbox.unread.take 1)).headD 0 = (itemBytes c.inbox.unread).headD 0 := by
      cases c.inbox.unread with
      | nil => rfl
      | cons x rest => rfl
    unfold handleMessage front
    rw [if_neg hshort]
    simp only [htag, hinode, hhead, hinodeRest]
    by_cases hregister : (itemBytes c.inbox.unread).headD 0 = ahbMsgRegister
    · simp only [if_pos hregister]
      obtain ⟨got, size, hgot⟩ : ∃ got size, recvHandle (c.inbox.unread.drop (1 + 8)) =
        (got, size) := ⟨_, _, rfl⟩
      have hrest := List.drop_drop (i := size) (j := 1 + 8) (l := c.inbox.unread)
      simp only [hgot, hrest, List.erase_cons_head]
      cases got with
      | some ahb => exact .inl ⟨_, _, ⟨_, _⟩, rfl, rfl, rfl⟩
      | none => exact .inr (.inl ⟨_, ⟨_, _⟩, rfl, rfl, rfl⟩)
    · simp only [if_neg hregister]
      by_cases hunregister : (itemBytes c.inbox.unread).headD 0 = ahbMsgUnregister
      · simp only [if_pos hunregister]
        exact .inl ⟨_, _, _, rfl, hinodeRest, rfl⟩
      · simp only [if_neg hunregister]
        exact .inr (.inr ⟨trivial, _, rfl⟩)

/-- A round after which the loop goes on has taken something off the stream. -/
theorem handleMessage_lt {sizes : ℕ → ℕ} {recvHandle : RecvHandle β} {c c' : Receiver β}
    (h : handleMessage sizes recvHandle c = (c', true)) :
    c'.inbox.unread.length < c.inbox.unread.length := by
  rcases handleMessage_cases sizes recvHandle c with
    ⟨m, size, inbox, hfront, hunread, heq⟩ | ⟨size, inbox, hfront, hunread, heq⟩ | ⟨-, inbox, heq⟩
  · have hc' : c' = ⟨inbox, applyMessage c.registry m, c.owned⟩ :=
      congrArg Prod.fst (h.symm.trans heq)
    rw [hc', hunread]
    exact front_lt (.inl ⟨m, hfront⟩)
  · have hc' : c' = { c with inbox := inbox } := congrArg Prod.fst (h.symm.trans heq)
    rw [hc', hunread]
    exact front_lt (.inr hfront)
  · simp [h] at heq

/-- `handle_client`, while the receiver is not being stopped. -/
def handleClient (sizes : ℕ → ℕ) (recvHandle : RecvHandle β) (c : Receiver β) : Receiver β :=
  match _h : handleMessage sizes recvHandle c with
  | (c', true) => handleClient sizes recvHandle c'
  | (c', false) => c'
termination_by c.inbox.unread.length
decreasing_by exact handleMessage_lt _h

/-- **What the receiver applies**, for every stream and all sizes of the reads, keeping no reference
of its own. -/
theorem handleClient_eq (sizes : ℕ → ℕ) (recvHandle : RecvHandle β) (c : Receiver β) :
    (handleClient sizes recvHandle c).registry =
        (foundMessages recvHandle c.inbox.unread).foldl applyMessage c.registry ∧
      (handleClient sizes recvHandle c).owned = c.owned := by
  induction hlen : c.inbox.unread.length using Nat.strong_induction_on generalizing c with
  | _ n ih =>
    rw [handleClient]
    rcases handleMessage_cases sizes recvHandle c with
      ⟨m, size, inbox, hfront, hunread, heq⟩ | ⟨size, inbox, hfront, hunread, heq⟩ |
        ⟨hfront, inbox, heq⟩
    · have hnext := ih _ (hlen ▸ handleMessage_lt heq) _ rfl
      rw [(messages_of_message hfront).2.1, List.foldl_cons, ← hunread]
      split
      · rename_i c' h
        obtain rfl : c' = _ := congrArg Prod.fst (h.symm.trans heq)
        exact hnext
      · rename_i h
        simp [heq] at h
    · have hnext := ih _ (hlen ▸ handleMessage_lt heq) _ rfl
      rw [(messages_of_noHandle hfront).2.1, ← hunread]
      split
      · rename_i c' h
        obtain rfl : c' = _ := congrArg Prod.fst (h.symm.trans heq)
        exact hnext
      · rename_i h
        simp [heq] at h
    · rw [(messages_of_ended hfront).2.1]
      split
      · rename_i h
        simp [heq] at h
      · rename_i c' h
        obtain rfl : c' = _ := congrArg Prod.fst (h.symm.trans heq)
        exact ⟨rfl, rfl⟩

/-! ### Exactly the front -/

/-- A message the registry does nothing about: the inode of an unregister is not there, or that of a
register is new and there is no room. -/
def NoEffect (r : AhbRegistry β) : AhbMessage β → Prop
  | .register inode _ =>
      lookup AhbEntry.inode inode r.entries = none ∧ r.entries.length ≥ ahbRegistryMax
  | .unregister inode => lookup AhbEntry.inode inode r.entries = none

/-- A message either does nothing, or makes a call that is never taken back. -/
theorem applyMessage_cases (r : AhbRegistry β) (m : AhbMessage β) :
    NoEffect r m ∧ applyMessage r m = r ∨
      ¬ NoEffect r m ∧ r.refCalls.length < (applyMessage r m).refCalls.length := by
  cases m with
  | register inode ahb =>
    show (lookup AhbEntry.inode inode r.entries = none ∧ r.entries.length ≥ ahbRegistryMax) ∧
        ahbRegistryRegister r inode ahb = r ∨
      ¬ (lookup AhbEntry.inode inode r.entries = none ∧ r.entries.length ≥ ahbRegistryMax) ∧
        r.refCalls.length < (ahbRegistryRegister r inode ahb).refCalls.length
    cases hentry : lookup AhbEntry.inode inode r.entries with
    | some entry => exact .inr ⟨by simp, by simp [ahbRegistryRegister, hentry]⟩
    | none =>
      by_cases hfull : r.entries.length ≥ ahbRegistryMax
      · exact .inl ⟨⟨rfl, hfull⟩, by simp [ahbRegistryRegister, hentry, hfull]⟩
      · exact .inr ⟨fun h => hfull h.2, by simp [ahbRegistryRegister, hentry, hfull]⟩
  | unregister inode =>
    show lookup AhbEntry.inode inode r.entries = none ∧ ahbRegistryUnregister r inode = r ∨
      ¬ lookup AhbEntry.inode inode r.entries = none ∧
        r.refCalls.length < (ahbRegistryUnregister r inode).refCalls.length
    cases hentry : lookup AhbEntry.inode inode r.entries with
    | some entry => exact .inr ⟨by simp, by simp [ahbRegistryUnregister, hentry]⟩
    | none => exact .inl ⟨rfl, by simp [ahbRegistryUnregister, hentry]⟩

theorem applyMessage_eq_self_iff (r : AhbRegistry β) (m : AhbMessage β) :
    applyMessage r m = r ↔ NoEffect r m := by
  rcases applyMessage_cases r m with ⟨hno, heq⟩ | ⟨hno, hlt⟩
  · exact ⟨fun _ => hno, fun _ => heq⟩
  · refine ⟨fun heq => ?_, fun h => absurd h hno⟩
    rw [heq] at hlt
    exact absurd hlt (lt_irrefl _)

/-- A receiver that starts to read a stream. -/
def Receiver.start (s : List (Item UInt8 β)) (r : AhbRegistry β) : Receiver β := ⟨⟨s, 0⟩, r, []⟩

/-- The registry after the messages at the front of a stream. -/
def frontApplied (recvHandle : RecvHandle β) (s : List (Item UInt8 β)) (r : AhbRegistry β) :
    AhbRegistry β := (frontMessages recvHandle s).foldl applyMessage r

/-- **Exactly the front is applied.**  However the reads are split, the registry is left as the
messages at the front of the stream leave it, and the receiver keeps no reference, if and only if
nothing that is found behind a register without its handle has an effect then. -/
theorem handleClient_applies_front_iff (sizes : ℕ → ℕ) (recvHandle : RecvHandle β)
    (s : List (Item UInt8 β)) (r : AhbRegistry β) :
    (handleClient sizes recvHandle (.start s r)).registry = frontApplied recvHandle s r ∧
        (handleClient sizes recvHandle (.start s r)).owned = [] ↔
      ∀ m ∈ laterMessages recvHandle s, NoEffect (frontApplied recvHandle s r) m := by
  obtain ⟨hregistry, hkept⟩ := handleClient_eq sizes recvHandle (.start s r)
  have howned : (handleClient sizes recvHandle (.start s r)).owned = [] := hkept
  have hfold : (handleClient sizes recvHandle (.start s r)).registry =
      (laterMessages recvHandle s).foldl applyMessage (frontApplied recvHandle s r) := by
    rw [hregistry]
    show (foundMessages recvHandle s).foldl applyMessage r = _
    rw [foundMessages_eq, List.foldl_append]
    rfl
  have hgrows : ∀ (r : AhbRegistry β) m, applyMessage r m = r ∨
      r.refCalls.length < (applyMessage r m).refCalls.length := by
    intro r m
    rcases applyMessage_cases r m with ⟨-, heq⟩ | ⟨-, hlt⟩
    · exact .inl heq
    · exact .inr hlt
  rw [hfold, and_iff_left howned, foldl_eq_self_iff _ hgrows]
  simp only [applyMessage_eq_self_iff]

/-- A handle message is one item here; anything else is taken for a broken one. -/
def recvOneItem : RecvHandle ℕ
  | .fd _ ahb :: _ => (some ahb, 1)
  | .byte _ :: _ => (none, 1)
  | [] => (none, 0)

/-- A register whose handle never comes, a stray byte, and an unregister. -/
def strayByte : List (Item UInt8 ℕ) :=
  (ahbMsgRegister :: toLe 8 (7 : UInt64).toNat).map Item.byte ++
    .byte 0 :: ((ahbMsgUnregister :: toLe 8 (5 : UInt64).toNat).map Item.byte ++ [])

/-- The unregister is applied, although no complete message precedes it. -/
theorem strayByte_unregisters :
    ¬ ∀ (sizes : ℕ → ℕ) (recvHandle : RecvHandle ℕ) (handleItems : ℕ → List (Item UInt8 ℕ))
      (s : List (Item UInt8 ℕ)) (r : AhbRegistry ℕ),
      (∀ ahb rest, recvHandle (handleItems ahb ++ rest) = (some ahb, (handleItems ahb).length)) →
        (handleClient sizes recvHandle (.start s r)).registry = frontApplied recvHandle s r ∧
          (handleClient sizes recvHandle (.start s r)).owned = [] := by
  intro hall
  obtain ⟨hregistry, -⟩ := hall (fun _ => 1) recvOneItem (fun ahb => [.fd 0 ahb]) strayByte
    ⟨[⟨5, 1⟩], [.acquire 1]⟩ fun ahb rest => rfl
  have hfirst : front recvOneItem strayByte = .noHandle 10 :=
    (front_header recvOneItem ahbMsgRegister 7 _).trans rfl
  have hsecond : front recvOneItem (strayByte.drop 10) = .message (.unregister 5) 9 :=
    (front_header recvOneItem ahbMsgUnregister 5 []).trans rfl
  have hlast : front recvOneItem ((strayByte.drop 10).drop 9) = .ended := rfl
  rw [(handleClient_eq _ _ _).1, frontApplied, (messages_of_noHandle hfirst).1] at hregistry
  have hfound : foundMessages recvOneItem strayByte = [.unregister 5] := by
    rw [(messages_of_noHandle hfirst).2.1, (messages_of_message hsecond).2.1,
      (messages_of_ended hlast).2.1]
  have hentries := congrArg AhbRegistry.entries hregistry
  rw [show (Receiver.start strayByte _).inbox.unread = strayByte from rfl, hfound] at hentries
  exact absurd hentries (by decide)

end Wldroid.Compositor
