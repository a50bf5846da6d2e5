import Wldroid.Foundation.Transition
import Wldroid.Foundation.Signals

/-!
# Tracked clients and windows

The compositor keeps a record for every client, every toplevel and every popup, and frees it when
the object is destroyed.  The records of toplevels are in the list `server->toplevels` as well, in
which focus moves them to the front.

* `TrackState.next` — an object comes, changes or goes, and the listeners of its record are called;
  a handler that touches a freed record or object, or takes out what is not linked, crashes the
  compositor;
* `Recorded` — the records and what they listen to;
* `trackGuarantee_of_reachable` — in every order of such events the records are those of the
  objects there are, the list and the client count agree with them, and nothing stays behind.
-/

namespace Wldroid.Compositor.Tracking

open Wldroid.Foundation

/-! ### State -/

/-- What a record is for: `struct compositor_toplevel`, `struct compositor_popup` and
`struct client_destroy_wrapper`. -/
inductive Tracked where
  | toplevel (surface : ℕ)
  | popup (surface : ℕ)
  | client (client : ℕ)
  deriving DecidableEq

/-- The listeners in the records. -/
inductive Kind where
  | map
  | unmap
  | commit
  | destroy
  | requestFullscreen
  deriving DecidableEq

/-- The signals of a surface and its xdg object, and that of a client. -/
inductive Signal where
  | ofSurface (surface : ℕ) (kind : Kind)
  | ofClient (client : ℕ)
  deriving DecidableEq

/-- The listeners of a record, in the order in which they are linked and taken out. -/
def Tracked.kinds : Tracked → List Kind
  | .toplevel _ => [.map, .unmap, .commit, .destroy, .requestFullscreen]
  | .popup _ => [.commit, .destroy]
  | .client _ => [.destroy]

/-- The signal a listener is linked into. -/
def Tracked.signal : Tracked → Kind → Signal
  | .toplevel w, k => .ofSurface w k
  | .popup w, k => .ofSurface w k
  | .client c, _ => .ofClient c

def Tracked.isClient : Tracked → Bool
  | .client _ => true
  | _ => false

/-- The xdg object of a surface. -/
structure XdgObject where
  popup : Bool
  mapped : Bool

/-- What there is, what the compositor has a record of, and who listens where. -/
structure TrackState where
  surfaces : ℕ → Option XdgObject
  clients : ℕ → Bool
  /-- The records, by their address. -/
  records : ℕ → Option Tracked
  /-- `server->toplevels`, as addresses of records. -/
  toplevels : List ℕ
  clientCount : ℤ
  signals : Signals Signal (ℕ × Kind)
  nextRecord : ℕ
  crashed : Bool

/-- The object of a record exists. -/
def TrackState.live (s : TrackState) : Tracked → Bool
  | .toplevel w => (s.surfaces w).any fun object => !object.popup
  | .popup w => (s.surfaces w).any XdgObject.popup
  | .client c => s.clients c

/-! ### Handlers -/

/-- Allocate a record and link its listeners. -/
def TrackState.wire (s : TrackState) (x : Tracked) : Option TrackState :=
  (s.signals.addAll (x.kinds.map fun k => (x.signal k, (s.nextRecord, k)))).map fun g =>
    { s with
      signals := g
      records := Function.update s.records s.nextRecord (some x)
      nextRecord := s.nextRecord + 1 }

/-- Take the listeners of a record out and free it. -/
def TrackState.release (s : TrackState) (v : ℕ) : Option TrackState := do
  let x ← s.records v
  let g ← s.signals.removeAll (x.kinds.map fun k => (v, k))
  return { s with signals := g, records := Function.update s.records v none }

/-- Read a record and its object. -/
def TrackState.touch (s : TrackState) (v : ℕ) : Option Tracked := do
  let x ← s.records v
  if s.live x then some x else none

/-- `handle_client_created`. -/
def handleClientCreated (s : TrackState) (c : ℕ) (allocated : Bool) : Option TrackState :=
  if allocated then ({ s with clientCount := s.clientCount + 1 }).wire (.client c) else some s

/-- `handle_client_destroyed`. -/
def handleClientDestroyed (s : TrackState) (v : ℕ) : Option TrackState :=
  ({ s with clientCount := s.clientCount - 1 }).release v

/-- `focus_toplevel`, which reads all toplevels of the list. -/
def focusToplevel (s : TrackState) (v : ℕ) : Option TrackState :=
  if (v :: s.toplevels).all fun other => (s.touch other).isSome then
    if v ∈ s.toplevels then some { s with toplevels := v :: s.toplevels.erase v } else none
  else none

/-- `on_toplevel_map`. -/
def onToplevelMap (s : TrackState) (v : ℕ) : Option TrackState := do
  let _ ← s.touch v
  focusToplevel s v

/-- `on_toplevel_unmap`, which gives the focus to the next in the list. -/
def onToplevelUnmap (s : TrackState) (v : ℕ) : Option TrackState := do
  let _ ← s.touch v
  match s.toplevels with
  | first :: next :: _ => if first = v then focusToplevel s next else some s
  | _ => some s

/-- `on_toplevel_destroy`. -/
def onToplevelDestroy (s : TrackState) (v : ℕ) : Option TrackState := do
  let _ ← s.touch v
  if v ∈ s.toplevels then ({ s with toplevels := s.toplevels.erase v }).release v else none

/-- `on_new_xdg_toplevel`. -/
def onNewXdgToplevel (s : TrackState) (w : ℕ) (allocated : Bool) : Option TrackState :=
  if allocated then
    (s.wire (.toplevel w)).map fun t => { t with toplevels := s.nextRecord :: t.toplevels }
  else some s

/-- `on_new_xdg_popup`; `parentTree` tells whether the parent is an xdg surface with a scene
tree. -/
def onNewXdgPopup (s : TrackState) (w : ℕ) (parentTree allocated : Bool) : Option TrackState :=
  if parentTree && allocated then s.wire (.popup w) else some s

/-- `on_popup_destroy`. -/
def onPopupDestroy (s : TrackState) (v : ℕ) : Option TrackState := s.release v

/-- `on_toplevel_commit`, `on_request_fullscreen` and `on_popup_commit`, which configure the object
of their record. -/
def onConfiguring (s : TrackState) (v : ℕ) : Option TrackState := do
  let _ ← s.touch v
  return s

/-- Call a listener. -/
def notify : ℕ × Kind → TrackState → Option TrackState
  | (v, k), s => do
      match (← s.records v), k with
      | .toplevel _, .map => onToplevelMap s v
      | .toplevel _, .unmap => onToplevelUnmap s v
      | .toplevel _, .destroy => onToplevelDestroy s v
      | .popup _, .destroy => onPopupDestroy s v
      | .client _, _ => handleClientDestroyed s v
      | _, _ => onConfiguring s v

/-! ### Steps -/

/-- What clients do. -/
inductive TrackEvent where
  | clientConnects (client : ℕ) (allocated : Bool)
  | clientGone (client : ℕ)
  | newToplevel (surface : ℕ) (allocated : Bool)
  | newPopup (surface : ℕ) (parentTree allocated : Bool)
  | map (surface : ℕ)
  | unmap (surface : ℕ)
  | commit (surface : ℕ)
  | requestFullscreen (surface : ℕ)
  | destroy (surface : ℕ)

/-- A surface has one xdg object at a time, which is unmapped before it is destroyed. -/
def TrackState.enabled (s : TrackState) : TrackEvent → Bool
  | .clientConnects c _ => !s.clients c
  | .clientGone c => s.clients c
  | .newToplevel w _ => (s.surfaces w).isNone
  | .newPopup w _ _ => (s.surfaces w).isNone
  | .map w => (s.surfaces w).any fun object => !object.mapped
  | .unmap w => (s.surfaces w).any XdgObject.mapped
  | .commit w => (s.surfaces w).isSome
  | .requestFullscreen w => (s.surfaces w).any fun object => !object.popup
  | .destroy w => (s.surfaces w).any fun object => !object.mapped

def TrackState.emit (s : TrackState) (signal : Signal) : Option TrackState :=
  s.signals.emit notify signal s

def TrackState.setSurface (s : TrackState) (w : ℕ) (object : Option XdgObject) : TrackState :=
  { s with surfaces := Function.update s.surfaces w object }

def TrackState.setClient (s : TrackState) (c : ℕ) (connected : Bool) : TrackState :=
  { s with clients := Function.update s.clients c connected }

/-- What happens to an object, and then what the listeners do; none is a crash. -/
def TrackState.effect (s : TrackState) : TrackEvent → Option TrackState
  | .clientConnects c allocated => handleClientCreated (s.setClient c true) c allocated
  | .clientGone c => (s.emit (.ofClient c)).map fun t => t.setClient c false
  | .newToplevel w allocated => onNewXdgToplevel (s.setSurface w (some ⟨false, false⟩)) w allocated
  | .newPopup w parentTree allocated =>
      onNewXdgPopup (s.setSurface w (some ⟨true, false⟩)) w parentTree allocated
  | .map w => do
      let object ← s.surfaces w
      (s.setSurface w (some { object with mapped := true })).emit (.ofSurface w .map)
  | .unmap w => do
      let object ← s.surfaces w
      (s.setSurface w (some { object with mapped := false })).emit (.ofSurface w .unmap)
  | .commit w => s.emit (.ofSurface w .commit)
  | .requestFullscreen w => s.emit (.ofSurface w .requestFullscreen)
  | .destroy w => (s.emit (.ofSurface w .destroy)).map fun t => t.setSurface w none

/-- The next state. -/
def TrackState.next (s : TrackState) (e : TrackEvent) : Option TrackState :=
  if s.enabled e then some ((s.effect e).getD { s with crashed := true }) else none

/-- No client has connected yet. -/
def TrackState.initial : TrackState where
  surfaces _ := none
  clients _ := false
  records _ := none
  toplevels := []
  clientCount := 0
  signals := .empty
  nextRecord := 0
  crashed := false

def trackSystem : System TrackState TrackEvent :=
  System.ofNext (fun s => s = .initial) TrackState.next

/-! ### The records -/

/-- The records are those of existing objects, one for each at most, and their listeners are
linked. -/
structure Recorded (g : Signals Signal (ℕ × Kind)) (records : ℕ → Option Tracked)
    (live : Tracked → Bool) : Prop where
  attached : Signals.Attached Tracked.kinds Tracked.signal g records
  host : ∀ v x, records v = some x → live x = true
  one : ∀ v v' x, records v = some x → records v' = some x → v = v'

/-- No surface has two xdg objects. -/
def Exclusive (live : Tracked → Bool) : Prop :=
  ∀ w, live (.toplevel w) = true → live (.popup w) = true → False

theorem exclusive_live (s : TrackState) : Exclusive s.live := by
  intro w htoplevel hpopup
  obtain ⟨object, hobject, hnot⟩ := Option.any_eq_true _ _ |>.mp htoplevel
  obtain ⟨object', hobject', hpop⟩ := Option.any_eq_true _ _ |>.mp hpopup
  obtain rfl := Option.some.inj (hobject.symm.trans hobject')
  rw [hpop] at hnot
  cases hnot

theorem Tracked.kinds_nodup (x : Tracked) : x.kinds.Nodup := by
  cases x <;> simp [Tracked.kinds]

section Recorded

variable {g : Signals Signal (ℕ × Kind)} {records : ℕ → Option Tracked} {live : Tracked → Bool}
  {v : ℕ} {x : Tracked} {k : Kind}

/-- Objects with a signal in common are one object. -/
theorem signal_inj (hlive : Exclusive live) {x' : Tracked} {k' : Kind} (hx : live x = true)
    (hx' : live x' = true) (hk : k ∈ x.kinds) (hk' : k' ∈ x'.kinds)
    (hs : x.signal k = x'.signal k') : x = x' ∧ k = k' := by
  cases x with
  | toplevel w =>
    cases x' with
    | toplevel w' =>
      cases hs
      exact ⟨rfl, rfl⟩
    | popup w' =>
      cases hs
      exact (hlive w hx hx').elim
    | client c' => cases hs
  | popup w =>
    cases x' with
    | toplevel w' =>
      cases hs
      exact (hlive w hx' hx).elim
    | popup w' =>
      cases hs
      exact ⟨rfl, rfl⟩
    | client c' => cases hs
  | client c =>
    cases x' with
    | toplevel w' => cases hs
    | popup w' => cases hs
    | client c' =>
      cases hs
      exact ⟨rfl, (List.mem_singleton.mp hk).trans (List.mem_singleton.mp hk').symm⟩

theorem Recorded.unshared (h : Recorded g records live) (hlive : Exclusive live) :
    Signals.Unshared Tracked.kinds Tracked.signal records := by
  intro v v' x x' k k' hv hv' hk hk' hs
  obtain ⟨rfl, rfl⟩ := signal_inj hlive (h.host v x hv) (h.host v' x' hv') hk hk' hs
  exact ⟨h.one v v' x hv hv', rfl⟩

theorem Recorded.wire (h : Recorded g records live) (hv : records v = none) (hx : live x = true)
    (hnew : ∀ v', records v' ≠ some x) :
    ∃ g', g.addAll (x.kinds.map fun k => (x.signal k, (v, k))) = some g' ∧
      Recorded g' (Function.update records v (some x)) live := by
  obtain ⟨g', hadd, hattached⟩ := h.attached.attach hv x.kinds_nodup
  refine ⟨g', hadd, hattached, ?_, ?_⟩
  · intro v' x' hv'
    by_cases heq : v' = v
    · rw [heq, Function.update_self] at hv'
      exact Option.some.inj hv' ▸ hx
    · rw [Function.update_of_ne heq] at hv'
      exact h.host v' x' hv'
  · intro v₁ v₂ x' hv₁ hv₂
    by_cases h₁ : v₁ = v <;> by_cases h₂ : v₂ = v
    · rw [h₁, h₂]
    · rw [h₁, Function.update_self] at hv₁
      rw [Function.update_of_ne h₂, ← hv₁] at hv₂
      exact absurd hv₂ (hnew v₂)
    · rw [h₂, Function.update_self] at hv₂
      rw [Function.update_of_ne h₁, ← hv₂] at hv₁
      exact absurd hv₁ (hnew v₁)
    · rw [Function.update_of_ne h₁] at hv₁
      rw [Function.update_of_ne h₂] at hv₂
      exact h.one v₁ v₂ x' hv₁ hv₂

theorem Recorded.release (h : Recorded g records live) (hv : records v = some x) :
    ∃ g', g.removeAll (x.kinds.map fun k => (v, k)) = some g' ∧
      Recorded g' (Function.update records v none) live := by
  obtain ⟨g', hremove, hattached⟩ := h.attached.detach hv x.kinds_nodup
  have hkeeps : ∀ v' x', Function.update records v none v' = some x' → records v' = some x' := by
    intro v' x' hv'
    by_cases heq : v' = v
    · rw [heq, Function.update_self] at hv'
      cases hv'
    · rwa [Function.update_of_ne heq] at hv'
  exact ⟨g', hremove, hattached, fun v' x' hv' => h.host v' x' (hkeeps v' x' hv'),
    fun v₁ v₂ x' hv₁ hv₂ => h.one v₁ v₂ x' (hkeeps v₁ x' hv₁) (hkeeps v₂ x' hv₂)⟩

/-- A released object has no record left. -/
theorem Recorded.released (h : Recorded g records live) (hv : records v = some x) (v' : ℕ) :
    Function.update records v none v' ≠ some x := by
  intro hv'
  by_cases heq : v' = v
  · rw [heq, Function.update_self] at hv'
    cases hv'
  · rw [Function.update_of_ne heq] at hv'
    exact heq (h.one v' v x hv' hv)

end Recorded

/-! ### The client count -/

/-- The records of clients below an address. -/
def clientsIn (records : ℕ → Option Tracked) (n : ℕ) : Finset ℕ :=
  (Finset.range n).filter fun v => (records v).any Tracked.isClient = true

/-- What a record adds to the client count. -/
def Tracked.weight (x : Tracked) : ℤ := if x.isClient then 1 else 0

section Counting

variable {records : ℕ → Option Tracked} {n v : ℕ} {x : Tracked}

theorem mem_clientsIn : v ∈ clientsIn records n ↔ v < n ∧ ∃ c, records v = some (.client c) := by
  unfold clientsIn
  rw [Finset.mem_filter, Finset.mem_range, Option.any_eq_true]
  refine and_congr_right fun _ => ⟨?_, ?_⟩
  · rintro ⟨x, hx, hclient⟩
    cases x with
    | toplevel w => cases hclient
    | popup w => cases hclient
    | client c => exact ⟨c, hx⟩
  · rintro ⟨c, hc⟩
    exact ⟨.client c, hc, rfl⟩

theorem Tracked.weight_eq (x : Tracked) :
    (x.weight = 1 ∧ ∃ c, x = .client c) ∨ (x.weight = 0 ∧ ∀ c, x ≠ .client c) := by
  cases x with
  | toplevel w => exact .inr ⟨rfl, nofun⟩
  | popup w => exact .inr ⟨rfl, nofun⟩
  | client c => exact .inl ⟨rfl, c, rfl⟩

theorem card_clientsIn_wire :
    ((clientsIn (Function.update records n (some x)) (n + 1)).card : ℤ) =
      (clientsIn records n).card + x.weight := by
  have hout : n ∉ clientsIn records n := fun hmem => lt_irrefl n (mem_clientsIn.mp hmem).1
  have hmem : ∀ v, v ∈ clientsIn (Function.update records n (some x)) (n + 1) ↔
      v ∈ clientsIn records n ∨ (v = n ∧ ∃ c, x = .client c) := by
    intro v
    rw [mem_clientsIn, mem_clientsIn]
    by_cases heq : v = n
    · rw [heq, Function.update_self]
      simp
    · rw [Function.update_of_ne heq]
      have hlt : v < n + 1 ↔ v < n := by omega
      simp [heq, hlt]
  rcases x.weight_eq with ⟨hweight, hclient⟩ | ⟨hweight, hclient⟩
  · have hset : clientsIn (Function.update records n (some x)) (n + 1) =
        insert n (clientsIn records n) := by
      ext v
      rw [hmem, Finset.mem_insert, or_comm]
      simp [hclient]
    rw [hset, Finset.card_insert_of_notMem hout, hweight]
    push_cast
    rfl
  · have hset : clientsIn (Function.update records n (some x)) (n + 1) = clientsIn records n := by
      ext v
      rw [hmem]
      simp [hclient]
    rw [hset, hweight, add_zero]

theorem card_clientsIn_release (hv : records v = some x) (hlt : v < n) :
    ((clientsIn (Function.update records v none) n).card : ℤ) =
      (clientsIn records n).card - x.weight := by
  have hset : clientsIn (Function.update records v none) n = (clientsIn records n).erase v := by
    ext v'
    rw [Finset.mem_erase, mem_clientsIn, mem_clientsIn]
    by_cases heq : v' = v
    · rw [heq, Function.update_self]
      simp
    · rw [Function.update_of_ne heq]
      simp [heq]
  rw [hset]
  rcases x.weight_eq with ⟨hweight, c, rfl⟩ | ⟨hweight, hclient⟩
  · have hmem : v ∈ clientsIn records n := mem_clientsIn.mpr ⟨hlt, c, hv⟩
    rw [hweight, ← Finset.card_erase_add_one hmem]
    push_cast
    ring
  · have hout : v ∉ clientsIn records n := by
      intro hmem
      obtain ⟨-, c, hc⟩ := mem_clientsIn.mp hmem
      exact hclient c (Option.some.inj (hv.symm.trans hc))
    rw [Finset.erase_eq_of_notMem hout, hweight, sub_zero]

end Counting

/-! ### The list of toplevels -/

/-- The list once there is a record at an address. -/
def Tracked.enlist (v : ℕ) (toplevels : List ℕ) : Tracked → List ℕ
  | .toplevel _ => v :: toplevels
  | _ => toplevels

/-- The list once that record is gone. -/
def Tracked.delist (v : ℕ) (toplevels : List ℕ) : Tracked → List ℕ
  | .toplevel _ => toplevels.erase v
  | _ => toplevels

/-- The list has every toplevel's record once. -/
structure Listed (records : ℕ → Option Tracked) (toplevels : List ℕ) : Prop where
  nodup : toplevels.Nodup
  mem : ∀ v, v ∈ toplevels ↔ ∃ w, records v = some (.toplevel w)

section Listed

variable {records : ℕ → Option Tracked} {toplevels : List ℕ} {v : ℕ} {x : Tracked}

theorem Listed.focus (h : Listed records toplevels) (hv : v ∈ toplevels) :
    Listed records (v :: toplevels.erase v) := by
  have hperm : List.Perm toplevels (v :: toplevels.erase v) := List.perm_cons_erase hv
  refine ⟨hperm.nodup_iff.mp h.nodup, fun v' => ?_⟩
  rw [← hperm.mem_iff, h.mem v']

theorem Listed.wire (h : Listed records toplevels) (hv : records v = none) (x : Tracked) :
    Listed (Function.update records v (some x)) (x.enlist v toplevels) := by
  have hout : v ∉ toplevels := by
    intro hmem
    obtain ⟨w, hw⟩ := (h.mem v).mp hmem
    rw [hv] at hw
    cases hw
  have hother : ∀ v', v' ≠ v → (v' ∈ x.enlist v toplevels ↔ v' ∈ toplevels) := by
    intro v' hne
    cases x with
    | toplevel w => exact List.mem_cons.trans (or_iff_right hne)
    | popup w => exact Iff.rfl
    | client c => exact Iff.rfl
  refine ⟨?_, fun v' => ?_⟩
  · cases x with
    | toplevel w => exact List.nodup_cons.mpr ⟨hout, h.nodup⟩
    | popup w => exact h.nodup
    | client c => exact h.nodup
  · by_cases heq : v' = v
    · rw [heq, Function.update_self]
      cases x with
      | toplevel w => exact ⟨fun _ => ⟨w, rfl⟩, fun _ => List.mem_cons_self⟩
      | popup w => exact ⟨fun hmem => absurd hmem hout, fun ⟨_, hw⟩ => nomatch hw⟩
      | client c => exact ⟨fun hmem => absurd hmem hout, fun ⟨_, hw⟩ => nomatch hw⟩
    · rw [Function.update_of_ne heq, hother v' heq, h.mem v']

theorem Listed.release (h : Listed records toplevels) (hv : records v = some x) :
    Listed (Function.update records v none) (x.delist v toplevels) := by
  have hother : ∀ v', v' ≠ v → (v' ∈ x.delist v toplevels ↔ v' ∈ toplevels) := by
    intro v' hne
    cases x with
    | toplevel w => exact List.mem_erase_of_ne hne
    | popup w => exact Iff.rfl
    | client c => exact Iff.rfl
  have hout : v ∉ x.delist v toplevels := by
    cases x with
    | toplevel w => exact h.nodup.not_mem_erase
    | popup w =>
      intro hmem
      obtain ⟨w', hw'⟩ := (h.mem v).mp hmem
      rw [hv] at hw'
      cases hw'
    | client c =>
      intro hmem
      obtain ⟨w', hw'⟩ := (h.mem v).mp hmem
      rw [hv] at hw'
      cases hw'
  refine ⟨?_, fun v' => ?_⟩
  · cases x with
    | toplevel w => exact h.nodup.erase v
    | popup w => exact h.nodup
    | client c => exact h.nodup
  · by_cases heq : v' = v
    · rw [heq, Function.update_self]
      exact ⟨fun hmem => absurd hmem hout, fun ⟨_, hw⟩ => nomatch hw⟩
    · rw [Function.update_of_ne heq, hother v' heq, h.mem v']

end Listed

/-! ### The invariant -/

/-- What holds in every state. -/
structure TrackInv (s : TrackState) : Prop where
  alive : s.crashed = false
  recorded : Recorded s.signals s.records s.live
  listed : Listed s.records s.toplevels
  count : s.clientCount = (clientsIn s.records s.nextRecord).card
  fresh : ∀ v, s.nextRecord ≤ v → s.records v = none

section Inv

variable {s : TrackState} {x : Tracked} {v w c : ℕ} {k : Kind}

/-- What there is changes, but not for any record. -/
theorem TrackInv.rehost (hi : TrackInv s) {surfaces : ℕ → Option XdgObject} {clients : ℕ → Bool}
    (hlive : ∀ v x, s.records v = some x →
      ({ s with surfaces := surfaces, clients := clients }).live x = true) :
    TrackInv { s with surfaces := surfaces, clients := clients } where
  alive := hi.alive
  recorded := ⟨hi.recorded.attached, hlive, hi.recorded.one⟩
  listed := hi.listed
  count := hi.count
  fresh := hi.fresh

theorem TrackInv.touch (hi : TrackInv s) (hv : s.records v = some x) : s.touch v = some x := by
  simp only [TrackState.touch, hv, hi.recorded.host v x hv, Option.bind_eq_bind, Option.bind_some,
    if_true]

theorem TrackInv.lt (hi : TrackInv s) (hv : s.records v = some x) : v < s.nextRecord := by
  by_contra hle
  rw [hi.fresh v (not_lt.mp hle)] at hv
  cases hv

/-- An object that there was not has no record. -/
theorem TrackInv.unrecorded (hi : TrackInv s) (hx : s.live x = false) (v : ℕ) :
    s.records v ≠ some x := by
  intro hv
  rw [hi.recorded.host v x hv] at hx
  cases hx

/-- A new record, in the list and in the count. -/
theorem TrackInv.wire (hi : TrackInv s) (hx : s.live x = true)
    (hnew : ∀ v, s.records v ≠ some x) :
    ∃ g, s.signals.addAll (x.kinds.map fun k => (x.signal k, (s.nextRecord, k))) = some g ∧
      TrackInv { s with
        signals := g
        records := Function.update s.records s.nextRecord (some x)
        nextRecord := s.nextRecord + 1
        toplevels := x.enlist s.nextRecord s.toplevels
        clientCount := s.clientCount + x.weight } := by
  have hfresh := hi.fresh s.nextRecord le_rfl
  obtain ⟨g, hadd, hrecorded⟩ := hi.recorded.wire hfresh hx hnew
  refine ⟨g, hadd, hi.alive, hrecorded, hi.listed.wire hfresh x, ?_, ?_⟩
  · show s.clientCount + x.weight = _
    rw [hi.count, card_clientsIn_wire]
  · intro v hv
    have hlt : s.nextRecord < v := hv
    exact (Function.update_of_ne hlt.ne' _ _).trans (hi.fresh v hlt.le)

/-- A record goes, out of the list and out of the count. -/
theorem TrackInv.release (hi : TrackInv s) (hv : s.records v = some x) :
    ∃ g, s.signals.removeAll (x.kinds.map fun k => (v, k)) = some g ∧
      TrackInv { s with
        signals := g
        records := Function.update s.records v none
        toplevels := x.delist v s.toplevels
        clientCount := s.clientCount - x.weight } := by
  obtain ⟨g, hremove, hrecorded⟩ := hi.recorded.release hv
  refine ⟨g, hremove, hi.alive, hrecorded, hi.listed.release hv, ?_, ?_⟩
  · show s.clientCount - x.weight = _
    rw [hi.count, card_clientsIn_release hv (hi.lt hv)]
  · intro v' hv'
    by_cases heq : v' = v
    · rw [heq]
      exact Function.update_self _ _ _
    · exact (Function.update_of_ne heq _ _).trans (hi.fresh v' hv')

/-! ### What the listeners do -/

theorem TrackInv.focus (hi : TrackInv s) (hv : v ∈ s.toplevels) :
    ∃ t, focusToplevel s v = some t ∧ TrackInv t := by
  have htouch : ∀ other ∈ s.toplevels, (s.touch other).isSome = true := by
    intro other hother
    obtain ⟨w, hw⟩ := (hi.listed.mem other).mp hother
    rw [hi.touch hw]
    rfl
  have hall : ((v :: s.toplevels).all fun other => (s.touch other).isSome) = true :=
    List.all_eq_true.mpr (List.forall_mem_cons.mpr ⟨htouch v hv, htouch⟩)
  refine ⟨{ s with toplevels := v :: s.toplevels.erase v }, ?_, hi.alive, hi.recorded,
    hi.listed.focus hv, hi.count, hi.fresh⟩
  rw [focusToplevel, if_pos hall, if_pos hv]

theorem TrackInv.map (hi : TrackInv s) (hv : s.records v = some (.toplevel w)) :
    ∃ t, onToplevelMap s v = some t ∧ TrackInv t := by
  simp only [onToplevelMap, hi.touch hv, Option.bind_eq_bind, Option.bind_some]
  exact hi.focus ((hi.listed.mem v).mpr ⟨w, hv⟩)

theorem TrackInv.unmap (hi : TrackInv s) (hv : s.records v = some (.toplevel w)) :
    ∃ t, onToplevelUnmap s v = some t ∧ TrackInv t := by
  simp only [onToplevelUnmap, hi.touch hv, Option.bind_eq_bind, Option.bind_some]
  split
  · rename_i first next rest heq
    split
    · refine hi.focus ?_
      rw [heq]
      exact List.mem_cons_of_mem _ List.mem_cons_self
    · exact ⟨s, rfl, hi⟩
  · exact ⟨s, rfl, hi⟩

theorem TrackInv.configuring (hi : TrackInv s) (hv : s.records v = some x) :
    onConfiguring s v = some s := by
  simp only [onConfiguring, hi.touch hv, Option.bind_eq_bind, Option.bind_some]
  rfl

/-- Every listener but that for the end finds its record and its object. -/
theorem TrackInv.told (hi : TrackInv s) (hv : s.records v = some x) (hk : k ∈ x.kinds)
    (hne : k ≠ .destroy) : ∃ t, notify (v, k) s = some t ∧ TrackInv t := by
  simp only [notify, hv, Option.bind_eq_bind, Option.bind_some]
  cases x with
  | toplevel w =>
    cases k with
    | map => exact hi.map hv
    | unmap => exact hi.unmap hv
    | destroy => exact absurd rfl hne
    | commit => exact ⟨s, hi.configuring hv, hi⟩
    | requestFullscreen => exact ⟨s, hi.configuring hv, hi⟩
  | popup w =>
    cases k with
    | destroy => exact absurd rfl hne
    | commit => exact ⟨s, hi.configuring hv, hi⟩
    | map => exact absurd hk (by simp [Tracked.kinds])
    | unmap => exact absurd hk (by simp [Tracked.kinds])
    | requestFullscreen => exact absurd hk (by simp [Tracked.kinds])
  | client c => exact absurd (List.mem_singleton.mp hk) hne

/-- The listener for the end frees the record. -/
theorem TrackInv.toldEnd (hi : TrackInv s) (hv : s.records v = some x) :
    ∃ t, notify (v, .destroy) s = some t ∧ TrackInv t ∧ t.surfaces = s.surfaces ∧
      t.clients = s.clients ∧ t.records = Function.update s.records v none := by
  obtain ⟨g, hremove, hi'⟩ := hi.release hv
  refine ⟨_, ?_, hi', rfl, rfl, rfl⟩
  simp only [notify, hv, Option.bind_eq_bind, Option.bind_some]
  cases x with
  | toplevel w =>
    have hmem : v ∈ s.toplevels := (hi.listed.mem v).mpr ⟨w, hv⟩
    simp only [onToplevelDestroy, hi.touch hv, TrackState.release, hv, hremove, if_pos hmem,
      Option.bind_eq_bind, Option.bind_some, Tracked.delist, Tracked.weight, Tracked.isClient,
      Bool.false_eq_true, if_false, sub_zero]
    rfl
  | popup w =>
    simp only [onPopupDestroy, TrackState.release, hv, hremove, Option.bind_eq_bind,
      Option.bind_some, Tracked.delist, Tracked.weight, Tracked.isClient, Bool.false_eq_true,
      if_false, sub_zero]
    rfl
  | client c =>
    simp only [handleClientDestroyed, TrackState.release, hv, hremove, Option.bind_eq_bind,
      Option.bind_some, Tracked.delist, Tracked.weight, Tracked.isClient, if_true]
    rfl

/-! ### What each event does -/

theorem TrackInv.emit_owner (hi : TrackInv s) (hv : s.records v = some x) (hk : k ∈ x.kinds) :
    s.emit (x.signal k) = notify (v, k) s :=
  hi.recorded.attached.emit_owner (hi.recorded.unshared (exclusive_live s)) hv hk notify s

theorem TrackInv.emit_nobody (hi : TrackInv s) {signal : Signal}
    (hnone : ∀ v x, s.records v = some x → ∀ k ∈ x.kinds, x.signal k ≠ signal) :
    s.emit signal = some s :=
  hi.recorded.attached.emit_nobody hnone notify s

theorem Tracked.destroy_mem (x : Tracked) : .destroy ∈ x.kinds := by
  cases x <;> simp [Tracked.kinds]

theorem Tracked.signal_destroy {y : Tracked} (h : x.signal k = y.signal .destroy) :
    x.signal .destroy = y.signal .destroy := by
  cases x <;> cases y <;> cases h <;> rfl

/-- A signal of a surface that is not its end. -/
theorem TrackInv.emit (hi : TrackInv s) (hne : k ≠ .destroy) :
    ∃ t, s.emit (.ofSurface w k) = some t ∧ TrackInv t := by
  by_cases howner : ∃ v x, s.records v = some x ∧ ∃ k' ∈ x.kinds, x.signal k' = .ofSurface w k
  · obtain ⟨v, x, hv, k', hk', hs⟩ := howner
    have hkk : k' = k := by cases x <;> cases hs <;> rfl
    rw [← hs, hi.emit_owner hv hk']
    exact hi.told hv hk' (hkk ▸ hne)
  · refine ⟨s, hi.emit_nobody fun v x hv k' hk' hs => ?_, hi⟩
    exact howner ⟨v, x, hv, k', hk', hs⟩

/-- The end of an object leaves no record of it. -/
theorem TrackInv.emitEnd (hi : TrackInv s) (y : Tracked) :
    ∃ t, s.emit (y.signal .destroy) = some t ∧ TrackInv t ∧ t.surfaces = s.surfaces ∧
      t.clients = s.clients ∧
      ∀ v x, t.records v = some x → x.signal .destroy ≠ y.signal .destroy := by
  by_cases howner : ∃ v x, s.records v = some x ∧ x.signal .destroy = y.signal .destroy
  · obtain ⟨v, x, hv, hs⟩ := howner
    obtain ⟨t, ht, hi', hsurfaces, hclients, hrecords⟩ := hi.toldEnd hv
    refine ⟨t, ?_, hi', hsurfaces, hclients, ?_⟩
    · rw [← hs, hi.emit_owner hv x.destroy_mem, ht]
    · intro v' x' hv' hs'
      have hlive : s.live x' = true := by
        have hlive' := hi'.recorded.host v' x' hv'
        cases x' <;> simpa only [TrackState.live, hsurfaces, hclients] using hlive'
      obtain ⟨rfl, -⟩ := signal_inj (exclusive_live s) hlive (hi.recorded.host v x hv)
        x'.destroy_mem x.destroy_mem (hs'.trans hs.symm)
      exact hi.recorded.released hv v' (hrecords ▸ hv')
  · refine ⟨s, hi.emit_nobody fun v x hv k hk hs => ?_, hi, rfl, rfl, fun v x hv hs => ?_⟩
    · exact howner ⟨v, x, hv, Tracked.signal_destroy hs⟩
    · exact howner ⟨v, x, hv, hs⟩

/-- What happens to a surface concerns its own objects only. -/
theorem live_setSurface (o : Option XdgObject)
    (hne : x.signal .destroy ≠ .ofSurface w .destroy) : (s.setSurface w o).live x = s.live x := by
  cases x with
  | toplevel w' =>
    have hw : w' ≠ w := fun heq => hne (heq ▸ rfl)
    show (Function.update s.surfaces w o w').any _ = _
    rw [Function.update_of_ne hw]
    rfl
  | popup w' =>
    have hw : w' ≠ w := fun heq => hne (heq ▸ rfl)
    show (Function.update s.surfaces w o w').any _ = _
    rw [Function.update_of_ne hw]
    rfl
  | client c => rfl

theorem live_setClient (b : Bool) (hne : x.signal .destroy ≠ .ofClient c) :
    (s.setClient c b).live x = s.live x := by
  cases x with
  | toplevel w => rfl
  | popup w => rfl
  | client c' =>
    have hc : c' ≠ c := fun heq => hne (heq ▸ rfl)
    exact Function.update_of_ne hc b s.clients

/-- A record of a surface is about an object of it. -/
theorem TrackInv.ofSurface (hi : TrackInv s) (hv : s.records v = some x)
    (hs : x.signal .destroy = .ofSurface w .destroy) : ∃ object, s.surfaces w = some object := by
  have hlive := hi.recorded.host v x hv
  cases x with
  | toplevel w' =>
    cases hs
    obtain ⟨object, hobject, -⟩ := Option.any_eq_true _ _ |>.mp hlive
    exact ⟨object, hobject⟩
  | popup w' =>
    cases hs
    obtain ⟨object, hobject, -⟩ := Option.any_eq_true _ _ |>.mp hlive
    exact ⟨object, hobject⟩
  | client c => cases hs

/-- A surface without an object gets one. -/
theorem TrackInv.newSurface (hi : TrackInv s) (hw : s.surfaces w = none) (object : XdgObject) :
    TrackInv (s.setSurface w (some object)) := by
  refine hi.rehost fun v x hv => ?_
  refine (live_setSurface (s := s) (some object) fun hs => ?_).trans (hi.recorded.host v x hv)
  obtain ⟨object, hobject⟩ := hi.ofSurface hv hs
  rw [hw] at hobject
  cases hobject

/-- An object is mapped or unmapped. -/
theorem TrackInv.setMapped (hi : TrackInv s) {object : XdgObject} (hw : s.surfaces w = some object)
    (mapped : Bool) : TrackInv (s.setSurface w (some { object with mapped := mapped })) := by
  refine hi.rehost fun v x hv => ?_
  have hlive := hi.recorded.host v x hv
  show (s.setSurface w (some { object with mapped := mapped })).live x = true
  by_cases hs : x.signal .destroy = .ofSurface w .destroy
  · cases x with
    | toplevel w' =>
      cases hs
      simpa [TrackState.live, TrackState.setSurface, hw] using hlive
    | popup w' =>
      cases hs
      simpa [TrackState.live, TrackState.setSurface, hw] using hlive
    | client c => cases hs
  · rw [live_setSurface _ hs, hlive]

theorem TrackInv.clientConnects (hi : TrackInv s) (hc : s.clients c = false) (allocated : Bool) :
    ∃ t, s.effect (.clientConnects c allocated) = some t ∧ TrackInv t := by
  have hi' : TrackInv (s.setClient c true) := by
    refine hi.rehost fun v x hv => ?_
    have hlive := hi.recorded.host v x hv
    refine (live_setClient (s := s) true fun hs => ?_).trans hlive
    cases x with
    | toplevel w => cases hs
    | popup w => cases hs
    | client c' =>
      cases hs
      rw [show s.live (.client c) = s.clients c from rfl, hc] at hlive
      cases hlive
  cases allocated with
  | false => exact ⟨_, rfl, hi'⟩
  | true =>
    have hnew : ∀ v, (s.setClient c true).records v ≠ some (.client c) := hi.unrecorded hc
    have hlive : (s.setClient c true).live (.client c) = true := by
      show Function.update s.clients c true c = true
      rw [Function.update_self]
    obtain ⟨g, hadd, hi''⟩ := hi'.wire hlive hnew
    exact ⟨_, congrArg (Option.map _) hadd, hi''⟩

theorem TrackInv.newToplevel (hi : TrackInv s) (hw : s.surfaces w = none) (allocated : Bool) :
    ∃ t, s.effect (.newToplevel w allocated) = some t ∧ TrackInv t := by
  have hi' := hi.newSurface hw ⟨false, false⟩
  cases allocated with
  | false => exact ⟨_, rfl, hi'⟩
  | true =>
    have hnew : ∀ v, s.records v ≠ some (.toplevel w) := hi.unrecorded (by
      simp [TrackState.live, hw])
    obtain ⟨g, hadd, hi''⟩ := hi'.wire (x := .toplevel w)
      (by simp [TrackState.live, TrackState.setSurface]) hnew
    refine ⟨_, congrArg (Option.map _) (congrArg (Option.map _) hadd), ?_⟩
    simpa only [Tracked.weight, Tracked.isClient, Tracked.enlist, Bool.false_eq_true, if_false,
      add_zero] using hi''

theorem TrackInv.newPopup (hi : TrackInv s) (hw : s.surfaces w = none)
    (parentTree allocated : Bool) :
    ∃ t, s.effect (.newPopup w parentTree allocated) = some t ∧ TrackInv t := by
  have hi' := hi.newSurface hw ⟨true, false⟩
  show ∃ t, onNewXdgPopup _ w parentTree allocated = some t ∧ TrackInv t
  unfold onNewXdgPopup
  split
  · have hnew : ∀ v, s.records v ≠ some (.popup w) := hi.unrecorded (by
      simp [TrackState.live, hw])
    obtain ⟨g, hadd, hi''⟩ := hi'.wire (x := .popup w)
      (by simp [TrackState.live, TrackState.setSurface]) hnew
    refine ⟨_, congrArg (Option.map _) hadd, ?_⟩
    simpa only [Tracked.weight, Tracked.isClient, Tracked.enlist, Bool.false_eq_true, if_false,
      add_zero] using hi''
  · exact ⟨_, rfl, hi'⟩

/-- No event crashes the compositor or breaks the invariant. -/
theorem TrackInv.effect (hi : TrackInv s) {e : TrackEvent} (he : s.enabled e = true) :
    ∃ t, s.effect e = some t ∧ TrackInv t := by
  cases e with
  | clientConnects c allocated =>
    exact hi.clientConnects (Bool.not_eq_true' _ |>.mp he) allocated
  | clientGone c =>
    obtain ⟨t, ht, hi', -, -, hgone⟩ := hi.emitEnd (.client c)
    refine ⟨t.setClient c false, congrArg (Option.map _) ht, hi'.rehost fun v x hv => ?_⟩
    exact (live_setClient (s := t) false (hgone v x hv)).trans (hi'.recorded.host v x hv)
  | newToplevel w allocated => exact hi.newToplevel (Option.isNone_iff_eq_none.mp he) allocated
  | newPopup w parentTree allocated =>
    exact hi.newPopup (Option.isNone_iff_eq_none.mp he) parentTree allocated
  | map w =>
    obtain ⟨object, hobject, -⟩ := Option.any_eq_true _ _ |>.mp he
    obtain ⟨t, ht, hi'⟩ := (hi.setMapped hobject true).emit (w := w) (k := .map) nofun
    refine ⟨t, ?_, hi'⟩
    simp only [TrackState.effect, hobject, Option.bind_eq_bind, Option.bind_some]
    exact ht
  | unmap w =>
    obtain ⟨object, hobject, -⟩ := Option.any_eq_true _ _ |>.mp he
    obtain ⟨t, ht, hi'⟩ := (hi.setMapped hobject false).emit (w := w) (k := .unmap) nofun
    refine ⟨t, ?_, hi'⟩
    simp only [TrackState.effect, hobject, Option.bind_eq_bind, Option.bind_some]
    exact ht
  | commit w => exact hi.emit nofun
  | requestFullscreen w => exact hi.emit nofun
  | destroy w =>
    obtain ⟨t, ht, hi', -, -, hgone⟩ := hi.emitEnd (.toplevel w)
    refine ⟨t.setSurface w none, congrArg (Option.map _) ht, hi'.rehost fun v x hv => ?_⟩
    exact (live_setSurface (s := t) none (hgone v x hv)).trans (hi'.recorded.host v x hv)

theorem TrackInv.step (hi : TrackInv s) {e : TrackEvent} {t : TrackState}
    (h : s.next e = some t) : TrackInv t := by
  unfold TrackState.next at h
  split at h
  · rename_i he
    obtain ⟨t', ht', hi'⟩ := hi.effect he
    rw [ht', Option.getD_some] at h
    exact Option.some.inj h ▸ hi'
  · cases h

theorem trackInv_initial : TrackInv .initial where
  alive := rfl
  recorded := ⟨Signals.Attached.empty, nofun, nofun⟩
  listed := ⟨List.nodup_nil, fun _ => ⟨nofun, fun ⟨_, h⟩ => nomatch h⟩⟩
  count := rfl
  fresh _ _ := rfl

theorem trackInv_of_reachable (h : trackSystem.Reachable s) : TrackInv s := by
  refine h.invariant ?_ fun s e t hi ht => hi.step ht
  rintro s rfl
  exact trackInv_initial

/-! ### What is promised -/

/-- What the records promise in every state. -/
structure TrackGuarantee (s : TrackState) : Prop where
  /-- No handler has touched freed memory or broken a list. -/
  alive : s.crashed = false
  /-- Whoever is called is the listener of a record, and about the record's object, which exists. -/
  called : ∀ signal l, l ∈ s.signals.listeners signal →
    ∃ x, s.records l.1 = some x ∧ s.live x = true ∧ x.signal l.2 = signal
  /-- The record of an object, and no other, hears all that the object does. -/
  hears : ∀ v x, s.records v = some x → ∀ k ∈ x.kinds, s.signals.listeners (x.signal k) = [(v, k)]
  /-- `server->toplevels` has the records of toplevels, each once. -/
  nodup : s.toplevels.Nodup
  listed : ∀ v, v ∈ s.toplevels ↔ ∃ w, s.records v = some (.toplevel w)
  /-- The client count is the number of records of clients, each of another client. -/
  count : s.clientCount = (clientsIn s.records s.nextRecord).card
  one : ∀ v v' x, s.records v = some x → s.records v' = some x → v = v'
  /-- When all clients and surfaces are gone, nothing is left of them. -/
  gone : (∀ w, s.surfaces w = none) → (∀ c, s.clients c = false) →
    (∀ v, s.records v = none) ∧ s.toplevels = [] ∧ s.clientCount = 0

theorem TrackInv.gone (hi : TrackInv s) (hsurfaces : ∀ w, s.surfaces w = none)
    (hclients : ∀ c, s.clients c = false) :
    (∀ v, s.records v = none) ∧ s.toplevels = [] ∧ s.clientCount = 0 := by
  have hrecords : ∀ v, s.records v = none := by
    intro v
    cases hv : s.records v with
    | none => rfl
    | some x =>
      have hlive := hi.recorded.host v x hv
      cases x with
      | toplevel w => simp [TrackState.live, hsurfaces] at hlive
      | popup w => simp [TrackState.live, hsurfaces] at hlive
      | client c => simp [TrackState.live, hclients] at hlive
  refine ⟨hrecords, List.eq_nil_iff_forall_not_mem.mpr fun v hv => ?_, ?_⟩
  · obtain ⟨w, hw⟩ := (hi.listed.mem v).mp hv
    rw [hrecords v] at hw
    cases hw
  · have hempty : clientsIn s.records s.nextRecord = ∅ := by
      refine Finset.eq_empty_iff_forall_notMem.mpr fun v hv => ?_
      obtain ⟨-, c, hc⟩ := mem_clientsIn.mp hv
      rw [hrecords v] at hc
      cases hc
    rw [hi.count, hempty]
    rfl

theorem TrackInv.guarantee (hi : TrackInv s) : TrackGuarantee s where
  alive := hi.alive
  called signal l hl := by
    obtain ⟨x, hv, -, hs⟩ := (hi.recorded.attached.linked _ _ _).mp (Signals.mem_listeners.mp hl)
    exact ⟨x, hv, hi.recorded.host _ x hv, hs⟩
  hears v x hv k hk :=
    hi.recorded.attached.listeners_eq (hi.recorded.unshared (exclusive_live s)) hv hk
  nodup := hi.listed.nodup
  listed := hi.listed.mem
  count := hi.count
  one := hi.recorded.one
  gone := hi.gone

end Inv

/-- **No order in which clients come, open, map and close their windows and go crashes the
compositor**, and its records, its list and its count always fit the objects there are. -/
theorem trackGuarantee_of_reachable {s : TrackState} (h : trackSystem.Reachable s) :
    TrackGuarantee s :=
  (trackInv_of_reachable h).guarantee

/-- A client opens two toplevels and a popup, and closes the second toplevel. -/
def twoToplevels : List TrackEvent :=
  [.clientConnects 1 true, .newToplevel 5 true, .newToplevel 6 true, .commit 5, .map 5, .map 6,
    .newPopup 7 true true, .commit 7, .unmap 6, .destroy 6]

/-- Where that leads. -/
def oneToplevelLeft : TrackState :=
  (runNext TrackState.next .initial twoToplevels).getD .initial

theorem runNext_twoToplevels :
    runNext TrackState.next .initial twoToplevels = some oneToplevelLeft := rfl

theorem trackGuarantee_of_twoToplevels :
    oneToplevelLeft.toplevels = [1] ∧ oneToplevelLeft.clientCount = 1 ∧
      TrackGuarantee oneToplevelLeft :=
  ⟨rfl, rfl, trackGuarantee_of_reachable
    (System.reachable_runNext (.start rfl) runNext_twoToplevels)⟩

end Wldroid.Compositor.Tracking
