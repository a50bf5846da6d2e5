import Wldroid.DrmShim.GemMappings

/-!
# Creations that fail

`shim_resource_create` takes a handle and enters its BO into the table before it talks to the
server. Every way out between that and the end of the exchange leaves the BO where it is.

* `resourceExchange` — the exchange with the server, one call on the socket after another;
* `shimResourceCreateCalls` — the creation over these calls;
* `SameBos` — the live BOs and the inode cache are as they were;
* `createFails_sameBos_iff` — a creation that fails leaves them so exactly if it fails before it has
  a BO;
* `unanswered_creation_leaves_bo` — a creation whose answer is lost leaves a live BO behind.
-/

namespace Wldroid.DrmShim

/-! ### Code -/

/-- What the calls of a creation come to. -/
structure CreateCalls where
  connect : Option ℕ
  realloc : Bool
  headerWrite : Bool
  payloadWrite : Bool
  /-- The header of the response, from version 3 on. -/
  responseRead : Bool
  /-- The handle the server has assigned, from version 3 on, and whether it can be read. -/
  serverRes : ℕ
  resIdRead : Bool
  /-- The file of the descriptor that `vtest_recv_fd` receives. -/
  recvFd : Option BackingFile

/-- The part of `shim_resource_create` under `vtest_mutex`: the resource and the descriptor. -/
def resourceExchange (s : Shim) (rc : ResourceCreate) (handle : ℕ) (calls : CreateCalls) :
    Shim × Except Errno (ℕ × Option BackingFile) :=
  if !calls.headerWrite || !calls.payloadWrite then (s, .error .eio)
  else
    let res := if s.protocolVersion ≥ 3 then calls.serverRes else handle
    let sent := s.send (.resourceCreate2 (rc.payload s.protocolVersion handle) res)
    if s.protocolVersion ≥ 3 ∧ (!calls.responseRead || !calls.resIdRead) then (sent, .error .eio)
    else if rc.size > 0 then
      match calls.recvFd with
      | none => (sent, .error .eio)
      | some file => (sent, .ok (res, some file))
    else (sent, .ok (res, none))

/-- `shim_resource_create`, call by call. -/
def shimResourceCreateCalls (s : Shim) (rc : ResourceCreate) (calls : CreateCalls) :
    Option (Shim × Except Errno (ℕ × ℕ)) :=
  match ensureConnected s calls.connect with
  | none => some (s, .error .eio)
  | some s =>
      match boAlloc s.table calls.realloc with
      | none => none
      | some (table, none) => some ({ s with table := table }, .error .enomem)
      | some (table, some handle) =>
          match resourceExchange { s with table := table } rc handle calls with
          | (s, .error e) => some (s, .error e)
          | (s, .ok (res, shmFd)) => some (s.fill rc handle res shmFd, .ok (handle, res))

/-! ### The calls and the exchange -/

/-- The exchange fails, before or after the server has seen the request, or it is answered. -/
theorem resourceExchange_cases (s : Shim) (rc : ResourceCreate) (handle : ℕ)
    (calls : CreateCalls) :
    let res := if s.protocolVersion ≥ 3 then calls.serverRes else handle
    let sent := s.send (.resourceCreate2 (rc.payload s.protocolVersion handle) res)
    resourceExchange s rc handle calls = (s, .error .eio) ∨
      resourceExchange s rc handle calls = (sent, .error .eio) ∨
      ∃ file, resourceExchange s rc handle calls =
        (sent, .ok (res, if rc.size > 0 then some file else none)) := by
  unfold resourceExchange
  simp only
  split
  · exact .inl rfl
  right
  split
  · exact .inl rfl
  split
  · cases calls.recvFd with
    | none => exact .inl rfl
    | some file => exact .inr ⟨file, rfl⟩
  · exact .inr ⟨⟨⟨0, 0⟩, none, 0⟩, rfl⟩

/-- **The calls refine the exchange.**  A creation call by call is a creation whose exchange fails
or is answered as a whole. -/
theorem exists_shimResourceCreate_eq (s : Shim) (rc : ResourceCreate) (calls : CreateCalls) :
    ∃ exchange, shimResourceCreateCalls s rc calls =
      shimResourceCreate s rc ⟨calls.connect, calls.realloc, calls.serverRes, exchange⟩ := by
  unfold shimResourceCreateCalls shimResourceCreate
  cases hconnect : ensureConnected s calls.connect with
  | none => exact ⟨.lost false, by simp only [hconnect]⟩
  | some connected =>
    cases halloc : boAlloc connected.table calls.realloc with
    | none => exact ⟨.lost false, by simp only [hconnect, halloc]⟩
    | some result =>
      obtain ⟨table, handle⟩ := result
      cases handle with
      | none => exact ⟨.lost false, by simp only [hconnect, halloc]⟩
      | some handle =>
        obtain hlost | hlost | ⟨file, hanswered⟩ :=
          resourceExchange_cases { connected with table := table } rc handle calls
        · exact ⟨.lost false, by simp only [hconnect, halloc, hlost]; rfl⟩
        · exact ⟨.lost true, by simp only [hconnect, halloc, hlost]; rfl⟩
        · exact ⟨.answered file, by simp only [hconnect, halloc, hanswered]⟩

theorem ensureConnected_cache {s t : Shim} {connect : Option ℕ}
    (h : ensureConnected s connect = some t) : t.cache = s.cache := by
  unfold ensureConnected at h
  split at h
  · exact Option.some.inj h ▸ rfl
  · obtain ⟨version, -, rfl⟩ := Option.map_eq_some_iff.mp h
    rfl

theorem ensureConnected_eq_none_iff {s : Shim} {connect : Option ℕ} :
    ensureConnected s connect = none ↔ s.sock = false ∧ connect = none := by
  unfold ensureConnected
  cases s.sock with
  | true => simp
  | false => simp

/-- An allocation that returns fails exactly if the table is full and cannot grow. -/
theorem boAlloc_fails_iff {t t' : BoTable} {realloc : Bool} {r : Option ℕ}
    (h : boAlloc t realloc = some (t', r)) :
    r = none ↔ t.capacity ≤ t.handleNext ∧ realloc = false := by
  unfold boAlloc at h
  simp only at h
  split at h
  · rename_i hfull
    obtain ⟨newCap, -, hresult⟩ := Option.map_eq_some_iff.mp h
    cases realloc with
    | true =>
      obtain ⟨-, rfl⟩ := Prod.mk.inj hresult
      simp
    | false =>
      obtain ⟨-, rfl⟩ := Prod.mk.inj hresult
      exact ⟨fun _ => ⟨hfull, rfl⟩, fun _ => rfl⟩
  · rename_i hroom
    obtain ⟨-, rfl⟩ := Prod.mk.inj (Option.some.inj h)
    simp only [reduceCtorEq, false_iff]
    exact fun hfails => hroom hfails.1

/-! ### Failures -/

/-- The live BOs with all their fields, and the inode cache, are the same. -/
structure SameBos (s t : Shim) : Prop where
  live : t.table.live = s.table.live
  cache : t.cache = s.cache

/-- There is no connection and none can be made, or the table is full and cannot grow. -/
def FailsBeforeBo (s : Shim) (calls : CreateCalls) : Prop :=
  s.sock = false ∧ calls.connect = none ∨
    s.table.capacity ≤ s.table.handleNext ∧ calls.realloc = false

/-- Tables are well formed in every state that can be reached. -/
theorem wellFormed_of_reachable {s : Shim} (h : shimSystem.Reachable s) : s.table.WellFormed := by
  refine h.invariant (I := fun s => s.table.WellFormed) (fun s hs => ?_) fun s e t hs hstep => ?_
  · rw [hs.2.1]
    exact wellFormed_empty
  · exact (next_change hs hstep).kept.table

/-- What a failed creation leaves: the BOs as they were, or one more. -/
theorem createFails_cases {s t : Shim} (hs : s.table.WellFormed) {rc : ResourceCreate}
    {calls : CreateCalls} {e : Errno}
    (hfails : shimResourceCreateCalls s rc calls = some (t, .error e)) :
    t.cache = s.cache ∧ (FailsBeforeBo s calls ∧ t.table.live = s.table.live ∨
      ¬ FailsBeforeBo s calls ∧ t.table.live = Function.update s.table.live s.table.handleNext
        (some (Bo.fresh s.table.handleNext))) := by
  obtain ⟨exchange, hcreate⟩ := exists_shimResourceCreate_eq s rc calls
  rw [hcreate] at hfails
  unfold shimResourceCreate at hfails
  cases hconnect : ensureConnected s calls.connect with
  | none =>
    simp only [hconnect] at hfails
    obtain ⟨rfl, -⟩ := Prod.mk.inj (Option.some.inj hfails)
    exact ⟨rfl, .inl ⟨.inl (ensureConnected_eq_none_iff.mp hconnect), rfl⟩⟩
  | some connected =>
    simp only [hconnect] at hfails
    have htable := ensureConnected_table hconnect
    have hcache := ensureConnected_cache hconnect
    have hconnected : ¬ (s.sock = false ∧ calls.connect = none) := by
      rw [← ensureConnected_eq_none_iff, hconnect]
      exact Option.some_ne_none _
    rw [htable] at hfails
    cases halloc : boAlloc s.table calls.realloc with
    | none =>
      simp only [halloc] at hfails
      cases hfails
    | some result =>
      obtain ⟨table, r⟩ := result
      have hfull := boAlloc_fails_iff halloc
      cases r with
      | none =>
        simp only [halloc] at hfails
        obtain ⟨rfl, -⟩ := Prod.mk.inj (Option.some.inj hfails)
        obtain ⟨-, -, hlive⟩ := hs.boAlloc_failed halloc
        exact ⟨hcache, .inl ⟨.inr (hfull.mp rfl), hlive⟩⟩
      | some handle =>
        obtain ⟨hhandle, -, -, hlive⟩ := hs.boAlloc_made halloc
        have hlate : ¬ FailsBeforeBo s calls := by
          rintro (hno | hno)
          · exact hconnected hno
          · cases hfull.mpr hno
        simp only [halloc] at hfails
        cases exchange with
        | lost created =>
          -- the BO is in the table, whether or not the server has seen the request
          obtain ⟨rfl, -⟩ := Prod.mk.inj (Option.some.inj hfails)
          cases created with
          | true => exact ⟨hcache, .inr ⟨hlate, hlive⟩⟩
          | false => exact ⟨hcache, .inr ⟨hlate, hlive⟩⟩
        | answered file =>
          obtain ⟨-, herror⟩ := Prod.mk.inj (Option.some.inj hfails)
          cases herror

/-- **Failure before the BO.**  In a state as all that can be reached, a creation that fails, at
whatever point and whatever it asks for, leaves the live BOs and the cache as they were exactly if
it has failed to connect or to grow the table. -/
theorem createFails_sameBos_iff (s t : Shim) (hs : s.table.WellFormed) (rc : ResourceCreate)
    (calls : CreateCalls) (e : Errno)
    (hfails : shimResourceCreateCalls s rc calls = some (t, .error e)) :
    SameBos s t ↔ FailsBeforeBo s calls := by
  obtain ⟨hcache, ⟨hbefore, hlive⟩ | ⟨hlate, hlive⟩⟩ := createFails_cases hs hfails
  · exact ⟨fun _ => hbefore, fun _ => ⟨hlive, hcache⟩⟩
  · refine ⟨fun hsame => ?_, fun hbefore => absurd hbefore hlate⟩
    -- the next handle was free
    have hfree : s.table.live s.table.handleNext = none := by
      cases hbo : s.table.live s.table.handleNext with
      | none => rfl
      | some bo => exact absurd (hs.in_bounds _ bo hbo).1 (lt_irrefl _)
    have hnew : t.table.live s.table.handleNext = some (Bo.fresh s.table.handleNext) := by
      rw [hlive, Function.update_self]
    rw [hsame.live, hfree] at hnew
    cases hnew

/-- The connection is made, and the response to the first creation cannot be read. -/
def unansweredCalls : CreateCalls := ⟨some 3, true, true, true, false, 7, true, none⟩

/-- Nothing listens on the socket: the first creation fails at once. -/
theorem createFails_sameBos_unconnected :
    SameBos freshShim freshShim ↔
      FailsBeforeBo freshShim ⟨none, true, true, true, true, 7, true, none⟩ :=
  createFails_sameBos_iff freshShim freshShim (wellFormed_of_reachable (.start freshShim_initial))
    smallBuffer ⟨none, true, true, true, true, 7, true, none⟩ .eio rfl

/-- The response to the first creation cannot be read: the creation fails, and BO 1 is live. -/
theorem unanswered_creation_leaves_bo :
    ∃ t, shimSystem.Reachable freshShim ∧
      shimResourceCreateCalls freshShim smallBuffer unansweredCalls = some (t, .error .eio) ∧
      freshShim.table.live 1 = none ∧ t.table.live 1 = some (Bo.fresh 1) ∧
      ¬ SameBos freshShim t := by
  refine ⟨_, .start freshShim_initial, rfl, rfl, rfl, fun hsame => ?_⟩
  have hnew := congrFun hsame.live 1
  cases hnew

end Wldroid.DrmShim
