import Wldroid.Foundation.Transition
import Wldroid.Foundation.Keyed
import Wldroid.Foundation.Ledger

/-!
# GBM buffers over hardware buffers

`gbm_ahb.c` gives every buffer object a hardware buffer of its own, which it locks while the object
is mapped, and `gbm_ahb_formats.c` has the formats.

* `gbmFormatBpp_eq` — the table's bytes per pixel are those of the hardware buffer format;
* `GbmState.next` — a call of the interface on objects that exist, or on `NULL`;
* **`gbmGuarantee_of_reachable`** — whatever is called in whatever order, what has been acquired and
  not released is exactly what the devices, the buffer objects and the exported descriptors that are
  left own: nothing is released twice, a hardware buffer is locked exactly while its object is
  mapped, and the data of a user is destroyed with its object and only then.
-/

namespace Wldroid.Shims.Gbm

open Wldroid.Foundation

/-! ### Formats -/

/-- The formats of hardware buffers that are used. -/
inductive AhbFormat where
  | r8g8b8a8Unorm
  | r8g8b8x8Unorm
  | r8g8b8Unorm
  | r5g6b5Unorm
  | r16g16b16a16Float
  | r10g10b10a2Unorm
  | blob
  deriving DecidableEq

/-- The size of a pixel, as Android documents it. -/
def AhbFormat.bytesPerPixel : AhbFormat → ℕ
  | .r8g8b8a8Unorm | .r8g8b8x8Unorm | .r10g10b10a2Unorm => 4
  | .r8g8b8Unorm => 3
  | .r5g6b5Unorm => 2
  | .r16g16b16a16Float => 8
  | .blob => 1

/-- `fourcc_code`. -/
def fourcc (a b c d : Char) : ℕ := a.toNat + b.toNat * 2 ^ 8 + c.toNat * 2 ^ 16 + d.toNat * 2 ^ 24

/-- `struct gbm_ahb_format_entry`. -/
structure FormatEntry where
  gbm : ℕ
  ahb : AhbFormat
  bpp : ℕ

/-- `format_table`. -/
def formatTable : List FormatEntry :=
  [⟨fourcc 'A' 'B' '2' '4', .r8g8b8a8Unorm, 4⟩, ⟨fourcc 'X' 'B' '2' '4', .r8g8b8x8Unorm, 4⟩,
    ⟨fourcc 'A' 'R' '2' '4', .r8g8b8a8Unorm, 4⟩, ⟨fourcc 'X' 'R' '2' '4', .r8g8b8x8Unorm, 4⟩,
    ⟨fourcc 'R' 'G' '1' '6', .r5g6b5Unorm, 2⟩, ⟨fourcc 'B' 'G' '2' '4', .r8g8b8Unorm, 3⟩,
    ⟨fourcc 'A' 'B' '4' 'H', .r16g16b16a16Float, 8⟩, ⟨fourcc 'X' 'B' '4' 'H', .r16g16b16a16Float, 8⟩,
    ⟨fourcc 'R' '8' ' ' ' ', .blob, 1⟩, ⟨fourcc 'A' 'B' '3' '0', .r10g10b10a2Unorm, 4⟩]

/-- `gbm_to_ahb_format`; none is 0. -/
def gbmToAhbFormat (gbmFormat : ℕ) : Option AhbFormat :=
  (formatTable.find? fun e => e.gbm = gbmFormat).map FormatEntry.ahb

/-- `gbm_format_bpp`. -/
def gbmFormatBpp (gbmFormat : ℕ) : ℕ :=
  ((formatTable.find? fun e => e.gbm = gbmFormat).map FormatEntry.bpp).getD 0

theorem bpp_of_mem {e : FormatEntry} (he : e ∈ formatTable) : e.bpp = e.ahb.bytesPerPixel := by
  have hall : (formatTable.all fun e => e.bpp = e.ahb.bytesPerPixel) = true := by decide
  exact of_decide_eq_true (List.all_eq_true.mp hall e he)

/-- The two functions agree on what is supported, and on the size of a pixel. -/
theorem gbmFormatBpp_eq (gbmFormat : ℕ) :
    gbmFormatBpp gbmFormat = ((gbmToAhbFormat gbmFormat).map AhbFormat.bytesPerPixel).getD 0 := by
  unfold gbmFormatBpp gbmToAhbFormat
  cases h : formatTable.find? fun e => e.gbm = gbmFormat with
  | none => rfl
  | some e => exact bpp_of_mem (List.mem_of_find?_eq_some h)

/-! ### State -/

/-- `struct gbm_device` and its address. -/
structure GbmDevice where
  address : ℕ
  fd : ℤ
  deriving DecidableEq

/-- `struct gbm_bo` and its address, with the descriptor of its hardware buffer. -/
structure GbmBo where
  address : ℕ
  device : ℕ
  ahb : ℕ
  width : ℕ
  height : ℕ
  usage : ℕ
  /-- `desc.stride`, in pixels. -/
  pixelStride : ℕ
  gbmFormat : ℕ
  stride : ℕ
  userData : Option ℕ
  /-- `user_data_destroy` is set. -/
  userDataDestroy : Bool
  mapped : Bool
  deriving DecidableEq

/-- What is acquired and released. -/
inductive GbmResource where
  | device (address : ℕ)
  | bo (address : ℕ)
  | ahb (ahb : ℕ)
  | lock (ahb : ℕ)
  | fd (fd : ℕ)
  deriving DecidableEq

/-- The objects there are, the descriptors that have been exported, and ghosts for what has been
done. -/
structure GbmState where
  devices : List GbmDevice
  bos : List GbmBo
  fds : List ℕ
  /-- The next address. -/
  next : ℕ
  log : List (LedgerEntry GbmResource)
  /-- The calls of `user_data_destroy`. -/
  destroyed : List (ℕ × ℕ)
  deriving DecidableEq

/-- What a buffer object owns. -/
def GbmBo.resources (bo : GbmBo) : List GbmResource :=
  (if bo.mapped then [.lock bo.ahb] else []) ++ [.ahb bo.ahb, .bo bo.address]

/-- What is owned. -/
def GbmState.owned (s : GbmState) : List GbmResource :=
  s.devices.map (fun d => .device d.address) ++ s.bos.flatMap GbmBo.resources ++ s.fds.map .fd

/-! ### Functions -/

/-- `gbm_create_device`. -/
def gbmCreateDevice (s : GbmState) (fd : ℤ) (allocated : Bool) : GbmState :=
  if allocated then
    { s with
      devices := ⟨s.next, fd⟩ :: s.devices
      next := s.next + 1
      log := s.log ++ acquires [.device s.next] }
  else s

/-- `gbm_device_destroy`. -/
def gbmDeviceDestroy (s : GbmState) (device : GbmDevice) : GbmState :=
  { s with
    devices := remove GbmDevice.address device.address s.devices
    log := s.log ++ releases [.device device.address] }

/-- Sampling and rendering by the GPU. -/
def gpuUsage : ℕ := 1 <<< 8 ||| 1 <<< 9

/-- The usage that the flags of a buffer object ask for: rendering, linear, scanout and write. -/
def requestedUsage (flags : ℕ) : ℕ :=
  (if flags.testBit 2 then gpuUsage else 0) ||| (if flags.testBit 4 then 3 ||| 3 <<< 4 else 0) |||
    (if flags.testBit 0 then 1 <<< 11 else 0) ||| (if flags.testBit 3 then 3 <<< 4 else 0)

/-- The usage of the hardware buffer. -/
def ahbUsage (flags : ℕ) : ℕ :=
  if requestedUsage flags = 0 then gpuUsage else requestedUsage flags

/-- `gbm_bo_create`; `allocate` is the stride of the hardware buffer, if there is one. -/
def gbmBoCreate (s : GbmState) (device : ℕ) (width height format flags : ℕ)
    (allocate : Option ℕ) (allocated : Bool) : GbmState :=
  if width = 0 ∨ height = 0 then s
  else if (gbmToAhbFormat format).isNone then s
  else if gbmFormatBpp format = 0 then s
  else
    match allocate with
    | none => s
    | some pixelStride =>
        if allocated then
          { s with
            bos := ⟨s.next + 1, device, s.next, width, height, ahbUsage flags, pixelStride, format,
              pixelStride * gbmFormatBpp format % 2 ^ 32, none, false, false⟩ :: s.bos
            next := s.next + 2
            log := s.log ++ acquires [.ahb s.next, .bo (s.next + 1)] }
        else
          { s with
            next := s.next + 1
            log := s.log ++ acquires [.ahb s.next] ++ releases [.ahb s.next] }

/-- `gbm_bo_destroy`. -/
def gbmBoDestroy (s : GbmState) (bo : GbmBo) : GbmState :=
  { s with
    bos := remove GbmBo.address bo.address s.bos
    log := s.log ++ releases ((if bo.mapped then [.lock bo.ahb] else []) ++
      [.ahb bo.ahb, .bo bo.address])
    destroyed := s.destroyed ++
      (if bo.userDataDestroy then bo.userData.toList.map fun data => (bo.address, data) else []) }

/-- Change a buffer object. -/
def GbmState.setBo (s : GbmState) (b : ℕ) (f : GbmBo → GbmBo) : GbmState :=
  { s with bos := update GbmBo.address b f s.bos }

/-- `gbm_bo_map`; `locked` tells whether the hardware buffer could be locked. -/
def gbmBoMap (s : GbmState) (bo : GbmBo) (locked : Bool) : GbmState :=
  if bo.mapped then s
  else if locked then
    { s.setBo bo.address fun bo => { bo with mapped := true } with
      log := s.log ++ acquires [.lock bo.ahb] }
  else s

/-- `gbm_bo_unmap`. -/
def gbmBoUnmap (s : GbmState) (bo : GbmBo) : GbmState :=
  if bo.mapped then
    { s.setBo bo.address fun bo => { bo with mapped := false } with
      log := s.log ++ releases [.lock bo.ahb] }
  else s

/-- `gbm_bo_get_fd`; the descriptor is the one the kernel chooses, if it can be duplicated. -/
def gbmBoGetFd (s : GbmState) (fd : Option ℕ) : GbmState :=
  match fd with
  | some fd => { s with fds := fd :: s.fds, log := s.log ++ acquires [.fd fd] }
  | none => s

/-- `gbm_bo_set_user_data`. -/
def gbmBoSetUserData (s : GbmState) (bo : GbmBo) (data : Option ℕ) (destroy : Bool) : GbmState :=
  s.setBo bo.address fun bo => { bo with userData := data, userDataDestroy := destroy }

/-! ### Steps -/

/-- A call; an object is its address, or none for `NULL`. -/
inductive GbmCall where
  | createDevice (fd : ℤ) (allocated : Bool)
  | destroyDevice (device : Option ℕ)
  | create (device : Option ℕ) (width height format flags : ℕ) (allocate : Option ℕ)
      (allocated : Bool)
  | destroy (bo : Option ℕ)
  | map (bo : Option ℕ) (locked : Bool)
  | unmap (bo : Option ℕ)
  | getFd (bo : Option ℕ) (fd : Option ℕ)
  | setUserData (bo : Option ℕ) (data : Option ℕ) (destroy : Bool)
  /-- The caller closes a descriptor. -/
  | close (fd : ℕ)

/-- A call with a buffer object: nothing happens to `NULL`, and what does not exist is not
passed. -/
def GbmState.withBo (s : GbmState) (bo : Option ℕ) (f : GbmBo → GbmState) : Option GbmState :=
  match bo with
  | none => some s
  | some b => (lookup GbmBo.address b s.bos).map f

def GbmState.step (s : GbmState) : GbmCall → Option GbmState
  | .createDevice fd allocated => some (gbmCreateDevice s fd allocated)
  | .destroyDevice none => some s
  | .destroyDevice (some d) => (lookup GbmDevice.address d s.devices).map (gbmDeviceDestroy s)
  | .create none _ _ _ _ _ _ => some s
  | .create (some d) width height format flags allocate allocated =>
      (lookup GbmDevice.address d s.devices).map fun _ =>
        gbmBoCreate s d width height format flags allocate allocated
  | .destroy bo => s.withBo bo (gbmBoDestroy s)
  | .map bo locked => s.withBo bo fun bo => gbmBoMap s bo locked
  | .unmap bo => s.withBo bo (gbmBoUnmap s)
  | .getFd bo fd => if fd.any (· ∈ s.fds) then none else s.withBo bo fun _ => gbmBoGetFd s fd
  | .setUserData bo data destroy => s.withBo bo fun bo => gbmBoSetUserData s bo data destroy
  | .close fd =>
      if fd ∈ s.fds then
        some { s with fds := s.fds.erase fd, log := s.log ++ releases [.fd fd] }
      else none

def GbmState.initial : GbmState := ⟨[], [], [], 1, [], []⟩

def gbmSystem : System GbmState GbmCall := System.ofNext (fun s => s = .initial) GbmState.step

/-! ### The invariant -/

/-- What is true of every buffer object from its creation on; the hardware buffer is the one that
was allocated right before it. -/
structure GbmBo.Described (bo : GbmBo) : Prop where
  usage : bo.usage ≠ 0
  stride : ∃ a, gbmToAhbFormat bo.gbmFormat = some a ∧
    bo.stride = bo.pixelStride * a.bytesPerPixel % 2 ^ 32
  ahb : bo.address = bo.ahb + 1

/-- What holds in every state. -/
structure GbmInv (s : GbmState) : Prop where
  ledger : settle 0 s.log = some ↑s.owned
  devices : (s.devices.map GbmDevice.address).Nodup
  bos : (s.bos.map GbmBo.address).Nodup
  freshDevice : ∀ d ∈ s.devices, d.address < s.next
  freshBo : ∀ bo ∈ s.bos, bo.address < s.next
  described : ∀ bo ∈ s.bos, bo.Described
  fds : s.fds.Nodup
  callbacks : (s.destroyed.map Prod.fst).Nodup
  gone : ∀ p ∈ s.destroyed, p.1 < s.next ∧ p.1 ∉ s.bos.map GbmBo.address

section Inv

variable {s t : GbmState} {bo : GbmBo} {b : ℕ}

theorem ahbUsage_ne_zero (flags : ℕ) : ahbUsage flags ≠ 0 := by
  unfold ahbUsage
  split
  · decide
  · assumption

/-- What is owned, one buffer object first. -/
theorem perm_owned (devices fds : List GbmResource) {l l' : List GbmBo} (h : l'.Perm (bo :: l)) :
    (devices ++ l'.flatMap GbmBo.resources ++ fds).Perm
      (bo.resources ++ (devices ++ l.flatMap GbmBo.resources ++ fds)) := by
  have hflat : (l'.flatMap GbmBo.resources).Perm
      (bo.resources ++ l.flatMap GbmBo.resources) := h.flatMap_right GbmBo.resources
  have hmiddle : (devices ++ l'.flatMap GbmBo.resources).Perm
      (bo.resources ++ (devices ++ l.flatMap GbmBo.resources)) :=
    (hflat.append_left devices).trans (List.perm_append_comm_assoc _ _ _)
  rw [← List.append_assoc]
  exact hmiddle.append_right fds

/-- A buffer object changes, but not its address, and what it owns changes with it. -/
theorem GbmInv.setBo (hi : GbmInv s) (hbo : lookup GbmBo.address b s.bos = some bo)
    {f : GbmBo → GbmBo} (haddress : ∀ bo, (f bo).address = bo.address)
    (hdescribed : ∀ bo, bo.Described → (f bo).Described) {log : List (LedgerEntry GbmResource)}
    (hledger : ∀ rest : List GbmResource, s.owned.Perm (bo.resources ++ rest) →
      settle 0 log = some ↑((f bo).resources ++ rest)) :
    GbmInv { s.setBo b f with log := log } where
  ledger := by
    have hbefore := perm_owned (s.devices.map fun d => .device d.address) (s.fds.map .fd)
      (perm_cons_remove hi.bos hbo)
    have hafter := perm_owned (s.devices.map fun d => .device d.address) (s.fds.map .fd)
      (perm_update hi.bos hbo haddress)
    rw [hledger _ hbefore]
    exact congrArg some (Multiset.coe_eq_coe.mpr hafter.symm)
  devices := hi.devices
  bos := by
    show ((update GbmBo.address b f s.bos).map GbmBo.address).Nodup
    rw [map_key_update haddress]
    exact hi.bos
  freshDevice := hi.freshDevice
  freshBo bo' hbo' := by
    obtain ⟨bo₀, hbo₀, rfl⟩ := List.mem_map.mp hbo'
    split
    · rw [haddress]
      exact hi.freshBo bo₀ hbo₀
    · exact hi.freshBo bo₀ hbo₀
  described bo' hbo' := by
    obtain ⟨bo₀, hbo₀, rfl⟩ := List.mem_map.mp hbo'
    split
    · exact hdescribed bo₀ (hi.described bo₀ hbo₀)
    · exact hi.described bo₀ hbo₀
  fds := hi.fds
  callbacks := hi.callbacks
  gone := by
    show ∀ p ∈ s.destroyed, p.1 < s.next ∧ p.1 ∉ (update GbmBo.address b f s.bos).map GbmBo.address
    rw [map_key_update haddress]
    exact hi.gone

/-- Only what is owned by devices or callers changes. -/
theorem GbmInv.setOthers (hi : GbmInv s) {devices : List GbmDevice} {fds : List ℕ} {next : ℕ}
    {log : List (LedgerEntry GbmResource)} (hnext : s.next ≤ next) (hfds : fds.Nodup)
    (hdevices : (devices.map GbmDevice.address).Nodup) (hfresh : ∀ d ∈ devices, d.address < next)
    (hledger : settle 0 log =
      some ↑({ s with devices := devices, fds := fds } : GbmState).owned) :
    GbmInv { s with devices := devices, fds := fds, next := next, log := log } where
  ledger := hledger
  devices := hdevices
  bos := hi.bos
  freshDevice := hfresh
  freshBo bo hbo := (hi.freshBo bo hbo).trans_le hnext
  described := hi.described
  fds := hfds
  callbacks := hi.callbacks
  gone p hp := ⟨(hi.gone p hp).1.trans_le hnext, (hi.gone p hp).2⟩

theorem GbmInv.createDevice (hi : GbmInv s) (fd : ℤ) (allocated : Bool) :
    GbmInv (gbmCreateDevice s fd allocated) := by
  unfold gbmCreateDevice
  split
  · have hout : s.next ∉ s.devices.map GbmDevice.address := by
      intro hmem
      obtain ⟨d, hd, heq⟩ := List.mem_map.mp hmem
      exact (hi.freshDevice d hd).ne heq
    refine hi.setOthers (Nat.le_succ _) hi.fds (List.nodup_cons.mpr ⟨hout, hi.devices⟩) ?_
      (settle_append_acquires hi.ledger (List.Perm.refl _))
    intro d hd
    rcases List.mem_cons.mp hd with rfl | hd
    · exact Nat.lt_succ_self _
    · exact (hi.freshDevice d hd).trans (Nat.lt_succ_self _)
  · exact hi

theorem GbmInv.deviceDestroy (hi : GbmInv s) {d : ℕ} {device : GbmDevice}
    (hd : lookup GbmDevice.address d s.devices = some device) :
    GbmInv (gbmDeviceDestroy s device) := by
  obtain rfl := (mem_of_lookup hd).2
  refine hi.setOthers le_rfl hi.fds (nodup_remove hi.devices _) ?_
    (settle_append_releases hi.ledger ?_)
  · intro d hd
    exact hi.freshDevice d ((remove_sublist _ _).mem hd)
  · have hperm := (perm_cons_remove hi.devices hd).map fun d => GbmResource.device d.address
    exact (hperm.append_right _).append_right _

/-- A new buffer object with its hardware buffer. -/
theorem GbmInv.newBo (hi : GbmInv s) {new : GbmBo} (haddress : new.address = s.next + 1)
    (hdescribed : new.Described) (hmapped : new.mapped = false) (hahb : new.ahb = s.next) :
    GbmInv { s with
      bos := new :: s.bos
      next := s.next + 2
      log := s.log ++ acquires [.ahb s.next, .bo (s.next + 1)] } where
  ledger := by
    refine settle_append_acquires hi.ledger ?_
    have hperm := perm_owned (s.devices.map fun d => .device d.address) (s.fds.map .fd)
      (List.Perm.refl (new :: s.bos))
    have hres : new.resources = [.ahb s.next, .bo (s.next + 1)] := by
      rw [GbmBo.resources, hmapped, hahb, haddress]
      rfl
    rwa [hres] at hperm
  devices := hi.devices
  bos := by
    refine List.nodup_cons.mpr ⟨?_, hi.bos⟩
    intro hmem
    obtain ⟨bo, hbo, heq⟩ := List.mem_map.mp hmem
    have hlt := hi.freshBo bo hbo
    omega
  freshDevice d hd := (hi.freshDevice d hd).trans (by show s.next < s.next + 2; omega)
  freshBo bo hbo := by
    show bo.address < s.next + 2
    rcases List.mem_cons.mp hbo with rfl | hbo
    · omega
    · have hlt := hi.freshBo bo hbo
      omega
  described := List.forall_mem_cons.mpr ⟨hdescribed, hi.described⟩
  fds := hi.fds
  callbacks := hi.callbacks
  gone p hp := by
    obtain ⟨hlt, hout⟩ := hi.gone p hp
    refine ⟨hlt.trans (by show s.next < s.next + 2; omega), ?_⟩
    intro hmem
    rcases List.mem_cons.mp hmem with heq | hmem
    · omega
    · exact hout hmem

theorem GbmInv.boCreate (hi : GbmInv s) (device width height format flags : ℕ)
    (allocate : Option ℕ) (allocated : Bool) :
    GbmInv (gbmBoCreate s device width height format flags allocate allocated) := by
  unfold gbmBoCreate
  split
  · exact hi
  · split
    · exact hi
    · rename_i hformat
      split
      · exact hi
      · split
        · exact hi
        · split
          · obtain ⟨a, ha⟩ := Option.ne_none_iff_exists'.mp
              fun hnone => hformat (Option.isNone_iff_eq_none.mpr hnone)
            refine hi.newBo rfl ⟨ahbUsage_ne_zero flags, ⟨a, ha, ?_⟩, rfl⟩ rfl rfl
            show _ * gbmFormatBpp format % 2 ^ 32 = _
            rw [gbmFormatBpp_eq, ha]
            rfl
          · -- the hardware buffer is released again
            refine hi.setOthers (Nat.le_succ _) hi.fds hi.devices ?_ ?_
            · intro d hd
              exact (hi.freshDevice d hd).trans (Nat.lt_succ_self _)
            · rw [List.append_assoc, settle_append, hi.ledger]
              exact settle_returned (List.Perm.refl _) _

theorem GbmInv.boDestroy (hi : GbmInv s) (hbo : lookup GbmBo.address b s.bos = some bo) :
    GbmInv (gbmBoDestroy s bo) := by
  obtain ⟨hmem, rfl⟩ := mem_of_lookup hbo
  have hout : bo.address ∉ (remove GbmBo.address bo.address s.bos).map GbmBo.address := by
    intro hin
    obtain ⟨bo', hbo', heq⟩ := List.mem_map.mp hin
    exact of_decide_eq_true (List.mem_filter.mp hbo').2 heq
  have hcalled : ∀ p ∈ (if bo.userDataDestroy then
      bo.userData.toList.map fun data => (bo.address, data) else []), p.1 = bo.address := by
    intro p hp
    split at hp
    · obtain ⟨data, -, rfl⟩ := List.mem_map.mp hp
      rfl
    · cases hp
  constructor
  · refine settle_append_releases hi.ledger ?_
    exact perm_owned (s.devices.map fun d => .device d.address) (s.fds.map .fd)
      (perm_cons_remove hi.bos hbo)
  · exact hi.devices
  · exact nodup_remove hi.bos _
  · exact hi.freshDevice
  · exact fun bo' hbo' => hi.freshBo bo' ((remove_sublist _ _).mem hbo')
  · exact fun bo' hbo' => hi.described bo' ((remove_sublist _ _).mem hbo')
  · exact hi.fds
  · show ((s.destroyed ++ _).map Prod.fst).Nodup
    rw [List.map_append, List.nodup_append']
    refine ⟨hi.callbacks, ?_, ?_⟩
    · split
      · cases bo.userData with
        | none => exact List.nodup_nil
        | some data => exact List.nodup_singleton _
      · exact List.nodup_nil
    · intro b hb hb'
      obtain ⟨p, hp, rfl⟩ := List.mem_map.mp hb
      obtain ⟨p', hp', heq⟩ := List.mem_map.mp hb'
      refine (hi.gone p hp).2 (List.mem_map.mpr ⟨bo, hmem, ?_⟩)
      rw [← heq, hcalled p' hp']
  · intro p hp
    rcases List.mem_append.mp hp with hp | hp
    · obtain ⟨hlt, hgone⟩ := hi.gone p hp
      exact ⟨hlt, fun hin => hgone (((remove_sublist _ _).map _).mem hin)⟩
    · rw [hcalled p hp]
      exact ⟨hi.freshBo bo hmem, hout⟩

theorem GbmInv.boMap (hi : GbmInv s) (hbo : lookup GbmBo.address b s.bos = some bo)
    (locked : Bool) : GbmInv (gbmBoMap s bo locked) := by
  obtain ⟨hmem, rfl⟩ := mem_of_lookup hbo
  unfold gbmBoMap
  split
  · exact hi
  · rename_i hmapped
    split
    · refine hi.setBo (f := fun bo => { bo with mapped := true }) hbo (fun _ => rfl)
        (fun _ h => ⟨h.usage, h.stride, h.ahb⟩) fun rest hrest => ?_
      refine settle_append_acquires hi.ledger ?_
      have hres : bo.resources = [.ahb bo.ahb, .bo bo.address] := by
        rw [GbmBo.resources, if_neg hmapped]
        rfl
      rw [hres] at hrest
      exact (hrest.cons (.lock bo.ahb)).symm
    · exact hi

theorem GbmInv.boUnmap (hi : GbmInv s) (hbo : lookup GbmBo.address b s.bos = some bo) :
    GbmInv (gbmBoUnmap s bo) := by
  obtain ⟨hmem, rfl⟩ := mem_of_lookup hbo
  unfold gbmBoUnmap
  split
  · rename_i hmapped
    refine hi.setBo (f := fun bo => { bo with mapped := false }) hbo (fun _ => rfl)
      (fun _ h => ⟨h.usage, h.stride, h.ahb⟩) fun rest hrest => ?_
    refine settle_append_releases hi.ledger ?_
    have hres : bo.resources = [.lock bo.ahb, .ahb bo.ahb, .bo bo.address] := by
      rw [GbmBo.resources, if_pos hmapped]
      rfl
    rwa [hres] at hrest
  · exact hi

theorem GbmInv.boSetUserData (hi : GbmInv s) (hbo : lookup GbmBo.address b s.bos = some bo)
    (data : Option ℕ) (destroy : Bool) : GbmInv (gbmBoSetUserData s bo data destroy) := by
  obtain ⟨hmem, rfl⟩ := mem_of_lookup hbo
  show GbmInv { gbmBoSetUserData s bo data destroy with log := s.log }
  refine hi.setBo (f := fun bo => { bo with userData := data, userDataDestroy := destroy }) hbo
    (fun _ => rfl) (fun _ h => ⟨h.usage, h.stride, h.ahb⟩) fun rest hrest => ?_
  rw [hi.ledger]
  exact congrArg some (Multiset.coe_eq_coe.mpr hrest)

theorem GbmInv.boGetFd (hi : GbmInv s) {fd : Option ℕ} (hfd : ∀ n, fd = some n → n ∉ s.fds) :
    GbmInv (gbmBoGetFd s fd) := by
  cases fd with
  | none => exact hi
  | some fd =>
    refine hi.setOthers le_rfl (List.nodup_cons.mpr ⟨hfd fd rfl, hi.fds⟩) hi.devices
      hi.freshDevice (settle_append_acquires hi.ledger ?_)
    exact List.perm_middle

/-- A call on a buffer object. -/
theorem withBo_cases {f : GbmBo → GbmState} {b : Option ℕ} (h : s.withBo b f = some t) :
    t = s ∨ ∃ b bo, lookup GbmBo.address b s.bos = some bo ∧ t = f bo := by
  cases b with
  | none => exact .inl (Option.some.inj h).symm
  | some b =>
    obtain ⟨bo, hbo, heq⟩ := Option.map_eq_some_iff.mp h
    exact .inr ⟨b, bo, hbo, heq.symm⟩

theorem GbmInv.step (hi : GbmInv s) {e : GbmCall} (h : s.step e = some t) : GbmInv t := by
  cases e with
  | createDevice fd allocated => exact Option.some.inj h ▸ hi.createDevice fd allocated
  | destroyDevice device =>
    cases device with
    | none => exact Option.some.inj h ▸ hi
    | some d =>
      obtain ⟨device, hd, rfl⟩ := Option.map_eq_some_iff.mp h
      exact hi.deviceDestroy hd
  | create device width height format flags allocate allocated =>
    cases device with
    | none => exact Option.some.inj h ▸ hi
    | some d =>
      obtain ⟨-, -, rfl⟩ := Option.map_eq_some_iff.mp h
      exact hi.boCreate d width height format flags allocate allocated
  | destroy bo =>
    obtain rfl | ⟨b, bo, hbo, rfl⟩ := withBo_cases h
    · exact hi
    · exact hi.boDestroy hbo
  | map bo locked =>
    obtain rfl | ⟨b, bo, hbo, rfl⟩ := withBo_cases h
    · exact hi
    · exact hi.boMap hbo locked
  | unmap bo =>
    obtain rfl | ⟨b, bo, hbo, rfl⟩ := withBo_cases h
    · exact hi
    · exact hi.boUnmap hbo
  | getFd bo fd =>
    simp only [GbmState.step] at h
    split at h
    · cases h
    · rename_i hnew
      obtain rfl | ⟨b, bo, hbo, rfl⟩ := withBo_cases h
      · exact hi
      · refine hi.boGetFd fun n hn hmem => hnew ?_
        rw [hn]
        exact decide_eq_true hmem
  | setUserData bo data destroy =>
    obtain rfl | ⟨b, bo, hbo, rfl⟩ := withBo_cases h
    · exact hi
    · exact hi.boSetUserData hbo data destroy
  | close fd =>
    simp only [GbmState.step] at h
    split at h
    · rename_i hfd
      obtain rfl := Option.some.inj h
      refine hi.setOthers le_rfl (hi.fds.erase fd) hi.devices hi.freshDevice
        (settle_append_releases hi.ledger ?_)
      have hperm := (List.perm_cons_erase hfd).map GbmResource.fd
      exact (hperm.append_left _).trans List.perm_middle
    · cases h

theorem gbmInv_initial : GbmInv .initial :=
  ⟨rfl, List.nodup_nil, List.nodup_nil, nofun, nofun, nofun, List.nodup_nil, List.nodup_nil, nofun⟩

theorem gbmInv_of_reachable (h : gbmSystem.Reachable s) : GbmInv s := by
  refine h.invariant ?_ fun s e t hi ht => hi.step ht
  rintro s rfl
  exact gbmInv_initial

/-! ### What is promised -/

theorem mem_resources {r : GbmResource} :
    r ∈ bo.resources ↔
      (bo.mapped = true ∧ r = .lock bo.ahb) ∨ r = .ahb bo.ahb ∨ r = .bo bo.address := by
  unfold GbmBo.resources
  cases bo.mapped <;> simp

/-- No resource is owned twice. -/
theorem GbmInv.owned_nodup (hi : GbmInv s) : s.owned.Nodup := by
  have hdevices : (s.devices.map fun d => GbmResource.device d.address).Nodup := by
    have hmap := hi.devices.map (f := GbmResource.device) fun a b h => GbmResource.device.inj h
    rwa [List.map_map] at hmap
  have hfds : (s.fds.map GbmResource.fd).Nodup := hi.fds.map fun a b h => GbmResource.fd.inj h
  have hbos : (s.bos.flatMap GbmBo.resources).Nodup := by
    rw [List.nodup_flatMap]
    refine ⟨fun bo _ => ?_, ?_⟩
    · unfold GbmBo.resources
      cases bo.mapped <;> simp
    · have hpairwise : s.bos.Pairwise fun bo bo' => bo.address ≠ bo'.address :=
        List.pairwise_map.mp hi.bos
      refine hpairwise.imp_of_mem fun {bo bo'} hbo hbo' hne r hr hr' => ?_
      have hahb := (hi.described bo hbo).ahb
      have hahb' := (hi.described bo' hbo').ahb
      rcases mem_resources.mp hr with ⟨-, rfl⟩ | rfl | rfl <;>
        rcases mem_resources.mp hr' with ⟨-, heq⟩ | heq | heq <;>
        simp only [GbmResource.lock.injEq, GbmResource.ahb.injEq, GbmResource.bo.injEq,
          reduceCtorEq] at heq <;> omega
  unfold GbmState.owned
  rw [List.nodup_append', List.nodup_append']
  refine ⟨⟨hdevices, hbos, ?_⟩, hfds, ?_⟩
  · intro r hr hr'
    obtain ⟨d, -, rfl⟩ := List.mem_map.mp hr
    obtain ⟨bo, -, hmem⟩ := List.mem_flatMap.mp hr'
    simp [mem_resources] at hmem
  · intro r hr hr'
    obtain ⟨fd, -, rfl⟩ := List.mem_map.mp hr'
    rcases List.mem_append.mp hr with hr | hr
    · obtain ⟨d, -, heq⟩ := List.mem_map.mp hr
      cases heq
    · obtain ⟨bo, -, hmem⟩ := List.mem_flatMap.mp hr
      simp [mem_resources] at hmem

/-- What the interface promises in every state. -/
structure GbmGuarantee (s : GbmState) : Prop where
  /-- All releases were of what was held, and held is what the objects own, nothing of it twice. -/
  ledger : settle 0 s.log = some ↑s.owned
  once : s.owned.Nodup
  /-- A buffer object has a usage and a supported format, with the row length of that format. -/
  described : ∀ bo ∈ s.bos, bo.usage ≠ 0 ∧ ∃ a, gbmToAhbFormat bo.gbmFormat = some a ∧
    bo.stride = bo.pixelStride * a.bytesPerPixel % 2 ^ 32
  /-- The data of a user is destroyed once at most, and with its object. -/
  callbacks : (s.destroyed.map Prod.fst).Nodup
  gone : ∀ p ∈ s.destroyed, ∀ bo ∈ s.bos, p.1 ≠ bo.address
  /-- When all objects are destroyed and all descriptors closed, nothing is held. -/
  nothingLeft : s.devices = [] → s.bos = [] → s.fds = [] → settle 0 s.log = some 0

theorem GbmInv.guarantee (hi : GbmInv s) : GbmGuarantee s where
  ledger := hi.ledger
  once := hi.owned_nodup
  described bo hbo := ⟨(hi.described bo hbo).usage, (hi.described bo hbo).stride⟩
  callbacks := hi.callbacks
  gone p hp bo hbo heq := (hi.gone p hp).2 (heq ▸ List.mem_map_of_mem hbo)
  nothingLeft hdevices hbos hfds := by
    rw [hi.ledger, GbmState.owned, hdevices, hbos, hfds]
    rfl

end Inv

/-- **Nothing leaks and nothing is released twice**, whatever is called in whatever order on what
exists. -/
theorem gbmGuarantee_of_reachable {s : GbmState} (h : gbmSystem.Reachable s) : GbmGuarantee s :=
  (gbmInv_of_reachable h).guarantee

/-- A mapped buffer object with user data is destroyed, and one that could not be allocated is not
there at all. -/
def destroyMapped : List GbmCall :=
  [.createDevice (-1) true, .create (some 1) 64 32 (fourcc 'R' 'G' '1' '6') 4 (some 80) true,
    .create (some 1) 8 8 (fourcc 'R' '8' ' ' ' ') 0 (some 8) false, .map (some 3) true,
    .map (some 3) true, .setUserData (some 3) (some 9) true, .getFd (some 3) (some 7),
    .unmap none, .destroy (some 3), .destroyDevice (some 1)]

/-- Where that leads. -/
def onlyDescriptorLeft : GbmState :=
  (runNext GbmState.step .initial destroyMapped).getD .initial

theorem runNext_destroyMapped :
    runNext GbmState.step .initial destroyMapped = some onlyDescriptorLeft := by decide +kernel

theorem gbmGuarantee_of_destroyMapped :
    onlyDescriptorLeft.owned = [.fd 7] ∧ onlyDescriptorLeft.destroyed = [(3, 9)] ∧
      GbmGuarantee onlyDescriptorLeft :=
  ⟨by decide +kernel, by decide +kernel, gbmGuarantee_of_reachable
    (System.reachable_runNext (.start rfl) runNext_destroyMapped)⟩

end Wldroid.Shims.Gbm
