import Wldroid.Foundation.CTypes
import Wldroid.Foundation.Memory

/-!
# The layout of the shared memory

Both buffers of a window lie in one pool, whose size, offsets and stride are computed with `int` and
`size_t` and handed on as `int32_t`.  A swap copies the rows that have been read back into one of
them in reverse order.

* `shmLayout` — what `create_shm_buffers` computes, and `flipRows` — the copy of `eglSwapBuffers`;
* `LayoutRight` — all of it is as if the integers were unbounded;
* **`layoutRight_iff`** — it is exactly if the pool is smaller than 2 GiB;
* `layout_wraps` — the size of the pool of a window of 16384 by 16384 is negative.
-/

namespace Wldroid.Egl

open Wldroid.Foundation

/-! ### The computations -/

/-- What `create_shm_buffers` computes. -/
structure ShmLayout where
  stride : Int32
  bufSize : UInt64
  totalSize : UInt64
  /-- The size `wl_shm_create_pool` is given. -/
  poolSize : Int32
  /-- The offsets `wl_shm_pool_create_buffer` is given. -/
  offset : Fin 2 → Int32

def shmLayout (w h : Int32) : ShmLayout :=
  let stride := w * 4
  let bufSize := sizeOfInt stride * sizeOfInt h
  let totalSize := bufSize * 2
  { stride := stride
    bufSize := bufSize
    totalSize := totalSize
    poolSize := intOfSize totalSize
    offset := fun i => intOfSize (UInt64.ofNat i * bufSize) }

/-- The rows `eglSwapBuffers` has read back are copied into a buffer. -/
def flipRows (m : RawMemory UInt8) (dst readbackBuf : UInt64) (stride h : Int32) :
    RawMemory UInt8 :=
  (List.range h.toInt.toNat).foldl (fun m row =>
    let row := Int32.ofNat row
    m.copy (dst + sizeOfInt (row * stride)).toNat
      (readbackBuf + sizeOfInt ((h - 1 - row) * stride)).toNat (sizeOfInt stride).toNat) m

/-- The copy of a swap, for the buffer it has chosen. -/
def swapCopy (m : RawMemory UInt8) (shmData readbackBuf : UInt64) (idx : Fin 2) (w h : Int32) :
    RawMemory UInt8 :=
  let stride := w * 4
  let bufSize := sizeOfInt stride * sizeOfInt h
  flipRows m (shmData + UInt64.ofNat idx * bufSize) readbackBuf stride h

/-! ### The property -/

/-- Two mappings, as `mmap` gives them. -/
structure Mapped (shmData totalSize readbackBuf bufSize : UInt64) : Prop where
  shm : shmData.toNat + totalSize.toNat ≤ 2 ^ 64
  readback : readbackBuf.toNat + bufSize.toNat ≤ 2 ^ 64
  apart : shmData.toNat + totalSize.toNat ≤ readbackBuf.toNat ∨
    readbackBuf.toNat + bufSize.toNat ≤ shmData.toNat

/-- The rows of one buffer are those of an image in reverse order, and nothing else has changed. -/
structure Flipped (m m' : RawMemory UInt8) (dst src w h : ℕ) : Prop where
  row : ∀ y < h, ∀ x < 4 * w, m' (dst + 4 * w * y + x) = m (src + 4 * w * (h - 1 - y) + x)
  frame : ∀ a, a < dst ∨ dst + 4 * w * h ≤ a → m' a = m a

/-- The layout is that of two buffers of `w` by `h` pixels in one pool, and every copy is right. -/
structure LayoutRight (w h : Int32) : Prop where
  stride : (shmLayout w h).stride.toInt = 4 * w.toInt
  bufSize : ((shmLayout w h).bufSize.toNat : ℤ) = 4 * w.toInt * h.toInt
  poolSize : (shmLayout w h).poolSize.toInt = 2 * (4 * w.toInt * h.toInt)
  offset : ∀ i, ((shmLayout w h).offset i).toInt = i * (4 * w.toInt * h.toInt)
  inside : ∀ i, 0 ≤ ((shmLayout w h).offset i).toInt ∧
    ((shmLayout w h).offset i).toInt + 4 * w.toInt * h.toInt ≤ (shmLayout w h).poolSize.toInt
  copies : ∀ (m : RawMemory UInt8) (shmData readbackBuf : UInt64) (idx : Fin 2),
    Mapped shmData (shmLayout w h).totalSize readbackBuf (shmLayout w h).bufSize →
      Flipped m (swapCopy m shmData readbackBuf idx w h)
        (shmData.toNat + idx * (4 * w.toInt.toNat * h.toInt.toNat)) readbackBuf.toNat
        w.toInt.toNat h.toInt.toNat

/-! ### Exact values -/

section Layout

variable {w h : Int32}

/-- What is known of a size whose pool is small enough. -/
structure SmallPool (w h : Int32) : Prop where
  width : 0 < w.toInt
  height : 0 < h.toInt
  pool : 8 * w.toInt * h.toInt < 2 ^ 31

theorem SmallPool.stride_lt (s : SmallPool w h) : 4 * w.toInt < 2 ^ 31 := by
  have hle : 8 * w.toInt * 1 ≤ 8 * w.toInt * h.toInt :=
    Int.mul_le_mul_of_nonneg_left s.height (by have := s.width; omega)
  have := s.pool
  have := s.width
  omega

theorem SmallPool.stride (s : SmallPool w h) : (w * 4).toInt = 4 * w.toInt := by
  have hlt := s.stride_lt
  have hpos := s.width
  have hfour : (4 : Int32).toInt = 4 := rfl
  rw [int_mul_toInt (by rw [hfour]; omega) (by rw [hfour]; omega), hfour, mul_comm]

theorem SmallPool.bufSize (s : SmallPool w h) :
    ((shmLayout w h).bufSize.toNat : ℤ) = 4 * w.toInt * h.toInt := by
  have hpool := s.pool
  have hassoc : 8 * w.toInt * h.toInt = 2 * (4 * w.toInt * h.toInt) := by ring
  have hstride : ((sizeOfInt (w * 4)).toNat : ℤ) = 4 * w.toInt := by
    rw [sizeOfInt_toNat (by rw [s.stride]; have := s.width; omega), s.stride]
  have hheight := sizeOfInt_toNat s.height.le
  show ((sizeOfInt (w * 4) * sizeOfInt h).toNat : ℤ) = _
  rw [UInt64.toNat_mul, Int.natCast_mod, Nat.cast_mul, hstride, hheight]
  refine Int.emod_eq_of_lt ?_ (by omega)
  exact mul_nonneg (by have := s.width; omega) s.height.le

theorem SmallPool.bufSize_lt (s : SmallPool w h) : (shmLayout w h).bufSize.toNat < 2 ^ 30 := by
  have hpool := s.pool
  have hassoc : 8 * w.toInt * h.toInt = 2 * (4 * w.toInt * h.toInt) := by ring
  have hsize := s.bufSize
  omega

theorem SmallPool.totalSize (s : SmallPool w h) :
    (shmLayout w h).totalSize.toNat = 2 * (shmLayout w h).bufSize.toNat := by
  have hlt := s.bufSize_lt
  show ((shmLayout w h).bufSize * 2).toNat = _
  rw [UInt64.toNat_mul]
  show (shmLayout w h).bufSize.toNat * 2 % 2 ^ 64 = _
  omega

theorem SmallPool.half (s : SmallPool w h) (i : Fin 2) :
    (UInt64.ofNat i * (shmLayout w h).bufSize).toNat = i * (shmLayout w h).bufSize.toNat := by
  have hlt := s.bufSize_lt
  rw [UInt64.toNat_mul]
  match i with
  | 0 => simp
  | 1 =>
    show 1 * (shmLayout w h).bufSize.toNat % 2 ^ 64 = 1 * (shmLayout w h).bufSize.toNat
    omega

theorem SmallPool.poolSize (s : SmallPool w h) :
    (shmLayout w h).poolSize.toInt = 2 * (4 * w.toInt * h.toInt) := by
  have hlt := s.bufSize_lt
  have htotal := s.totalSize
  rw [← s.bufSize]
  show (intOfSize (shmLayout w h).totalSize).toInt = _
  rw [intOfSize_eq (by omega), htotal]
  push_cast
  rfl

theorem SmallPool.offset (s : SmallPool w h) (i : Fin 2) :
    ((shmLayout w h).offset i).toInt = i * (4 * w.toInt * h.toInt) := by
  have hlt := s.bufSize_lt
  have hhalf := s.half i
  have hle : (i : ℕ) * (shmLayout w h).bufSize.toNat ≤ 1 * (shmLayout w h).bufSize.toNat :=
    Nat.mul_le_mul_right _ (by omega)
  rw [← s.bufSize]
  show (intOfSize (UInt64.ofNat i * (shmLayout w h).bufSize)).toInt = _
  rw [intOfSize_eq (by omega), hhalf]
  push_cast
  rfl

/-! ### The copy -/

theorem SmallPool.bufSize_eq (s : SmallPool w h) :
    (shmLayout w h).bufSize.toNat = h.toInt.toNat * (4 * w.toInt.toNat) := by
  have hwidth : ((w.toInt.toNat : ℕ) : ℤ) = w.toInt := Int.toNat_of_nonneg s.width.le
  have hheight : ((h.toInt.toNat : ℕ) : ℤ) = h.toInt := Int.toNat_of_nonneg s.height.le
  have hcast : ((shmLayout w h).bufSize.toNat : ℤ) =
      ((h.toInt.toNat * (4 * w.toInt.toNat) : ℕ) : ℤ) := by
    rw [s.bufSize, Nat.cast_mul, Nat.cast_mul, hwidth, hheight]
    push_cast
    ring
  exact Int.ofNat.inj hcast

/-- The place of a row, counted from the first one. -/
theorem SmallPool.row (s : SmallPool w h) {k : Int32} {row : ℕ} (hk : k.toInt = row)
    (hrow : row < h.toInt.toNat) :
    (sizeOfInt (k * (w * 4))).toNat = row * (4 * w.toInt.toNat) := by
  have hwidth : ((w.toInt.toNat : ℕ) : ℤ) = w.toInt := Int.toNat_of_nonneg s.width.le
  have hle : row * (4 * w.toInt.toNat) ≤ h.toInt.toNat * (4 * w.toInt.toNat) :=
    Nat.mul_le_mul_right _ hrow.le
  have hlt := s.bufSize_lt
  rw [s.bufSize_eq] at hlt
  have hprod : k.toInt * (w * 4).toInt = ((row * (4 * w.toInt.toNat) : ℕ) : ℤ) := by
    rw [hk, s.stride, Nat.cast_mul, Nat.cast_mul, hwidth]
    rfl
  have hmul : (k * (w * 4)).toInt = ((row * (4 * w.toInt.toNat) : ℕ) : ℤ) := by
    rw [int_mul_toInt (by rw [hprod]; omega) (by rw [hprod]; omega), hprod]
  have hsize := sizeOfInt_toNat (x := k * (w * 4)) (by rw [hmul]; omega)
  rw [hmul] at hsize
  exact Int.ofNat.inj hsize

/-- The row that is copied to row `row`. -/
theorem SmallPool.mirror (s : SmallPool w h) {row : ℕ} (hrow : row < h.toInt.toNat) :
    (h - 1 - Int32.ofNat row).toInt = (h.toInt.toNat - 1 - row : ℕ) := by
  have hheight : ((h.toInt.toNat : ℕ) : ℤ) = h.toInt := Int.toNat_of_nonneg s.height.le
  have hlt := h.toInt_lt
  have hone : (1 : Int32).toInt = 1 := rfl
  have hrowInt : (Int32.ofNat row).toInt = row := Int32.toInt_ofNat_of_lt (by omega)
  have hfirst : (h - 1).toInt = h.toInt - 1 := by
    rw [Int32.toInt_sub, hone]
    exact Int.bmod_eq_of_le (by omega) (by omega)
  rw [Int32.toInt_sub, hfirst, hrowInt]
  rw [Int.bmod_eq_of_le (by omega) (by omega)]
  omega

/-- The copy loop is a flip of the image. -/
theorem SmallPool.flipRows (s : SmallPool w h) (m : RawMemory UInt8) {dst src : UInt64}
    (hdst : dst.toNat + (shmLayout w h).bufSize.toNat ≤ 2 ^ 64)
    (hsrc : src.toNat + (shmLayout w h).bufSize.toNat ≤ 2 ^ 64) :
    flipRows m dst src (w * 4) h =
      m.flip dst.toNat src.toNat (4 * w.toInt.toNat) h.toInt.toNat := by
  have hwidth := s.width
  rw [s.bufSize_eq] at hdst hsrc
  -- a row that is counted from either end lies inside the buffer
  have hplace : ∀ (base : UInt64) (k : Int32) (row : ℕ), k.toInt = row → row < h.toInt.toNat →
      base.toNat + h.toInt.toNat * (4 * w.toInt.toNat) ≤ 2 ^ 64 →
        (base + sizeOfInt (k * (w * 4))).toNat = base.toNat + row * (4 * w.toInt.toNat) := by
    intro base k row hk hrow hbase
    have hle : (row + 1) * (4 * w.toInt.toNat) ≤ h.toInt.toNat * (4 * w.toInt.toNat) :=
      Nat.mul_le_mul_right _ hrow
    rw [Nat.succ_mul] at hle
    rw [UInt64.toNat_add, s.row hk hrow]
    exact Nat.mod_eq_of_lt (by omega)
  have hstride : (sizeOfInt (w * 4)).toNat = 4 * w.toInt.toNat := by
    have hsize := sizeOfInt_toNat (x := w * 4) (by rw [s.stride]; omega)
    rw [s.stride] at hsize
    omega
  have hheight := h.toInt_lt
  refine List.foldl_ext _ _ m fun m' row hrow => ?_
  have hlt := List.mem_range.mp hrow
  have hrowInt : (Int32.ofNat row).toInt = row := Int32.toInt_ofNat_of_lt (by omega)
  show m'.copy (dst + sizeOfInt (Int32.ofNat row * (w * 4))).toNat
    (src + sizeOfInt ((h - 1 - Int32.ofNat row) * (w * 4))).toNat (sizeOfInt (w * 4)).toNat = _
  rw [hplace dst _ row hrowInt hlt hdst, hplace src _ _ (s.mirror hlt) (by omega) hsrc, hstride]

/-- The copy of a swap. -/
theorem SmallPool.copies (s : SmallPool w h) (m : RawMemory UInt8) {shmData readbackBuf : UInt64}
    (idx : Fin 2)
    (hmapped : Mapped shmData (shmLayout w h).totalSize readbackBuf (shmLayout w h).bufSize) :
    Flipped m (swapCopy m shmData readbackBuf idx w h)
      (shmData.toNat + idx * (4 * w.toInt.toNat * h.toInt.toNat)) readbackBuf.toNat
      w.toInt.toNat h.toInt.toNat := by
  obtain ⟨hshm, hreadback, hapart⟩ := hmapped
  rw [s.totalSize] at hshm hapart
  have hsize := s.bufSize_eq
  have harea : 4 * w.toInt.toNat * h.toInt.toNat = h.toInt.toNat * (4 * w.toInt.toNat) :=
    Nat.mul_comm _ _
  have hpositive : 0 < h.toInt.toNat * (4 * w.toInt.toNat) := by
    have := s.width
    have := s.height
    exact Nat.mul_pos (by omega) (by omega)
  have hle : (idx : ℕ) * (shmLayout w h).bufSize.toNat ≤ 1 * (shmLayout w h).bufSize.toNat :=
    Nat.mul_le_mul_right _ (by omega)
  have hdst : (shmData + UInt64.ofNat idx * (shmLayout w h).bufSize).toNat =
      shmData.toNat + idx * (4 * w.toInt.toNat * h.toInt.toNat) := by
    rw [UInt64.toNat_add, s.half idx, harea, ← hsize]
    exact Nat.mod_eq_of_lt (by omega)
  have hcopy : swapCopy m shmData readbackBuf idx w h =
      m.flip (shmData.toNat + idx * (4 * w.toInt.toNat * h.toInt.toNat)) readbackBuf.toNat
        (4 * w.toInt.toNat) h.toInt.toNat := by
    have hfits : (shmData + UInt64.ofNat idx * (shmLayout w h).bufSize).toNat +
        (shmLayout w h).bufSize.toNat ≤ 2 ^ 64 := by
      rw [hdst, harea, ← hsize]
      omega
    rw [← hdst]
    exact s.flipRows m hfits hreadback
  rw [hcopy]
  rw [hsize] at hle hshm hreadback hapart
  refine ⟨fun y hy x hx => ?_, fun a ha => ?_⟩
  · rw [Nat.mul_comm (4 * w.toInt.toNat) y, Nat.mul_comm (4 * w.toInt.toNat) (h.toInt.toNat - 1 - y)]
    exact RawMemory.flip_row m (by rw [harea]; omega) hy hx
  · refine RawMemory.flip_outside m readbackBuf.toNat ?_
    rwa [← harea]

/-- **The layout of the shared memory.**  For every size that is configured, the numbers and the
copies are right exactly if the pool has less than 2 GiB. -/
theorem layoutRight_iff (w h : Int32) (hw : 0 < w) (hh : 0 < h) :
    LayoutRight w h ↔ 8 * w.toInt * h.toInt < 2 ^ 31 := by
  constructor
  · intro hright
    have hlt := (shmLayout w h).poolSize.toInt_lt
    rw [hright.poolSize] at hlt
    calc 8 * w.toInt * h.toInt = 2 * (4 * w.toInt * h.toInt) := by ring
      _ < 2 ^ 31 := hlt
  · intro hpool
    have s : SmallPool w h := ⟨Int32.lt_iff_toInt_lt.mp hw, Int32.lt_iff_toInt_lt.mp hh, hpool⟩
    refine ⟨s.stride, s.bufSize, s.poolSize, s.offset, fun i => ?_, fun m _ _ idx => s.copies m idx⟩
    rw [s.offset, s.poolSize]
    have hnonneg : 0 ≤ 4 * w.toInt * h.toInt := s.bufSize ▸ Int.natCast_nonneg _
    match i with
    | 0 => exact ⟨by simp, by simp; omega⟩
    | 1 => exact ⟨by simpa using hnonneg, by simp; omega⟩

theorem layoutRight_default : LayoutRight 1080 2400 :=
  (layoutRight_iff 1080 2400 (by decide) (by decide)).mpr (by decide)

/-- The pool of a window of 16384 by 16384 pixels is announced with a negative size. -/
theorem layout_wraps : ¬ LayoutRight 16384 16384 := by
  intro hright
  have hpool := hright.poolSize
  exact absurd hpool (by decide)

end Layout

end Wldroid.Egl
