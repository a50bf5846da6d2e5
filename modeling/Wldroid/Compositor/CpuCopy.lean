import Wldroid.Foundation.Memory

/-!
# Presenting by CPU copy

`commit_cpu_copy` copies the rows of a buffer into a window that the system has locked.

* `SourceData`, `WindowBuffer` — the two rectangles, each with its format and its stride, which is
  in bytes for the one and in pixels for the other;
* `formatBpp`, `copyCalls`, `commitCpuCopy` — the code;
* `CopiesPixels` — it stays in the rows of both, and every pixel of the overlap arrives;
* **`copiesPixels_iff`** — exactly if both formats have the size of pixel that the copy assumes.
-/

namespace Wldroid.Compositor

open Wldroid.Foundation

/-! ### Formats -/

/-- The formats of `drm_format_table.h`. -/
inductive DrmFormat where
  | abgr8888
  | xbgr8888
  | rgb565
  deriving DecidableEq, Repr

def DrmFormat.bytesPerPixel : DrmFormat → ℕ
  | .abgr8888 | .xbgr8888 => 4
  | .rgb565 => 2

/-- `drm_format_to_ahb`. -/
def drmFormatToAhb : DrmFormat → ℤ
  | .abgr8888 => 1
  | .xbgr8888 => 2
  | .rgb565 => 4

/-- `format_bpp`. -/
def formatBpp (format : ℤ) : ℕ :=
  if format = 1 ∨ format = 2 then 4 else if format = 4 then 2 else 4

/-! ### Rectangles -/

/-- What `wlr_buffer_begin_data_ptr_access` gives of a buffer. -/
structure SourceData where
  width : ℕ
  height : ℕ
  format : DrmFormat
  data : ℕ
  stride : ℕ
  row_le : width * format.bytesPerPixel ≤ stride

/-- `ANativeWindow_Buffer`, with the bytes that a pixel has in its format. -/
structure WindowBuffer where
  width : ℕ
  height : ℕ
  stride : ℕ
  format : ℤ
  bits : ℕ
  pixelBytes : ℕ
  width_le : width ≤ stride
  rgba8888 : format = 1 ∨ format = 2 → pixelBytes = 4
  rgb565 : format = 4 → pixelBytes = 2

/-- A buffer and a locked window, which share no memory. -/
structure CpuCopy where
  src : SourceData
  win : WindowBuffer
  apart : RawMemory.Apart src.data (src.height * src.stride) win.bits
    (win.height * (win.stride * win.pixelBytes))

namespace CpuCopy

variable (c : CpuCopy)

/-! ### The copy -/

def bpp : ℕ := formatBpp c.win.format

def copyWidth : ℕ := if c.src.width < c.win.width then c.src.width else c.win.width

def copyHeight : ℕ := if c.src.height < c.win.height then c.src.height else c.win.height

def rowBytes : ℕ := c.copyWidth * c.bpp

def dstStride : ℕ := c.win.stride * c.bpp

/-- The calls of `memcpy`. -/
def copyCalls : List RawMemory.Move :=
  (List.range c.copyHeight).map fun y =>
    ⟨c.win.bits + y * c.dstStride, c.src.data + y * c.src.stride, c.rowBytes⟩

end CpuCopy

/-- `commit_cpu_copy`, where the data can be accessed and the window be locked. -/
def commitCpuCopy (access : Option CpuCopy) (memory : RawMemory UInt8) : RawMemory UInt8 × Bool :=
  match access with
  | none => (memory, false)
  | some c => (memory.moves c.copyCalls, true)

/-! ### What it should do -/

/-- The range, unless it is empty, lies within one row of a rectangle. -/
def InRow (base stride rowLength height a n : ℕ) : Prop :=
  0 < n → ∃ y < height, base + y * stride ≤ a ∧ a + n ≤ base + y * stride + rowLength

/-- Where a pixel of the buffer starts. -/
def SourceData.pixel (s : SourceData) (x y : ℕ) : ℕ :=
  s.data + y * s.stride + x * s.format.bytesPerPixel

/-- Where a pixel of the window starts. -/
def WindowBuffer.pixel (w : WindowBuffer) (x y : ℕ) : ℕ :=
  w.bits + y * (w.stride * w.pixelBytes) + x * w.pixelBytes

/-- The copy reads only within rows of the buffer and writes only within rows of the window, and
each pixel of the window in the overlap gets the value of the pixel there. -/
structure CopiesPixels (c : CpuCopy) : Prop where
  reads : ∀ call ∈ c.copyCalls, InRow c.src.data c.src.stride
    (c.src.width * c.src.format.bytesPerPixel) c.src.height call.src call.size
  writes : ∀ call ∈ c.copyCalls, InRow c.win.bits (c.win.stride * c.win.pixelBytes)
    (c.win.width * c.win.pixelBytes) c.win.height call.dst call.size
  pixels : ∀ memory, ∀ y < min c.src.height c.win.height, ∀ x < min c.src.width c.win.width,
    (commitCpuCopy (some c) memory).1.read (c.win.pixel x y) c.win.pixelBytes =
      memory.read (c.src.pixel x y) c.src.format.bytesPerPixel

namespace CpuCopy

variable {c : CpuCopy}

theorem copyWidth_eq (c : CpuCopy) : c.copyWidth = min c.src.width c.win.width := by
  unfold copyWidth
  split <;> omega

theorem copyHeight_eq (c : CpuCopy) : c.copyHeight = min c.src.height c.win.height := by
  unfold copyHeight
  split <;> omega

theorem mem_copyCalls {call : RawMemory.Move} : call ∈ c.copyCalls ↔ ∃ y < c.copyHeight,
    ⟨c.win.bits + y * c.dstStride, c.src.data + y * c.src.stride, c.rowBytes⟩ = call := by
  simp [copyCalls]

/-- An assumed pixel size that is not the window's is the larger one. -/
theorem bpp_eq_or (c : CpuCopy) : c.bpp = c.win.pixelBytes ∨ c.bpp = 4 := by
  unfold bpp formatBpp
  split
  · exact .inr rfl
  · split
    · rename_i hformat
      exact .inl (c.win.rgb565 hformat).symm
    · exact .inr rfl

/-- **Matching sizes are enough.**  Each call copies a part of one row, and the rows of the window
lie apart from each other and from the buffer. -/
theorem copiesPixels_of_eq (hsrc : c.bpp = c.src.format.bytesPerPixel)
    (hwin : c.bpp = c.win.pixelBytes) : CopiesPixels c := by
  have hstride : c.dstStride = c.win.stride * c.win.pixelBytes := by rw [dstStride, hwin]
  have hwidth := c.copyWidth_eq
  have hheight := c.copyHeight_eq
  have hrowSrc : c.rowBytes ≤ c.src.width * c.src.format.bytesPerPixel := by
    rw [rowBytes, hsrc]
    exact Nat.mul_le_mul_right _ (by omega)
  have hrowWin : c.rowBytes ≤ c.win.width * c.win.pixelBytes := by
    rw [rowBytes, hwin]
    exact Nat.mul_le_mul_right _ (by omega)
  have hpadded : c.rowBytes ≤ c.dstStride := by
    rw [hstride]
    exact hrowWin.trans (Nat.mul_le_mul_right _ c.win.width_le)
  have hrows : ∀ {y k s : ℕ}, y < k → y * s + s ≤ k * s := by
    intro y k s hy
    rw [← Nat.succ_mul]
    exact Nat.mul_le_mul_right s hy
  constructor
  · intro call hcall
    obtain ⟨y, hy, rfl⟩ := mem_copyCalls.mp hcall
    exact fun _ => ⟨y, by omega, le_rfl, Nat.add_le_add_left hrowSrc _⟩
  · intro call hcall
    obtain ⟨y, hy, rfl⟩ := mem_copyCalls.mp hcall
    rw [← hstride]
    exact fun _ => ⟨y, by omega, le_rfl, Nat.add_le_add_left hrowWin _⟩
  · intro memory y hy x hx
    have hcall : RawMemory.Move.mk (c.win.bits + y * c.dstStride) (c.src.data + y * c.src.stride)
        c.rowBytes ∈ c.copyCalls := mem_copyCalls.mpr ⟨y, by omega, rfl⟩
    have hwrites : c.copyCalls.Pairwise fun a b => RawMemory.Apart a.dst a.size b.dst b.size := by
      rw [copyCalls, List.pairwise_map]
      refine List.pairwise_lt_range.imp fun {r r'} hlt => .inl ?_
      have hbelow := hrows (s := c.dstStride) hlt
      show c.win.bits + r * c.dstStride + c.rowBytes ≤ c.win.bits + r' * c.dstStride
      omega
    have hreads : ∀ a ∈ c.copyCalls, ∀ b ∈ c.copyCalls,
        RawMemory.Apart a.dst a.size b.src b.size := by
      intro a ha b hb
      obtain ⟨r, hr, rfl⟩ := mem_copyCalls.mp ha
      obtain ⟨r', hr', rfl⟩ := mem_copyCalls.mp hb
      have hto := hrows (s := c.dstStride) (show r < c.win.height by omega)
      have hfrom := hrows (s := c.src.stride) (show r' < c.src.height by omega)
      have hsrcRow := c.src.row_le
      have happart := c.apart
      rw [← hstride] at happart
      unfold RawMemory.Apart at happart ⊢
      show c.win.bits + r * c.dstStride + c.rowBytes ≤ c.src.data + r' * c.src.stride ∨
        c.src.data + r' * c.src.stride + c.rowBytes ≤ c.win.bits + r * c.dstStride
      omega
    rw [← hwin, ← hsrc]
    refine List.map_congr_left fun i hi => ?_
    have hinside : x * c.bpp + i < c.rowBytes := by
      have hpixel := hrows (s := c.bpp) (show x < c.copyWidth by omega)
      have hbyte := List.mem_range.mp hi
      unfold rowBytes
      omega
    have hmoved := RawMemory.moves_inside memory hwrites hreads hcall hinside
    rw [WindowBuffer.pixel, SourceData.pixel, ← hwin, ← hsrc, Nat.add_assoc, Nat.add_assoc _ _ i]
    exact hmoved

/-- **When the copy is right.**  It stays in the rows of buffer and window and copies the pixels of
the overlap exactly if there is no overlap, or the pixel size that `format_bpp` gives is that of the
buffer's format and that of the window's. -/
theorem copiesPixels_iff (c : CpuCopy) :
    CopiesPixels c ↔ min c.src.width c.win.width = 0 ∨ min c.src.height c.win.height = 0 ∨
      formatBpp c.win.format = c.src.format.bytesPerPixel ∧
        formatBpp c.win.format = c.win.pixelBytes := by
  have hwidth := c.copyWidth_eq
  have hheight := c.copyHeight_eq
  constructor
  · intro h
    by_cases hw : min c.src.width c.win.width = 0
    · exact .inl hw
    by_cases hh : min c.src.height c.win.height = 0
    · exact .inr (.inl hh)
    have hfirst := mem_copyCalls.mpr ⟨0, show 0 < c.copyHeight by omega, rfl⟩
    -- the first row is copied within one of the buffer and one of the window
    have hread : c.rowBytes ≤ c.src.width * c.src.format.bytesPerPixel := by
      rcases Nat.eq_zero_or_pos c.rowBytes with hzero | hpos
      · omega
      · obtain ⟨y, -, hle, hend⟩ := h.reads _ hfirst hpos
        dsimp only at hle hend
        omega
    have hwrite : c.rowBytes ≤ c.win.width * c.win.pixelBytes := by
      rcases Nat.eq_zero_or_pos c.rowBytes with hzero | hpos
      · omega
      · obtain ⟨y, -, hle, hend⟩ := h.writes _ hfirst hpos
        dsimp only at hle hend
        omega
    -- a pixel of the window has the size of the pixel it gets
    have hpixel : c.win.pixelBytes = c.src.format.bytesPerPixel := by
      have hlength := congrArg List.length (h.pixels (fun _ => 0) 0 (by omega) 0 (by omega))
      simpa using hlength
    have hsize : c.bpp = c.win.pixelBytes := by
      rcases c.bpp_eq_or with heq | hfour
      · exact heq
      · rw [hpixel] at hwrite ⊢
        rw [rowBytes, hfour] at hread hwrite
        rw [hfour]
        have hcases : c.src.format.bytesPerPixel = 4 ∨ c.src.format.bytesPerPixel = 2 := by
          cases c.src.format with
          | abgr8888 => exact .inl rfl
          | xbgr8888 => exact .inl rfl
          | rgb565 => exact .inr rfl
        rcases hcases with h4 | h2
        · exact h4.symm
        · rw [h2] at hread hwrite
          omega
    exact .inr (.inr ⟨hsize.trans hpixel, hsize⟩)
  · rintro (hw | hh | ⟨hsrc, hwin⟩)
    · have hnone : c.rowBytes = 0 := by rw [rowBytes, hwidth, hw, Nat.zero_mul]
      constructor
      · intro call hcall hpos
        obtain ⟨y, hy, rfl⟩ := mem_copyCalls.mp hcall
        exact absurd hnone hpos.ne'
      · intro call hcall hpos
        obtain ⟨y, hy, rfl⟩ := mem_copyCalls.mp hcall
        exact absurd hnone hpos.ne'
      · intro memory y hy x hx
        omega
    · have hnone : c.copyCalls = [] := by rw [copyCalls, hheight, hh, List.range_zero, List.map_nil]
      constructor
      · rw [hnone]
        exact fun _ hcall => absurd hcall List.not_mem_nil
      · rw [hnone]
        exact fun _ hcall => absurd hcall List.not_mem_nil
      · intro memory y hy
        omega
    · exact copiesPixels_of_eq hsrc hwin

/-- A window in the buffer's own format is always copied to. -/
theorem copiesPixels_of_own_format (c : CpuCopy)
    (hformat : c.win.format = drmFormatToAhb c.src.format) : CopiesPixels c := by
  cases hsrc : c.src.format with
  | abgr8888 =>
    rw [hsrc] at hformat
    exact copiesPixels_of_eq (by rw [bpp, hformat, hsrc]; rfl)
      (by rw [bpp, hformat, c.win.rgba8888 (.inl hformat)]; rfl)
  | xbgr8888 =>
    rw [hsrc] at hformat
    exact copiesPixels_of_eq (by rw [bpp, hformat, hsrc]; rfl)
      (by rw [bpp, hformat, c.win.rgba8888 (.inr hformat)]; rfl)
  | rgb565 =>
    rw [hsrc] at hformat
    exact copiesPixels_of_eq (by rw [bpp, hformat, hsrc]; rfl)
      (by rw [bpp, hformat, c.win.rgb565 hformat]; rfl)

/-- A buffer of 16-bit pixels and the window that the output asks for, of 32-bit pixels, both of two
by two. -/
def mixedCopy : CpuCopy where
  src := ⟨2, 2, .rgb565, 0, 4, by decide⟩
  win := ⟨2, 2, 2, 1, 8, 4, by decide, by decide, by decide⟩
  apart := .inl (by decide)

/-- Of it, the last row is read four bytes beyond the end of the buffer. -/
theorem mixedCopy_overreads : ¬ CopiesPixels mixedCopy := by
  intro h
  obtain ⟨y, hy, hle, hend⟩ := h.reads ⟨8 + 8, 4, 8⟩ (by decide) (by decide)
  simp only [mixedCopy, DrmFormat.bytesPerPixel] at hy hle hend
  omega

end CpuCopy

end Wldroid.Compositor
