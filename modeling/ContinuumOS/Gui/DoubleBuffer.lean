import Mathlib.Data.UInt
import ContinuumOS.Lib.Painting
import ContinuumOS.Gui.Framebuffer

/-! # Two buffers show what one would

Drawing is painting at offsets that do not depend on the buffer. The buffer that
is drawn to starts with what is displayed, or is painted over as a whole, so that
it holds what a single buffer would hold. -/
namespace ContinuumOS.Gui.DoubleBuffer
open ContinuumOS.Lib.Painting ContinuumOS.Gui.Framebuffer

/-- The offsets of the bytes of the pixels. -/
def visible (info : FrameBufferInfo) (bytesPerPixel : UInt32) : Set UInt32 := {o |
  ∃ x y k, x < info.width ∧ y < info.height ∧ k < bytesPerPixel ∧
    o = y * info.pitch + x * bytesPerPixel + k}

/-- The rows do not overlap, and both buffers lie in the address space. -/
structure Fits (info : FrameBufferInfo) (bytesPerPixel : UInt32) : Prop where
  row : info.width.toNat * bytesPerPixel.toNat ≤ info.pitch.toNat
  buffers : 2 * (info.pitch.toNat * info.height.toNat) ≤ 2 ^ 32

/-- The bytes of a pixel at an offset. -/
def pixelWrites (bytesPerPixel : Nat) (offset color : UInt32) : List (UInt32 × UInt8) :=
  (List.range bytesPerPixel).map fun i => (offset + UInt32.ofNat i, colorByte color i)

/-- The bytes of a rectangle whose pixels have the colors of `ink`, where it has one. -/
def rectWrites (pitch bytesPerPixel x y : UInt32) (width height : Nat)
    (ink : Nat → Nat → Option UInt32) : List (UInt32 × UInt8) :=
  (List.range height).flatMap fun row => (List.range width).flatMap fun col =>
    (ink row col).elim [] (pixelWrites bytesPerPixel.toNat
      ((y + UInt32.ofNat row) * pitch + (x + UInt32.ofNat col) * bytesPerPixel))

/-- The buffer that the next drawing goes to. -/
def currentBase (d : Framebuffer) : UInt32 :=
  d.bufferBase (if d.frameInProgress then d.drawBufferIndex else d.displayBufferIndex)

def target : Call → Option BufferTarget
  | .fillRect _ _ _ _ _ target => some target
  | .drawMonoBitmap _ _ _ _ _ _ _ _ _ target => some target
  | .present => none

/-- Calls for the displayed buffer come when no frame is in progress. -/
def DisplaysBetweenFrames : Framebuffer → List Call → Prop
  | _, [] => True
  | fb, c :: calls => (target c = some .display → fb.frameInProgress = false) ∧
    DisplaysBetweenFrames (fb.step c) calls

/-- `s` draws in one buffer what `d` draws in two. -/
structure Twin (s d : Framebuffer) : Prop where
  info : d.info = s.info
  bytesPerPixel : d.bytesPerPixel = s.bytesPerPixel
  available : d.available = s.available
  single : s.doubleBufferEnabled = false
  double : d.doubleBufferEnabled = true
  stride : d.frameStrideBytes = d.info.pitch * d.info.height
  count : d.bufferCount = 2
  indices : d.displayBufferIndex = 0 ∧ d.drawBufferIndex = 1 ∨
    d.displayBufferIndex = 1 ∧ d.drawBufferIndex = 0
  picture : Set.EqOn (d.memory ∘ (currentBase d + ·)) (s.memory ∘ (s.info.address + ·))
    (visible s.info s.bytesPerPixel)

/-- Drawing changes the memory, and may start a frame. -/
def Drawn (fb fb' : Framebuffer) : Prop :=
  ∃ m p, fb' = { fb with memory := m, frameInProgress := p }

/-- The adapter shows the displayed buffer. -/
def ScansOut (d : Framebuffer) : Prop :=
  d.info.address + d.yOffset.toUInt32 * d.info.pitch = d.bufferBase d.displayBufferIndex

section

variable {s d : Framebuffer} {info : FrameBufferInfo} {bpp : UInt32} {m : Memory}

/-! ## Drawing is painting -/

theorem moved_flatMap {β : Type} (e : UInt32 → UInt32) (l : List β)
    (F : β → List (UInt32 × UInt8)) : moved e (l.flatMap F) = l.flatMap fun b => moved e (F b) :=
  List.map_flatMap

theorem add_left_injective (base : UInt32) : Function.Injective (base + ·) := fun a b h => by
  have h : base + a = base + b := h
  grind

theorem storeBytes_eq (n : Nat) (base offset color : UInt32) (m : Memory) :
    storeBytes n (base + offset) color m =
      paint (moved (base + ·) (pixelWrites n offset color)) m := by
  rw [moved, pixelWrites, List.map_map, paint_map, storeBytes]
  simp only [Function.comp_apply, UInt32.add_assoc]

theorem storeColor_eq (fb : Framebuffer) (base offset color : UInt32) (m : Memory) :
    fb.storeColor (base + offset) color m =
      paint (moved (base + ·) (pixelWrites fb.bytesPerPixel.toNat offset color)) m := by
  rw [← storeBytes_eq, Framebuffer.storeColor]
  split
  · rename_i h
    rw [h]
    rfl
  split
  · rename_i h
    rw [h]
    rfl
  split
  · rename_i h
    rw [h]
    rfl
  · rfl

theorem rows_eq {base pitch x y : UInt32} {width height : Nat} {ink : Nat → Nat → Option UInt32}
    {body : Nat → Nat → Memory → Memory}
    (h : ∀ row col m, body row col m = paint (moved (base + ·) ((ink row col).elim []
      (pixelWrites bpp.toNat ((y + UInt32.ofNat row) * pitch + (x + UInt32.ofNat col) * bpp)))) m) :
    (List.range height).foldl
      (fun m row => (List.range width).foldl (fun m col => body row col m) m) m =
        paint (moved (base + ·) (rectWrites pitch bpp x y width height ink)) m := by
  rw [rectWrites, moved_flatMap, paint_flatMap]
  simp only [moved_flatMap, paint_flatMap, h]

theorem pixel_place (base y r p x c z : UInt32) :
    base + (y + r) * p + x * z + c * z = base + ((y + r) * p + (x + c) * z) := by grind

theorem fillRows_eq (fb : Framebuffer) (base x y : UInt32) (width height : Nat) (color : UInt32)
    (m : Memory) : fb.fillRows base x y width height color m =
      paint (moved (base + ·) (rectWrites fb.info.pitch fb.bytesPerPixel x y width height
        fun _ _ => some color)) m := by
  rw [Framebuffer.fillRows]
  refine rows_eq fun row col m => ?_
  rw [Option.elim_some, ← storeColor_eq, pixel_place]
  by_cases h : fb.bytesPerPixel = 4
  · rw [if_pos h, ← pixel_place, h, Framebuffer.storeColor, if_pos h]
  · rw [if_neg h]

theorem drawRows_eq (fb : Framebuffer) (base x y : UInt32) (width height : Nat)
    (bitmap : UInt32 → UInt8) (stride fgColor bgColor : UInt32) (transparentBg : Bool)
    (m : Memory) :
    fb.drawRows base x y width height bitmap stride fgColor bgColor transparentBg m =
      paint (moved (base + ·) (rectWrites fb.info.pitch fb.bytesPerPixel x y width height
        fun row col =>
          if Framebuffer.bitSet bitmap stride row col = false ∧ transparentBg = true then none
          else some (if Framebuffer.bitSet bitmap stride row col then fgColor else bgColor))) m := by
  rw [Framebuffer.drawRows]
  refine rows_eq fun row col m => ?_
  by_cases h : Framebuffer.bitSet bitmap stride row col = false ∧ transparentBg = true
  · rw [if_pos h, if_pos h]
    rfl
  · rw [if_neg h, if_neg h, Option.elim_some, ← storeColor_eq, pixel_place]

theorem mem_rectWrites {pitch x y color : UInt32} {width height row col k : Nat}
    {ink : Nat → Nat → Option UInt32} (hr : row < height) (hc : col < width)
    (hk : k < bpp.toNat) (hi : ink row col = some color) :
    ((y + UInt32.ofNat row) * pitch + (x + UInt32.ofNat col) * bpp + UInt32.ofNat k,
      colorByte color k) ∈ rectWrites pitch bpp x y width height ink := by
  refine List.mem_flatMap.mpr ⟨row, List.mem_range.mpr hr, List.mem_flatMap.mpr
    ⟨col, List.mem_range.mpr hc, ?_⟩⟩
  rw [hi, Option.elim_some]
  exact List.mem_map.mpr ⟨k, List.mem_range.mpr hk, rfl⟩

theorem rectWrites_covers (info : FrameBufferInfo) (bpp color : UInt32) :
    ∀ o ∈ visible info bpp, ∃ v, (o, v) ∈ rectWrites info.pitch bpp 0 0 info.width.toNat
      info.height.toNat fun _ _ => some color := by
  intro o ho
  obtain ⟨x, y, k, hx, hy, hk, rfl⟩ := ho
  refine ⟨colorByte color k.toNat, ?_⟩
  have hmem : ((0 + UInt32.ofNat y.toNat) * info.pitch + (0 + UInt32.ofNat x.toNat) * bpp +
      UInt32.ofNat k.toNat, colorByte color k.toNat) ∈ rectWrites info.pitch bpp 0 0
        info.width.toNat info.height.toNat fun _ _ => some color :=
    mem_rectWrites (UInt32.lt_iff_toNat_lt.mp hy) (UInt32.lt_iff_toNat_lt.mp hx)
      (UInt32.lt_iff_toNat_lt.mp hk) rfl
  rwa [UInt32.ofNat_toNat, UInt32.ofNat_toNat, UInt32.ofNat_toNat, UInt32.zero_add,
    UInt32.zero_add] at hmem

/-! ## Where the pixels are -/

theorem place_lt {x y k w h b p : Nat} (hx : x < w) (hy : y < h) (hk : k < b) (hp : w * b ≤ p) :
    y * p + x * b + k < p * h := by
  have hcol : x * b + k < p := calc
    x * b + k < x * b + b := Nat.add_lt_add_left hk _
    _ = (x + 1) * b := (Nat.succ_mul x b).symm
    _ ≤ w * b := Nat.mul_le_mul_right b hx
    _ ≤ p := hp
  calc
    y * p + x * b + k = y * p + (x * b + k) := Nat.add_assoc _ _ _
    _ < y * p + p := Nat.add_lt_add_left hcol _
    _ = (y + 1) * p := (Nat.succ_mul y p).symm
    _ ≤ h * p := Nat.mul_le_mul_right p hy
    _ = p * h := Nat.mul_comm h p

theorem Fits.stride (h : Fits info bpp) :
    (info.pitch * info.height).toNat = info.pitch.toNat * info.height.toNat := by
  have hle := h.buffers
  rw [UInt32.toNat_mul, Nat.mod_eq_of_lt (by omega)]

theorem Fits.visible_lt (h : Fits info bpp) {o : UInt32} (ho : o ∈ visible info bpp) :
    o < info.pitch * info.height := by
  obtain ⟨x, y, k, hx, hy, hk, rfl⟩ := ho
  have hle := h.buffers
  have hlt := place_lt (UInt32.lt_iff_toNat_lt.mp hx) (UInt32.lt_iff_toNat_lt.mp hy)
    (UInt32.lt_iff_toNat_lt.mp hk) h.row
  have hplace : (y * info.pitch + x * bpp + k).toNat =
      y.toNat * info.pitch.toNat + x.toNat * bpp.toNat + k.toNat := by
    rw [UInt32.toNat_add, UInt32.toNat_add, UInt32.toNat_mul, UInt32.toNat_mul, ← Nat.add_mod,
      Nat.mod_add_mod, Nat.mod_eq_of_lt (by omega)]
  rw [UInt32.lt_iff_toNat_lt, hplace, h.stride]
  exact hlt

theorem copyBytes_eqOn (dst src n : UInt32) (m : Memory) :
    Set.EqOn (copyBytes dst src n m ∘ (dst + ·)) (m ∘ (src + ·)) {o | o < n} := by
  intro o ho
  have hback : dst + o - dst = o := by grind
  show (if dst + o - dst < n then m (src + (dst + o - dst)) else m (dst + o)) = m (src + o)
  rw [hback]
  exact if_pos ho

/-! ## Steps -/

theorem ensureFrameStarted_single (hs : s.doubleBufferEnabled = false) (keep : Bool) :
    s.ensureFrameStarted keep = s := if_pos hs

theorem framebufferPtr_single (hs : s.doubleBufferEnabled = false) (target : BufferTarget) :
    s.framebufferPtr target = s.info.address := if_pos hs

theorem copyBuffer_eq (hne : d.displayBufferIndex ≠ d.drawBufferIndex)
    (hstride : d.frameStrideBytes ≠ 0) :
    d.copyBuffer d.displayBufferIndex d.drawBufferIndex = { d with
      memory := copyBytes (d.bufferBase d.drawBufferIndex) (d.bufferBase d.displayBufferIndex)
        d.frameStrideBytes d.memory } := if_neg (not_or.mpr ⟨hne, hstride⟩)

theorem Twin.indices_ne (h : Twin s d) : d.displayBufferIndex ≠ d.drawBufferIndex := by
  rcases h.indices with ⟨h₁, h₂⟩ | ⟨h₁, h₂⟩
  · rw [h₁, h₂]
    decide
  · rw [h₁, h₂]
    decide

theorem Twin.double_ne (h : Twin s d) : ¬ d.doubleBufferEnabled = false := by
  rw [h.double]
  exact Bool.noConfusion

theorem Twin.current_idle (h : Twin s d) (hidle : d.frameInProgress = false) :
    currentBase d = d.framebufferPtr .display := by
  rw [currentBase, hidle, if_neg Bool.false_ne_true, Framebuffer.framebufferPtr,
    if_neg h.double_ne, if_pos rfl]

theorem Twin.visible_lt (h : Twin s d) (hf : Fits s.info s.bytesPerPixel) {o : UInt32}
    (ho : o ∈ visible s.info s.bytesPerPixel) : o < d.frameStrideBytes := by
  rw [h.stride, h.info]
  exact hf.visible_lt ho

theorem Twin.copied (h : Twin s d) (hf : Fits s.info s.bytesPerPixel)
    (hidle : d.frameInProgress = false) : ∃ m,
      d.copyBuffer d.displayBufferIndex d.drawBufferIndex = { d with memory := m } ∧
      Set.EqOn (m ∘ (d.bufferBase d.drawBufferIndex + ·)) (s.memory ∘ (s.info.address + ·))
        (visible s.info s.bytesPerPixel) := by
  have hpicture := h.picture
  rw [currentBase, hidle, if_neg Bool.false_ne_true] at hpicture
  by_cases hzero : d.frameStrideBytes = 0
  · refine ⟨d.memory, if_pos (.inr hzero), fun o ho => ?_⟩
    have hlt := h.visible_lt hf ho
    rw [hzero] at hlt
    exact absurd hlt UInt32.not_lt_zero
  · refine ⟨_, copyBuffer_eq h.indices_ne hzero, fun o ho => ?_⟩
    exact (copyBytes_eqOn _ _ _ _ (h.visible_lt hf ho)).trans (hpicture ho)

/-- **A frame starts with what is displayed**, unless the drawing covers it. -/
theorem Twin.started (h : Twin s d) (hf : Fits s.info s.bytesPerPixel) {keep : Bool}
    {ws : List (UInt32 × UInt8)}
    (hcov : keep = false → ∀ o ∈ visible s.info s.bytesPerPixel, ∃ v, (o, v) ∈ ws) :
    ∃ m, d.ensureFrameStarted keep = { d with memory := m, frameInProgress := true } ∧
      Set.EqOn (paint ws (m ∘ (d.bufferBase d.drawBufferIndex + ·)))
        (paint ws (s.memory ∘ (s.info.address + ·))) (visible s.info s.bytesPerPixel) := by
  rw [Framebuffer.ensureFrameStarted, if_neg h.double_ne]
  cases hp : d.frameInProgress with
  | true =>
    have hpicture := h.picture
    rw [currentBase, hp, if_pos rfl] at hpicture
    refine ⟨d.memory, ?_, paint_eqOn hpicture⟩
    rw [if_pos rfl, ← hp]
  | false =>
    rw [if_neg Bool.false_ne_true]
    cases keep with
    | true =>
      obtain ⟨m, hm, hpicture⟩ := h.copied hf hp
      refine ⟨m, ?_, paint_eqOn hpicture⟩
      simp only [if_true, hm]
    | false =>
      exact ⟨d.memory, rfl, paint_covers (hcov rfl) _ _⟩

theorem Drawn.format {fb fb' : Framebuffer} (h : Drawn fb fb') :
    fb'.info = fb.info ∧ fb'.bytesPerPixel = fb.bytesPerPixel := by
  obtain ⟨m, p, rfl⟩ := h
  exact ⟨rfl, rfl⟩

theorem ensureFrameStarted_drawn (fb : Framebuffer) (keep : Bool) :
    Drawn fb (fb.ensureFrameStarted keep) := by
  rw [Framebuffer.ensureFrameStarted]
  split
  · exact ⟨_, _, rfl⟩
  split
  · exact ⟨_, _, rfl⟩
  cases keep with
  | true =>
    rw [if_pos rfl, Framebuffer.copyBuffer]
    split
    · exact ⟨_, _, rfl⟩
    · exact ⟨_, _, rfl⟩
  | false => exact ⟨_, _, rfl⟩

theorem Twin.format (h : Twin s d) {target : BufferTarget} {keep : Bool} {d' : Framebuffer}
    (hd' : d' = if target = .draw then d.ensureFrameStarted keep else d) :
    d'.info = s.info ∧ d'.bytesPerPixel = s.bytesPerPixel := by
  rw [← h.info, ← h.bytesPerPixel, hd']
  split
  · exact (ensureFrameStarted_drawn d keep).format
  · exact ⟨rfl, rfl⟩

/-- **One drawing** into both. -/
theorem Twin.drawn (h : Twin s d) (hf : Fits s.info s.bytesPerPixel) {target : BufferTarget}
    {keep : Bool} {ws : List (UInt32 × UInt8)}
    (hcov : keep = false → ∀ o ∈ visible s.info s.bytesPerPixel, ∃ v, (o, v) ∈ ws)
    (hidle : target = .display → d.frameInProgress = false) {d' : Framebuffer}
    (hd' : d' = if target = .draw then d.ensureFrameStarted keep else d)
    {ws' : List (UInt32 × UInt8)} (hws : ws' = ws) :
    Twin { s with memory := paint (moved (s.info.address + ·) ws) s.memory }
      { d' with memory := paint (moved (d'.framebufferPtr target + ·) ws') d'.memory } := by
  subst ws'
  have hsingle := paint_moved (add_left_injective s.info.address) ws s.memory
  cases target with
  | draw =>
    obtain ⟨m, hm, hpicture⟩ := h.started hf hcov
    rw [if_pos rfl, hm] at hd'
    subst hd'
    refine ⟨h.info, h.bytesPerPixel, h.available, h.single, h.double, h.stride, h.count, h.indices,
      ?_⟩
    have hbase : Framebuffer.framebufferPtr { d with memory := m, frameInProgress := true } .draw =
        d.bufferBase d.drawBufferIndex := if_neg h.double_ne
    have hmoved := paint_moved (add_left_injective (d.bufferBase d.drawBufferIndex)) ws m
    rw [hbase]
    show Set.EqOn (paint (moved _ ws) m ∘ (d.bufferBase d.drawBufferIndex + ·)) (_ ∘ _) _
    rw [hmoved, hsingle]
    exact hpicture
  | display =>
    rw [if_neg (by decide)] at hd'
    subst d'
    refine ⟨h.info, h.bytesPerPixel, h.available, h.single, h.double, h.stride, h.count, h.indices,
      ?_⟩
    have hbase := h.current_idle (hidle rfl)
    have hpicture := h.picture
    have hmoved := paint_moved (add_left_injective (currentBase d)) ws d.memory
    rw [← hbase]
    show Set.EqOn (paint (moved (currentBase d + ·) ws) d.memory ∘ (currentBase d + ·)) (_ ∘ _) _
    rw [hmoved, hsingle]
    exact paint_eqOn hpicture

theorem Twin.fillRect (h : Twin s d) (hf : Fits s.info s.bytesPerPixel)
    (x y width height color : UInt32) {target : BufferTarget}
    (hidle : target = .display → d.frameInProgress = false) :
    Twin (s.fillRect x y width height color target) (d.fillRect x y width height color target) := by
  rw [Framebuffer.fillRect, Framebuffer.fillRect, h.available, h.info]
  by_cases ha : s.available = false
  · rw [if_pos ha, if_pos ha]
    exact h
  rw [if_neg ha, if_neg ha]
  by_cases hzero : width = 0 ∨ height = 0
  · rw [if_pos hzero, if_pos hzero]
    exact h
  rw [if_neg hzero, if_neg hzero]
  by_cases hout : s.info.width ≤ x ∨ s.info.height ≤ y
  · rw [if_pos hout, if_pos hout]
    exact h
  rw [if_neg hout, if_neg hout]
  generalize Framebuffer.clipped x width s.info.width = w
  generalize Framebuffer.clipped y height s.info.height = l
  simp only [ensureFrameStarted_single h.single, ite_self, framebufferPtr_single h.single,
    fillRows_eq]
  generalize hkeep : (!decide (x = 0 ∧ y = 0 ∧ w = s.info.width ∧ l = s.info.height)) = keep
  generalize hd' : (if target = .draw then d.ensureFrameStarted keep else d) = d'
  obtain ⟨hinfo, hbpp⟩ := h.format hd'.symm
  refine h.drawn hf (fun hfalse => ?_) hidle hd'.symm (by rw [hinfo, hbpp])
  rw [hfalse, Bool.not_eq_false', decide_eq_true_eq] at hkeep
  obtain ⟨rfl, rfl, rfl, rfl⟩ := hkeep
  exact rectWrites_covers s.info s.bytesPerPixel color

theorem Twin.drawMonoBitmap (h : Twin s d) (hf : Fits s.info s.bytesPerPixel)
    (x y width height : UInt32) (bitmap : Option (UInt32 → UInt8))
    (stride fgColor bgColor : UInt32) (transparentBg : Bool) {target : BufferTarget}
    (hidle : target = .display → d.frameInProgress = false) :
    Twin
      (s.drawMonoBitmap x y width height bitmap stride fgColor bgColor transparentBg target)
      (d.drawMonoBitmap x y width height bitmap stride fgColor bgColor transparentBg target) := by
  cases bitmap with
  | none => exact h
  | some bitmap =>
    rw [Framebuffer.drawMonoBitmap, Framebuffer.drawMonoBitmap]
    simp only [h.available, h.info]
    by_cases ha : s.available = false
    · rw [if_pos ha, if_pos ha]
      exact h
    rw [if_neg ha, if_neg ha]
    by_cases hzero : width = 0 ∨ height = 0
    · rw [if_pos hzero, if_pos hzero]
      exact h
    rw [if_neg hzero, if_neg hzero]
    by_cases hout : s.info.width ≤ x ∨ s.info.height ≤ y
    · rw [if_pos hout, if_pos hout]
      exact h
    rw [if_neg hout, if_neg hout]
    simp only [ensureFrameStarted_single h.single, ite_self, framebufferPtr_single h.single,
      drawRows_eq]
    generalize hd' : (if target = .draw then d.ensureFrameStarted true else d) = d'
    obtain ⟨hinfo, hbpp⟩ := h.format hd'.symm
    exact h.drawn hf (fun hfalse => absurd hfalse Bool.noConfusion) hidle hd'.symm
      (by rw [hinfo, hbpp])

theorem Twin.present (h : Twin s d) : Twin s.present d.present := by
  have hsingle : s.present = s := if_pos (.inr h.single)
  rw [hsingle, Framebuffer.present]
  by_cases ha : d.available = false
  · rw [if_pos (.inl ha)]
    exact h
  rw [if_neg (not_or.mpr ⟨ha, h.double_ne⟩)]
  by_cases hp : d.frameInProgress = false
  · rw [if_pos hp]
    exact h
  rw [if_neg hp]
  have hpicture := h.picture
  rw [currentBase, if_pos (Bool.eq_true_of_not_eq_false hp)] at hpicture
  simp only [Framebuffer.setDisplayBuffer, if_neg h.double_ne]
  refine ⟨h.info, h.bytesPerPixel, h.available, h.single, h.double, h.stride, h.count, ?_, hpicture⟩
  show d.drawBufferIndex = 0 ∧ (d.drawBufferIndex + 1) % d.bufferCount = 1 ∨
    d.drawBufferIndex = 1 ∧ (d.drawBufferIndex + 1) % d.bufferCount = 0
  rw [h.count]
  rcases h.indices with ⟨-, hi⟩ | ⟨-, hi⟩
  · rw [hi]
    exact .inr ⟨rfl, rfl⟩
  · rw [hi]
    exact .inl ⟨rfl, rfl⟩

theorem Twin.step (h : Twin s d) (hf : Fits s.info s.bytesPerPixel) (c : Call)
    (hidle : target c = some .display → d.frameInProgress = false) :
    Twin (s.step c) (d.step c) := by
  cases c with
  | fillRect x y width height color t =>
    exact h.fillRect hf x y width height color fun ht => hidle (congrArg some ht)
  | drawMonoBitmap x y width height bitmap stride fgColor bgColor transparentBg t =>
    exact h.drawMonoBitmap hf x y width height bitmap stride fgColor bgColor transparentBg
      fun ht => hidle (congrArg some ht)
  | present => exact h.present

theorem fillRect_drawn (fb : Framebuffer) (x y width height color : UInt32) (t : BufferTarget) :
    Drawn fb (fb.fillRect x y width height color t) := by
  rw [Framebuffer.fillRect]
  split
  · exact ⟨_, _, rfl⟩
  split
  · exact ⟨_, _, rfl⟩
  split
  · exact ⟨_, _, rfl⟩
  cases t with
  | draw =>
    dsimp only
    rw [if_pos rfl]
    generalize hfb : fb.ensureFrameStarted _ = fb'
    obtain ⟨m, p, rfl⟩ := hfb ▸ ensureFrameStarted_drawn fb _
    exact ⟨_, _, rfl⟩
  | display => exact ⟨_, _, rfl⟩

theorem drawMonoBitmap_drawn (fb : Framebuffer) (x y width height : UInt32)
    (bitmap : Option (UInt32 → UInt8)) (stride fgColor bgColor : UInt32) (transparentBg : Bool)
    (t : BufferTarget) : Drawn fb
      (fb.drawMonoBitmap x y width height bitmap stride fgColor bgColor transparentBg t) := by
  cases bitmap with
  | none => exact ⟨_, _, rfl⟩
  | some bitmap =>
    rw [Framebuffer.drawMonoBitmap]
    dsimp only
    split
    · exact ⟨_, _, rfl⟩
    split
    · exact ⟨_, _, rfl⟩
    split
    · exact ⟨_, _, rfl⟩
    cases t with
    | draw =>
      rw [if_pos rfl]
      generalize hfb : fb.ensureFrameStarted _ = fb'
      obtain ⟨m, p, rfl⟩ := hfb ▸ ensureFrameStarted_drawn fb _
      exact ⟨_, _, rfl⟩
    | display => exact ⟨_, _, rfl⟩

theorem present_format (fb : Framebuffer) :
    fb.present.info = fb.info ∧ fb.present.bytesPerPixel = fb.bytesPerPixel := by
  rw [Framebuffer.present]
  split
  · exact ⟨rfl, rfl⟩
  split
  · exact ⟨rfl, rfl⟩
  rw [Framebuffer.setDisplayBuffer]
  dsimp only
  split
  · exact ⟨rfl, rfl⟩
  · exact ⟨rfl, rfl⟩

theorem step_format (fb : Framebuffer) (c : Call) :
    (fb.step c).info = fb.info ∧ (fb.step c).bytesPerPixel = fb.bytesPerPixel := by
  cases c with
  | fillRect x y width height color t => exact (fillRect_drawn fb x y width height color t).format
  | drawMonoBitmap x y width height bitmap stride fgColor bgColor transparentBg t =>
    exact (drawMonoBitmap_drawn fb x y width height bitmap stride fgColor bgColor transparentBg
      t).format
  | present => exact present_format fb

/-! ## Runs -/

theorem Twin.run : ∀ (calls : List Call) {s d : Framebuffer}, Twin s d →
    Fits s.info s.bytesPerPixel → DisplaysBetweenFrames d calls → Twin (s.run calls) (d.run calls)
  | [], _, _, h, _, _ => h
  | c :: calls, s, d, h, hf, hc => by
    obtain ⟨hinfo, hbpp⟩ := step_format s c
    have hf' : Fits (s.step c).info (s.step c).bytesPerPixel := by
      rw [hinfo, hbpp]
      exact hf
    exact Twin.run calls (h.step hf c hc.1) hf' hc.2

theorem run_format : ∀ (calls : List Call) (fb : Framebuffer),
    (fb.run calls).info = fb.info ∧ (fb.run calls).bytesPerPixel = fb.bytesPerPixel
  | [], _ => ⟨rfl, rfl⟩
  | c :: calls, fb => by
    obtain ⟨hinfo, hbpp⟩ := step_format fb c
    obtain ⟨hinfo', hbpp'⟩ := run_format calls (fb.step c)
    exact ⟨hinfo'.trans hinfo, hbpp'.trans hbpp⟩

theorem Twin.pixel (h : Twin s d) (hidle : d.frameInProgress = false) {x y : UInt32}
    (hx : x < s.info.width) (hy : y < s.info.height) : d.pixel x y = s.pixel x y := by
  rw [Framebuffer.pixel, Framebuffer.pixel, h.bytesPerPixel]
  refine List.map_congr_left fun k hk => ?_
  have hk := List.mem_range.mp hk
  have hlt : UInt32.ofNat k < s.bytesPerPixel := by
    have hsize := s.bytesPerPixel.toNat_lt
    rw [UInt32.lt_iff_toNat_lt, UInt32.toNat_ofNat', Nat.mod_eq_of_lt (by omega)]
    exact hk
  have hpicture := h.picture ⟨x, y, UInt32.ofNat k, hx, hy, hlt, rfl⟩
  rw [h.current_idle hidle] at hpicture
  rw [framebufferPtr_single h.single, h.info]
  simp only [Function.comp_apply, ← UInt32.add_assoc] at hpicture
  exact hpicture

theorem adoptFramebuffer_eq {fb : Framebuffer} (hs : fb.adoptFramebuffer info = some s) :
    s.info = info ∧ s.doubleBufferEnabled = false ∧
      s.frameStrideBytes = info.pitch * info.height := by
  rw [Framebuffer.adoptFramebuffer] at hs
  split at hs
  · exact absurd hs.symm (Option.some_ne_none s)
  split at hs
  · exact absurd hs.symm (Option.some_ne_none s)
  split at hs
  · exact absurd hs.symm (Option.some_ne_none s)
  obtain rfl := Option.some.inj hs
  exact ⟨rfl, rfl, rfl⟩

theorem copyBytes_other (hf : Fits info bpp) {o : UInt32} (ho : o ∈ visible info bpp)
    (base : UInt32) (m : Memory) :
    copyBytes (base + info.pitch * info.height) base (info.pitch * info.height) m (base + o) =
      m (base + o) := by
  have hlt := UInt32.lt_iff_toNat_lt.mp (hf.visible_lt ho)
  have hle := hf.buffers
  have hsize := hf.stride
  have hback : base + o - (base + info.pitch * info.height) = o - info.pitch * info.height := by
    grind
  refine if_neg ?_
  rw [hback, UInt32.lt_iff_toNat_lt, UInt32.toNat_sub, Nat.mod_eq_of_lt (by omega)]
  omega

theorem height_lt (hf : Fits info bpp) (hpos : info.pitch * info.height ≠ 0)
    (h : ¬ (info.height * 2 = 0 ∨ 0xFFFF < info.height * 2)) : info.height.toNat < 2 ^ 16 := by
  have hle := hf.buffers
  have hpitch : 0 < info.pitch.toNat := by
    refine Nat.pos_of_ne_zero fun hz => hpos ?_
    rw [UInt32.toNat_inj.mp (hz.trans UInt32.toNat_zero.symm), UInt32.zero_mul]
  have hrows : info.height.toNat ≤ info.pitch.toNat * info.height.toNat :=
    Nat.le_mul_of_pos_left _ hpitch
  have hdouble : (info.height * 2).toNat = info.height.toNat * 2 % 2 ^ 32 := UInt32.toNat_mul _ _
  rw [not_or, UInt32.not_lt, UInt32.le_iff_toNat_le, hdouble] at h
  obtain ⟨hzero, hlimit⟩ := h
  have hlimit : info.height.toNat * 2 % 2 ^ 32 ≤ 65535 := hlimit
  rcases Nat.lt_or_eq_of_le (Nat.le_trans (Nat.mul_le_mul_left 2 hrows) hle) with hlt | heq
  · omega
  · refine absurd (UInt32.toNat_inj.mp ?_) hzero
    rw [hdouble, Nat.mul_comm, heq]
    rfl

theorem twin_enabled {adapter : Adapter} (hsingle : s.doubleBufferEnabled = false)
    (hstride : s.frameStrideBytes = s.info.pitch * s.info.height)
    (hd : s.tryEnableDoubleBuffering adapter = some d) (hf : Fits s.info s.bytesPerPixel) :
    Twin s d ∧ ScansOut d ∧ d.info.height.toNat < 2 ^ 16 := by
  rw [Framebuffer.tryEnableDoubleBuffering] at hd
  split at hd
  · exact absurd hd.symm (Option.some_ne_none d)
  split at hd
  · exact absurd hd.symm (Option.some_ne_none d)
  split at hd
  · exact absurd hd.symm (Option.some_ne_none d)
  rename_i hnonzero
  split at hd
  · exact absurd hd.symm (Option.some_ne_none d)
  rename_i hheight
  split at hd
  · exact absurd hd.symm (Option.some_ne_none d)
  have hcopy : Framebuffer.copyBuffer { s with
      doubleBufferEnabled := true, bufferCount := 2, displayBufferIndex := 0
      drawBufferIndex := 1 % 2, frameInProgress := false } 0 (1 % 2) = { s with
      doubleBufferEnabled := true, bufferCount := 2, displayBufferIndex := 0
      drawBufferIndex := 1 % 2, frameInProgress := false
      memory := copyBytes (s.bufferBase (1 % 2)) (s.bufferBase 0) s.frameStrideBytes s.memory } :=
    if_neg (not_or.mpr ⟨by decide, hnonzero⟩)
  simp only [hcopy, Framebuffer.setDisplayBuffer, Bool.true_eq_false, if_false] at hd
  obtain rfl := Option.some.inj hd
  refine ⟨⟨rfl, rfl, rfl, hsingle, rfl, hstride, rfl, .inl ⟨rfl, rfl⟩, fun o ho => ?_⟩, ?_,
    height_lt hf (hstride ▸ hnonzero) hheight⟩
  swap
  · show s.info.address + ((s.info.height * 0).toUInt16).toUInt32 * s.info.pitch =
      s.info.address + 0 * s.frameStrideBytes
    rw [UInt32.mul_zero, UInt32.zero_mul]
    exact congrArg (s.info.address + ·) UInt32.zero_mul
  have hfirst : s.bufferBase 0 = s.info.address := by
    rw [Framebuffer.bufferBase]
    grind
  have hsecond : s.bufferBase (1 % 2) = s.info.address + s.info.pitch * s.info.height := by
    rw [Framebuffer.bufferBase, hstride]
    grind
  show copyBytes (s.bufferBase (1 % 2)) (s.bufferBase 0) s.frameStrideBytes s.memory
    (s.bufferBase 0 + o) = s.memory (s.info.address + o)
  rw [hfirst, hsecond, hstride]
  exact copyBytes_other hf ho _ _

/-! ## What the adapter shows -/

theorem toUInt32_toUInt16 {v : UInt32} (h : v.toNat < 2 ^ 16) : v.toUInt16.toUInt32 = v := by
  rw [← UInt32.toNat_inj, UInt16.toNat_toUInt32, UInt32.toNat_toUInt16, Nat.mod_eq_of_lt h]

theorem ScansOut.drawn {d' : Framebuffer} (h : ScansOut d) (hd : Drawn d d') : ScansOut d' := by
  obtain ⟨m, p, rfl⟩ := hd
  exact h

theorem ScansOut.present (h : ScansOut d) (htwin : Twin s d)
    (hheight : d.info.height.toNat < 2 ^ 16) : ScansOut d.present := by
  rw [Framebuffer.present]
  split
  · exact h
  split
  · exact h
  have hlt : (d.info.height * d.drawBufferIndex).toNat < 2 ^ 16 := by
    rcases htwin.indices with ⟨-, hi⟩ | ⟨-, hi⟩
    · rw [hi, UInt32.mul_one]
      exact hheight
    · rw [hi, UInt32.mul_zero]
      exact Nat.two_pow_pos 16
  simp only [Framebuffer.setDisplayBuffer, if_neg htwin.double_ne]
  show d.info.address + (d.info.height * d.drawBufferIndex).toUInt16.toUInt32 * d.info.pitch =
    d.info.address + d.drawBufferIndex * d.frameStrideBytes
  rw [toUInt32_toUInt16 hlt, htwin.stride]
  grind

/-- **The adapter shows the displayed buffer**, after every call. -/
theorem ScansOut.run : ∀ (calls : List Call) {s d : Framebuffer}, ScansOut d → Twin s d →
    Fits s.info s.bytesPerPixel → d.info.height.toNat < 2 ^ 16 → DisplaysBetweenFrames d calls →
    ScansOut (d.run calls)
  | [], _, _, h, _, _, _, _ => h
  | c :: calls, s, d, h, htwin, hf, hheight, hc => by
    obtain ⟨hinfo, hbpp⟩ := step_format s c
    have hf' : Fits (s.step c).info (s.step c).bytesPerPixel := by
      rw [hinfo, hbpp]
      exact hf
    have hheight' : (d.step c).info.height.toNat < 2 ^ 16 := by
      rw [(step_format d c).1]
      exact hheight
    have hstep : ScansOut (d.step c) := by
      cases c with
      | fillRect x y width height color t =>
        exact h.drawn (fillRect_drawn d x y width height color t)
      | drawMonoBitmap x y width height bitmap stride fgColor bgColor transparentBg t =>
        exact h.drawn (drawMonoBitmap_drawn d x y width height bitmap stride fgColor bgColor
          transparentBg t)
      | present => exact h.present htwin hheight
    exact ScansOut.run calls hstep (htwin.step hf c hc.1) hf' hheight' hc.2

/-- **Two buffers show what one would**: whatever is drawn and presented, between
frames the displayed buffer has the pixels of the single buffer. -/
theorem pixel_run {fb : Framebuffer} {adapter : Adapter}
    (hs : fb.adoptFramebuffer info = some s) (hd : s.tryEnableDoubleBuffering adapter = some d)
    (hf : Fits info s.bytesPerPixel) (calls : List Call) (hcalls : DisplaysBetweenFrames d calls)
    (hidle : (d.run calls).frameInProgress = false) {x y : UInt32} (hx : x < info.width)
    (hy : y < info.height) : (d.run calls).pixel x y = (s.run calls).pixel x y := by
  obtain ⟨hinfo, hsingle, hstride⟩ := adoptFramebuffer_eq hs
  rw [← hinfo] at hf hstride hx hy
  obtain ⟨htwin, -⟩ := twin_enabled hsingle hstride hd hf
  rw [← (run_format calls s).1] at hx hy
  exact (htwin.run calls hf hcalls).pixel hidle hx hy

theorem scansOut_run {fb : Framebuffer} {adapter : Adapter}
    (hs : fb.adoptFramebuffer info = some s) (hd : s.tryEnableDoubleBuffering adapter = some d)
    (hf : Fits info s.bytesPerPixel) (calls : List Call) (hcalls : DisplaysBetweenFrames d calls) :
    ScansOut (d.run calls) := by
  obtain ⟨hinfo, hsingle, hstride⟩ := adoptFramebuffer_eq hs
  rw [← hinfo] at hf hstride
  obtain ⟨htwin, hscan, hheight⟩ := twin_enabled hsingle hstride hd hf
  exact hscan.run calls htwin hf hheight hcalls

end

/-! ## Runs -/

/-- Nothing is set up yet, and the memory is empty. -/
def unset : Framebuffer :=
  { info := ⟨0, 0, 0, 0, 0⟩, available := false, bytesPerPixel := 0, frameStrideBytes := 0
    doubleBufferEnabled := false, bufferCount := 1, displayBufferIndex := 0, drawBufferIndex := 0
    frameInProgress := false, yOffset := 0, memory := fun _ => 0 }

/-- Two frames: a pixel in the second row, then one in the first. -/
def twoFrames : List Call :=
  [.fillRect 0 1 1 1 0xFF .draw, .present, .fillRect 0 0 1 1 0xFF .draw, .present]

theorem displaysBetweenFrames_twoFrames (d : Framebuffer) : DisplaysBetweenFrames d twoFrames := by
  have hdraw : some BufferTarget.draw ≠ some .display := by decide
  have hpresent : (none : Option BufferTarget) ≠ some .display := by decide
  exact ⟨fun h => absurd h hdraw, fun h => absurd h hpresent, fun h => absurd h hdraw,
    fun h => absurd h hpresent, trivial⟩

/-- A frame of two by two pixels. -/
theorem pixel_run_example :
    ∃ s d, unset.adoptFramebuffer ⟨2, 2, 8, 32, 0xE0000000⟩ = some s ∧
      s.tryEnableDoubleBuffering ⟨0xB0C5, 4⟩ = some d ∧
      (d.run twoFrames).pixel 0 1 = (s.run twoFrames).pixel 0 1 := by
  refine ⟨_, _, rfl, rfl, ?_⟩
  exact @pixel_run _ _ ⟨2, 2, 8, 32, 0xE0000000⟩ unset ⟨0xB0C5, 4⟩ rfl rfl ⟨by decide, by decide⟩
    twoFrames (displaysBetweenFrames_twoFrames _) (by decide +kernel) 0 1 (by decide) (by decide)

/-- Three rows of 2 GiB: the size of a buffer wraps, so that the second row is not
copied from frame to frame. -/
theorem tallFrame_differs :
    ∃ s d, unset.adoptFramebuffer ⟨1, 3, 0x80000000, 32, 0x1000⟩ = some s ∧
      s.tryEnableDoubleBuffering ⟨0xB0C5, 6⟩ = some d ∧
      (1 : UInt32).toNat * s.bytesPerPixel.toNat ≤ (0x80000000 : UInt32).toNat ∧
      DisplaysBetweenFrames d twoFrames ∧ (d.run twoFrames).frameInProgress = false ∧
      (d.run twoFrames).pixel 0 1 = [0, 0, 0, 0] ∧
      (s.run twoFrames).pixel 0 1 = [0xFF, 0, 0, 0] := by
  refine ⟨_, _, rfl, rfl, ?_, displaysBetweenFrames_twoFrames _, ?_, ?_, ?_⟩
  all_goals decide +kernel

end ContinuumOS.Gui.DoubleBuffer
