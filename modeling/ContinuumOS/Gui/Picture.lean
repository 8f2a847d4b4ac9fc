import ContinuumOS.Gui.Drawing

/-! # What the screen shows

With one buffer or with two, drawing lays its ink over what is shown, and showing a
frame changes nothing of it: a frame starts with what is displayed, and is displayed
with what was drawn. -/
namespace ContinuumOS.Gui.Picture
open ContinuumOS.Lib.Layers ContinuumOS.Gui.Framebuffer ContinuumOS.Gui.DoubleBuffer
open ContinuumOS.Gui.Pixels ContinuumOS.Gui.Drawing
open ContinuumOS.Gui.Geometry (Window fontWidth fontHeight)

/-- Pixels are read back, and a buffer is copied as a whole. -/
structure Valid (f : Framebuffer) : Prop where
  geometry : Geometry f
  stride : f.doubleBufferEnabled = true → f.frameStrideBytes = f.info.pitch * f.info.height

/-- A pixel of the picture: of the frame in progress, or else of what is displayed. -/
def shown (f : Framebuffer) (p : UInt32 × UInt32) : UInt32 :=
  f.peekPixel p.1 p.2 (if f.doubleBufferEnabled && !f.frameInProgress then .display else .draw)

/-- What a pixel keeps of a color. -/
def stored (f : Framebuffer) (color : UInt32) : UInt32 :=
  UInt32.ofNat (color.toNat % 2 ^ (8 * f.bytesPerPixel.toNat))

/-- A pixel of the screen. -/
def OnScreen (f : Framebuffer) (p : UInt32 × UInt32) : Prop :=
  p.1 < f.info.width ∧ p.2 < f.info.height

/-- The colors of the ink, over what was there before. -/
def inked (f : Framebuffer) (ink : Option UInt32) (before : UInt32) : UInt32 :=
  (ink.map (stored f)).getD before

section

variable {f f' : Framebuffer} {p : UInt32 × UInt32} {keep : Bool}

/-! ## Frames -/

theorem loadBytes_congr {n : Nat} {src src' : UInt32} {m m' : Memory}
    (h : ∀ i < n, m (src + UInt32.ofNat i) = m' (src' + UInt32.ofNat i)) :
    loadBytes n src m = loadBytes n src' m' := by
  induction n with
  | zero => rfl
  | succ n ih =>
    rw [loadBytes_succ, loadBytes_succ, ih fun i hi => h i (Nat.lt_succ_of_lt hi),
      h n (Nat.lt_succ_self n)]

theorem unpainted {ink : UInt32 → UInt32 → Option UInt32} {target : BufferTarget}
    (hg : Geometry f) (h : Painted ink target f f') (hp : OnScreen f p)
    (hnone : ink p.1 p.2 = none) : f'.peekPixel p.1 p.2 target = f.peekPixel p.1 p.2 target := by
  have hother := h.others
  have hfour := hg.bytes_le
  rw [h.rest, @peekPixel_eq { f with memory := f'.memory } hg.ne_unavailable hg.bytes _ _ hp.1 hp.2,
    peekPixel_eq hg.ne_unavailable hg.bytes hp.1 hp.2]
  refine loadBytes_congr fun i hi => hother _ fun x y k hx hy hk hne hplace => ?_
  have hi : i < f.bytesPerPixel.toNat := hi
  have hofNat := @toNat_ofNat_lt i (by omega)
  have hi : UInt32.ofNat i < f.bytesPerPixel := lt_iff.mpr (hofNat.symm ▸ hi)
  have hsame : f.framebufferPtr target + place f p.1 p.2 (UInt32.ofNat i) =
      f.framebufferPtr target + place f x y k := by
    rw [← hplace, place]
    have hptr : Framebuffer.framebufferPtr { f with memory := f'.memory } target =
      f.framebufferPtr target := rfl
    rw [hptr]
    ac_rfl
  obtain ⟨rfl, rfl, -⟩ := hg.place_inj hp.1 hp.2 hi hx hy hk (add_left_injective _ hsame)
  exact hne hnone

theorem Valid.place_lt (hv : Valid f) (hdouble : f.doubleBufferEnabled = true) (hp : OnScreen f p)
    {i : Nat} (hi : i < f.bytesPerPixel.toNat) :
    place f p.1 p.2 (UInt32.ofNat i) < f.frameStrideBytes := by
  have hg := hv.geometry
  have hfour := hg.bytes_le
  have hsize := hg.size
  have hofNat := @toNat_ofNat_lt i (by omega)
  have hi : UInt32.ofNat i < f.bytesPerPixel := lt_iff.mpr (hofNat.symm ▸ hi)
  have hlt := DoubleBuffer.place_lt (lt_iff.mp hp.1) (lt_iff.mp hp.2) (lt_iff.mp hi) hg.row
  rw [hv.stride hdouble, lt_iff, hg.place_toNat hp.1 hp.2 hi, UInt32.toNat_mul,
    Nat.mod_eq_of_lt hsize]
  omega

theorem copied_shown (hv : Valid f) (hdouble : f.doubleBufferEnabled = true) (hp : OnScreen f p) :
    (f.copyBuffer f.displayBufferIndex f.drawBufferIndex).peekPixel p.1 p.2 .draw =
      f.peekPixel p.1 p.2 .display := by
  have hg := hv.geometry
  have hnot : ¬ f.doubleBufferEnabled = false := by
    rw [hdouble]
    decide
  have hassoc : ∀ (b : UInt32) (i : Nat), b + p.2 * f.info.pitch + p.1 * f.bytesPerPixel +
      UInt32.ofNat i = b + place f p.1 p.2 (UInt32.ofNat i) := by
    intro b i
    rw [place]
    ac_rfl
  rw [Framebuffer.copyBuffer, peekPixel_eq hg.ne_unavailable hg.bytes hp.1 hp.2 .display,
    Framebuffer.framebufferPtr, if_neg hnot, if_pos rfl]
  split
  · rename_i hnothing
    rw [peekPixel_eq hg.ne_unavailable hg.bytes hp.1 hp.2, Framebuffer.framebufferPtr, if_neg hnot,
      if_neg (by decide)]
    rcases hnothing with hsame | hzero
    · rw [hsame]
    · refine loadBytes_congr fun i hi => ?_
      have hlt := hv.place_lt hdouble hp hi
      rw [hzero] at hlt
      exact absurd hlt UInt32.not_lt_zero
  · have hcopy := copyBytes_eqOn (f.bufferBase f.drawBufferIndex)
      (f.bufferBase f.displayBufferIndex) f.frameStrideBytes f.memory
    generalize copyBytes (f.bufferBase f.drawBufferIndex) (f.bufferBase f.displayBufferIndex)
      f.frameStrideBytes f.memory = m at hcopy
    have hptr : Framebuffer.framebufferPtr { f with memory := m } .draw =
        f.bufferBase f.drawBufferIndex := if_neg hnot
    rw [@peekPixel_eq { f with memory := m } hg.ne_unavailable hg.bytes _ _ hp.1 hp.2, hptr]
    refine loadBytes_congr fun i hi => ?_
    exact (congrArg m (hassoc _ i)).trans ((hcopy (hv.place_lt hdouble hp hi)).trans
      (congrArg f.memory (hassoc _ i).symm))

/-- **A frame that keeps the contents starts with what is displayed.** -/
theorem started_shown (hv : Valid f) (hp : OnScreen f p) :
    (f.ensureFrameStarted true).peekPixel p.1 p.2 .draw = shown f p := by
  rw [Framebuffer.ensureFrameStarted, shown]
  cases hdouble : f.doubleBufferEnabled with
  | false => rfl
  | true =>
    rw [if_neg (by decide)]
    cases hprogress : f.frameInProgress with
    | true => rfl
    | false => exact copied_shown hv hdouble hp

theorem shown_draw {m : Memory} (hf : f' = { f.ensureFrameStarted keep with memory := m }) :
    shown f' p = f'.peekPixel p.1 p.2 .draw := by
  have hdraw : (f'.doubleBufferEnabled && !f'.frameInProgress) = false := by
    rw [hf]
    show ((f.ensureFrameStarted keep).doubleBufferEnabled &&
      !(f.ensureFrameStarted keep).frameInProgress) = false
    rw [Framebuffer.ensureFrameStarted]
    split
    · rename_i hsingle
      rw [hsingle]
      rfl
    split
    · rename_i hprogress
      rw [hprogress, Bool.not_true, Bool.and_false]
    · exact Bool.and_false _
  rw [shown, hdraw]
  rfl

/-- **A drawing lays its ink over what is shown**, where it starts a frame without the
contents only to cover it. -/
theorem drawn_shown (hv : Valid f) {ink : UInt32 → UInt32 → Option UInt32}
    (hpainted : Painted ink .draw (f.ensureFrameStarted keep) f') (hp : OnScreen f p)
    (hkeep : keep = false → ink p.1 p.2 ≠ none) :
    shown f' p = inked f (ink p.1 p.2) (shown f p) := by
  have hstarted := ensureFrameStarted_drawn f keep
  obtain ⟨hinfo, hbytes⟩ := hstarted.format
  have hg := Drawn.geometry hstarted hv.geometry
  have hp' : OnScreen (f.ensureFrameStarted keep) p := by
    rw [OnScreen, hinfo]
    exact hp
  rw [shown_draw hpainted.rest, inked]
  cases hink : ink p.1 p.2 with
  | none =>
    have hkeep : keep = true := Bool.eq_true_of_not_eq_false fun hfalse => hkeep hfalse hink
    rw [hkeep] at hpainted hg hp'
    exact (unpainted hg hpainted hp' hink).trans (started_shown hv hp)
  | some color =>
    have hcolor := hpainted.colors p.1 p.2 color hp'.1 hp'.2 hink
    rw [hbytes] at hcolor
    have hlt : color.toNat % 2 ^ (8 * f.bytesPerPixel.toNat) < 2 ^ 32 :=
      Nat.lt_of_le_of_lt (Nat.mod_le _ _) color.toNat_lt
    rw [← UInt32.toNat_inj, hcolor]
    exact (toNat_ofNat_lt hlt).symm

/-! ## Calls -/

theorem rect_shown (hv : Valid f) {x y width height : UInt32}
    (hx : x.toNat + width.toNat < 2 ^ 32) (hy : y.toNat + height.toNat < 2 ^ 32) (color : UInt32)
    (hp : OnScreen f p) : shown (f.step (rect x y width height color)) p =
      inked f (inkOf (rect x y width height color) p) (shown f p) := by
  have hg := hv.geometry
  have hmiss : ((width = 0 ∨ height = 0) ∨ f.info.width ≤ x ∨ f.info.height ≤ y) →
      inkOf (rect x y width height color) p = none :=
    fun h => if_neg (not_inRect hx hy hp.1 hp.2 h)
  show shown (f.fillRect x y width height color .draw) p = _
  rw [Framebuffer.fillRect, if_neg hg.ne_unavailable]
  by_cases hsize : width = 0 ∨ height = 0
  · rw [if_pos hsize, hmiss (.inl hsize)]
    rfl
  rw [if_neg hsize]
  by_cases hout : f.info.width ≤ x ∨ f.info.height ≤ y
  · rw [if_pos hout, hmiss (.inr hout)]
    rfl
  rw [if_neg hout]
  obtain ⟨hxin, hyin⟩ := not_or.mp hout
  have hxin := UInt32.not_le.mp hxin
  have hyin := UInt32.not_le.mp hyin
  have hw := clipped_toNat hxin hx
  have hh := clipped_toNat hyin hy
  simp only [fillRows_eq, if_true]
  generalize hkeep : (!decide (x = 0 ∧ y = 0 ∧
    Framebuffer.clipped x width f.info.width = f.info.width ∧
    Framebuffer.clipped y height f.info.height = f.info.height)) = keep
  have hstarted := ensureFrameStarted_drawn f keep
  obtain ⟨hinfo, hbytes⟩ := hstarted.format
  refine @drawn_shown f _ p keep hv (rectInk x y width height color) ?_ hp fun hfalse => ?_
  · have hg₁ := Drawn.geometry hstarted hg
    rw [← hinfo] at hxin hyin ⊢
    exact @painted_clipped (f.ensureFrameStarted keep) x y width height hx hy hg₁ .draw hxin hyin
      fun _ _ => some color
  · -- only a fill of the whole screen does not keep the contents
    rw [hfalse, Bool.not_eq_false', decide_eq_true_eq] at hkeep
    obtain ⟨rfl, rfl, hwide, htall⟩ := hkeep
    have hpx := lt_iff.mp hp.1
    have hpy := lt_iff.mp hp.2
    rw [hwide, UInt32.toNat_zero] at hw
    rw [htall, UInt32.toNat_zero] at hh
    have hin : inRect 0 0 width height p.1 p.2 :=
      (inRect_iff hx hy).mpr ⟨Nat.zero_le _, by rw [UInt32.toNat_zero]; omega, Nat.zero_le _, by
        rw [UInt32.toNat_zero]; omega⟩
    rw [rectInk, if_pos hin]
    exact Option.some_ne_none color

theorem bitmap_shown (hv : Valid f) {x y width height : UInt32}
    (hx : x.toNat + width.toNat < 2 ^ 32) (hy : y.toNat + height.toNat < 2 ^ 32)
    (bits : UInt32 → UInt8) (stride fgColor bgColor : UInt32) (transparentBg : Bool)
    (hp : OnScreen f p) :
    shown (f.drawMonoBitmap x y width height (some bits) stride fgColor bgColor transparentBg
        .draw) p =
      inked f (bitmapInk x y width height (some bits) stride fgColor bgColor transparentBg p.1 p.2)
        (shown f p) := by
  have hg := hv.geometry
  have hmiss : ((width = 0 ∨ height = 0) ∨ f.info.width ≤ x ∨ f.info.height ≤ y) →
      bitmapInk x y width height (some bits) stride fgColor bgColor transparentBg p.1 p.2 = none :=
    fun h => if_neg (not_inRect hx hy hp.1 hp.2 h)
  rw [Framebuffer.drawMonoBitmap, if_neg hg.ne_unavailable]
  by_cases hsize : width = 0 ∨ height = 0
  · rw [if_pos hsize, hmiss (.inl hsize)]
    rfl
  rw [if_neg hsize]
  by_cases hout : f.info.width ≤ x ∨ f.info.height ≤ y
  · rw [if_pos hout, hmiss (.inr hout)]
    rfl
  rw [if_neg hout]
  obtain ⟨hxin, hyin⟩ := not_or.mp hout
  have hxin := UInt32.not_le.mp hxin
  have hyin := UInt32.not_le.mp hyin
  simp only [drawRows_eq, if_true]
  have hstarted := ensureFrameStarted_drawn f true
  obtain ⟨hinfo, hbytes⟩ := hstarted.format
  refine @drawn_shown f _ p true hv (bitmapInk x y width height (some bits) stride fgColor bgColor
    transparentBg) ?_ hp fun hfalse => absurd hfalse.symm (by decide)
  have hg₁ := Drawn.geometry hstarted hg
  rw [← hinfo] at hxin hyin ⊢
  exact @bitmap_clipped (f.ensureFrameStarted true) x y width height hx hy hg₁ .draw hxin hyin bits
    stride fgColor bgColor transparentBg

/-- **A call of a window lays its ink over what is shown.** -/
theorem step_shown (hv : Valid f) {window : Window} (hs : Snug window) {call : Call}
    (hc : Within window call) (hp : OnScreen f p) :
    shown (f.step call) p = inked f (inkOf call p) (shown f p) := by
  have hright := hs.right
  have hbottom := hs.bottom
  cases hc with
  | rect color hin =>
    have h₁ := hin.right
    have h₂ := hin.bottom
    exact rect_shown hv (by omega) (by omega) color hp
  | glyph looks ch color hin =>
    have h₁ := hin.right
    have h₂ := hin.bottom
    exact bitmap_shown hv (by omega) (by omega) (looks.glyphFor ch) 1 color 0 true hp

theorem step_drawn {window : Window} {call : Call} (hc : Within window call) :
    Drawn f (f.step call) := by
  cases hc with
  | rect color _ => exact fillRect_drawn f _ _ _ _ color .draw
  | glyph looks ch color _ =>
    exact drawMonoBitmap_drawn f _ _ _ _ (some (looks.glyphFor ch)) 1 color 0 true .draw

theorem Drawn.valid (hd : Drawn f f') (hv : Valid f) : Valid f' := by
  have hg := Drawn.geometry hd hv.geometry
  obtain ⟨m, q, rfl⟩ := hd
  exact ⟨hg, hv.stride⟩

theorem run_drawn {calls : List Call}
    (hc : ∀ call ∈ calls, ∃ window, Snug window ∧ Within window call) : Drawn f (f.run calls) := by
  induction calls generalizing f with
  | nil => exact ⟨f.memory, f.frameInProgress, rfl⟩
  | cons call calls ih =>
    obtain ⟨window, -, hw⟩ := hc call List.mem_cons_self
    obtain ⟨m, q, hm⟩ := @step_drawn f window call hw
    obtain ⟨m', q', hm'⟩ := @ih (f.step call) fun c h => hc c (List.mem_cons_of_mem call h)
    refine ⟨m', q', ?_⟩
    rw [Framebuffer.run, List.foldl_cons]
    rw [Framebuffer.run] at hm'
    rw [hm', hm]

/-- **Drawing windows shows what is seen of the layers of ink.** -/
theorem run_shown {calls : List Call}
    (hc : ∀ call ∈ calls, ∃ window, Snug window ∧ Within window call) (hv : Valid f)
    (hp : OnScreen f p) :
    shown (f.run calls) p = inked f (overlay inkOf calls p) (shown f p) := by
  induction calls generalizing f with
  | nil => rfl
  | cons call calls ih =>
    obtain ⟨window, hs, hw⟩ := hc call List.mem_cons_self
    have hd := @step_drawn f window call hw
    obtain ⟨hinfo, hbytes⟩ := hd.format
    have hshown := ih (fun c h => hc c (List.mem_cons_of_mem call h)) (Drawn.valid hd hv)
      (by rw [OnScreen, hinfo]; exact hp)
    rw [Framebuffer.run, List.foldl_cons]
    refine hshown.trans ?_
    rw [step_shown hv hs hw hp, overlay_cons]
    cases overlay inkOf calls p with
    | none => rfl
    | some color =>
      show stored (f.step call) color = stored f color
      rw [stored, stored, hbytes]

/-- **Showing a frame changes nothing of the picture.** -/
theorem present_shown (f : Framebuffer) (p : UInt32 × UInt32) : shown f.present p = shown f p := by
  rw [Framebuffer.present]
  split
  · rfl
  rename_i hdouble
  split
  · rfl
  rename_i hprogress
  have hprogress : f.frameInProgress = true := Bool.eq_true_of_not_eq_false hprogress
  have hdouble : ¬ f.doubleBufferEnabled = false := (not_or.mp hdouble).2
  have htwo : f.doubleBufferEnabled = true := Bool.eq_true_of_not_eq_false hdouble
  have hold : shown f p = f.peekPixel p.1 p.2 .draw := by
    rw [shown, htwo, hprogress]
    rfl
  rw [hold, Framebuffer.setDisplayBuffer, if_neg hdouble, shown, htwo, if_pos (by rfl),
    Framebuffer.peekPixel, Framebuffer.peekPixel, Framebuffer.framebufferPtr,
    Framebuffer.framebufferPtr, if_neg (show ¬ true = false by decide), if_neg hdouble, if_pos rfl,
    if_neg (show ¬ BufferTarget.draw = .display by decide)]
  rfl

end

end ContinuumOS.Gui.Picture
