import ContinuumOS.Gui.DoubleBuffer

/-! # Drawing gives pixels their colors

A drawing call stores the bytes of the pixels that it covers. These bytes are
apart for different pixels, so that each pixel reads back as the color it was
given, and no other byte changes. -/
namespace ContinuumOS.Gui.Pixels
open ContinuumOS.Lib.Painting ContinuumOS.Gui.Framebuffer ContinuumOS.Gui.DoubleBuffer

/-- A mode that pixels are read back in: rows do not overlap, and a buffer lies in
the address space. -/
structure Geometry (fb : Framebuffer) : Prop where
  available : fb.available = true
  bytes : fb.bytesPerPixel = 2 ∨ fb.bytesPerPixel = 3 ∨ fb.bytesPerPixel = 4
  row : fb.info.width.toNat * fb.bytesPerPixel.toNat ≤ fb.info.pitch.toNat
  size : fb.info.pitch.toNat * fb.info.height.toNat < 2 ^ 32

/-- The offset of a byte of a pixel. -/
def place (fb : Framebuffer) (x y k : UInt32) : UInt32 :=
  y * fb.info.pitch + x * fb.bytesPerPixel + k

/-- `fb'` is `fb` with the pixels of `ink` painted in their colors. -/
structure Painted (ink : UInt32 → UInt32 → Option UInt32) (target : BufferTarget)
    (fb fb' : Framebuffer) : Prop where
  colors : ∀ x y color, x < fb.info.width → y < fb.info.height → ink x y = some color →
    (fb'.peekPixel x y target).toNat = color.toNat % 2 ^ (8 * fb.bytesPerPixel.toNat)
  others : ∀ a, (∀ x y k, x < fb.info.width → y < fb.info.height → k < fb.bytesPerPixel →
    ink x y ≠ none → a ≠ fb.framebufferPtr target + place fb x y k) → fb'.memory a = fb.memory a
  rest : fb' = { fb with memory := fb'.memory }

/-- Before a drawing to the hidden buffer a frame may start. -/
def FrameStart (target : BufferTarget) (fb fb' : Framebuffer) : Prop :=
  fb' = fb ∨ target = .draw ∧ ∃ keep, fb' = fb.ensureFrameStarted keep

def inRect (x y width height px py : UInt32) : Prop :=
  x ≤ px ∧ px < x + width ∧ y ≤ py ∧ py < y + height

instance (x y width height px py : UInt32) : Decidable (inRect x y width height px py) :=
  inferInstanceAs (Decidable (_ ∧ _))

/-- The colors of a filled rectangle. -/
def rectInk (x y width height color px py : UInt32) : Option UInt32 :=
  if inRect x y width height px py then some color else none

/-- The colors of a bitmap: those of its bits, or none for a bit that is not set. -/
def bitmapInk (x y width height : UInt32) (bitmap : Option (UInt32 → UInt8))
    (stride fgColor bgColor : UInt32) (transparentBg : Bool) (px py : UInt32) : Option UInt32 :=
  bitmap.bind fun bits =>
    if inRect x y width height px py then
      if Framebuffer.bitSet bits stride (py - y).toNat (px - x).toNat then some fgColor
      else if transparentBg then none else some bgColor
    else none

/-- The loops of `fill_rect` with `store_color` for every pixel. -/
def storeRows (fb : Framebuffer) (base x y : UInt32) (width height : Nat) (color : UInt32)
    (m : Memory) : Memory :=
  (List.range height).foldl (fun m row =>
    (List.range width).foldl (fun m col => fb.storeColor
      (base + (y + UInt32.ofNat row) * fb.info.pitch + x * fb.bytesPerPixel +
        UInt32.ofNat col * fb.bytesPerPixel) color m) m) m

section

variable {fb : Framebuffer} {m : Memory}

/-! ## The bytes of a color -/

theorem colorByte_toNat (color : UInt32) {i : Nat} (hi : i < 4) :
    (colorByte color i).toNat = color.toNat / 2 ^ (8 * i) % 2 ^ 8 := by
  rw [colorByte, UInt32.toNat_toUInt8, UInt32.toNat_shiftRight, UInt32.toNat_ofNat_of_lt'
    (show i * 8 < 2 ^ 32 by omega), Nat.mod_eq_of_lt (show i * 8 < 32 by omega),
    Nat.shiftRight_eq_div_pow, Nat.mul_comm]

theorem loadBytes_succ (n : Nat) (src : UInt32) (m : Memory) : loadBytes (n + 1) src m =
    loadBytes n src m ||| (m (src + UInt32.ofNat n)).toUInt32 <<< UInt32.ofNat (n * 8) := by
  rw [loadBytes, List.range_succ, List.foldl_append]
  rfl

theorem loadBytes_toNat (src : UInt32) (m : Memory) : ∀ {n : Nat}, n ≤ 4 →
    (loadBytes n src m).toNat < 2 ^ (8 * n) ∧ ∀ {i}, i < n →
      (loadBytes n src m).toNat / 2 ^ (8 * i) % 2 ^ 8 = (m (src + UInt32.ofNat i)).toNat
  | 0, _ => ⟨Nat.two_pow_pos _, fun hi => absurd hi (Nat.not_lt_zero _)⟩
  | n + 1, hn => by
    obtain ⟨hlt, hbytes⟩ := loadBytes_toNat src m (Nat.le_of_succ_le hn)
    have hbyte := (m (src + UInt32.ofNat n)).toNat_lt
    have hpow : 2 ^ (8 * (n + 1)) = 2 ^ (8 * n) * 2 ^ 8 := by rw [Nat.mul_succ, Nat.pow_add]
    have hvalue : (loadBytes (n + 1) src m).toNat =
        2 ^ (8 * n) * (m (src + UInt32.ofNat n)).toNat + (loadBytes n src m).toNat := by
      have hle : 2 ^ (8 * (n + 1)) ≤ 2 ^ 32 := Nat.pow_le_pow_right (by decide) (by omega)
      have hshift : ((m (src + UInt32.ofNat n)).toUInt32 <<< UInt32.ofNat (n * 8)).toNat =
          2 ^ (8 * n) * (m (src + UInt32.ofNat n)).toNat := by
        rw [UInt32.toNat_shiftLeft, UInt8.toNat_toUInt32, UInt32.toNat_ofNat_of_lt'
          (show n * 8 < 2 ^ 32 by omega), Nat.mod_eq_of_lt (show n * 8 < 32 by omega),
          Nat.shiftLeft_eq, Nat.mul_comm, Nat.mul_comm n 8, Nat.mod_eq_of_lt]
        calc 2 ^ (8 * n) * (m (src + UInt32.ofNat n)).toNat
            < 2 ^ (8 * n) * 2 ^ 8 := Nat.mul_lt_mul_of_pos_left hbyte (Nat.two_pow_pos _)
          _ ≤ 2 ^ 32 := hpow ▸ hle
      rw [loadBytes_succ, UInt32.toNat_or, hshift, Nat.or_comm, Nat.two_pow_add_eq_or_of_lt hlt]
    rw [hvalue]
    constructor
    · rw [hpow]
      calc 2 ^ (8 * n) * (m (src + UInt32.ofNat n)).toNat + (loadBytes n src m).toNat
          < 2 ^ (8 * n) * (m (src + UInt32.ofNat n)).toNat + 2 ^ (8 * n) :=
            Nat.add_lt_add_left hlt _
        _ = 2 ^ (8 * n) * ((m (src + UInt32.ofNat n)).toNat + 1) := (Nat.mul_succ _ _).symm
        _ ≤ 2 ^ (8 * n) * 2 ^ 8 := Nat.mul_le_mul_left _ hbyte
    · intro i hi
      rcases Nat.lt_or_eq_of_le (Nat.le_of_lt_succ hi) with hlow | rfl
      · rw [← hbytes hlow]
        have hsplit : 2 ^ (8 * n) = 2 ^ (8 * i) * (2 ^ 8 * 2 ^ (8 * (n - i - 1))) := by
          rw [← Nat.pow_add, ← Nat.pow_add]
          congr 1
          omega
        rw [hsplit, Nat.mul_assoc, Nat.add_comm, Nat.add_mul_div_left _ _ (Nat.two_pow_pos _),
          Nat.mul_assoc, Nat.add_mul_mod_self_left]
      · rw [Nat.add_comm, Nat.add_mul_div_left _ _ (Nat.two_pow_pos _), Nat.div_eq_of_lt hlt,
          Nat.zero_add, Nat.mod_eq_of_lt hbyte]

/-- **Reading a pixel and storing it changes nothing.** -/
theorem colorByte_loadBytes (src : UInt32) (m : Memory) {n i : Nat} (hn : n ≤ 4) (hi : i < n) :
    colorByte (loadBytes n src m) i = m (src + UInt32.ofNat i) := by
  rw [← UInt8.toNat_inj, colorByte_toNat _ (by omega), (loadBytes_toNat src m hn).2 hi]

theorem eq_of_bytes {v w : Nat} : ∀ n, (∀ i < n, v / 2 ^ (8 * i) % 2 ^ 8 = w / 2 ^ (8 * i) % 2 ^ 8) →
    v % 2 ^ (8 * n) = w % 2 ^ (8 * n)
  | 0, _ => by rw [Nat.mul_zero, Nat.pow_zero, Nat.mod_one, Nat.mod_one]
  | n + 1, h => by
    have hlow := eq_of_bytes n fun i hi => h i (Nat.lt_succ_of_lt hi)
    rw [Nat.mul_succ, Nat.pow_add, Nat.mod_mul, Nat.mod_mul, hlow, h n (Nat.lt_succ_self n)]

theorem loadBytes_of_bytes {src color : UInt32} {n : Nat} (hn : n ≤ 4)
    (h : ∀ i < n, m (src + UInt32.ofNat i) = colorByte color i) :
    (loadBytes n src m).toNat = color.toNat % 2 ^ (8 * n) := by
  obtain ⟨hlt, hbytes⟩ := loadBytes_toNat src m hn
  rw [← Nat.mod_eq_of_lt hlt]
  refine eq_of_bytes n fun i hi => ?_
  rw [hbytes hi, h i hi, colorByte_toNat color (by omega)]

/-! ## Where the pixels are -/

theorem lt_iff {a b : UInt32} : a < b ↔ a.toNat < b.toNat := UInt32.lt_iff_toNat_lt

theorem le_iff {a b : UInt32} : a ≤ b ↔ a.toNat ≤ b.toNat := UInt32.le_iff_toNat_le

theorem Geometry.ne_unavailable (h : Geometry fb) : ¬ fb.available = false := by
  rw [h.available]
  exact Bool.noConfusion

theorem Geometry.bytes_le (h : Geometry fb) : fb.bytesPerPixel.toNat ≤ 4 := by
  rcases h.bytes with hb | hb | hb <;> rw [hb] <;> decide

theorem Geometry.place_toNat (h : Geometry fb) {x y k : UInt32} (hx : x < fb.info.width)
    (hy : y < fb.info.height) (hk : k < fb.bytesPerPixel) : (place fb x y k).toNat =
      y.toNat * fb.info.pitch.toNat + (x.toNat * fb.bytesPerPixel.toNat + k.toNat) := by
  have hlt := place_lt (lt_iff.mp hx) (lt_iff.mp hy) (lt_iff.mp hk) h.row
  have hsize := h.size
  rw [place, UInt32.toNat_add, UInt32.toNat_add, UInt32.toNat_mul, UInt32.toNat_mul, ← Nat.add_mod,
    Nat.mod_add_mod, Nat.mod_eq_of_lt (by omega), Nat.add_assoc]

theorem digits_inj {a b r s p : Nat} (hr : r < p) (hs : s < p) (h : a * p + r = b * p + s) :
    a = b ∧ r = s := by
  have hp : 0 < p := Nat.lt_of_le_of_lt (Nat.zero_le r) hr
  have hdiv := congrArg (· / p) h
  simp only [Nat.mul_comm _ p, Nat.mul_add_div hp, Nat.div_eq_of_lt hr, Nat.div_eq_of_lt hs] at hdiv
  obtain rfl : a = b := hdiv
  exact ⟨rfl, Nat.add_left_cancel h⟩

/-- **The bytes of the pixels are apart.** -/
theorem Geometry.place_inj (h : Geometry fb) {x y k x' y' k' : UInt32} (hx : x < fb.info.width)
    (hy : y < fb.info.height) (hk : k < fb.bytesPerPixel) (hx' : x' < fb.info.width)
    (hy' : y' < fb.info.height) (hk' : k' < fb.bytesPerPixel)
    (he : place fb x y k = place fb x' y' k') : x = x' ∧ y = y' ∧ k = k' := by
  have hcol : ∀ {x k : UInt32}, x < fb.info.width → k < fb.bytesPerPixel →
      x.toNat * fb.bytesPerPixel.toNat + k.toNat < fb.info.pitch.toNat := by
    intro x k hx hk
    have hfirst := place_lt (lt_iff.mp hx) (Nat.zero_lt_one) (lt_iff.mp hk) h.row
    omega
  have hplaces := congrArg UInt32.toNat he
  rw [h.place_toNat hx hy hk, h.place_toNat hx' hy' hk'] at hplaces
  obtain ⟨hrow, hrest⟩ := digits_inj (hcol hx hk) (hcol hx' hk') hplaces
  obtain ⟨hpixel, hbyte⟩ := digits_inj (lt_iff.mp hk) (lt_iff.mp hk') hrest
  exact ⟨UInt32.toNat_inj.mp hpixel, UInt32.toNat_inj.mp hrow, UInt32.toNat_inj.mp hbyte⟩

/-! ## Painting pixels -/

theorem peekPixel_eq (havailable : ¬ fb.available = false)
    (hbytes : fb.bytesPerPixel = 2 ∨ fb.bytesPerPixel = 3 ∨ fb.bytesPerPixel = 4) {x y : UInt32}
    (hx : x < fb.info.width) (hy : y < fb.info.height) (target : BufferTarget) :
    fb.peekPixel x y target = loadBytes fb.bytesPerPixel.toNat
      (fb.framebufferPtr target + y * fb.info.pitch + x * fb.bytesPerPixel) fb.memory := by
  rw [Framebuffer.peekPixel, if_neg havailable,
    if_neg (not_or.mpr ⟨UInt32.not_le.mpr hx, UInt32.not_le.mpr hy⟩)]
  rcases hbytes with hb | hb | hb
  · rw [hb]
    rfl
  · rw [hb]
    rfl
  · rw [hb]
    rfl

/-- The writes of a list give the pixels of `ink` their bytes, and nothing else. -/
structure Inks (fb : Framebuffer) (ink : UInt32 → UInt32 → Option UInt32)
    (ws : List (UInt32 × UInt8)) : Prop where
  given : ∀ x y k color, x < fb.info.width → y < fb.info.height → k < fb.bytesPerPixel →
    ink x y = some color → (place fb x y k, colorByte color k.toNat) ∈ ws
  only : ∀ w ∈ ws, ∃ x y k color, x < fb.info.width ∧ y < fb.info.height ∧ k < fb.bytesPerPixel ∧
    ink x y = some color ∧ w = (place fb x y k, colorByte color k.toNat)

theorem Painted.congr {ink ink' : UInt32 → UInt32 → Option UInt32} {target : BufferTarget}
    {fb' : Framebuffer} (h : Painted ink target fb fb') (he : ∀ x y, ink x y = ink' x y) :
    Painted ink' target fb fb' := by
  have heq : ink = ink' := funext fun x => funext (he x)
  exact heq ▸ h

theorem Inks.painted {ink : UInt32 → UInt32 → Option UInt32} {ws : List (UInt32 × UInt8)}
    (h : Inks fb ink ws) (hg : Geometry fb) (target : BufferTarget) : Painted ink target fb
      { fb with memory := paint (moved (fb.framebufferPtr target + ·) ws) fb.memory } := by
  refine ⟨fun x y color hx hy hink => ?_, fun a ha => ?_, rfl⟩
  · have hbytes : ∀ i < fb.bytesPerPixel.toNat,
        paint (moved (fb.framebufferPtr target + ·) ws) fb.memory
          (fb.framebufferPtr target + y * fb.info.pitch + x * fb.bytesPerPixel + UInt32.ofNat i) =
            colorByte color i := by
      intro i hi
      have hfour := hg.bytes_le
      have hofNat : (UInt32.ofNat i).toNat = i := UInt32.toNat_ofNat_of_lt' (by
        show i < 2 ^ 32
        omega)
      have hk : UInt32.ofNat i < fb.bytesPerPixel := lt_iff.mpr (hofNat.symm ▸ hi)
      have hassoc : fb.framebufferPtr target + y * fb.info.pitch + x * fb.bytesPerPixel +
          UInt32.ofNat i = fb.framebufferPtr target + place fb x y (UInt32.ofNat i) := by
        rw [place]
        ac_rfl
      rw [hassoc]
      refine paint_of_mem ?_ ?_ _
      · refine List.mem_map.mpr ⟨_, h.given x y _ color hx hy hk hink, ?_⟩
        rw [hofNat]
      · intro w hw hplace
        obtain ⟨v, hv, rfl⟩ := List.mem_map.mp hw
        obtain ⟨x', y', k', color', hx', hy', hk', hink', rfl⟩ := h.only v hv
        obtain ⟨rfl, rfl, rfl⟩ :=
          hg.place_inj hx' hy' hk' hx hy hk (add_left_injective _ hplace)
        rw [hink] at hink'
        obtain rfl := Option.some.inj hink'
        exact congrArg (colorByte color) hofNat
    have hpeek := @peekPixel_eq { fb with
      memory := paint (moved (fb.framebufferPtr target + ·) ws) fb.memory }
      hg.ne_unavailable hg.bytes x y hx hy target
    rw [hpeek]
    exact loadBytes_of_bytes hg.bytes_le hbytes
  · refine paint_of_not_mem ?_ _
    intro w hw hplace
    obtain ⟨v, hv, rfl⟩ := List.mem_map.mp hw
    obtain ⟨x, y, k, color, hx, hy, hk, hink, rfl⟩ := h.only v hv
    refine ha x y k hx hy hk ?_ hplace.symm
    rw [hink]
    exact Option.some_ne_none color

theorem of_mem_rectWrites {pitch bpp x y : UInt32} {width height : Nat}
    {ink : Nat → Nat → Option UInt32} {w : UInt32 × UInt8}
    (hw : w ∈ rectWrites pitch bpp x y width height ink) :
    ∃ row < height, ∃ col < width, ∃ i < bpp.toNat, ∃ color, ink row col = some color ∧
      w = ((y + UInt32.ofNat row) * pitch + (x + UInt32.ofNat col) * bpp + UInt32.ofNat i,
        colorByte color i) := by
  obtain ⟨row, hrow, hw⟩ := List.mem_flatMap.mp hw
  obtain ⟨col, hcol, hw⟩ := List.mem_flatMap.mp hw
  cases hink : ink row col with
  | none =>
    rw [hink] at hw
    cases hw
  | some color =>
    rw [hink] at hw
    obtain ⟨i, hi, rfl⟩ := List.mem_map.mp hw
    exact ⟨row, List.mem_range.mp hrow, col, List.mem_range.mp hcol, i, List.mem_range.mp hi, color,
      hink, rfl⟩

theorem inks_rect {x y : UInt32} {width height : Nat} {ink : UInt32 → UInt32 → Option UInt32}
    {rows : Nat → Nat → Option UInt32} (hx : x.toNat + width ≤ fb.info.width.toNat)
    (hy : y.toNat + height ≤ fb.info.height.toNat)
    (hin : ∀ row < height, ∀ col < width,
      ink (x + UInt32.ofNat col) (y + UInt32.ofNat row) = rows row col)
    (hout : ∀ px py, ink px py ≠ none → px < fb.info.width → py < fb.info.height →
      x ≤ px ∧ px.toNat < x.toNat + width ∧ y ≤ py ∧ py.toNat < y.toNat + height) :
    Inks fb ink (rectWrites fb.info.pitch fb.bytesPerPixel x y width height rows) := by
  have hplace : ∀ {a : UInt32} {n : Nat} {limit : UInt32}, a.toNat + n ≤ limit.toNat →
      ∀ {i}, i < n → (a + UInt32.ofNat i).toNat = a.toNat + i := by
    intro a n limit hn i hi
    have hlimit := limit.toNat_lt
    rw [UInt32.toNat_add, UInt32.toNat_ofNat_of_lt' (show i < 2 ^ 32 by omega),
      Nat.mod_eq_of_lt (by omega)]
  constructor
  · intro px py k color hpx hpy hk hink
    obtain ⟨hleft, hright, htop, hbottom⟩ := hout px py (by
      rw [hink]
      exact Option.some_ne_none color) hpx hpy
    have hleft := le_iff.mp hleft
    have htop := le_iff.mp htop
    have hcol : x + UInt32.ofNat (px.toNat - x.toNat) = px := by
      rw [← UInt32.toNat_inj, hplace hx (by omega)]
      omega
    have hrow : y + UInt32.ofNat (py.toNat - y.toNat) = py := by
      rw [← UInt32.toNat_inj, hplace hy (by omega)]
      omega
    have hrows := hin (py.toNat - y.toNat) (by omega) (px.toNat - x.toNat) (by omega)
    rw [hcol, hrow, hink] at hrows
    have hmem := @mem_rectWrites fb.bytesPerPixel fb.info.pitch x y color width height
      (py.toNat - y.toNat) (px.toNat - x.toNat) k.toNat rows (by omega) (by omega) (lt_iff.mp hk)
      hrows.symm
    rw [hcol, hrow, UInt32.ofNat_toNat] at hmem
    exact hmem
  · intro w hw
    obtain ⟨row, hrow, col, hcol, i, hi, color, hink, rfl⟩ := of_mem_rectWrites hw
    have hbytes := fb.bytesPerPixel.toNat_lt
    have hofNat : (UInt32.ofNat i).toNat = i := UInt32.toNat_ofNat_of_lt' (by
      show i < 2 ^ 32
      omega)
    refine ⟨x + UInt32.ofNat col, y + UInt32.ofNat row, UInt32.ofNat i, color, ?_, ?_, ?_, ?_, ?_⟩
    · rw [lt_iff, hplace hx hcol]
      omega
    · rw [lt_iff, hplace hy hrow]
      omega
    · exact lt_iff.mpr (hofNat.symm ▸ hi)
    · rw [hin row hrow col hcol, hink]
    · rw [hofNat]
      rfl

/-! ## The calls -/

theorem clipped_toNat {start size limit : UInt32} (hstart : start < limit)
    (hwrap : start.toNat + size.toNat < 2 ^ 32) : (Framebuffer.clipped start size limit).toNat =
      min size.toNat (limit.toNat - start.toNat) := by
  have hstart := lt_iff.mp hstart
  have hsum : (start + size).toNat = start.toNat + size.toNat := by
    rw [UInt32.toNat_add, Nat.mod_eq_of_lt hwrap]
  rw [Framebuffer.clipped]
  split
  · rename_i hlimit
    rw [lt_iff, hsum] at hlimit
    rw [UInt32.toNat_sub_of_le _ _ (le_iff.mpr (Nat.le_of_lt hstart))]
    omega
  · rename_i hlimit
    rw [lt_iff, hsum] at hlimit
    omega

/-- Every pixel of a rectangle is stored with `store_color`, by the fast path too. -/
theorem fillRows_eq_storeRows (fb : Framebuffer) (base x y : UInt32) (width height : Nat)
    (color : UInt32) (m : Memory) :
    fb.fillRows base x y width height color m = storeRows fb base x y width height color m := by
  rw [Framebuffer.fillRows, storeRows]
  by_cases h : fb.bytesPerPixel = 4
  · simp only [Framebuffer.storeColor, h, if_true]
  · simp only [if_neg h]

theorem Drawn.geometry {fb' : Framebuffer} (hd : Drawn fb fb') (h : Geometry fb) : Geometry fb' := by
  obtain ⟨m, p, rfl⟩ := hd
  exact ⟨h.available, h.bytes, h.row, h.size⟩

theorem FrameStart.drawn {target : BufferTarget} {fb' : Framebuffer}
    (h : FrameStart target fb fb') : Drawn fb fb' := by
  rcases h with rfl | ⟨-, keep, rfl⟩
  · exact ⟨fb'.memory, fb'.frameInProgress, rfl⟩
  · exact ensureFrameStarted_drawn fb keep

theorem frameStart_ite (fb : Framebuffer) (target : BufferTarget) (keep : Bool) :
    FrameStart target fb (if target = .draw then fb.ensureFrameStarted keep else fb) := by
  by_cases h : target = .draw
  · rw [if_pos h]
    exact .inr ⟨h, keep, rfl⟩
  · rw [if_neg h]
    exact .inl rfl

theorem painted_none {ink : UInt32 → UInt32 → Option UInt32} (target : BufferTarget)
    (h : ∀ x y, x < fb.info.width → y < fb.info.height → ink x y = none) :
    Painted ink target fb fb := by
  refine ⟨fun x y color hx hy hink => ?_, fun _ _ => rfl, rfl⟩
  rw [h x y hx hy] at hink
  cases hink

section

variable {x y width height : UInt32} (hx : x.toNat + width.toNat < 2 ^ 32)
  (hy : y.toNat + height.toNat < 2 ^ 32)

include hx hy

theorem inRect_iff {px py : UInt32} : inRect x y width height px py ↔
    x.toNat ≤ px.toNat ∧ px.toNat < x.toNat + width.toNat ∧
      y.toNat ≤ py.toNat ∧ py.toNat < y.toNat + height.toNat := by
  have hright : (x + width).toNat = x.toNat + width.toNat := by
    rw [UInt32.toNat_add, Nat.mod_eq_of_lt hx]
  have hbottom : (y + height).toNat = y.toNat + height.toNat := by
    rw [UInt32.toNat_add, Nat.mod_eq_of_lt hy]
  rw [inRect, le_iff, le_iff, lt_iff, lt_iff, hright, hbottom]

theorem not_inRect {px py : UInt32} (hpx : px < fb.info.width) (hpy : py < fb.info.height)
    (h : (width = 0 ∨ height = 0) ∨ fb.info.width ≤ x ∨ fb.info.height ≤ y) :
    ¬ inRect x y width height px py := by
  intro hin
  obtain ⟨h₁, h₂, h₃, h₄⟩ := (inRect_iff hx hy).mp hin
  have hpx := lt_iff.mp hpx
  have hpy := lt_iff.mp hpy
  rcases h with (rfl | rfl) | h | h
  · exact absurd h₂ (Nat.not_lt.mpr h₁)
  · exact absurd h₄ (Nat.not_lt.mpr h₃)
  · have h := le_iff.mp h
    omega
  · have h := le_iff.mp h
    omega

/-- **A clipped rectangle** of which the calls paint the rows. -/
theorem painted_clipped (hg : Geometry fb) (target : BufferTarget) (hxin : x < fb.info.width)
    (hyin : y < fb.info.height) {rows : Nat → Nat → Option UInt32} :
    Painted (fun px py => if inRect x y width height px py then
        rows (py - y).toNat (px - x).toNat else none) target fb { fb with
      memory := paint (moved (fb.framebufferPtr target + ·) (rectWrites fb.info.pitch
        fb.bytesPerPixel x y (Framebuffer.clipped x width fb.info.width).toNat
        (Framebuffer.clipped y height fb.info.height).toNat rows)) fb.memory } := by
  have hw := clipped_toNat hxin hx
  have hh := clipped_toNat hyin hy
  have hxlt := lt_iff.mp hxin
  have hylt := lt_iff.mp hyin
  refine Inks.painted (inks_rect (by omega) (by omega) ?_ ?_) hg target
  · intro row hrow col hcol
    have hback : ∀ {a : UInt32} {i : Nat}, a.toNat + i < 2 ^ 32 →
        (a + UInt32.ofNat i).toNat = a.toNat + i ∧ (a + UInt32.ofNat i - a).toNat = i := by
      intro a i hi
      have hofNat : (UInt32.ofNat i).toNat = i := UInt32.toNat_ofNat_of_lt' (by
        show i < 2 ^ 32
        omega)
      refine ⟨?_, ?_⟩
      · rw [UInt32.toNat_add, hofNat, Nat.mod_eq_of_lt hi]
      · have hsub : a + UInt32.ofNat i - a = UInt32.ofNat i := by grind
        rw [hsub, hofNat]
    obtain ⟨hpx, hcolumn⟩ := @hback x col (by omega)
    obtain ⟨hpy, hline⟩ := @hback y row (by omega)
    rw [if_pos ((inRect_iff hx hy).mpr (by omega)), hcolumn, hline]
  · intro px py hink hpx hpy
    have hin : inRect x y width height px py := by
      by_contra hout
      exact hink (if_neg hout)
    have hpx := lt_iff.mp hpx
    have hpy := lt_iff.mp hpy
    obtain ⟨h₁, h₂, h₃, h₄⟩ := (inRect_iff hx hy).mp hin
    exact ⟨le_iff.mpr h₁, by omega, le_iff.mpr h₃, by omega⟩

theorem bitmap_clipped (hg : Geometry fb) (target : BufferTarget) (hxin : x < fb.info.width)
    (hyin : y < fb.info.height) (bits : UInt32 → UInt8) (stride fgColor bgColor : UInt32)
    (transparentBg : Bool) :
    Painted (bitmapInk x y width height (some bits) stride fgColor bgColor transparentBg) target fb
      { fb with
        memory := paint (moved (fb.framebufferPtr target + ·) (rectWrites fb.info.pitch
          fb.bytesPerPixel x y (Framebuffer.clipped x width fb.info.width).toNat
          (Framebuffer.clipped y height fb.info.height).toNat fun row col =>
            if Framebuffer.bitSet bits stride row col = false ∧ transparentBg = true then none
            else some (if Framebuffer.bitSet bits stride row col then fgColor else bgColor)))
          fb.memory } := by
  refine (painted_clipped hx hy hg target hxin hyin).congr fun px py => ?_
  rw [bitmapInk, Option.bind_some]
  split
  · cases Framebuffer.bitSet bits stride (py - y).toNat (px - x).toNat with
    | true => rfl
    | false => cases transparentBg <;> rfl
  · rfl

theorem fillRect_painted (hg : Geometry fb) (color : UInt32) (target : BufferTarget) :
    ∃ fb₁, FrameStart target fb fb₁ ∧ Painted (rectInk x y width height color) target fb₁
      (fb.fillRect x y width height color target) := by
  rw [Framebuffer.fillRect, if_neg hg.ne_unavailable]
  by_cases hsize : width = 0 ∨ height = 0
  · rw [if_pos hsize]
    exact ⟨fb, .inl rfl, painted_none target fun px py hpx hpy =>
      if_neg (not_inRect hx hy hpx hpy (.inl hsize))⟩
  rw [if_neg hsize]
  by_cases hout : fb.info.width ≤ x ∨ fb.info.height ≤ y
  · rw [if_pos hout]
    exact ⟨fb, .inl rfl, painted_none target fun px py hpx hpy =>
      if_neg (not_inRect hx hy hpx hpy (.inr hout))⟩
  rw [if_neg hout]
  obtain ⟨hxin, hyin⟩ := not_or.mp hout
  simp only [fillRows_eq]
  generalize (!decide (x = 0 ∧ y = 0 ∧ Framebuffer.clipped x width fb.info.width = fb.info.width ∧
    Framebuffer.clipped y height fb.info.height = fb.info.height)) = keep
  have hstart := frameStart_ite fb target keep
  generalize (if target = .draw then fb.ensureFrameStarted keep else fb) = fb₁ at hstart
  refine ⟨fb₁, hstart, ?_⟩
  have hg₁ := Drawn.geometry hstart.drawn hg
  obtain ⟨hinfo, hbpp⟩ := hstart.drawn.format
  rw [← hinfo] at hxin hyin ⊢
  exact @painted_clipped fb₁ x y width height hx hy hg₁ target (UInt32.not_le.mp hxin)
    (UInt32.not_le.mp hyin) fun _ _ => some color

theorem drawMonoBitmap_painted (hg : Geometry fb) (bitmap : Option (UInt32 → UInt8))
    (stride fgColor bgColor : UInt32) (transparentBg : Bool) (target : BufferTarget) :
    ∃ fb₁, FrameStart target fb fb₁ ∧ Painted
      (bitmapInk x y width height bitmap stride fgColor bgColor transparentBg) target fb₁
      (fb.drawMonoBitmap x y width height bitmap stride fgColor bgColor transparentBg target) := by
  cases bitmap with
  | none => exact ⟨fb, .inl rfl, painted_none target fun _ _ _ _ => rfl⟩
  | some bits =>
    rw [Framebuffer.drawMonoBitmap, if_neg hg.ne_unavailable]
    by_cases hsize : width = 0 ∨ height = 0
    · rw [if_pos hsize]
      exact ⟨fb, .inl rfl, painted_none target fun px py hpx hpy =>
        if_neg (not_inRect hx hy hpx hpy (.inl hsize))⟩
    rw [if_neg hsize]
    by_cases hout : fb.info.width ≤ x ∨ fb.info.height ≤ y
    · rw [if_pos hout]
      exact ⟨fb, .inl rfl, painted_none target fun px py hpx hpy =>
        if_neg (not_inRect hx hy hpx hpy (.inr hout))⟩
    rw [if_neg hout]
    obtain ⟨hxin, hyin⟩ := not_or.mp hout
    simp only [drawRows_eq]
    have hstart := frameStart_ite fb target true
    generalize (if target = .draw then fb.ensureFrameStarted true else fb) = fb₁ at hstart
    refine ⟨fb₁, hstart, ?_⟩
    have hg₁ := Drawn.geometry hstart.drawn hg
    obtain ⟨hinfo, hbpp⟩ := hstart.drawn.format
    rw [← hinfo] at hxin hyin ⊢
    exact @bitmap_clipped fb₁ x y width height hx hy hg₁ target (UInt32.not_le.mp hxin)
      (UInt32.not_le.mp hyin) bits stride fgColor bgColor transparentBg

/-- **Drawing gives each pixel its color and changes no other byte**, in whatever
mode and for whatever rectangle that does not wrap around: the pixels of the
rectangle on the screen read back as the color, reduced to what a pixel holds. -/
theorem drawing_exact (hg : Geometry fb) (target : BufferTarget) :
    (∀ color, ∃ fb₁, FrameStart target fb fb₁ ∧
      Painted (rectInk x y width height color) target fb₁
        (fb.fillRect x y width height color target)) ∧
    (∀ bitmap stride fgColor bgColor transparentBg, ∃ fb₁, FrameStart target fb fb₁ ∧
      Painted (bitmapInk x y width height bitmap stride fgColor bgColor transparentBg) target fb₁
        (fb.drawMonoBitmap x y width height bitmap stride fgColor bgColor transparentBg target)) ∧
    ∀ base color m, fb.fillRows base x y width.toNat height.toNat color m =
      storeRows fb base x y width.toNat height.toNat color m :=
  ⟨fun color => fillRect_painted hx hy hg color target,
    fun bitmap stride fgColor bgColor transparentBg =>
      drawMonoBitmap_painted hx hy hg bitmap stride fgColor bgColor transparentBg target,
    fun base color m => fillRows_eq_storeRows fb base x y _ _ color m⟩

end

end

/-- A mode of 16 by 4 pixels of three bytes, in rows of 50 bytes. -/
def smallMode : Framebuffer :=
  { unset with
    info := ⟨16, 4, 50, 24, 0xE0000000⟩, available := true, bytesPerPixel := 3
    frameStrideBytes := 200 }

theorem drawing_exact_smallMode :
    (∀ color, ∃ fb₁, FrameStart .draw smallMode fb₁ ∧ Painted (rectInk 14 1 9 2 color) .draw fb₁
      (smallMode.fillRect 14 1 9 2 color .draw)) ∧
    (∀ bitmap stride fgColor bgColor transparentBg, ∃ fb₁, FrameStart .draw smallMode fb₁ ∧
      Painted (bitmapInk 14 1 9 2 bitmap stride fgColor bgColor transparentBg) .draw fb₁
        (smallMode.drawMonoBitmap 14 1 9 2 bitmap stride fgColor bgColor transparentBg .draw)) ∧
    ∀ base color m, smallMode.fillRows base 14 1 (9 : UInt32).toNat (2 : UInt32).toNat color m =
      storeRows smallMode base 14 1 (9 : UInt32).toNat (2 : UInt32).toNat color m :=
  drawing_exact (by decide) (by decide) ⟨rfl, by decide, by decide, by decide⟩ .draw

end ContinuumOS.Gui.Pixels
