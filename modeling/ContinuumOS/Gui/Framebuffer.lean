import Mathlib.Logic.Function.Basic

/-! # The framebuffer

`src/kernel/framebuffer.cpp`: drawing into the memory of the video adapter, with
one buffer or with two that take turns. Addresses are those of the 32-bit kernel
and wrap around as its pointers do. -/
namespace ContinuumOS.Gui.Framebuffer

abbrev Memory := UInt32 → UInt8

inductive BufferTarget where
  | draw
  | display
  deriving DecidableEq, Repr

structure FrameBufferInfo where
  width : UInt32
  height : UInt32
  pitch : UInt32
  bpp : UInt32
  address : UInt32
  deriving DecidableEq, Repr

/-- The variables of `framebuffer.cpp` that drawing reads, with the memory and the
`Y_OFFSET` register of the adapter. -/
structure Framebuffer where
  info : FrameBufferInfo
  available : Bool
  bytesPerPixel : UInt32
  frameStrideBytes : UInt32
  doubleBufferEnabled : Bool
  bufferCount : UInt32
  displayBufferIndex : UInt32
  drawBufferIndex : UInt32
  frameInProgress : Bool
  yOffset : UInt16
  memory : Memory

/-- What the adapter answers: `VBE_DISPI_INDEX_ID`, and `VBE_DISPI_INDEX_VIRT_HEIGHT`
after it was set. -/
structure Adapter where
  id : UInt16
  virtHeight : UInt16

/-- `memcpy`, where the ranges are apart. -/
def copyBytes (dst src n : UInt32) (m : Memory) : Memory := fun a =>
  if a - dst < n then m (src + (a - dst)) else m a

/-- Byte `i` of a color. -/
def colorByte (color : UInt32) (i : Nat) : UInt8 := (color >>> UInt32.ofNat (i * 8)).toUInt8

/-- The lowest `n` bytes of a color, the lowest first. -/
def storeBytes (n : Nat) (dst color : UInt32) (m : Memory) : Memory :=
  (List.range n).foldl (fun m i => Function.update m (dst + UInt32.ofNat i) (colorByte color i)) m

/-- The value of `n` bytes, the lowest first. -/
def loadBytes (n : Nat) (src : UInt32) (m : Memory) : UInt32 :=
  (List.range n).foldl
    (fun v i => v ||| (m (src + UInt32.ofNat i)).toUInt32 <<< UInt32.ofNat (i * 8)) 0

def packRgb24 (r g b : UInt8) : UInt32 :=
  (r.toUInt32 <<< 16) ||| (g.toUInt32 <<< 8) ||| b.toUInt32

namespace Framebuffer

variable (fb : Framebuffer)

def packColor (r g b : UInt8) : UInt32 :=
  if fb.available = false then 0
  else if fb.bytesPerPixel = 2 then
    ((r.toUInt32 &&& 0xF8) <<< 8) ||| ((g.toUInt32 &&& 0xFC) <<< 3) |||
      ((b.toUInt32 &&& 0xF8) >>> 3)
  else packRgb24 r g b

def bufferBase (index : UInt32) : UInt32 := fb.info.address + index * fb.frameStrideBytes

def framebufferPtr (target : BufferTarget) : UInt32 :=
  if fb.doubleBufferEnabled = false then fb.info.address
  else fb.bufferBase (if target = .display then fb.displayBufferIndex else fb.drawBufferIndex)

def copyBuffer (sourceIndex destIndex : UInt32) : Framebuffer :=
  if sourceIndex = destIndex ∨ fb.frameStrideBytes = 0 then fb
  else { fb with
    memory := copyBytes (fb.bufferBase destIndex) (fb.bufferBase sourceIndex) fb.frameStrideBytes
      fb.memory }

def ensureFrameStarted (preserveContents : Bool) : Framebuffer :=
  if fb.doubleBufferEnabled = false then fb
  else if fb.frameInProgress then fb
  else
    let fb :=
      if preserveContents then fb.copyBuffer fb.displayBufferIndex fb.drawBufferIndex else fb
    { fb with frameInProgress := true }

def storeColor (dst color : UInt32) (m : Memory) : Memory :=
  if fb.bytesPerPixel = 4 then storeBytes 4 dst color m
  else if fb.bytesPerPixel = 3 then storeBytes 3 dst color m
  else if fb.bytesPerPixel = 2 then storeBytes 2 dst color m
  else storeBytes fb.bytesPerPixel.toNat dst color m

def setDisplayBuffer (index : UInt32) : Framebuffer :=
  if fb.doubleBufferEnabled = false then fb
  else { fb with yOffset := (fb.info.height * index).toUInt16 }

/-! ## Setting up -/

/-- `none` where the description is refused. -/
def adoptFramebuffer (detected : FrameBufferInfo) : Option Framebuffer :=
  if detected.width = 0 ∨ detected.height = 0 ∨ detected.pitch = 0 ∨ detected.bpp = 0 ∨
      detected.address = 0 then none
  else if (detected.bpp + 7) / 8 = 0 then none
  -- the size is computed in 64 bits here, where it does not wrap
  else if detected.pitch.toNat * detected.height.toNat = 0 then none
  else some { fb with
    info := detected, bytesPerPixel := (detected.bpp + 7) / 8
    frameStrideBytes := detected.pitch * detected.height, doubleBufferEnabled := false
    bufferCount := 1, displayBufferIndex := 0, drawBufferIndex := 0, frameInProgress := false
    available := true }

/-- `none` where double buffering stays off. -/
def tryEnableDoubleBuffering (adapter : Adapter) : Option Framebuffer :=
  if fb.available = false then none
  else if ¬ (0xB0C0 ≤ adapter.id ∧ adapter.id ≤ 0xB0C5) then none
  else if fb.frameStrideBytes = 0 then none
  else if fb.info.height * 2 = 0 ∨ 0xFFFF < fb.info.height * 2 then none
  else if adapter.virtHeight.toUInt32 < fb.info.height * 2 then none
  else
    let fb := { fb with
      doubleBufferEnabled := true, bufferCount := 2, displayBufferIndex := 0
      drawBufferIndex := 1 % 2, frameInProgress := false }
    let fb := fb.copyBuffer fb.displayBufferIndex fb.drawBufferIndex
    some (fb.setDisplayBuffer fb.displayBufferIndex)

/-! ## Drawing -/

/-- The part of `size` from `start` on that is below `limit`. -/
def clipped (start size limit : UInt32) : UInt32 :=
  if limit < start + size then limit - start else size

/-- The loops of `fill_rect`. -/
def fillRows (base x y : UInt32) (width height : Nat) (color : UInt32) (m : Memory) : Memory :=
  (List.range height).foldl (fun m row =>
    let rowBase := base + (y + UInt32.ofNat row) * fb.info.pitch + x * fb.bytesPerPixel
    (List.range width).foldl (fun m col =>
      if fb.bytesPerPixel = 4 then storeBytes 4 (rowBase + UInt32.ofNat col * 4) color m
      else fb.storeColor (rowBase + UInt32.ofNat col * fb.bytesPerPixel) color m) m) m

def fillRect (x y width height color : UInt32) (target : BufferTarget) : Framebuffer :=
  if fb.available = false then fb
  else if width = 0 ∨ height = 0 then fb
  else if fb.info.width ≤ x ∨ fb.info.height ≤ y then fb
  else
    let width := clipped x width fb.info.width
    let height := clipped y height fb.info.height
    let coversFullFrame := x = 0 ∧ y = 0 ∧ width = fb.info.width ∧ height = fb.info.height
    let fb := if target = .draw then fb.ensureFrameStarted (!decide coversFullFrame) else fb
    { fb with
      memory := fb.fillRows (fb.framebufferPtr target) x y width.toNat height.toNat color
        fb.memory }

/-- Whether a bit of the bitmap is set. -/
def bitSet (bitmap : UInt32 → UInt8) (stride : UInt32) (row col : Nat) : Bool :=
  bitmap (UInt32.ofNat row * stride + UInt32.ofNat (col / 8)) &&&
    (0x80 >>> UInt8.ofNat (col % 8)) != 0

/-- The loops of `draw_mono_bitmap`. -/
def drawRows (base x y : UInt32) (width height : Nat) (bitmap : UInt32 → UInt8)
    (stride fgColor bgColor : UInt32) (transparentBg : Bool) (m : Memory) : Memory :=
  (List.range height).foldl (fun m row =>
    let rowBase := base + (y + UInt32.ofNat row) * fb.info.pitch + x * fb.bytesPerPixel
    (List.range width).foldl (fun m col =>
      if bitSet bitmap stride row col = false ∧ transparentBg = true then m
      else
        fb.storeColor (rowBase + UInt32.ofNat col * fb.bytesPerPixel)
          (if bitSet bitmap stride row col then fgColor else bgColor) m) m) m

/-- `bitmap` is `none` for a null pointer. -/
def drawMonoBitmap (x y width height : UInt32) (bitmap : Option (UInt32 → UInt8))
    (stride fgColor bgColor : UInt32) (transparentBg : Bool) (target : BufferTarget) :
    Framebuffer :=
  match bitmap with
  | none => fb
  | some bitmap =>
    if fb.available = false then fb
    else if width = 0 ∨ height = 0 then fb
    else if fb.info.width ≤ x ∨ fb.info.height ≤ y then fb
    else
      let width := clipped x width fb.info.width
      let height := clipped y height fb.info.height
      let fb := if target = .draw then fb.ensureFrameStarted true else fb
      { fb with
        memory := fb.drawRows (fb.framebufferPtr target) x y width.toNat height.toNat bitmap stride
          fgColor bgColor transparentBg fb.memory }

def peekPixel (x y : UInt32) (target : BufferTarget) : UInt32 :=
  if fb.available = false then 0
  else if fb.info.width ≤ x ∨ fb.info.height ≤ y then 0
  else
    let pixel := fb.framebufferPtr target + y * fb.info.pitch + x * fb.bytesPerPixel
    if fb.bytesPerPixel = 4 then loadBytes 4 pixel fb.memory
    else if fb.bytesPerPixel = 3 then loadBytes 3 pixel fb.memory
    else if fb.bytesPerPixel = 2 then loadBytes 2 pixel fb.memory
    else 0

def present : Framebuffer :=
  if fb.available = false ∨ fb.doubleBufferEnabled = false then fb
  else if fb.frameInProgress = false then fb
  else
    let fb := fb.setDisplayBuffer fb.drawBufferIndex
    { fb with
      displayBufferIndex := fb.drawBufferIndex
      drawBufferIndex := (fb.drawBufferIndex + 1) % fb.bufferCount, frameInProgress := false }

/-- The bytes of a pixel of the displayed buffer. -/
def pixel (x y : UInt32) : List UInt8 :=
  (List.range fb.bytesPerPixel.toNat).map fun k => fb.memory
    (fb.framebufferPtr .display + y * fb.info.pitch + x * fb.bytesPerPixel + UInt32.ofNat k)

end Framebuffer

/-! ## Calls -/

inductive Call where
  | fillRect (x y width height color : UInt32) (target : BufferTarget)
  | drawMonoBitmap (x y width height : UInt32) (bitmap : Option (UInt32 → UInt8))
      (stride fgColor bgColor : UInt32) (transparentBg : Bool) (target : BufferTarget)
  | present

namespace Framebuffer

variable (fb : Framebuffer)

def step : Call → Framebuffer
  | .fillRect x y width height color target => fb.fillRect x y width height color target
  | .drawMonoBitmap x y width height bitmap stride fgColor bgColor transparentBg target =>
    fb.drawMonoBitmap x y width height bitmap stride fgColor bgColor transparentBg target
  | .present => fb.present

def run (calls : List Call) : Framebuffer := calls.foldl step fb

end Framebuffer

end ContinuumOS.Gui.Framebuffer
