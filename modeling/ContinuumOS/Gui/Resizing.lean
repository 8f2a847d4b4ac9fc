import ContinuumOS.Gui.Windows

/-! # One axis of a resize

On a screen that holds the largest window, and whose coordinates fit an `int32_t`,
a resize keeps the frame on the screen. The edge that is not dragged stays, and
the other follows the cursor in steps of whole cells. -/
namespace ContinuumOS.Gui.Resizing
open ContinuumOS.Gui.TextGrid ContinuumOS.Gui.Geometry

/-- The largest frame fits the screen, and the screen fits an `int32_t`. -/
structure Fair (a : Axis) : Prop where
  screen : a.screen.toNat < 2 ^ 31
  font : 0 < a.font.toNat
  pos : 0 < a.minCells.toNat
  cells : a.minCells.toNat ≤ a.maxCells.toNat
  room : a.maxCells.toNat * a.font.toNat + a.padding.toNat ≤ a.screen.toNat

/-- The size of a frame of so many cells. -/
def frameSize (a : Axis) (cells : UInt32) : UInt32 := cells * a.font + a.padding

/-- The frame starts inside the screen. -/
def Inside (a : Axis) (e : Extent) : Prop := e.start.toNat + e.size.toNat ≤ a.screen.toNat

/-- A frame of a legal number of cells. -/
def Whole (a : Axis) (e : Extent) : Prop :=
  ∃ cells : UInt32, a.minCells ≤ cells ∧ cells ≤ a.maxCells ∧ e.size = frameSize a cells

section

variable {a : Axis} {e : Extent}

/-! ## Sizes -/

theorem Fair.frameSize_toNat (h : Fair a) {cells : UInt32} (hc : cells ≤ a.maxCells) :
    (frameSize a cells).toNat = cells.toNat * a.font.toNat + a.padding.toNat ∧
      (frameSize a cells).toNat ≤ a.screen.toNat := by
  have hmul : cells.toNat * a.font.toNat ≤ a.maxCells.toNat * a.font.toNat :=
    Nat.mul_le_mul_right _ (UInt32.le_iff_toNat_le.mp hc)
  have hroom := h.room
  have hscreen := h.screen
  have hvalue : (frameSize a cells).toNat = cells.toNat * a.font.toNat + a.padding.toNat := by
    rw [frameSize, UInt32.toNat_add, UInt32.toNat_mul, Nat.mod_add_mod, Nat.mod_eq_of_lt (by omega)]
  exact ⟨hvalue, by omega⟩

theorem Fair.minFrame_eq (h : Fair a) :
    a.minFrame = (a.minCells.toNat * a.font.toNat + a.padding.toNat : Nat) := by
  obtain ⟨hvalue, hle⟩ := h.frameSize_toNat (UInt32.le_iff_toNat_le.mpr h.cells)
  rw [Axis.minFrame]
  show int32 (frameSize a a.minCells) = _
  rw [int32_of_lt (Nat.lt_of_le_of_lt hle h.screen), hvalue]

theorem Fair.cellBound_eq (h : Fair a) : a.cellBound = a.maxCells := by
  have hroom := h.room
  have hfont := h.font
  have hpos := h.pos
  have hcells := h.cells
  have hmul : 0 < a.maxCells.toNat * a.font.toNat := Nat.mul_pos (by omega) hfont
  have hpadding : a.padding < a.screen := UInt32.lt_iff_toNat_lt.mpr (by omega)
  have honScreen : a.maxCells.toNat ≤ ((a.screen - a.padding) / a.font).toNat := by
    rw [UInt32.toNat_div, UInt32.toNat_sub_of_le _ _ (UInt32.le_of_lt hpadding),
      Nat.le_div_iff_mul_le hfont]
    omega
  rw [Axis.cellBound]
  simp only [if_pos hpadding]
  rw [if_neg (UInt32.not_lt.mpr (UInt32.le_iff_toNat_le.mpr (by omega)))]
  split
  · rfl
  · rename_i hnot
    exact UInt32.le_antisymm (UInt32.not_lt.mp hnot) (UInt32.le_iff_toNat_le.mpr honScreen)

theorem Fair.cells_bounds (h : Fair a) (size : Int) :
    a.minCells ≤ a.cells size ∧ a.cells size ≤ a.maxCells := by
  have hbounds := fun content => @clampU32_bounds content a.minCells a.cellBound (by
    rw [h.cellBound_eq]
    exact UInt32.le_iff_toNat_le.mpr h.cells)
  rw [h.cellBound_eq] at hbounds
  rw [Axis.cells, h.cellBound_eq]
  exact hbounds _

theorem Fair.cells_eq (h : Fair a) {size : Nat}
    (hmin : a.minCells.toNat * a.font.toNat + a.padding.toNat ≤ size)
    (hmax : size ≤ a.screen.toNat) :
    (a.cells size).toNat = min a.maxCells.toNat ((size - a.padding.toNat) / a.font.toNat) := by
  have hscreen := h.screen
  have hfont := h.font
  have hpos : 0 < a.minCells.toNat * a.font.toNat := Nat.mul_pos h.pos hfont
  have hpadding : int32 a.padding = a.padding.toNat := int32_of_lt (by omega)
  have hcontent : ((UInt32.ofInt (size - int32 a.padding)).toNat : Int) =
      size - int32 a.padding := toNat_ofInt (by omega) (by omega)
  have hdiv : (UInt32.ofInt (size - int32 a.padding) / a.font).toNat =
      (size - a.padding.toNat) / a.font.toNat := by
    rw [UInt32.toNat_div]
    congr 1
    omega
  have hmore : a.minCells.toNat ≤ (size - a.padding.toNat) / a.font.toNat :=
    (Nat.le_div_iff_mul_le hfont).mpr (by omega)
  rw [Axis.cells, h.cellBound_eq, if_pos (by omega), clampU32]
  split
  · rename_i hlt
    have hlt := UInt32.lt_iff_toNat_lt.mp hlt
    omega
  split
  · rename_i hgt
    have hgt := UInt32.lt_iff_toNat_lt.mp hgt
    omega
  · rename_i hle
    have hle := UInt32.le_iff_toNat_le.mp (UInt32.not_lt.mp hle)
    omega

/-! ## The frame stays on the screen -/

theorem Fair.start_eq (h : Fair a) (he : Inside a e) : int32 a.screen = a.screen.toNat ∧
    int32 e.start = e.start.toNat ∧ int32 (e.start + e.size) = (e.start.toNat + e.size.toNat : Nat) := by
  have hscreen := h.screen
  have hin : e.start.toNat + e.size.toNat ≤ a.screen.toNat := he
  have hsum : (e.start + e.size).toNat = e.start.toNat + e.size.toNat := by
    rw [UInt32.toNat_add, Nat.mod_eq_of_lt (by omega)]
  refine ⟨int32_of_lt hscreen, int32_of_lt (by omega), ?_⟩
  rw [int32_of_lt (by omega), hsum]

theorem lowEdge_le (h : Fair a) (he : Inside a e) (low : Bool) (delta : Int) :
    a.lowEdge low e delta ≤ a.screen.toNat := by
  obtain ⟨-, hstart, hend⟩ := h.start_eq he
  have hin : e.start.toNat + e.size.toNat ≤ a.screen.toNat := he
  have hmin := h.minFrame_eq
  rw [Axis.lowEdge, hstart, hend]
  cases low with
  | false =>
    show (e.start.toNat : Int) ≤ _
    omega
  | true =>
    dsimp only
    rw [if_pos rfl]
    generalize (if (e.start.toNat : Int) + delta < 0 then 0 else (e.start.toNat : Int) + delta) = edge
    split
    · omega
    · omega

theorem edges_le (h : Fair a) (he : Inside a e) (low high : Bool) (delta : Int) :
    (a.edges low high e delta).1 ≤ a.screen.toNat ∧
      (low = true → (a.edges low high e delta).2 ≤ a.screen.toNat) := by
  have hlow := lowEdge_le h he low delta
  have hmin := h.minFrame_eq
  have hscreen := (h.start_eq he).1
  rw [Axis.edges, hscreen]
  generalize a.lowEdge low e delta = lo at hlow
  generalize a.highEdge high e delta lo = hi
  generalize a.minFrame = m at hmin
  dsimp only
  generalize (if hi ≤ lo then lo + m else hi) = hi'
  have hborder : ∃ lo₁ hi₁, (if (a.screen.toNat : Int) < hi' then
      (if (a.screen.toNat : Int) - m < 0 then 0 else (a.screen.toNat : Int) - m,
        (a.screen.toNat : Int)) else (lo, hi')) = (lo₁, hi₁) ∧
      lo₁ ≤ a.screen.toNat ∧ hi₁ ≤ a.screen.toNat := by
    split
    · refine ⟨_, _, rfl, ?_, Int.le_refl _⟩
      split
      · omega
      · omega
    · exact ⟨lo, hi', rfl, hlow, by omega⟩
  obtain ⟨lo₁, hi₁, hpair, hlo₁, hhi₁⟩ := hborder
  rw [hpair]
  dsimp only
  split
  · cases low with
    | true => exact ⟨by rw [if_pos rfl]; omega, fun _ => hhi₁⟩
    | false => exact ⟨hlo₁, fun hfalse => absurd hfalse Bool.false_ne_true⟩
  · exact ⟨hlo₁, fun _ => hhi₁⟩

theorem toNat_ofInt_le {i : Int} {n : Nat} (hi : i ≤ n) (hn : n < 2 ^ 31) :
    (UInt32.ofInt (if i < 0 then 0 else i)).toNat ≤ n := by
  have hvalue := @toNat_ofInt (if i < 0 then 0 else i) (by split <;> omega) (by split <;> omega)
  split at hvalue
  · rename_i hneg
    rw [if_pos hneg]
    omega
  · rename_i hnonneg
    rw [if_neg hnonneg]
    omega

/-- **A resized frame stays on the screen**, wherever the cursor asks it to go. -/
theorem resized_fits (h : Fair a) (he : Inside a e) (low high : Bool) (delta : Int) :
    (a.resized low high e delta).1.toNat ≤ a.screen.toNat ∧
      a.minCells ≤ (a.resized low high e delta).2 ∧
      (a.resized low high e delta).2 ≤ a.maxCells := by
  obtain ⟨hlo, hhi⟩ := edges_le h he low high delta
  have hscreen := h.screen
  rw [Axis.resized]
  cases hedges : a.edges low high e delta with
  | mk lo hi =>
    rw [hedges] at hlo hhi
    dsimp only at hlo hhi ⊢
    refine ⟨?_, h.cells_bounds _⟩
    generalize a.cells (hi - lo) * a.font + a.padding = size
    by_cases hanchor : (low && !high) = true
    · rw [if_pos hanchor]
      obtain ⟨hlow, -⟩ := Bool.and_eq_true_iff.mp hanchor
      have hend := toNat_ofInt_le (hhi hlow) hscreen
      have hif : (if hi < 0 then 0 else UInt32.ofInt hi) =
          UInt32.ofInt (if hi < 0 then 0 else hi) := by
        split
        · rfl
        · rfl
      rw [hif]
      generalize UInt32.ofInt (if hi < 0 then 0 else hi) = anchor at hend
      split
      · exact Nat.zero_le _
      · rename_i hsize
        rw [UInt32.toNat_sub_of_le _ _ (UInt32.not_lt.mp hsize)]
        omega
    · rw [if_neg hanchor]
      exact toNat_ofInt_le hlo hscreen

/-! ## The edges -/

theorem Fair.whole_size (h : Fair a) (hw : Whole a e) :
    a.minCells.toNat * a.font.toNat + a.padding.toNat ≤ e.size.toNat := by
  obtain ⟨cells, hmin, hmax, hsize⟩ := hw
  rw [hsize, (h.frameSize_toNat hmax).1]
  have hmul : a.minCells.toNat * a.font.toNat ≤ cells.toNat * a.font.toNat :=
    Nat.mul_le_mul_right _ (UInt32.le_iff_toNat_le.mp hmin)
  omega

/-- The size that the cursor asks for, at least the smallest. -/
def asked (a : Axis) (size : Int) : Nat := (max a.minFrame size).toNat

theorem edges_settled {low high : Bool} {delta lo hi : Int} (hpos : 0 < a.minFrame)
    (hlo : a.lowEdge low e delta = lo) (hhi : a.highEdge high e delta lo = hi)
    (hsize : lo + a.minFrame ≤ hi) (hscreen : hi ≤ int32 a.screen) :
    a.edges low high e delta = (lo, hi) := by
  rw [Axis.edges, hlo]
  dsimp only
  rw [hhi, if_neg (show ¬ hi ≤ lo by omega), if_neg (show ¬ int32 a.screen < hi by omega)]
  dsimp only
  rw [if_neg (show ¬ hi - lo < a.minFrame by omega)]

theorem Fair.minFrame_pos (h : Fair a) : 0 < a.minFrame := by
  have hpos : 0 < a.minCells.toNat * a.font.toNat := Nat.mul_pos h.pos h.font
  rw [h.minFrame_eq]
  omega

theorem edges_none (h : Fair a) (he : Inside a e) (hw : Whole a e) (delta : Int) :
    a.edges false false e delta =
      ((e.start.toNat : Int), ((e.start.toNat + e.size.toNat : Nat) : Int)) := by
  obtain ⟨hscreen, hstart, hend⟩ := h.start_eq he
  have hin : e.start.toNat + e.size.toNat ≤ a.screen.toNat := he
  have hmin := h.minFrame_eq
  have hsize := h.whole_size hw
  exact edges_settled h.minFrame_pos hstart hend (by omega) (by omega)

theorem edges_low (h : Fair a) (he : Inside a e) (hw : Whole a e) (delta : Int) :
    a.edges true false e delta =
      (((e.start.toNat + e.size.toNat : Nat) : Int) -
        asked a ((e.start.toNat + e.size.toNat : Nat) - max 0 (e.start.toNat + delta)),
      ((e.start.toNat + e.size.toNat : Nat) : Int)) := by
  obtain ⟨hscreen, hstart, hend⟩ := h.start_eq he
  have hin : e.start.toNat + e.size.toNat ≤ a.screen.toNat := he
  have hmin := h.minFrame_eq
  have hsize := h.whole_size hw
  have hpos := h.minFrame_pos
  refine edges_settled hpos ?_ hend ?_ (by omega)
  · rw [Axis.lowEdge, hstart, hend, asked]
    dsimp only
    rw [if_pos rfl]
    have hedge : (if (e.start.toNat : Int) + delta < 0 then 0
        else (e.start.toNat : Int) + delta) = max 0 (e.start.toNat + delta) := by
      split
      · omega
      · omega
    rw [hedge]
    split
    · omega
    · omega
  · rw [asked]
    omega

theorem edges_high (h : Fair a) (he : Inside a e) (hw : Whole a e) (delta : Int) :
    a.edges false true e delta = ((e.start.toNat : Int), (e.start.toNat : Int) +
      asked a (min (a.screen.toNat : Int) ((e.start.toNat + e.size.toNat : Nat) + delta) -
        e.start.toNat)) := by
  obtain ⟨hscreen, hstart, hend⟩ := h.start_eq he
  have hin : e.start.toNat + e.size.toNat ≤ a.screen.toNat := he
  have hmin := h.minFrame_eq
  have hsize := h.whole_size hw
  have hpos := h.minFrame_pos
  refine edges_settled hpos hstart ?_ ?_ ?_
  · rw [Axis.highEdge, hend, hscreen, asked]
    dsimp only
    rw [if_pos rfl]
    have hedge : (if (a.screen.toNat : Int) < ((e.start.toNat + e.size.toNat : Nat) : Int) + delta
        then (a.screen.toNat : Int) else ((e.start.toNat + e.size.toNat : Nat) : Int) + delta) =
        min (a.screen.toNat : Int) ((e.start.toNat + e.size.toNat : Nat) + delta) := by
      split
      · omega
      · omega
    rw [hedge]
    split
    · omega
    · omega
  · rw [asked]
    omega
  · rw [asked]
    omega

/-! ## The resized frame -/

/-- The size of a resized frame. -/
def newSize (a : Axis) (size : Nat) : Nat := (frameSize a (a.cells size)).toNat

theorem Fair.newSize_eq (h : Fair a) {size : Nat} (hmin : a.minFrame ≤ size)
    (hmax : size ≤ a.screen.toNat) : newSize a size =
      min a.maxCells.toNat ((size - a.padding.toNat) / a.font.toNat) * a.font.toNat +
        a.padding.toNat := by
  rw [h.minFrame_eq] at hmin
  rw [newSize, (h.frameSize_toNat (h.cells_bounds size).2).1, h.cells_eq (by omega) hmax]

theorem Fair.newSize_le (h : Fair a) {size : Nat} (hmin : a.minFrame ≤ size)
    (hmax : size ≤ a.screen.toNat) : newSize a size ≤ size := by
  have hdiv := Nat.div_mul_le_self (size - a.padding.toNat) a.font.toNat
  have hmul : min a.maxCells.toNat ((size - a.padding.toNat) / a.font.toNat) * a.font.toNat ≤
      (size - a.padding.toNat) / a.font.toNat * a.font.toNat :=
    Nat.mul_le_mul_right _ (Nat.min_le_right _ _)
  rw [h.newSize_eq hmin hmax]
  rw [h.minFrame_eq] at hmin
  omega

theorem Fair.newSize_mono (h : Fair a) {size size' : Nat} (hmin : a.minFrame ≤ size)
    (hle : size ≤ size') (hmax : size' ≤ a.screen.toNat) : newSize a size ≤ newSize a size' := by
  rw [h.newSize_eq hmin (Nat.le_trans hle hmax), h.newSize_eq (by omega) hmax]
  have hcells : (size - a.padding.toNat) / a.font.toNat ≤ (size' - a.padding.toNat) / a.font.toNat :=
    Nat.div_le_div_right (Nat.sub_le_sub_right hle _)
  refine Nat.add_le_add_right (Nat.mul_le_mul_right _ ?_) _
  omega

theorem Fair.newSize_whole (h : Fair a) (hw : Whole a e) (hmax : e.size.toNat ≤ a.screen.toNat) :
    newSize a e.size.toNat = e.size.toNat := by
  have hmin := h.whole_size hw
  have hle : a.minFrame ≤ e.size.toNat := by
    rw [h.minFrame_eq]
    omega
  rw [h.newSize_eq hle hmax]
  obtain ⟨cells, -, hcells, hsize⟩ := hw
  have hvalue := (h.frameSize_toNat hcells).1
  rw [← hsize] at hvalue
  rw [hvalue, Nat.add_sub_cancel, Nat.mul_div_cancel _ h.font,
    Nat.min_eq_right (UInt32.le_iff_toNat_le.mp hcells)]

theorem toNat_ofInt_nat {n : Nat} (hn : n < 2 ^ 31) : (UInt32.ofInt (n : Int)).toNat = n := by
  have hvalue := @toNat_ofInt (n : Int) (Int.natCast_nonneg n) (by omega)
  omega

theorem resized_of_edges {high : Bool} {delta : Int} {lo : UInt32} {size : Nat}
    (hlo : lo.toNat < 2 ^ 31)
    (hedges : a.edges false high e delta = ((lo.toNat : Int), (lo.toNat : Int) + size)) :
    a.resized false high e delta = (lo, a.cells size) := by
  have hsub : (lo.toNat : Int) + size - lo.toNat = size := by omega
  have hposition : UInt32.ofInt (lo.toNat : Int) = lo :=
    UInt32.toNat_inj.mp (toNat_ofInt_nat hlo)
  rw [Axis.resized, hedges]
  dsimp only
  rw [hsub, if_neg (show ¬ (lo.toNat : Int) < 0 by omega), hposition]
  rfl

theorem resized_none (h : Fair a) (he : Inside a e) (hw : Whole a e) (delta : Int) :
    a.resized false false e delta = (e.start, a.cells e.size.toNat) := by
  have hin : e.start.toNat + e.size.toNat ≤ a.screen.toNat := he
  have hscreen := h.screen
  refine resized_of_edges (by omega) ((edges_none h he hw delta).trans ?_)
  rw [Int.natCast_add]

/-- The size that the dragged low edge leaves. -/
def lowSize (a : Axis) (e : Extent) (delta : Int) : Nat :=
  asked a ((e.start.toNat + e.size.toNat : Nat) - max 0 (e.start.toNat + delta))

/-- The size that the dragged high edge leaves. -/
def highSize (a : Axis) (e : Extent) (delta : Int) : Nat :=
  asked a (min (a.screen.toNat : Int) ((e.start.toNat + e.size.toNat : Nat) + delta) -
    e.start.toNat)

theorem highSize_bounds (h : Fair a) (he : Inside a e) (hw : Whole a e) (delta : Int) :
    a.minFrame ≤ highSize a e delta ∧ e.start.toNat + highSize a e delta ≤ a.screen.toNat := by
  have hin : e.start.toNat + e.size.toNat ≤ a.screen.toNat := he
  have hmin := h.minFrame_eq
  have hsize := h.whole_size hw
  rw [highSize, asked]
  omega

theorem lowSize_bounds (h : Fair a) (hw : Whole a e) (delta : Int) :
    a.minFrame ≤ lowSize a e delta ∧ lowSize a e delta ≤ e.start.toNat + e.size.toNat := by
  have hmin := h.minFrame_eq
  have hsize := h.whole_size hw
  rw [lowSize, asked]
  omega

theorem resized_high (h : Fair a) (he : Inside a e) (hw : Whole a e) (delta : Int) :
    a.resized false true e delta = (e.start, a.cells (highSize a e delta)) := by
  have hin : e.start.toNat + e.size.toNat ≤ a.screen.toNat := he
  have hscreen := h.screen
  exact resized_of_edges (by omega) (edges_high h he hw delta)

theorem resized_low (h : Fair a) (he : Inside a e) (hw : Whole a e) (delta : Int) :
    (a.resized true false e delta).2 = a.cells (lowSize a e delta) ∧
      (a.resized true false e delta).1.toNat + newSize a (lowSize a e delta) =
        e.start.toNat + e.size.toNat := by
  have hin : e.start.toNat + e.size.toNat ≤ a.screen.toNat := he
  have hscreen := h.screen
  obtain ⟨hmin, hmax⟩ := lowSize_bounds h hw delta
  have hle := h.newSize_le hmin (Nat.le_trans hmax hin)
  have hedges := edges_low h he hw delta
  rw [← lowSize] at hedges
  have hsub : ((e.start.toNat + e.size.toNat : Nat) : Int) -
      (((e.start.toNat + e.size.toNat : Nat) : Int) - lowSize a e delta) = lowSize a e delta := by
    omega
  have hend : (UInt32.ofInt ((e.start.toNat + e.size.toNat : Nat) : Int)).toNat =
      e.start.toNat + e.size.toNat := toNat_ofInt_nat (by omega)
  rw [Axis.resized, hedges]
  dsimp only
  rw [hsub]
  refine ⟨rfl, ?_⟩
  have hanchor : (true && !false) = true := rfl
  rw [if_pos hanchor, if_neg (show ¬ ((e.start.toNat + e.size.toNat : Nat) : Int) < 0 by omega)]
  show (if UInt32.ofInt _ < frameSize a _ then 0 else UInt32.ofInt _ - frameSize a _).toNat +
    (frameSize a _).toNat = _
  have hroom : ¬ UInt32.ofInt ((e.start.toNat + e.size.toNat : Nat) : Int) <
      frameSize a (a.cells (lowSize a e delta)) := by
    rw [UInt32.lt_iff_toNat_lt, hend]
    exact Nat.not_lt.mpr (Nat.le_trans hle hmax)
  rw [if_neg hroom, UInt32.toNat_sub_of_le _ _ (UInt32.not_lt.mp hroom), hend]
  exact Nat.sub_add_cancel (Nat.le_trans hle hmax)

end

end ContinuumOS.Gui.Resizing
