import ContinuumOS.Fat32.Entering
import ContinuumOS.Fat32.Reopen

/-! # When the driver's accesses stay inside

The conditions of the five functions that change a volume, put together: for every
content of slots, entries and descriptors they say whether every write goes to a
copy of the table or to a data cluster and every entry used is one of the table. -/
namespace ContinuumOS.Fat32.Escapes
open ContinuumOS.Lib.Walks ContinuumOS.Libc.String
open ContinuumOS.Fat32.Volume ContinuumOS.Fat32.Device
open ContinuumOS.Fat32.Names ContinuumOS.Fat32.Scan
open ContinuumOS.Fat32.Paths ContinuumOS.Fat32.Reopen
open ContinuumOS.Fat32.Answers ContinuumOS.Fat32.Confinement
open ContinuumOS.Fat32.Dropping ContinuumOS.Fat32.Appending ContinuumOS.Fat32.Entering

/-- **When no access leads outside.** On a volume whose geometry is consistent, and for
every content of slots, entries and descriptors: whatever heap and device answer,
every write of the call goes to a copy of the table or to a data cluster and every
entry used is one of the table just when the cluster numbers that the call meets do
not lead outside. -/
theorem confined_iff {w : World} (g : Geometry w) (hf : Flushable w) (op : Operation) :
    Confined w op ↔ Sane w op := by
  cases op with
  | write fd => exact write_confined_iff g hf
  | create path => exact create_confined_iff g hf
  | mkdir path => exact mkdir_confined_iff g hf
  | remove path => exact remove_confined_iff g hf
  | rmdir path => exact rmdir_confined_iff g hf

/-! ## A file whose cluster number was damaged -/

/-- The root directory holds the file `A`, whose first cluster is said to be `c`. -/
def volumeWith (c : Nat) : World := rootVolume [dirEntry nameA attrArchive c 0]

/-- `/A` -/
def pathA : CStr := [slash, 0x41]

/-- The entry of `A`. -/
def lookupA (c : Nat) : Lookup := ⟨⟨[0x41], [0x41], false, attrArchive, 0, c⟩, 2, 2, 0⟩

theorem geometry_volumeWith (c : Nat) : Geometry (volumeWith c) := geometry_rootVolume _

theorem flushable_volumeWith (c : Nat) : Flushable (volumeWith c) := by
  show 1 % 256 ≠ 0
  decide

theorem lookup_volumeWith {c : Nat} (h : (fat32LookupPath pathA (calm (volumeWith c))).map (·.1) =
    some (some (lookupA c))) :
    fat32LookupPath pathA (calm (volumeWith c)) = some (some (lookupA c), calm (volumeWith c)) := by
  obtain ⟨⟨r, t⟩, hrun, hr⟩ := Option.map_eq_some_iff.mp h
  obtain rfl : r = some (lookupA c) := hr
  exact (triple_calm (lookupPath_falters pathA) (lookupPath_keeps pathA) _ rfl _ _ hrun).2
    (Option.some_ne_none _)

theorem sane_volumeWith_inside : Sane (volumeWith 3) (.remove pathA) := by
  intro _ x hx _
  obtain ⟨hx, -⟩ := Prod.mk.inj (Option.some.inj
    (hx.symm.trans (lookup_volumeWith (c := 3) (by decide +kernel))))
  obtain rfl := Option.some.inj hx
  have g := geometry_volumeWith 3
  refine ⟨?_, lands_inRange g ⟨le_rfl, show 2 < 10 by decide⟩⟩
  rintro d ⟨n, rfl, hgo⟩
  cases n with
  | zero => exact show 3 < 1 * 128 by decide
  | succ n => exact absurd (hgo 1 (by omega)) Bool.false_ne_true

theorem not_sane_volumeWith_outside : ¬ Sane (volumeWith (2 ^ 20)) (.remove pathA) := by
  intro h
  have hdrop := h (List.cons_ne_nil _ _) (lookupA (2 ^ 20))
    (lookup_volumeWith (c := 2 ^ 20) (by decide +kernel)) rfl
  have hentry : 2 ^ 20 < 1 * 128 := hdrop.chain (2 ^ 20) (comes_refl (by decide))
  exact absurd hentry (by decide)

/-- Removing a file whose slot names cluster 2^20 frees an entry behind the table. -/
theorem damaged_slot_escapes :
    ¬ ∀ w op, Geometry w → Flushable w → Confined w op := by
  intro h
  exact not_sane_volumeWith_outside ((remove_confined_iff (geometry_volumeWith _)
    (flushable_volumeWith _)).mp (h _ (.remove pathA) (geometry_volumeWith _) (flushable_volumeWith _)))

/-- The removal stays inside where the slot names cluster 3, and only there. -/
theorem removal_confined : Confined (volumeWith 3) (.remove pathA) ∧
    ¬ Confined (volumeWith (2 ^ 20)) (.remove pathA) :=
  ⟨(confined_iff (geometry_volumeWith 3) (flushable_volumeWith 3) _).mpr sane_volumeWith_inside,
    fun h => not_sane_volumeWith_outside
      ((confined_iff (geometry_volumeWith _) (flushable_volumeWith _) _).mp h)⟩

end ContinuumOS.Fat32.Escapes
