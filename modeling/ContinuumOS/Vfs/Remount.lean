import ContinuumOS.Lib.Effect
import ContinuumOS.Fat32.Mounting
import ContinuumOS.Vfs.Runs

/-! # Mounting again after a mount that failed

`fat32_vfs_mount` mounts the driver first and enters the mount in the table of
`vfs.cpp` second. The driver is instrumented with the number of its tables on
the heap, a ghost that goes up with `kmalloc` and down with `kfree`; without it
the calls are those of the model. Over every run of mounts and unmounts: a
`fat32_vfs_mount` that fails can be made good later, unless it failed in its
second step. Then the driver stays mounted, with its table, and no slot that
could be unmounted stands for it. -/
namespace ContinuumOS.Vfs.Remount
open ContinuumOS.Lib.Effect ContinuumOS.Lib.Ghost ContinuumOS.Lib.Runs ContinuumOS.Libc.String
open ContinuumOS.Fat32.Volume ContinuumOS.Fat32.Paths ContinuumOS.Fat32.Mounting
open ContinuumOS.Vfs.Path ContinuumOS.Vfs.Adapters ContinuumOS.Vfs.Files ContinuumOS.Vfs.Calls
open ContinuumOS.Vfs.Runs (noVolume bootedSys)

/-! ## The driver and its tables -/

/-- The driver and how many of its tables are on the heap. -/
abbrev Counted := Eff (World × Nat)

/-- `fs_info.fat_table = kmalloc(size)` -/
def kmallocTable (size : Nat) : Counted Bool := do
  if ← beside (kmalloc size) then
    note (· + 1)
    return true
  else return false

/-- `kfree(fs_info.fat_table)` -/
def kfreeTable : Counted Unit := note (· - 1)

/-- The end of `fat32_mount`. -/
def countedReadTable : Counted Bool := do
  let w ← beside Eff.get
  if ← kmallocTable (w.fs.fatSize * w.fs.bytesPerSector % 2 ^ 32) then
    beside (Eff.modify fun w => World.loadTable w w.heapBytes)
    match ← beside (blockdevRead w.fs.deviceId w.fs.fatStartSector w.fs.fatSize w.heapBytes) with
    | none =>
      kfreeTable
      return false
    | some buf =>
      beside (Eff.modify fun w => { World.loadTable w buf with mounted := true })
      return true
  else
    beside (Eff.modify fun w => { w with fs := { w.fs with fatLoaded := false } })
    return false

/-- `fat32_mount` -/
def countedMount (device : Nat) : Counted Bool := do
  let w ← beside Eff.get
  if w.mounted then return false
  match ← beside (blockdevRead device 0 1 freshBuf) with
  | none => return false
  | some buf =>
    let boot := readBootSector buf
    if ¬ fat32ValidateBootSector boot then return false
    if boot.sectorsPerCluster = 0 then beside Eff.diverge
    beside (Eff.modify fun w => { w with fs := setUpFsInfo w.fs device boot })
    countedReadTable

/-- `fat32_unmount` -/
def countedUnmount : Counted Bool := do
  let w ← beside Eff.get
  if ¬ w.mounted then return false
  if w.fs.fatLoaded then kfreeTable
  beside (Eff.modify fun w => { w with fs := { w.fs with fatLoaded := false }, mounted := false })
  return true

theorem kmallocTable_erases (size : Nat) : Erases (kmallocTable size) (kmalloc size) := by
  intro s g
  simp only [kmallocTable, beside, bind_run, Option.bind_map]
  cases kmalloc size s with
  | none => rfl
  | some r =>
    obtain ⟨ok, w⟩ := r
    cases ok with
    | false => rfl
    | true => rfl

theorem countedReadTable_erases : Erases countedReadTable readTable := by
  refine .bind (.beside _) fun w => .bind (kmallocTable_erases _) fun ok => .ite ?_ ?_
  · refine .bind (.beside _) fun _ => .bind (.beside _) fun r => ?_
    cases r with
    | none => exact .note_bind (.pure _)
    | some buf => exact .bind (.beside _) fun _ => .pure _
  · exact .bind (.beside _) fun _ => .pure _

theorem countedMount_erases (device : Nat) : Erases (countedMount device) (fat32Mount device) := by
  refine .bind (.beside _) fun w => .ite (.pure _) (.bind (.beside _) fun r => ?_)
  cases r with
  | none => exact .pure _
  | some buf =>
    refine .ite (.pure _) (.ite ?_ ?_)
    · exact .bind (.beside _) fun _ => .bind (.beside _) fun _ => countedReadTable_erases
    · exact .bind (.beside _) fun _ => countedReadTable_erases

theorem countedUnmount_erases : Erases countedUnmount fat32Unmount := by
  refine .bind (.beside _) fun w => .ite (.pure _) ?_
  split
  · exact .note_bind (.bind (.beside _) fun _ => .pure _)
  · exact .bind (.beside _) fun _ => .pure _

/-! ## How many tables there are -/

section

variable {s t : World × Nat} {r : Bool}

theorem kmallocTable_tables {size : Nat} (h : kmallocTable size s = some (r, t)) :
    t.2 = s.2 + r.toNat := by
  obtain ⟨ok, u, hu, h⟩ := bind_eq_some h
  obtain ⟨-, hg⟩ := beside_eq_some hu
  cases ok with
  | false =>
    cases h
    exact hg
  | true =>
    cases h
    exact congrArg (· + 1) hg

theorem countedReadTable_tables (h : countedReadTable s = some (r, t)) :
    t.2 = s.2 + r.toNat ∧ (r = true → t.1.fs.fatLoaded = true) := by
  obtain ⟨w, u, hu, h⟩ := bind_eq_some h
  obtain ⟨ok, v, hv, h⟩ := bind_eq_some h
  have hget : u.2 = s.2 := (beside_eq_some hu).2
  have hmalloc : v.2 = s.2 + ok.toNat := (kmallocTable_tables hv).trans (by rw [hget])
  cases ok with
  | false =>
    obtain ⟨_, x, hx, h⟩ := bind_eq_some h
    cases h
    exact ⟨(beside_eq_some hx).2.trans hmalloc, nofun⟩
  | true =>
    obtain ⟨_, x, hx, h⟩ := bind_eq_some h
    obtain ⟨buf, y, hy, h⟩ := bind_eq_some h
    have hread : y.2 = s.2 + 1 :=
      (beside_eq_some hy).2.trans ((beside_eq_some hx).2.trans hmalloc)
    cases buf with
    | none =>
      -- the table that was got is given back
      cases h
      exact ⟨congrArg (· - 1) hread, nofun⟩
    | some buf =>
      cases h
      exact ⟨hread, fun _ => rfl⟩

theorem countedMount_tables {device : Nat} (h : countedMount device s = some (r, t)) :
    t.2 = s.2 + r.toNat ∧ (r = true → t.1.fs.fatLoaded = true) := by
  obtain ⟨w, u, hu, h⟩ := bind_eq_some h
  have hget : u.2 = s.2 := (beside_eq_some hu).2
  rw [ite_run] at h
  split at h
  · cases h
    exact ⟨hget, nofun⟩
  obtain ⟨buf, v, hv, h⟩ := bind_eq_some h
  have hread : v.2 = s.2 := (beside_eq_some hv).2.trans hget
  cases buf with
  | none =>
    cases h
    exact ⟨hread, nofun⟩
  | some buf =>
    simp only [ite_run] at h
    split at h
    · cases h
      exact ⟨hread, nofun⟩
    split at h
    · cases h
    obtain ⟨_, x, hx, h⟩ := bind_eq_some h
    obtain ⟨ht, hloaded⟩ := countedReadTable_tables h
    exact ⟨by rw [ht, (beside_eq_some hx).2, hread], hloaded⟩

theorem countedUnmount_cases (h : countedUnmount s = some (r, t)) :
    s.1.mounted = false ∧ t = s ∨
      s.1.mounted = true ∧ t.1.mounted = false ∧ t.2 = s.2 - s.1.fs.fatLoaded.toNat := by
  obtain ⟨w, u, hu, h⟩ := bind_eq_some h
  cases hu
  rw [ite_run] at h
  split at h
  · rename_i hm
    cases h
    exact .inl ⟨Bool.not_eq_true _ ▸ hm, rfl⟩
  · rename_i hm
    refine .inr ⟨not_not.mp hm, ?_⟩
    cases hl : s.1.fs.fatLoaded with
    | false =>
      rw [hl] at h
      cases h
      exact ⟨rfl, rfl⟩
    | true =>
      rw [hl] at h
      cases h
      exact ⟨rfl, rfl⟩

end

/-! ## The calls -/

/-- The kernel, and how many of the driver's tables are on the heap. -/
abbrev Sys := Kernel × Nat

/-- A call on the driver. -/
def onDriver {α : Type} (m : Counted α) : Eff Sys α :=
  within (fun k : Kernel => k.stores.fat32)
    (fun k w => { k with stores := { k.stores with fat32 := w } }) m

/-- `fat32_vfs_mount` -/
def countedVfsMount (mountpoint : CStr) (deviceId : Nat) : Eff Sys Code := do
  if ← onDriver (countedMount deviceId) then
    beside (onVfs fun v => vfsMount v mountpoint fsFat32 deviceId .fat32)
  else return .error

/-- The call of the file system's `unmount`, if it has one. -/
def countedUnmountBelow (i : Nat) : Eff Sys Unit := do
  match (← beside Eff.get).vfs.opsAt i with
  | some .fat32 =>
    let _ ← onDriver countedUnmount
    return ()
  | _ => return ()

/-- `vfs_unmount` -/
def countedVfsUnmount (mountpoint : CStr) : Eff Sys Code := do
  let k ← beside Eff.get
  if ¬ k.vfs.initialized then return .error
  match k.vfs.mountedAt mountpoint with
  | none => return .notFound
  | some i =>
    beside (closeAll i vfsMaxOpenFiles 0)
    countedUnmountBelow i
    beside (Eff.modify fun k => { k with vfs := { k.vfs with
      mounts := k.vfs.mounts.modify i fun m => { m with mounted := false, ops := none } } })
    return .success

inductive Act where
  | mountFat32 (mountpoint : CStr) (deviceId : Nat)
  | mount (mountpoint : CStr) (fsType deviceId : Nat) (ops : Ops)
  | unmount (mountpoint : CStr)

def Act.isMountFat32 : Act → Bool
  | .mountFat32 .. => true
  | _ => false

/-- The call of the model. -/
def plainCall : Act → Eff Kernel Code
  | .mountFat32 mountpoint deviceId => fat32VfsMount mountpoint deviceId
  | .mount mountpoint fsType deviceId ops =>
    onVfs fun v => vfsMount v mountpoint fsType deviceId ops
  | .unmount mountpoint => vfsUnmount mountpoint

/-- The call with the count of tables. -/
def call : Act → Eff Sys Code
  | .mountFat32 mountpoint deviceId => countedVfsMount mountpoint deviceId
  | .mount mountpoint fsType deviceId ops =>
    beside (onVfs fun v => vfsMount v mountpoint fsType deviceId ops)
  | .unmount mountpoint => countedVfsUnmount mountpoint

theorem onDriver_erases {α : Type} {m : Counted α} {n : Fat α} (h : Erases m n) :
    Erases (onDriver m) (onStores (onFat32 n)) := by
  have hwithin : Erases (onDriver m) fun k => (n k.stores.fat32).map fun r =>
    (r.1, { k with stores := { k.stores with fat32 := r.2 } }) := .within h
  intro k g
  rw [hwithin, onStores, onFat32, Option.map_map]
  rfl

theorem countedUnmountBelow_erases (i : Nat) :
    Erases (countedUnmountBelow i) (unmountBelow i) := by
  refine .bind (.beside _) fun k => ?_
  cases k.vfs.opsAt i with
  | none => exact .pure _
  | some ops =>
    cases ops with
    | ramfs => exact .pure _
    | fat32 => exact .bind (onDriver_erases countedUnmount_erases) fun _ => .pure _

/-- **Without the count the calls are those of the model.** -/
theorem call_erases (act : Act) : Erases (call act) (plainCall act) := by
  cases act with
  | mountFat32 mountpoint deviceId =>
    exact .bind (onDriver_erases (countedMount_erases deviceId)) fun ok =>
      .ite (.beside _) (.pure _)
  | mount mountpoint fsType deviceId ops => exact .beside _
  | unmount mountpoint =>
    refine .bind (.beside _) fun k => .ite (.pure _) ?_
    cases k.vfs.mountedAt mountpoint with
    | none => exact .pure _
    | some i =>
      exact .bind (.beside _) fun _ => .bind (countedUnmountBelow_erases i) fun _ =>
        .bind (.beside _) fun _ => .pure _

/-! ## Runs -/

/-- The state after a call that comes back. -/
def step (s : Sys) (act : Act) : Option Sys := (call act s).map Prod.snd

/-- `mounted` of `fat32.cpp` -/
def Sys.isMounted (s : Sys) : Bool := s.1.stores.fat32.mounted

/-- The driver is not mounted yet; the table of mounts is as it may be. -/
structure Fresh (s : Sys) : Prop where
  unmounted : s.isMounted = false
  tables : s.2 = 0

/-- The device holds a volume that the driver mounts, and gives it. -/
def Mountable (w : World) (device : Nat) : Prop :=
  ∃ boot, bootSectorOf w device = some boot ∧ fat32ValidateBootSector boot = true ∧
    0 < boot.sectorsPerCluster ∧ tableRefused w device boot = false

/-- `vfs_mount` accepts the mountpoint: it is free, and so is a slot. -/
def Accepts (v : VfsTables) (mountpoint : CStr) : Prop :=
  v.initialized = true ∧ v.mountedAt mountpoint = none ∧ v.freeMount.isSome = true

/-- The driver is not mounted and has no table on the heap, and after any further
calls of `vfs_mount` and `vfs_unmount` a volume can be mounted. -/
structure Retryable (s : Sys) : Prop where
  unmounted : s.isMounted = false
  tables : s.2 = 0
  later : ∀ (acts : List Act) (t : Sys), (∀ act ∈ acts, act.isMountFat32 = false) →
    acts.foldlM step s = some t → ∀ mountpoint device, Mountable t.1.stores.fat32 device →
      Accepts t.1.vfs mountpoint → ∃ u, call (.mountFat32 mountpoint device) t = some (.success, u)

/-- If the call is a `fat32_vfs_mount` that fails before the driver is mounted, it
can be retried. -/
def EndsWell (s : Sys) (act : Act) : Prop :=
  ∀ mountpoint device code t, act = .mountFat32 mountpoint device → s.isMounted = false →
    call act s = some (code, t) → code ≠ .success → Retryable t

/-- If the call is a `fat32_vfs_mount` of a volume that the driver mounts, then
`vfs_mount` accepts the mountpoint. -/
def Fits (s : Sys) (act : Act) : Prop :=
  ∀ mountpoint device, act = .mountFat32 mountpoint device → s.isMounted = false →
    Mountable s.1.stores.fat32 device → Accepts s.1.vfs mountpoint

/-! ## What a call does to the driver -/

/-- The driver's own flags. -/
def driverOf (k : Kernel) : Bool × Bool := (k.stores.fat32.mounted, k.stores.fat32.fs.fatLoaded)

variable {s t : Sys} {act : Act} {code : Code} {mountpoint : CStr} {device : Nat}

theorem fat32Close_keeps (fd : Nat) :
    Keeps (fun w : World => (w.mounted, w.fs.fatLoaded)) (Fat32.Files.fat32Close fd) := by
  refine .get_bind fun w => ?_
  cases Fat32.Files.fileOf w fd with
  | none => exact .pure _
  | some f => exact .modify fun _ => rfl

theorem closeBelow_keeps (file : VfsFile) : Keeps driverOf (closeBelow file) := by
  refine .get_bind fun k => ?_
  cases reached k.vfs file with
  | none => exact .pure _
  | some ops =>
    refine .bind (fun k file' k' h => ?_) fun _ => .pure _
    obtain ⟨-, hclose⟩ := onStores_spec h
    cases ops with
    | ramfs =>
      obtain ⟨-, hs⟩ := Prod.mk.inj (Option.some.inj hclose)
      rw [driverOf, ← hs]
      rfl
    | fat32 =>
      change fat32VfsClose file k.stores = _ at hclose
      rw [fat32VfsClose, ite_run] at hclose
      split at hclose
      · obtain ⟨_, u, hu, hr⟩ := bind_eq_some hclose
        obtain ⟨⟨_, w⟩, hw, hwr⟩ := Option.map_eq_some_iff.mp hu
        obtain ⟨-, rfl⟩ := Prod.mk.inj hwr
        obtain ⟨-, hs⟩ := Prod.mk.inj (Option.some.inj hr)
        rw [driverOf, ← hs]
        exact fat32Close_keeps _ _ _ _ hw
      · obtain ⟨-, hs⟩ := Prod.mk.inj (Option.some.inj hclose)
        rw [driverOf, ← hs]
        rfl

theorem clearEntry_keeps (entry : Option Nat) : Keeps driverOf (clearEntry entry) := by
  cases entry with
  | none => exact .pure _
  | some j => exact .modify fun _ => rfl

theorem closeAll_keeps (i left : Nat) : ∀ j, Keeps driverOf (closeAll i left j) := by
  induction left with
  | zero => exact fun _ => .pure _
  | succ left ih =>
    intro j
    refine .get_bind fun k => .ite (fun _ => .bind ?_ fun _ => .bind (clearEntry_keeps _) fun _ =>
      ih _) fun _ => ih _
    exact .get_bind fun k => .bind (closeBelow_keeps _) fun _ => clearEntry_keeps _

/-- `vfs_mount` does nothing to the driver; `vfs_unmount` may unmount it, and then
its table is given back. -/
theorem call_driver (h : call act s = some (code, t)) (hact : act.isMountFat32 = false) :
    driverOf t.1 = driverOf s.1 ∧ t.2 = s.2 ∨
      t.isMounted = false ∧ s.isMounted = true ∧
        t.2 = s.2 - s.1.stores.fat32.fs.fatLoaded.toNat := by
  cases act with
  | mountFat32 => cases hact
  | mount =>
    obtain ⟨hrun, hg⟩ := beside_eq_some h
    obtain ⟨-, hk⟩ := Prod.mk.inj (Option.some.inj hrun)
    exact .inl ⟨by rw [← hk]; rfl, hg⟩
  | unmount mountpoint =>
    obtain ⟨k, u, hu, h⟩ := bind_eq_some h
    cases hu
    rw [ite_run] at h
    split at h
    · cases h
      exact .inl ⟨rfl, rfl⟩
    cases hat : s.1.vfs.mountedAt mountpoint with
    | none =>
      rw [hat] at h
      cases h
      exact .inl ⟨rfl, rfl⟩
    | some i =>
      rw [hat] at h
      obtain ⟨_, v, hv, h⟩ := bind_eq_some h
      obtain ⟨hclose, hgv⟩ := beside_eq_some hv
      have hkept : driverOf v.1 = driverOf s.1 := closeAll_keeps _ _ _ _ _ _ hclose
      obtain ⟨_, x, hx, h⟩ := bind_eq_some h
      cases h
      obtain ⟨k, y, hy, hx⟩ := bind_eq_some hx
      cases hy
      cases hops : v.1.vfs.opsAt i with
      | none =>
        rw [hops] at hx
        cases hx
        exact .inl ⟨hkept, hgv⟩
      | some ops =>
        rw [hops] at hx
        cases ops with
        | ramfs =>
          cases hx
          exact .inl ⟨hkept, hgv⟩
        | fat32 =>
          obtain ⟨r, z, hz, hx⟩ := bind_eq_some hx
          cases hx
          obtain ⟨w, hw, hput⟩ := within_eq_some hz
          obtain ⟨hm, hl⟩ := Prod.mk.inj hkept
          obtain ⟨-, hsame⟩ | ⟨hmounted, hun, htables⟩ := countedUnmount_cases hw
          · obtain ⟨rfl, hg⟩ := Prod.mk.inj hsame
            refine .inl ⟨?_, hg.trans hgv⟩
            show driverOf x.1 = _
            rw [hput]
            exact hkept
          · refine .inr ⟨?_, hm.symm.trans hmounted, ?_⟩
            · show x.1.stores.fat32.mounted = false
              rw [hput]
              exact hun
            · show x.2 = _
              rw [htables, hgv, hl]

theorem countedVfsMount_cases (h : countedVfsMount mountpoint device s = some (code, t)) :
    ∃ ok w, fat32Mount device s.1.stores.fat32 = some (ok, w) ∧ t.1.stores.fat32 = w ∧
      t.2 = s.2 + ok.toNat ∧ (ok = true → w.fs.fatLoaded = true) ∧
      code = if ok then (vfsMount s.1.vfs mountpoint fsFat32 device .fat32).1 else .error := by
  obtain ⟨ok, u, hu, h⟩ := bind_eq_some h
  obtain ⟨w, hw, hput⟩ := within_eq_some hu
  obtain ⟨htables, hloaded⟩ := countedMount_tables hw
  refine ⟨ok, w, (countedMount_erases device).of_run hw, ?_⟩
  cases ok with
  | false =>
    cases h
    exact ⟨by rw [hput], htables, nofun, rfl⟩
  | true =>
    obtain ⟨hrun, hg⟩ := beside_eq_some h
    obtain ⟨hcode, hk⟩ := Prod.mk.inj (Option.some.inj hrun)
    refine ⟨by rw [← hk, hput], hg.trans htables, hloaded, ?_⟩
    rw [← hcode, hput]
    rfl

theorem mount_of_mounted {w : World} (hm : w.mounted = true) :
    fat32Mount device w = some (false, w) := by
  simp only [fat32Mount, bind_run, get_run, Option.bind_some, hm, if_true, pure_run]

theorem mount_of_mountable {w : World} (hm : w.mounted = false) (h : Mountable w device) :
    ∃ w', fat32Mount device w = some (true, w') ∧ w'.mounted = true := by
  obtain ⟨boot, hboot, hvalid, hspc, htable⟩ := h
  obtain ⟨w', hrun, hmounted, -⟩ := mount_of_valid hm hboot hvalid hspc
  rw [htable] at hrun hmounted
  exact ⟨w', hrun, hmounted⟩

theorem mount_of_not_mountable {w w' : World} {ok : Bool} (hm : w.mounted = false)
    (h : ¬ Mountable w device) (hrun : fat32Mount device w = some (ok, w')) :
    ok = false ∧ w'.mounted = false := by
  cases hboot : bootSectorOf w device with
  | none =>
    obtain ⟨u, hu, hmounted⟩ := mount_of_none hm hboot
    obtain ⟨rfl, rfl⟩ := Prod.mk.inj (Option.some.inj (hu.symm.trans hrun))
    exact ⟨rfl, hmounted⟩
  | some boot =>
    cases hvalid : fat32ValidateBootSector boot with
    | false =>
      rw [mount_of_some hm hboot, if_pos hvalid] at hrun
      obtain ⟨rfl, rfl⟩ := Prod.mk.inj (Option.some.inj hrun)
      exact ⟨rfl, hm⟩
    | true =>
      by_cases hspc : 0 < boot.sectorsPerCluster
      · obtain ⟨u, hu, hmounted, -⟩ := mount_of_valid hm hboot hvalid hspc
        have htable : tableRefused w device boot = true := by
          by_contra hnot
          exact h ⟨boot, hboot, hvalid, hspc, Bool.not_eq_true _ ▸ hnot⟩
        rw [htable] at hu hmounted
        obtain ⟨rfl, rfl⟩ := Prod.mk.inj (Option.some.inj (hu.symm.trans hrun))
        exact ⟨rfl, hmounted⟩
      · rw [mount_of_some hm hboot, if_neg (by rw [hvalid]; decide),
          if_pos (Nat.eq_zero_of_not_pos hspc)] at hrun
        cases hrun

/-! ## Every run -/

/-- There is a table on the heap just when the driver is mounted, and it is the one
of `fs_info`. -/
structure Inv (s : Sys) : Prop where
  tables : s.2 = s.isMounted.toNat
  loaded : s.isMounted = true → s.1.stores.fat32.fs.fatLoaded = true

theorem Fresh.inv (h : Fresh s) : Inv s :=
  ⟨by rw [h.tables, h.unmounted]; rfl, fun hm => by rw [h.unmounted] at hm; cases hm⟩

theorem Inv.call (hs : Inv s) (h : call act s = some (code, t)) : Inv t := by
  by_cases hact : act.isMountFat32 = true
  · cases act with
    | mount => cases hact
    | unmount => cases hact
    | mountFat32 mountpoint device =>
      obtain ⟨ok, w, hrun, hw, htables, hloaded, -⟩ := countedVfsMount_cases h
      cases hm : s.isMounted with
      | true =>
        rw [mount_of_mounted hm] at hrun
        obtain ⟨rfl, rfl⟩ := Prod.mk.inj (Option.some.inj hrun)
        refine ⟨?_, fun _ => ?_⟩
        · rw [htables, hs.tables, Sys.isMounted, Sys.isMounted, hw]
          rfl
        · rw [hw]
          exact hs.loaded hm
      | false =>
        have hzero : s.2 = 0 := by rw [hs.tables, hm]; rfl
        have hmounted : w.mounted = ok := by
          by_cases hable : Mountable s.1.stores.fat32 device
          · obtain ⟨u, hu, hmu⟩ := mount_of_mountable hm hable
            obtain ⟨rfl, rfl⟩ := Prod.mk.inj (Option.some.inj (hu.symm.trans hrun))
            exact hmu
          · obtain ⟨rfl, hmu⟩ := mount_of_not_mountable hm hable hrun
            exact hmu
        have ht : t.isMounted = ok := by rw [Sys.isMounted, hw, hmounted]
        refine ⟨by rw [htables, hzero, ht, Nat.zero_add], fun hok => ?_⟩
        rw [hw]
        exact hloaded (ht.symm.trans hok)
  · obtain ⟨hkept, hg⟩ | ⟨hun, hmounted, htables⟩ := call_driver h (Bool.not_eq_true _ ▸ hact)
    · obtain ⟨hm, hl⟩ := Prod.mk.inj hkept
      refine ⟨?_, fun ht => ?_⟩
      · rw [hg, hs.tables, Sys.isMounted, Sys.isMounted, hm]
      · rw [hl]
        exact hs.loaded (hm.symm.trans ht)
    · refine ⟨?_, fun ht => ?_⟩
      · rw [htables, hs.tables, hmounted, hs.loaded hmounted, hun]
        rfl
      · rw [hun] at ht
        cases ht

theorem Inv.step (hs : Inv s) (h : step s act = some t) : Inv t := by
  obtain ⟨⟨code, u⟩, hu, rfl⟩ := Option.map_eq_some_iff.mp h
  exact hs.call hu

theorem unmounted_run (acts : List Act) : ∀ {s : Sys}, s.isMounted = false →
    (∀ act ∈ acts, act.isMountFat32 = false) → acts.foldlM step s = some t →
      t.isMounted = false := by
  induction acts with
  | nil =>
    intro s hs _ h
    obtain rfl : s = t := Option.some.inj h
    exact hs
  | cons act acts ih =>
    intro s hs hacts h
    rw [List.foldlM_cons] at h
    obtain ⟨u, hu, h⟩ := Option.bind_eq_some_iff.mp h
    obtain ⟨⟨code, v⟩, hv, rfl⟩ := Option.map_eq_some_iff.mp hu
    refine ih ?_ (fun act' hact' => hacts act' (.tail _ hact')) h
    obtain ⟨hkept, -⟩ | ⟨hun, -⟩ := call_driver hv (hacts act (.head _))
    · exact (Prod.mk.inj hkept).1.trans hs
    · exact hun

theorem accepts_iff {v : VfsTables} :
    Accepts v mountpoint ↔ (slotFor v mountpoint fsFat32).isSome := by
  rw [slotFor]
  split
  · rename_i h
    exact ⟨fun ha => ha.2.2, fun ha => ⟨h.1, h.2.2, ha⟩⟩
  · rename_i h
    exact iff_of_false (fun ha => h ⟨ha.1, .inr rfl, ha.2.1⟩) Bool.false_ne_true

theorem call_of_mountable (hm : s.isMounted = false)
    (hable : Mountable s.1.stores.fat32 device) :
    ∃ t, call (.mountFat32 mountpoint device) s =
      some ((vfsMount s.1.vfs mountpoint fsFat32 device .fat32).1, t) ∧ t.isMounted = true := by
  obtain ⟨w, hw, hmounted⟩ := mount_of_mountable hm hable
  let k : Kernel := { s.1 with
    stores := { s.1.stores with fat32 := w }
    vfs := (vfsMount s.1.vfs mountpoint fsFat32 device .fat32).2 }
  have hplain : fat32VfsMount mountpoint device s.1 =
      some ((vfsMount s.1.vfs mountpoint fsFat32 device .fat32).1, k) := by
    rw [fat32VfsMount, bind_run, onStores, onFat32, hw]
    rfl
  obtain ⟨g, hg⟩ := (call_erases (.mountFat32 mountpoint device)).run hplain s.2
  exact ⟨(k, g), hg, hmounted⟩

theorem mount_goes_through (hm : s.isMounted = false) (hable : Mountable s.1.stores.fat32 device)
    (haccepts : Accepts s.1.vfs mountpoint) :
    ∃ t, call (.mountFat32 mountpoint device) s = some (.success, t) := by
  obtain ⟨i, hslot⟩ := Option.isSome_iff_exists.mp (accepts_iff.mp haccepts)
  obtain ⟨t, ht, -⟩ := @call_of_mountable s mountpoint device hm hable
  rw [vfsMount_of_some hslot] at ht
  exact ⟨t, ht⟩

theorem mount_gets_stuck (hm : s.isMounted = false) (hable : Mountable s.1.stores.fat32 device)
    (hrefused : ¬ Accepts s.1.vfs mountpoint) :
    ∃ code t, call (.mountFat32 mountpoint device) s = some (code, t) ∧ code ≠ .success ∧
      t.isMounted = true := by
  have hslot : slotFor s.1.vfs mountpoint fsFat32 = none :=
    Option.not_isSome_iff_eq_none.mp fun h => hrefused (accepts_iff.mpr h)
  obtain ⟨t, ht, hmounted⟩ := @call_of_mountable s mountpoint device hm hable
  exact ⟨_, t, ht, (vfsMount_of_none hslot device .fat32).1, hmounted⟩

theorem retryable_of_unmounted (hs : Inv s) (hm : s.isMounted = false) : Retryable s where
  unmounted := hm
  tables := by rw [hs.tables, hm]; rfl
  later := fun acts _ hacts hrun _ _ hable haccepts =>
    mount_goes_through (unmounted_run acts hm hacts hrun) hable haccepts

theorem endsWell_iff (hs : Inv s) : EndsWell s act ↔ Fits s act := by
  constructor
  · intro hends mountpoint device hact hm hable
    subst hact
    by_contra hrefused
    obtain ⟨code, t, hrun, hcode, hmounted⟩ := mount_gets_stuck hm hable hrefused
    have hretry := hends mountpoint device code t rfl hm hrun hcode
    rw [hretry.unmounted] at hmounted
    cases hmounted
  · intro hfits mountpoint device code t hact hm hrun hcode
    subst hact
    by_cases hable : Mountable s.1.stores.fat32 device
    · obtain ⟨u, hu⟩ := mount_goes_through hm hable (hfits mountpoint device rfl hm hable)
      obtain ⟨rfl, -⟩ := Prod.mk.inj (Option.some.inj (hu.symm.trans hrun))
      exact absurd rfl hcode
    · obtain ⟨ok, w, hmount, hw, -⟩ := countedVfsMount_cases hrun
      obtain ⟨-, hmounted⟩ := mount_of_not_mountable hm hable hmount
      exact retryable_of_unmounted (hs.call hrun) (by rw [Sys.isMounted, hw, hmounted])

/-- **When failed mounts can be retried.** For every run of `fat32_vfs_mount`,
`vfs_mount` and `vfs_unmount` from an unmounted driver, over every content and
every answer of the devices and the heap: each `fat32_vfs_mount` of the run that
fails on an unmounted driver leaves it unmounted, without a table on the heap and
able to mount later, just when none of them is for a volume that the driver
mounts at a mountpoint that `vfs_mount` refuses. -/
theorem failed_mounts_retryable_iff (h : Fresh s) (acts : List Act) :
    Heeded step EndsWell acts s ↔ Heeded step Fits acts s := by
  have next : ∀ s act t, Inv s → step s act = some t → Inv t := fun _ _ _ hs ht => hs.step ht
  exact heeded_congr next (fun _ _ hs => endsWell_iff hs) acts h.inv

/-- The root is a RAM file system when the volume is to be mounted there. -/
def mountTwice : List Act := [.mount rootStr fsRamfs 0 .ramfs, .mountFat32 rootStr 0]

/-- Without a device the mount fails in its first step. -/
theorem failed_mounts_retryable_iff_example :
    Heeded step EndsWell mountTwice (bootedSys.kernel, 0) := by
  have hfresh : Fresh (bootedSys.kernel, 0) := ⟨rfl, rfl⟩
  refine (failed_mounts_retryable_iff hfresh mountTwice).mpr ⟨nofun, fun t ht => ⟨?_, ?_⟩⟩
  · obtain rfl := Option.some.inj ht
    intro mountpoint device _ _ hable
    obtain ⟨boot, hboot, -⟩ := hable
    rw [bootSectorOf, if_neg fun hok => Bool.false_ne_true hok.1] at hboot
    cases hboot
  · exact fun _ _ => trivial

/-- After `vfs_init`, with a disk that holds a volume. -/
def withDisk : Sys := ({ bootedSys.kernel with
  stores := { bootedSys.kernel.stores with fat32 := diskWith 1 } }, 0)

/-- With a device the mount fails in its second step, and the driver stays
mounted. -/
theorem stuck_on_occupied_root :
    ¬ ∀ (s : Sys) (acts : List Act), Fresh s → Heeded step EndsWell acts s := by
  intro h
  have hfresh : Fresh withDisk := ⟨rfl, rfl⟩
  obtain ⟨-, hrest⟩ := h withDisk mountTwice hfresh
  obtain ⟨hends, -⟩ := hrest _ rfl
  have hboot : bootSectorOf (diskWith 1) 0 = some ⟨512, 1, 1, 2, 0, 13, 1, 2, 0xAA55⟩ := by
    decide +kernel
  have hable : Mountable (diskWith 1) 0 :=
    ⟨_, hboot, by decide +kernel, by decide, by decide +kernel⟩
  have hvfs : (vfsMount vfsInit rootStr fsRamfs 0 .ramfs).2.mountedAt rootStr = some 0 := by
    decide
  let mounted : Sys := ({ withDisk.1 with vfs := (vfsMount vfsInit rootStr fsRamfs 0 .ramfs).2 }, 0)
  have hrefused : ¬ Accepts mounted.1.vfs rootStr := fun haccepts => by
    rw [haccepts.2.1] at hvfs
    cases hvfs
  obtain ⟨code, t, hrun, hcode, hmounted⟩ := @mount_gets_stuck mounted _ _ rfl hable hrefused
  have hretry := hends rootStr 0 code t rfl rfl hrun hcode
  rw [hretry.unmounted] at hmounted
  cases hmounted

end ContinuumOS.Vfs.Remount
