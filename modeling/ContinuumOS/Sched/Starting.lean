import ContinuumOS.Heap.Coalescing
import ContinuumOS.Heap.Placing
import ContinuumOS.Sched.Slots

/-! # Starting a process takes memory first

`k_start_process` of `src/kernel/process.cpp` on the heap itself: it takes a block
for the struct, then one for the stack, then a place in the table. It gives nothing
back when the stack is not there, and does not look at what the table said. -/
namespace ContinuumOS.Sched.Starting
open ContinuumOS.Lib.Memory ContinuumOS.Heap.Model ContinuumOS.Heap.Layout
open ContinuumOS.Heap.Invariant ContinuumOS.Heap.Placing ContinuumOS.Sched.Scheduler
open ContinuumOS.Heap.Runs (Listed)
open ContinuumOS.Heap.Coalescing (serves_iff)
open ContinuumOS.Sched.RoundTrip (lottery_spec)

/-- `sizeof(Process)`, with 128 events of 24 bytes and 8 hooks of 12. -/
def sizeofProcess : Nat := 3280

/-- The scheduler, and the heap with the pointers in use. -/
structure Sys where
  sched : SchedState
  heap : Heap.Runs.Sys

/-- `kmalloc`, with the pointer among those in use. -/
def take (n : Nat) (s : Heap.Runs.Sys) : Option (Nat × Heap.Runs.Sys) :=
  (kmalloc n s.heap).map fun r => (r.1, ⟨r.2, if r.1 = 0 then s.live else r.1 :: s.live⟩)

/-- The bytes of the struct are 0. Its fields are those of the scheduler. -/
def zeroed (procPtr : Nat) (s : Heap.Runs.Sys) : Heap.Runs.Sys :=
  { s with heap := { s.heap with mem := store s.heap.mem procPtr sizeofProcess fun _ => 0 } }

/-- `none` if a search of the heap never ends. -/
def kStartProcess (entry stackSize : UInt32) (s : Sys) : Option (UInt32 × Sys) :=
  (take sizeofProcess s.heap).bind fun (procPtr, heap) =>
    if procPtr = 0 then some (0, { s with heap })
    else
      (take stackSize.toNat (zeroed procPtr heap)).map fun (stackPtr, heap) =>
        let started := Scheduler.kStartProcess entry stackSize (UInt32.ofNat procPtr)
          (UInt32.ofNat stackPtr) s.sched
        (started.1, ⟨started.2, heap⟩)

/-- The state as it is for a pid that is not there. -/
def schedulerRemoveProcess (pid : Int) (s : SchedState) : SchedState :=
  match (List.range maxProcesses).find? fun i =>
    s.processTable i != 0 && (s.procs (s.processTable i)).pid == pid with
  | none => s
  | some i =>
    let t := { s with
      processTable := Function.update s.processTable i 0, processCount := s.processCount - 1 }
    if s.currentProcessIdx = i then (schedulerNextProcess t).2 else t

/-- What the heap and the table may go through. Only starts and removals store into
the table. -/
inductive Step : Sys → Sys → Prop
  | start {s t : Sys} {entry stackSize ptr : UInt32}
      (h : kStartProcess entry stackSize s = some (ptr, t)) : Step s t
  | remove {s : Sys} (pid : Int) : Step s { s with sched := schedulerRemoveProcess pid s.sched }
  | heap {s : Sys} {heap : Heap.Runs.Sys} (h : Heap.Runs.Step s.heap heap) : Step s { s with heap }
  | sched {s : Sys} {sched : SchedState} (htable : sched.processTable = s.sched.processTable)
      (hcount : sched.processCount = s.sched.processCount) : Step s { s with sched }

def booted (m : Mem) : Sys := ⟨Delivery.bootedSched, ⟨initHeap m, []⟩⟩

def Reachable (s : Sys) : Prop := ∃ m, Relation.ReflTransGen Step (booted m) s

/-- A place of the table that was free holds a process. -/
def Entered (s t : Sys) (ptr : UInt32) : Prop :=
  ptr ≠ 0 ∧ ∃ i < maxProcesses, s.sched.processTable i = 0 ∧ t.sched.processTable i = ptr

/-- A call that returned `ptr` entered the process, or left everything as it was. -/
structure AllOrNothing (s t : Sys) (ptr : UInt32) : Prop where
  entered : ptr ≠ 0 ↔ ∃ p, Entered s t p
  itself : ptr ≠ 0 → Entered s t ptr
  table : ptr = 0 → t.sched.processTable = s.sched.processTable
  count : ptr = 0 → t.sched.processCount = s.sched.processCount
  live : ptr = 0 → t.heap.live.Perm s.heap.live

/-- A free block has room for `n` bytes. -/
def Room (n : Nat) (bs : List Block) : Prop :=
  n ≠ 0 ∧ ∃ b ∈ bs, b.free = true ∧ align16 n ≤ b.size

/-- There is no memory for the struct; or for the struct and then the stack, and a
free place in the table. -/
def Admits (stackSize : UInt32) (s : Sys) : Prop :=
  ∃ bs, Listed s.heap.heap.mem s.heap.heap.freeList bs ∧
    (¬ Room sizeofProcess bs ∨
      Room stackSize.toNat (placed sizeofProcess bs).2 ∧ s.sched.processCount < maxProcesses)

/-- How many entries are not `NULL`. -/
def entries (k : SchedState) : Nat :=
  (List.range maxProcesses).countP fun i => k.processTable i != 0

/-- The counter tells whether there is a free entry. -/
def Counted (k : SchedState) : Prop := k.processCount = entries k

/-- The blocks lie in the heap, and the counter counts the entries. -/
structure Inv (s : Sys) : Prop where
  heap : Heap.Runs.Inv s.heap
  count : Counted s.sched

section

variable {s t : Sys} {bs : List Block} {n : Nat} {entry stackSize : UInt32} {h : HeapState}

/-! ## Memory -/

theorem placed_ne_zero_iff (hb : Blocks h bs) (n : Nat) : (placed n bs).1 ≠ 0 ↔ Room n bs := by
  obtain ⟨h', hk, -⟩ := kmalloc_placed hb n
  rw [Room, ← serves_iff hb]
  refine ⟨fun hne => ⟨_, h', hk, hne⟩, fun hserves => ?_⟩
  obtain ⟨p, h'', hk', hp⟩ := hserves
  rw [hk] at hk'
  cases hk'
  exact hp

theorem placed_lt (hb : Blocks h bs) (n : Nat) : (placed n bs).1 < 2 ^ 32 := by
  obtain ⟨h', -, hb', -⟩ := kmalloc_placed hb n
  by_cases hz : (placed n bs).1 = 0
  · omega
  obtain ⟨b, hm, -, hp⟩ := mem_used.mp ((used_placed hz).symm.subset (.head _))
  have hbounds := (hb'.bounds hm).2
  have hend : heapEnd = 0x01000000 := rfl
  rw [Block.payload] at hp
  omega

theorem ofNat_placed (hb : Blocks h bs) (n : Nat) :
    UInt32.ofNat (placed n bs).1 = 0 ↔ (placed n bs).1 = 0 := by
  have hlt := placed_lt hb n
  rw [← UInt32.toNat_inj, UInt32.toNat_ofNat', Nat.mod_eq_of_lt hlt]
  rfl

theorem take_placed {heap : Heap.Runs.Sys} (hb : Blocks heap.heap bs) (n : Nat) :
    ∃ h' : HeapState, take n heap = some ((placed n bs).1,
      ⟨h', if (placed n bs).1 = 0 then heap.live else (placed n bs).1 :: heap.live⟩) ∧
    Blocks h' (placed n bs).2 := by
  obtain ⟨h', hk, hb', -⟩ := kmalloc_placed hb n
  exact ⟨h', by rw [take, hk]; rfl, hb'⟩

theorem blocks_zeroed {heap : Heap.Runs.Sys} {p : Nat} (hb : Blocks heap.heap bs)
    (hp : HasBlock bs p sizeofProcess) : Blocks (zeroed p heap).heap bs := by
  obtain ⟨b, hm, -, rfl, hsize⟩ := hp
  refine hb.payload_congr hm fun x hx => store_outside ?_
  rw [Block.fin] at hx
  rw [Block.payload] at hx ⊢
  omega

/-! ## The call -/

/-- What the call comes to, with the blocks there are and what it gives the table. -/
inductive Outcome (entry stackSize : UInt32) (s : Sys) (bs : List Block) : UInt32 → Sys → Prop
  | noStruct {t : Sys} (hroom : ¬ Room sizeofProcess bs) (hsched : t.sched = s.sched)
      (hb : Blocks t.heap.heap bs) (hlive : t.heap.live = s.heap.live) :
      Outcome entry stackSize s bs 0 t
  | noStack {t : Sys} {procPtr : Nat} (hroom : Room sizeofProcess bs)
      (hstack : ¬ Room stackSize.toNat (placed sizeofProcess bs).2)
      (htable : t.sched.processTable = s.sched.processTable)
      (hcount : t.sched.processCount = s.sched.processCount)
      (hb : Blocks t.heap.heap (placed sizeofProcess bs).2)
      (hlive : t.heap.live = procPtr :: s.heap.live)
      (hperm : (used (placed sizeofProcess bs).2).Perm (procPtr :: used bs)) :
      Outcome entry stackSize s bs 0 t
  | started {t : Sys} {procPtr stackPtr : Nat} {ptr stack : UInt32}
      (hroom : Room sizeofProcess bs)
      (hstack : Room stackSize.toNat (placed sizeofProcess bs).2) (h0 : ptr ≠ 0)
      (hsched : t.sched = schedulerAddProcess
        (Slots.prepared entry stackSize ptr stack s.sched) ptr)
      (hb : Blocks t.heap.heap (placed stackSize.toNat (placed sizeofProcess bs).2).2)
      (hlive : t.heap.live = stackPtr :: procPtr :: s.heap.live)
      (hperm : (used (placed stackSize.toNat (placed sizeofProcess bs).2).2).Perm
        (stackPtr :: procPtr :: used bs)) :
      Outcome entry stackSize s bs ptr t

theorem kStartProcess_noStack {procPtr stackPtr : UInt32} (entry stackSize : UInt32)
    (k : SchedState) (h0 : procPtr ≠ 0) (hstack : stackPtr = 0) :
    (Scheduler.kStartProcess entry stackSize procPtr stackPtr k).1 = 0 ∧
    (Scheduler.kStartProcess entry stackSize procPtr stackPtr k).2.processTable =
      k.processTable ∧
    (Scheduler.kStartProcess entry stackSize procPtr stackPtr k).2.processCount =
      k.processCount := by
  rw [Scheduler.kStartProcess, if_neg h0]
  simp only [if_pos hstack]
  exact ⟨trivial, rfl, rfl⟩

theorem kStartProcess_pointer {procPtr stackPtr : UInt32} (k : SchedState) (h0 : procPtr ≠ 0)
    (hstack : stackPtr ≠ 0) :
    (Scheduler.kStartProcess entry stackSize procPtr stackPtr k).1 = procPtr := by
  rw [Scheduler.kStartProcess, if_neg h0]
  simp only [if_neg hstack]

theorem kStartProcess_outcome (hb : Blocks s.heap.heap bs) (entry stackSize : UInt32) :
    ∃ ptr t, kStartProcess entry stackSize s = some (ptr, t) ∧
      Outcome entry stackSize s bs ptr t := by
  obtain ⟨h₁, htake, hb₁⟩ := take_placed hb sizeofProcess
  rw [kStartProcess, htake]
  by_cases hproc : (placed sizeofProcess bs).1 = 0
  · have hnone : ¬ Room sizeofProcess bs := fun hroom =>
      (placed_ne_zero_iff hb sizeofProcess).mpr hroom hproc
    simp only [Option.bind_some, if_pos hproc]
    refine ⟨_, _, rfl, .noStruct hnone rfl ?_ rfl⟩
    rw [← placed_null hproc]
    exact hb₁
  have hroom := (placed_ne_zero_iff hb sizeofProcess).mp hproc
  simp only [Option.bind_some, if_neg hproc]
  have hblock := hasBlock_placed (by decide) hproc
  have hb₂ : Blocks (zeroed _ ⟨h₁, (placed sizeofProcess bs).1 :: s.heap.live⟩).heap
      (placed sizeofProcess bs).2 := blocks_zeroed hb₁ hblock
  obtain ⟨h₃, htake', hb₃⟩ := take_placed hb₂ stackSize.toNat
  rw [htake', Option.map_some]
  have hptr : UInt32.ofNat (placed sizeofProcess bs).1 ≠ 0 := fun h0 =>
    hproc ((ofNat_placed hb sizeofProcess).mp h0)
  by_cases hstackPtr : (placed stackSize.toNat (placed sizeofProcess bs).2).1 = 0
  · have hnone : ¬ Room stackSize.toNat (placed sizeofProcess bs).2 := fun hstack =>
      (placed_ne_zero_iff hb₂ stackSize.toNat).mpr hstack hstackPtr
    obtain ⟨hnull, htable, hcount⟩ :=
      kStartProcess_noStack entry stackSize s.sched hptr
        ((ofNat_placed hb₂ stackSize.toNat).mpr hstackPtr)
    refine ⟨_, _, rfl, ?_⟩
    rw [hnull]
    refine .noStack hroom hnone ?_ ?_ ?_ ?_ (used_placed hproc)
    · exact htable
    · exact hcount
    · rw [← placed_null hstackPtr]
      exact hb₃
    · exact if_pos hstackPtr
  · have hstack := (placed_ne_zero_iff hb₂ stackSize.toNat).mp hstackPtr
    have hstack0 : UInt32.ofNat (placed stackSize.toNat (placed sizeofProcess bs).2).1 ≠ 0 :=
      fun h0 => hstackPtr ((ofNat_placed hb₂ stackSize.toNat).mp h0)
    refine ⟨_, _, rfl, ?_⟩
    rw [kStartProcess_pointer s.sched hptr hstack0]
    refine .started hroom hstack hptr (Slots.kStartProcess_eq s.sched hptr hstack0) hb₃
      (if_neg hstackPtr) ?_
    exact (used_placed hstackPtr).trans ((used_placed hproc).cons _)

/-! ## The table -/

theorem countP_change {p q : Nat → Bool} {i : Nat} (hp : p i = false) (hq : q i = true)
    (hother : ∀ j, j ≠ i → q j = p j) : ∀ {is : List Nat}, is.Nodup → i ∈ is →
    is.countP q = is.countP p + 1
  | [], _, hi => absurd hi List.not_mem_nil
  | j :: is, hnodup, hi => by
    obtain ⟨hj, hnodup⟩ := List.nodup_cons.mp hnodup
    rw [List.countP_cons, List.countP_cons]
    rcases List.mem_cons.mp hi with rfl | hi
    · have hrest : is.countP q = is.countP p := List.countP_congr fun k hk => by
        rw [hother k fun hki => hj (hki ▸ hk)]
      rw [hrest, hp, hq]
      rfl
    · have hne : j ≠ i := fun hji => hj (hji ▸ hi)
      rw [countP_change hp hq hother hnodup hi, hother j hne]
      omega

theorem freeEntry_iff (k : SchedState) :
    (∃ i, freeEntry k = some i) ↔ entries k < maxProcesses := by
  have hlen : (List.range maxProcesses).length = maxProcesses := List.length_range
  have hle : entries k ≤ maxProcesses := hlen ▸ List.countP_le_length
  have hall : entries k = maxProcesses ↔ freeEntry k = none := by
    rw [entries, freeEntry, List.find?_eq_none]
    conv_lhs => rhs; rw [← hlen]
    rw [List.countP_eq_length]
    simp only [bne_iff_ne, beq_iff_eq]
  rw [← Option.ne_none_iff_exists', Ne, ← hall]
  omega

theorem entries_update {k : SchedState} {i : Nat} (hi : i < maxProcesses)
    (hnull : k.processTable i = 0) {ptr : UInt32} (h0 : ptr ≠ 0) :
    (List.range maxProcesses).countP (fun j => Function.update k.processTable i ptr j != 0) =
      entries k + 1 := by
  have hfree : (k.processTable i != 0) = false := bne_eq_false_iff_eq.mpr hnull
  refine countP_change hfree ?_ (fun j hj => ?_) List.nodup_range (List.mem_range.mpr hi)
  · rw [Function.update_self]
    exact bne_iff_ne.mpr h0
  · rw [Function.update_of_ne hj]

theorem add_entered {k : SchedState} (hk : Counted k) (hlt : k.processCount < maxProcesses)
    (ptr entry stackSize stack : UInt32) :
    let t := schedulerAddProcess (Slots.prepared entry stackSize ptr stack k) ptr
    ∃ i < maxProcesses, k.processTable i = 0 ∧
      t.processTable = Function.update k.processTable i ptr ∧
      t.processCount = k.processCount + 1 := by
  obtain ⟨i, hfree⟩ := (freeEntry_iff k).mpr (hk ▸ hlt)
  obtain ⟨hnull, hi, -⟩ := List.find?_range_eq_some.mp hfree
  have hfree' : freeEntry (Slots.prepared entry stackSize ptr stack k) = some i := hfree
  have hroom : ¬ maxProcesses ≤ (Slots.prepared entry stackSize ptr stack k).processCount :=
    Nat.not_le.mpr hlt
  refine ⟨i, List.mem_range.mp hi, eq_of_beq hnull, ?_, ?_⟩
  · rw [schedulerAddProcess, if_neg hroom, hfree']
    funext j
    rw [Function.update_apply]
    rfl
  · rw [schedulerAddProcess, if_neg hroom, hfree']
    rfl

theorem add_full {k : SchedState} (hge : maxProcesses ≤ k.processCount)
    (ptr entry stackSize stack : UInt32) :
    schedulerAddProcess (Slots.prepared entry stackSize ptr stack k) ptr =
      Slots.prepared entry stackSize ptr stack k := if_pos hge

/-! ## All or nothing -/

/-- A call is all or nothing exactly if there is no memory for the struct, or memory
for all and a free entry. -/
theorem Outcome.allOrNothing_iff {ptr : UInt32} (h : Outcome entry stackSize s bs ptr t)
    (hk : Counted s.sched) : AllOrNothing s t ptr ↔
      ¬ Room sizeofProcess bs ∨
        Room stackSize.toNat (placed sizeofProcess bs).2 ∧ s.sched.processCount < maxProcesses := by
  cases h with
  | noStruct hroom hsched hb hlive =>
    refine iff_of_true ⟨⟨fun h0 => absurd rfl h0, ?_⟩, fun h0 => absurd rfl h0, fun _ => ?_,
      fun _ => ?_, fun _ => ?_⟩ (.inl hroom)
    · rintro ⟨p, hp, i, -, hi, hi'⟩
      rw [hsched, hi] at hi'
      exact absurd hi'.symm hp
    · rw [hsched]
    · rw [hsched]
    · rw [hlive]
  | noStack hroom hstack htable hcount hb hlive hperm =>
    refine iff_of_false (fun hall => ?_) ?_
    · have hlen := (hall.live rfl).length_eq
      rw [hlive, List.length_cons] at hlen
      omega
    · rintro (hnot | hnot)
      · exact hnot hroom
      · exact hstack hnot.1
  | started hroom hstack h0 hsched hb hlive hperm =>
    rename_i stack
    by_cases hlt : s.sched.processCount < maxProcesses
    · obtain ⟨i, hi, hnull, htable, -⟩ := add_entered hk hlt ptr entry stackSize stack
      rw [← hsched] at htable
      have hentered : Entered s t ptr :=
        ⟨h0, i, hi, hnull, by rw [htable, Function.update_self]⟩
      exact iff_of_true ⟨⟨fun _ => ⟨ptr, hentered⟩, fun _ => h0⟩, fun _ => hentered,
        fun hz => absurd hz h0, fun hz => absurd hz h0, fun hz => absurd hz h0⟩
        (.inr ⟨hstack, hlt⟩)
    · have hfull := add_full (Nat.not_lt.mp hlt) ptr entry stackSize stack
      refine iff_of_false (fun hall => ?_) ?_
      · obtain ⟨-, i, -, hi, hi'⟩ := hall.itself h0
        rw [hsched, hfull] at hi'
        exact h0 (hi'.symm.trans hi)
      · rintro (hnot | hnot)
        · exact hnot hroom
        · exact hlt hnot.2

/-! ## Runs -/

theorem Inv.start (hi : Inv s) {ptr : UInt32} (h : kStartProcess entry stackSize s = some (ptr, t)) :
    Inv t := by
  obtain ⟨bs, hb, hlive⟩ := hi.heap
  obtain ⟨ptr', t', hrun, hout⟩ := kStartProcess_outcome hb entry stackSize
  rw [h] at hrun
  cases hrun
  cases hout with
  | noStruct hroom hsched hb' hlive' =>
    refine ⟨⟨bs, hb', ?_⟩, ?_⟩
    · rw [hlive']
      exact hlive
    · rw [hsched]
      exact hi.count
  | noStack hroom hstack htable hcount hb' hlive' hperm =>
    refine ⟨⟨_, hb', ?_⟩, ?_⟩
    · rw [hlive']
      exact (hlive.cons _).trans hperm.symm
    · rw [Counted, entries, hcount, htable]
      exact hi.count
  | started hroom hstack h0 hsched hb' hlive' hperm =>
    rename_i stack
    refine ⟨⟨_, hb', ?_⟩, ?_⟩
    · rw [hlive']
      exact ((hlive.cons _).cons _).trans hperm.symm
    by_cases hlt : s.sched.processCount < maxProcesses
    · obtain ⟨i, hlt', hnull, htable, hcount⟩ :=
        add_entered hi.count hlt ptr entry stackSize stack
      rw [← hsched] at htable hcount
      rw [Counted, entries, htable, entries_update hlt' hnull h0, hcount, hi.count]
    · rw [hsched, add_full (Nat.not_lt.mp hlt)]
      exact hi.count

theorem counted_remove {k : SchedState} (hk : Counted k) (pid : Int) :
    Counted (schedulerRemoveProcess pid k) := by
  rw [schedulerRemoveProcess]
  cases hfind : (List.range maxProcesses).find? fun i =>
      k.processTable i != 0 && (k.procs (k.processTable i)).pid == pid with
  | none => exact hk
  | some i =>
    obtain ⟨hp, hi, -⟩ := List.find?_range_eq_some.mp hfind
    rw [Bool.and_eq_true] at hp
    have hchange : entries k = (List.range maxProcesses).countP
        (fun j => Function.update k.processTable i 0 j != 0) + 1 := by
      refine countP_change ?_ hp.1 (fun j hj => ?_) List.nodup_range hi
      · rw [Function.update_self]
        rfl
      · rw [Function.update_of_ne hj]
    have hcounted : Counted { k with
        processTable := Function.update k.processTable i 0
        processCount := k.processCount - 1 } := by
      show k.processCount - 1 = _
      rw [hk, hchange]
      rfl
    dsimp only
    split
    · rw [schedulerNextProcess]
      split
      · exact hcounted
      · rw [Counted, entries, Slots.lottery_count, (lottery_spec _ _).2.1]
        exact hcounted
    · exact hcounted

theorem Inv.next (hi : Inv s) (h : Step s t) : Inv t := by
  cases h with
  | start h => exact hi.start h
  | remove pid => exact ⟨hi.heap, counted_remove hi.count pid⟩
  | heap h => exact ⟨Heap.Runs.inv_step hi.heap h, hi.count⟩
  | sched htable hcount =>
    refine ⟨hi.heap, ?_⟩
    rw [Counted, entries, htable, hcount]
    exact hi.count

theorem inv_booted (m : Mem) : Inv (booted m) := ⟨Heap.Runs.inv_initHeap m, rfl⟩

theorem inv_of_reachable (h : Reachable s) : Inv s := by
  obtain ⟨m, hr⟩ := h
  induction hr with
  | refl => exact inv_booted m
  | tail _ hs ih => exact ih.next hs

theorem Inv.allOrNothing_iff (hi : Inv s) (entry stackSize : UInt32) :
    (∃ ptr t, kStartProcess entry stackSize s = some (ptr, t) ∧ AllOrNothing s t ptr) ↔
      Admits stackSize s := by
  obtain ⟨bs, hb, -⟩ := hi.heap
  have hlisted := Heap.Runs.listed_of_blocks hb
  obtain ⟨ptr, t, hrun, hout⟩ := kStartProcess_outcome hb entry stackSize
  refine ⟨fun hall => ?_, fun hadmits => ?_⟩
  · obtain ⟨ptr', t', hrun', hall⟩ := hall
    rw [hrun] at hrun'
    cases hrun'
    exact ⟨bs, hlisted, (hout.allOrNothing_iff hi.count).mp hall⟩
  · obtain ⟨bs', hlisted', hroom⟩ := hadmits
    rw [← Heap.Runs.listed_unique hlisted hlisted'] at hroom
    exact ⟨ptr, t, hrun, (hout.allOrNothing_iff hi.count).mpr hroom⟩

/-- **Starting a process is all or nothing** exactly if there is no memory for its
struct, or memory for the struct and the stack and a free place in the table. -/
theorem start_all_or_nothing_iff (h : Reachable s) (entry stackSize : UInt32) :
    (∃ ptr t, kStartProcess entry stackSize s = some (ptr, t) ∧ AllOrNothing s t ptr) ↔
      Admits stackSize s := (inv_of_reachable h).allOrNothing_iff entry stackSize

end

theorem booted_listed (m : Mem) : Listed (booted m).heap.heap.mem (booted m).heap.heap.freeList
    [Heap.Runs.wholeHeap] := Heap.Runs.listed_of_blocks (Heap.Runs.blocks_initHeap m)

/-- The first process, with a stack of 4 KiB. -/
theorem first_all_or_nothing : ∃ ptr t,
    kStartProcess 0x00400000 4096 (booted fun _ => 0) = some (ptr, t) ∧
      AllOrNothing (booted fun _ => 0) t ptr := by
  refine (start_all_or_nothing_iff ⟨fun _ => 0, .refl⟩ 0x00400000 4096).mpr
    ⟨_, booted_listed _, .inr ⟨?_, by decide⟩⟩
  exact ⟨by decide, ⟨0x00800CDC, 0x007FF318, true⟩, by decide, rfl, by decide⟩

/-- A stack larger than the heap: the struct stays allocated. -/
theorem large_stack_leaks : Reachable (booted fun _ => 0) ∧
    ¬ ∃ ptr t, kStartProcess 0x00400000 0x01000000 (booted fun _ => 0) = some (ptr, t) ∧
      AllOrNothing (booted fun _ => 0) t ptr := by
  refine ⟨⟨fun _ => 0, .refl⟩, fun hall => ?_⟩
  obtain ⟨bs, hlisted, hroom⟩ := ((inv_booted _).allOrNothing_iff _ _).mp hall
  rw [← Heap.Runs.listed_unique (booted_listed _) hlisted] at hroom
  have hafter : (placed sizeofProcess [Heap.Runs.wholeHeap]).2 =
      [⟨0x00800000, 3280, false⟩, ⟨0x00800CDC, 0x007FF318, true⟩] := by decide
  rcases hroom with hnot | ⟨⟨-, b, hm, hfree, hsize⟩, -⟩
  · exact hnot ⟨by decide, Heap.Runs.wholeHeap, List.mem_singleton_self _, rfl, by decide⟩
  · rw [hafter, List.mem_pair] at hm
    rcases hm with rfl | rfl
    · cases hfree
    · exact absurd hsize (by decide)

end ContinuumOS.Sched.Starting
