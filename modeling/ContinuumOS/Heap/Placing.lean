import ContinuumOS.Heap.Preserving

/-! # The allocator on the list of blocks

Which block `kmalloc`, `kfree` and `krealloc` take, and what is left of the
others, is decided by the list of blocks alone: `placed`, `release` and `resized`
are the allocator on lists, and the calls on memory do the same. What lies in the
payloads has no part in it, and what lies in other blocks in use stays there. -/
namespace ContinuumOS.Heap.Placing
open ContinuumOS.Lib.Memory ContinuumOS.Libc.Memory ContinuumOS.Heap.Model
open ContinuumOS.Heap.Layout ContinuumOS.Heap.Invariant ContinuumOS.Heap.Runs

/-- The first free block of the size, carved, and the pointer to it. -/
def place (size : Nat) : List Block → Option (Nat × List Block)
  | [] => none
  | b :: bs =>
    if b.free = true ∧ size ≤ b.size then some (b.payload, carve size b ++ bs)
    else (place size bs).map fun r => (r.1, b :: r.2)

/-- The pointer that `kmalloc` returns, and the blocks afterwards. -/
def placed (n : Nat) (bs : List Block) : Nat × List Block :=
  if n = 0 then (0, bs) else (place (align16 n) bs).getD (0, bs)

/-- The blocks after `kfree`. -/
def release (p : Nat) : List Block → List Block
  | [] => []
  | b :: bs => if b.payload = p then freed b bs else b :: release p bs

/-- The pointer that `krealloc` returns for a pointer in use and a size that is not
0, and the blocks afterwards. -/
def resized (p n : Nat) (bs : List Block) : Nat × List Block :=
  if bs.any fun c => c.payload == p && decide (n ≤ c.size) then (p, bs)
  else if (placed n bs).1 = 0 then (0, bs)
  else ((placed n bs).1, release p (placed n bs).2)

/-- The blocks in use, but for the one at `p`, stay with what is in them. -/
def Keeps (bs bs' : List Block) (m m' : Mem) (p : Nat) : Prop :=
  ∀ c ∈ bs, c.free = false → c.payload ≠ p →
    c ∈ bs' ∧ ∀ x, c.payload ≤ x → x < c.fin → m' x = m x

/-- There is a block in use at the pointer, of at least `n` bytes. -/
def HasBlock (bs : List Block) (p n : Nat) : Prop :=
  ∃ c ∈ bs, c.free = false ∧ c.payload = p ∧ n ≤ c.size

variable {h : HeapState} {bs pre post : List Block} {b c : Block} {p q n size : Nat} {m : Mem}

theorem Keeps.refl (bs : List Block) (m : Mem) (p : Nat) : Keeps bs bs m m p :=
  fun _ hc _ _ => ⟨hc, fun _ _ _ => rfl⟩

theorem payload_ne_zero (b : Block) : b.payload ≠ 0 := Nat.succ_ne_zero _

/-! ## Taking a block -/

theorem place_firstFit (h : FirstFit size bs pre b post) :
    place size bs = some (b.payload, pre ++ (carve size b ++ post)) := by
  obtain ⟨rfl, hfree, hfits, hsmall⟩ := h
  induction pre with
  | nil => rw [List.nil_append, place, if_pos ⟨hfree, hfits⟩, List.nil_append]
  | cons c pre ih =>
    have hc : ¬ (c.free = true ∧ size ≤ c.size) := fun hc =>
      Nat.not_le.mpr (hsmall c (.head _) hc.1) hc.2
    rw [List.cons_append, place, if_neg hc, ih fun d hd => hsmall d (.tail _ hd)]
    rfl

theorem place_none (h : ∀ b ∈ bs, b.free = true → b.size < size) : place size bs = none := by
  induction bs with
  | nil => rfl
  | cons b bs ih =>
    have hb : ¬ (b.free = true ∧ size ≤ b.size) := fun hb =>
      Nat.not_le.mpr (h b (.head _) hb.1) hb.2
    rw [place, if_neg hb, ih fun c hc => h c (.tail _ hc)]
    rfl

/-- **`kmalloc` is `placed`**, whatever lies in the payloads. -/
theorem kmalloc_placed (hb : Blocks h bs) (n : Nat) : ∃ h',
    kmalloc n h = some ((placed n bs).1, h') ∧ Blocks h' (placed n bs).2 ∧
      Keeps bs (placed n bs).2 h.mem h'.mem 0 ∧ ((placed n bs).1 = 0 → h' = h) := by
  by_cases hz : n = 0
  · rw [placed, if_pos hz]
    exact ⟨h, by rw [kmalloc, if_pos hz], hb, Keeps.refl bs _ 0, fun _ => rfl⟩
  rw [placed, if_neg hz]
  rcases kmalloc_carves hb hz with
    ⟨hk, hsmall⟩ | ⟨pre, b, post, b₁, rest, h', hfit, hc, hk, hb', hag, hcarve⟩
  · rw [place_none hsmall]
    exact ⟨h, hk, hb, Keeps.refl bs _ 0, fun _ => rfl⟩
  · have haddr : b₁.payload = b.payload := congrArg (· + headerSize) hc.addr
    rw [place_firstFit hfit, hcarve, Option.getD_some]
    refine ⟨h', haddr ▸ hk, hb', fun c hm hfree _ => ⟨hfit.keeps hm hfree, fun x h₁ h₂ => ?_⟩,
      fun h0 => absurd h0 (payload_ne_zero b)⟩
    have hbm : b ∈ bs := by simp [hfit.split]
    have hne : c ≠ b := fun he => by
      rw [he, hfit.free] at hfree
      cases hfree
    have hap := (eq_or_apart hb.laid hm hbm).resolve_left hne
    refine hag x ?_
    simp only [Block.fin, Block.payload] at *
    omega

theorem firstFit_place {bs' : List Block} (h : place size bs = some (p, bs')) : ∃ pre b post,
    FirstFit size bs pre b post ∧ p = b.payload ∧ bs' = pre ++ (carve size b ++ post) := by
  induction bs generalizing bs' with
  | nil => cases h
  | cons c bs ih =>
    rw [place] at h
    split at h
    · rename_i hfit
      obtain ⟨rfl, rfl⟩ := Prod.mk.inj (Option.some.inj h)
      exact ⟨[], c, bs, ⟨rfl, hfit.1, hfit.2, fun _ hd => absurd hd List.not_mem_nil⟩, rfl, rfl⟩
    · rename_i hfit
      obtain ⟨⟨q, bs''⟩, hq, hr⟩ := Option.map_eq_some_iff.mp h
      obtain ⟨rfl, rfl⟩ := Prod.mk.inj hr
      obtain ⟨pre, b, post, hfirst, rfl, rfl⟩ := ih hq
      refine ⟨c :: pre, b, post, ⟨congrArg (c :: ·) hfirst.split, hfirst.free, hfirst.fits,
        List.forall_mem_cons.mpr ⟨fun hc => Nat.lt_of_not_le fun hle => hfit ⟨hc, hle⟩,
          hfirst.small⟩⟩, rfl, rfl⟩

theorem placed_cases (n : Nat) (bs : List Block) : placed n bs = (0, bs) ∨
    ∃ pre b post b₁ rest, FirstFit (align16 n) bs pre b post ∧ Carved (align16 n) b b₁ rest ∧
      placed n bs = (b₁.payload, pre ++ (b₁ :: rest ++ post)) := by
  rw [placed]
  split
  · exact .inl rfl
  cases hp : place (align16 n) bs with
  | none => exact .inl rfl
  | some r =>
    obtain ⟨pre, b, post, hfit, hpayload, hblocks⟩ := firstFit_place hp
    obtain ⟨b₁, rest, hcarve, hc⟩ := carved_carve hfit.fits
    have haddr : b₁.payload = b.payload := congrArg (· + headerSize) hc.addr
    refine .inr ⟨pre, b, post, b₁, rest, hfit, hc, ?_⟩
    rw [Option.getD_some, haddr, ← hpayload, ← hcarve, ← hblocks]

theorem placed_null (h : (placed n bs).1 = 0) : (placed n bs).2 = bs := by
  obtain hp | ⟨pre, b, post, b₁, rest, -, -, hp⟩ := placed_cases n bs
  · rw [hp]
  · rw [hp] at h
    exact absurd h (payload_ne_zero b₁)

theorem used_placed (h : (placed n bs).1 ≠ 0) :
    (used (placed n bs).2).Perm ((placed n bs).1 :: used bs) := by
  obtain hp | ⟨pre, b, post, b₁, rest, hfit, hc, hp⟩ := placed_cases n bs
  · rw [hp] at h
    exact absurd rfl h
  · rw [hp]
    exact hc.used_perm hfit

theorem hasBlock_placed (hn : n ≤ 2 ^ 32 - 16) (h : (placed n bs).1 ≠ 0) :
    HasBlock (placed n bs).2 (placed n bs).1 n := by
  obtain hp | ⟨pre, b, post, b₁, rest, hfit, hc, hp⟩ := placed_cases n bs
  · rw [hp] at h
    exact absurd rfl h
  · rw [hp]
    exact ⟨b₁, by simp, hc.inUse, rfl, (align16_spec hn).1.trans hc.fits⟩

/-! ## Giving a block back -/

theorem payload_inj (hb : Blocks h bs) (hm : b ∈ bs) (hc : c ∈ bs) (he : b.payload = c.payload) :
    b = c := by
  rcases eq_or_apart hb.laid hm hc with heq | hap
  · exact heq
  · simp only [Block.payload, Block.fin, headerSize] at he hap
    omega

theorem release_append (hpre : ∀ c ∈ pre, c.payload ≠ b.payload) (post : List Block) :
    release b.payload (pre ++ b :: post) = pre ++ freed b post := by
  induction pre with
  | nil => rw [List.nil_append, release, if_pos rfl, List.nil_append]
  | cons c pre ih =>
    rw [List.cons_append, release, if_neg (hpre c (.head _)), ih fun d hd => hpre d (.tail _ hd)]
    rfl

theorem split_of_hasBlock (hb : Blocks h bs) (hp : HasBlock bs p n) : ∃ pre b post,
    bs = pre ++ b :: post ∧ b.free = false ∧ b.payload = p ∧ n ≤ b.size ∧
      release p bs = pre ++ freed b post := by
  obtain ⟨b, hm, hfree, rfl, hsize⟩ := hp
  obtain ⟨pre, post, rfl⟩ := List.append_of_mem hm
  refine ⟨pre, b, post, rfl, hfree, rfl, hsize, release_append (fun c hc he => ?_) post⟩
  have hsorted := hb.laid.sorted
  simp only [List.pairwise_append, List.mem_cons] at hsorted
  have hap := hsorted.2.2 c hc b (.inl rfl)
  simp only [Block.payload, Block.fin, headerSize] at he hap
  omega

/-- **`kfree` is `release`**, whatever lies in the payloads. -/
theorem kfree_released (hb : Blocks h bs) (hp : HasBlock bs p n) :
    Blocks (kfree p h) (release p bs) ∧ Keeps bs (release p bs) h.mem (kfree p h).mem p := by
  obtain ⟨pre, b, post, rfl, hfree, rfl, -, hrelease⟩ := split_of_hasBlock hb hp
  rw [hrelease]
  refine ⟨kfree_freed hb, fun c hc hused hne => ⟨?_, fun x h₁ h₂ => ?_⟩⟩
  · have hcb : c ≠ b := fun he => hne (by rw [he])
    rcases List.mem_append.mp hc with hc | hc
    · exact List.mem_append_left _ hc
    refine List.mem_append_right _ ?_
    have hpost := (List.mem_cons.mp hc).resolve_left hcb
    cases post with
    | nil => cases hpost
    | cons d post =>
      rw [freed]
      split
      · rename_i hd
        refine .tail _ ((List.mem_cons.mp hpost).resolve_left fun he => ?_)
        rw [← he, hused] at hd
        cases hd
      · exact .tail _ hpost
  · have hm : b ∈ pre ++ b :: post := by simp
    have hap := (eq_or_apart hb.laid hc hm).resolve_left fun he => hne (by rw [he])
    refine kfree_frame (hb.header_of_payload hm).1 ?_
    simp only [Block.fin, Block.payload] at *
    omega

theorem used_release (hb : Blocks h bs) (hp : HasBlock bs p n) :
    (p :: used (release p bs)).Perm (used bs) := by
  obtain ⟨pre, b, post, rfl, hfree, rfl, -, hrelease⟩ := split_of_hasBlock hb hp
  obtain ⟨size, post', hmerged, hfreed⟩ := merged_freed b post
  rw [hrelease, hfreed]
  simp only [used_append, used_cons, hfree, hmerged.used_eq]
  exact List.perm_middle.symm

/-! ## Moving a block -/

/-- What `krealloc` comes to on the list: the block stays, or nothing is found, or
another block is taken and the old one is given back. -/
theorem resized_cases (hb : Blocks h bs) (hm : b ∈ bs) (n : Nat) :
    n ≤ b.size ∧ resized b.payload n bs = (b.payload, bs) ∨
    b.size < n ∧ (placed n bs).1 = 0 ∧ resized b.payload n bs = (0, bs) ∨
    b.size < n ∧ (placed n bs).1 ≠ 0 ∧
      resized b.payload n bs = ((placed n bs).1, release b.payload (placed n bs).2) := by
  have hany : (bs.any fun c => c.payload == b.payload && decide (n ≤ c.size)) = true ↔
      n ≤ b.size := by
    rw [List.any_eq_true]
    constructor
    · rintro ⟨c, hc, hfound⟩
      obtain ⟨hpayload, hsize⟩ := (Bool.and_eq_true _ _).mp hfound
      rw [← payload_inj hb hc hm (eq_of_beq hpayload)]
      exact of_decide_eq_true hsize
    · exact fun hsize => ⟨b, hm, by rw [beq_self_eq_true, decide_eq_true hsize]; rfl⟩
  rw [resized]
  by_cases hsize : n ≤ b.size
  · exact .inl ⟨hsize, if_pos (hany.mpr hsize)⟩
  · rw [if_neg (hany.not.mpr hsize)]
    have hlt := Nat.lt_of_not_le hsize
    by_cases hnull : (placed n bs).1 = 0
    · exact .inr (.inl ⟨hlt, hnull, if_pos hnull⟩)
    · exact .inr (.inr ⟨hlt, hnull, if_neg hnull⟩)

section

variable {k : Nat} (hb : Blocks h bs) (hp : HasBlock bs p k)
include hb hp

theorem resized_null (h0 : (resized p n bs).1 = 0) : (resized p n bs).2 = bs := by
  obtain ⟨b, hm, -, rfl, -⟩ := hp
  obtain ⟨-, hr⟩ | ⟨-, -, hr⟩ | ⟨-, hnull, hr⟩ := resized_cases hb hm n
  · rw [hr]
  · rw [hr]
  · rw [hr] at h0
    exact absurd h0 hnull

theorem hasBlock_between (hne : (placed n bs).1 ≠ 0) :
    HasBlock (placed n bs).2 p k ∧ p ≠ (placed n bs).1 := by
  obtain ⟨h₁, -, hb₁, hkeeps, -⟩ := kmalloc_placed hb n
  obtain ⟨b, hm, hfree, rfl, hsize⟩ := hp
  refine ⟨⟨b, (hkeeps b hm hfree (payload_ne_zero b)).1, hfree, rfl, hsize⟩, fun he => ?_⟩
  have hfresh := (used_placed hne).nodup_iff.mp (used_nodup hb₁.laid)
  exact (List.nodup_cons.mp hfresh).1 (he ▸ mem_used.mpr ⟨b, hm, hfree, rfl⟩)

/-- **`krealloc` is `resized`**, whatever lies in the payloads, and copies what lies
in the block. -/
theorem krealloc_resized (h0 : n ≠ 0) (hn : n ≤ 2 ^ 32 - 16) : ∃ h',
    krealloc p n h = some ((resized p n bs).1, h') ∧ Blocks h' (resized p n bs).2 ∧
      Keeps bs (resized p n bs).2 h.mem h'.mem p ∧
      ((resized p n bs).1 = 0 → h' = h) ∧
      ((resized p n bs).1 ≠ 0 → HasBlock (resized p n bs).2 (resized p n bs).1 n ∧
        ∀ i < k, h'.mem ((resized p n bs).1 + i) = h.mem (p + i)) := by
  obtain ⟨b, hm, hfree, rfl, hsize⟩ := id hp
  rw [krealloc_eq hb hm hfree h0]
  obtain ⟨hle, hr⟩ | ⟨hlt, hnull, hr⟩ | ⟨hlt, hnull, hr⟩ := resized_cases hb hm n
  · rw [hr, if_pos hle]
    exact ⟨h, rfl, hb, Keeps.refl bs _ _, fun _ => rfl,
      fun _ => ⟨⟨b, hm, hfree, rfl, hle⟩, fun _ _ => rfl⟩⟩
  · obtain ⟨h₁, hk, -, -, hsame⟩ := kmalloc_placed hb n
    rw [hr, if_neg (Nat.not_le.mpr hlt), hk, hnull, hsame hnull]
    exact ⟨h, rfl, hb, Keeps.refl bs _ _, fun _ => rfl, fun hne => absurd rfl hne⟩
  obtain ⟨h₁, hk, hb₁, hkeeps, -⟩ := kmalloc_placed hb n
  obtain ⟨hold, hpq⟩ := hasBlock_between (n := n) hb hp hnull
  obtain ⟨c, hc, hcfree, hcp, hcsize⟩ := hasBlock_placed hn hnull
  have hb₁' := (hkeeps b hm hfree (payload_ne_zero b)).1
  have hbc : b ≠ c := fun he => hpq (by rw [he, hcp])
  have hap := (eq_or_apart hb₁.laid hb₁' hc).resolve_left hbc
  -- the copy stays inside the new payload
  have hcopy : ∀ x, x < c.payload ∨ c.fin ≤ x →
      memcpy c.payload b.payload b.size h₁.mem x = h₁.mem x := fun x hx =>
    memcpy_outside (by simp only [Block.fin, Block.payload] at hx ⊢; omega)
  have hb₂ := hb₁.payload_congr hc hcopy
  obtain ⟨hb₃, hkeeps'⟩ := kfree_released hb₂ hold
  rw [hr, if_neg (Nat.not_le.mpr hlt), hk, Option.map_some, if_neg hnull, ← hcp]
  refine ⟨_, rfl, hb₃, fun d hd hdfree hdb => ?_, fun h0 => absurd h0 (payload_ne_zero c),
    fun _ => ⟨⟨c, (hkeeps' c hc hcfree ?_).1, hcfree, rfl, hcsize⟩, fun i hi => ?_⟩⟩
  · obtain ⟨hd₁, hbytes⟩ := hkeeps d hd hdfree (payload_ne_zero d)
    obtain ⟨hd₂, hbytes'⟩ := hkeeps' d hd₁ hdfree hdb
    refine ⟨hd₂, fun x h₁ h₂ => (hbytes' x h₁ h₂).trans ((hcopy x ?_).trans (hbytes x h₁ h₂))⟩
    have hdc : d ≠ c := fun he => by
      have hfresh := (used_placed hnull).nodup_iff.mp (used_nodup hb₁.laid)
      exact (List.nodup_cons.mp hfresh).1 (hcp ▸ mem_used.mpr ⟨d, hd, hdfree, by rw [he]⟩)
    have hap' := (eq_or_apart hb₁.laid hd₁ hc).resolve_left hdc
    simp only [Block.fin, Block.payload] at *
    omega
  · rw [hcp]
    exact hpq.symm
  · have hbytes := (hkeeps' c hc hcfree (by rw [hcp]; exact hpq.symm)).2 (c.payload + i)
      (Nat.le_add_right _ _) (by simp only [Block.fin, Block.payload]; omega)
    have hbyte := (hkeeps b hm hfree (payload_ne_zero b)).2 (b.payload + i)
      (Nat.le_add_right _ _) (by simp only [Block.fin, Block.payload]; omega)
    refine hbytes.trans ((memcpy_inside ?_ (by omega)).trans hbyte)
    simp only [Block.fin, Block.payload] at *
    omega

end

end ContinuumOS.Heap.Placing
