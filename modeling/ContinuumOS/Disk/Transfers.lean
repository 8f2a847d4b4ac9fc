import ContinuumOS.Disk.Polling

/-! # Transfers of sectors

The words of a read and of a write, a block at a time, and what whole calls of
`ide_read_sectors` and `ide_write_sectors` leave of the drives, for any delays and
any errors. -/
namespace ContinuumOS.Disk.Transfers
open ContinuumOS.Disk.Ide ContinuumOS.Disk.Ata ContinuumOS.Disk.Polling

/-! ## Words stored -/

theorem storeWords_zero (m : Words) (a : Nat) (f : Words) : storeWords m a 0 f = m := by
  funext x
  exact if_neg (by omega)

theorem storeWords_inside {m f : Words} {a len x : Nat} (h : x < len) :
    storeWords m a len f (a + x) = f x := by
  rw [storeWords, if_pos (by omega), Nat.add_sub_cancel_left]

theorem storeWords_outside {m f : Words} {a len x : Nat} (h : x < a ∨ a + len ≤ x) :
    storeWords m a len f x = m x := if_neg (by omega)

theorem storeWords_update (m : Words) (a len : Nat) (f : Words) :
    storeWords (Function.update m a (f 0)) (a + 1) len (fun i => f (i + 1)) =
      storeWords m a (len + 1) f := by
  funext x
  rcases Nat.lt_trichotomy x a with h | rfl | h
  · rw [storeWords_outside (.inl (by omega)), storeWords_outside (.inl h),
      Function.update_of_ne (by omega)]
  · rw [storeWords_outside (.inl (by omega)), Function.update_self]
    exact (storeWords_inside (m := m) (a := x) (x := 0) (by omega)).symm
  · obtain ⟨i, rfl⟩ : ∃ i, x = a + 1 + i := ⟨x - (a + 1), by omega⟩
    by_cases hi : i < len
    · rw [storeWords_inside hi, show a + 1 + i = a + (i + 1) by omega, storeWords_inside (by omega)]
    · rw [storeWords_outside (.inr (by omega)), storeWords_outside (.inr (by omega)),
        Function.update_of_ne (by omega)]

theorem storeWords_append (m : Words) (a l₁ l₂ : Nat) (f : Words) :
    storeWords (storeWords m a l₁ f) (a + l₁) l₂ (fun i => f (l₁ + i)) =
      storeWords m a (l₁ + l₂) f := by
  funext x
  by_cases h₁ : x < a ∨ a + (l₁ + l₂) ≤ x
  · rw [storeWords_outside (by omega), storeWords_outside (by omega), storeWords_outside h₁]
  · obtain ⟨i, rfl⟩ : ∃ i, x = a + i := ⟨x - a, by omega⟩
    rw [storeWords_inside (x := i) (by omega)]
    by_cases h₂ : i < l₁
    · rw [storeWords_outside (by omega), storeWords_inside h₂]
    · obtain ⟨j, rfl⟩ : ∃ j, i = l₁ + j := ⟨i - l₁, by omega⟩
      rw [← Nat.add_assoc, storeWords_inside (x := j) (by omega)]

theorem storeWords_congr {m f g : Words} {a len : Nat} (h : ∀ i < len, f i = g i) :
    storeWords m a len f = storeWords m a len g := by
  funext x
  by_cases hx : a ≤ x ∧ x < a + len
  · simp only [storeWords, if_pos hx]
    exact h _ (by omega)
  · simp only [storeWords, if_neg hx]

/-! ## A block -/

variable {σ : Type} {p : Ports σ} {view : σ → UInt16 → Channel} {base : UInt16}
  {v : UInt16 → Channel}

theorem fetchWords_spec (hp : Follows p view) (hb : IsBase base) : ∀ (n at' : Nat) (buffer : Words)
    {s : σ} {c : Channel}, view s = Function.update v base c →
    (∀ j < n, (Channel.fetched^[j] c).Transfers) →
    (fetchWords p base n at' buffer s).1 =
        storeWords buffer at' n (fun j => (Channel.fetched^[j] c).word) ∧
      view (fetchWords p base n at' buffer s).2 = Function.update v base (Channel.fetched^[n] c)
  | 0, at', buffer, s, c, h, _ => ⟨(storeWords_zero _ _ _).symm, h⟩
  | n + 1, at', buffer, s, c, h, hopen => by
    have hfirst : (view s base).Transfers := by
      rw [h, Function.update_self]
      exact hopen 0 (by omega)
    obtain ⟨hword, hview⟩ := hp.inw hb hfirst
    rw [h, Function.update_self] at hword
    rw [h, Function.update_self, Function.update_idem] at hview
    obtain ⟨hwords, hrest⟩ := fetchWords_spec hp hb n (at' + 1)
      (Function.update buffer at' (p.inw (base + ideRegData) s).1) hview
      (fun j hj => hopen (j + 1) (by omega))
    refine ⟨?_, hrest⟩
    rw [fetchWords, hwords, hword]
    exact storeWords_update buffer at' n fun j => (Channel.fetched^[j] c).word

/-- The phase of a read with `left` sectors to go. -/
def reading (lba left : Nat) : Phase := if left = 0 then .idle else .toHost lba left none

theorem fetched_iterate (c : Channel) (lba left : Nat) : ∀ j < sectorWords,
    Channel.fetched^[j] { c with phase := .toHost lba left (some 0) } =
      { c with phase := .toHost lba left (some j) }
  | 0, _ => rfl
  | j + 1, hj => by
    rw [Function.iterate_succ_apply', fetched_iterate c lba left j (by omega)]
    simp only [Channel.fetched, if_pos hj]

theorem fetched_sector (c : Channel) (lba left : Nat) :
    Channel.fetched^[sectorWords] { c with phase := .toHost lba left (some 0) } =
      { c with phase := reading (lba + 1) (left - 1) } := by
  rw [show sectorWords = 255 + 1 from rfl, Function.iterate_succ_apply',
    fetched_iterate c lba left 255 (by decide)]
  by_cases h : left ≤ 1
  · simp only [Channel.fetched, reading, show left - 1 = 0 by omega, if_true, h]
    rfl
  · simp only [Channel.fetched, reading, h, show left - 1 ≠ 0 by omega, if_false]
    rfl

theorem fetch_sector (hp : Follows p view) (hb : IsBase base) (c : Channel) {lba : Nat} (left : Nat)
    {s : σ} (hin : lba < c.drive.size) (at' : Nat) (buffer : Words)
    (h : view s = Function.update v base { c with phase := .toHost lba left (some 0) }) :
    (fetchWords p base sectorWords at' buffer s).1 =
        storeWords buffer at' sectorWords (fun i => c.drive.words (lba * sectorWords + i)) ∧
      view (fetchWords p base sectorWords at' buffer s).2 =
        Function.update v base { c with phase := reading (lba + 1) (left - 1) } := by
  obtain ⟨hwords, hview⟩ := fetchWords_spec hp hb sectorWords at' buffer h fun j hj => by
    rw [fetched_iterate c lba left j hj]
    exact hin
  rw [fetched_sector] at hview
  refine ⟨hwords.trans (storeWords_congr fun i hi => ?_), hview⟩
  rw [fetched_iterate c lba left i hi]
  rfl

/-! ## A read -/

theorem reading_left {c c' : Channel} {lba left : Nat}
    (h : Left { c with phase := .toHost lba left none } c') : ∃ ph, c' = { c with phase := ph } := by
  obtain rfl | rfl | rfl | rfl := h
  · exact ⟨_, rfl⟩
  · exact ⟨.toHost lba left none, rfl⟩
  · exact ⟨.idle, rfl⟩
  · exact ⟨.idle, rfl⟩

theorem readLoop_spec (hp : Follows p view) (hb : IsBase base) (c : Channel) :
    ∀ (left sector lba : Nat) (buffer : Words) {s : σ},
    view s = Function.update v base { c with phase := reading lba left } →
    (∃ ph, view (readLoop p base left sector buffer s).2 = Function.update v base { c with phase := ph }) ∧
    ((readLoop p base left sector buffer s).1.1 = true →
      view (readLoop p base left sector buffer s).2 = Function.update v base { c with phase := .idle } ∧
      (readLoop p base left sector buffer s).1.2 =
        storeWords buffer (sector * sectorWords) (left * sectorWords)
          (fun i => c.drive.words (lba * sectorWords + i)) ∧
      (left ≠ 0 → lba + left ≤ c.drive.size))
  | 0, sector, lba, buffer, s, h => by
    refine ⟨⟨_, h⟩, fun _ => ⟨h, ?_, fun h0 => absurd rfl h0⟩⟩
    rw [Nat.zero_mul, storeWords_zero]
    rfl
  | left + 1, sector, lba, buffer, s, h => by
    have hphase : reading lba (left + 1) = .toHost lba (left + 1) none := rfl
    rw [hphase] at h
    obtain ⟨hres, hview, hopen⟩ | ⟨hres, c', hview, hleft⟩ := waitDrq_cases hp hb h
    · obtain ⟨hwords, hfetch⟩ := fetch_sector hp hb c (left + 1) hopen
        (sector * sectorWords) buffer hview
      have hrun : readLoop p base (left + 1) sector buffer s = readLoop p base left (sector + 1)
          (fetchWords p base sectorWords (sector * sectorWords) buffer (ideWaitDrq p base s).2).1
          (fetchWords p base sectorWords (sector * sectorWords) buffer (ideWaitDrq p base s).2).2 :=
        if_pos hres
      obtain ⟨hany, htrue⟩ := readLoop_spec hp hb c left (sector + 1) (lba + 1)
        (fetchWords p base sectorWords (sector * sectorWords) buffer (ideWaitDrq p base s).2).1 hfetch
      rw [hrun]
      refine ⟨hany, fun ht => ?_⟩
      obtain ⟨hidle, hbuf, hrange⟩ := htrue ht
      refine ⟨hidle, ?_, fun _ => ?_⟩
      · rw [hbuf, hwords, Nat.succ_mul left, Nat.add_comm (left * sectorWords),
          ← storeWords_append buffer (sector * sectorWords) sectorWords (left * sectorWords),
          Nat.succ_mul sector]
        refine storeWords_congr fun i _ => ?_
        rw [Nat.succ_mul, Nat.add_assoc]
      · have hin : lba < c.drive.size := hopen
        rcases Nat.eq_zero_or_pos left with rfl | hpos
        · omega
        · have := hrange (by omega)
          omega
    · obtain ⟨ph, rfl⟩ := reading_left hleft
      have hrun : readLoop p base (left + 1) sector buffer s = ((false, buffer), (ideWaitDrq p base s).2) :=
        if_neg (by simp [hres])
      rw [hrun]
      exact ⟨⟨ph, hview⟩, fun ht => by cases ht⟩

theorem readLoop_prompt (hp : Follows p view) (hq : Prompt p view) (hb : IsBase base) (c : Channel)
    (hc : c.present c.slave = true) : ∀ (left sector lba : Nat) (buffer : Words) {s : σ},
    view s = Function.update v base { c with phase := reading lba left } →
    view (readLoop p base left sector buffer s).2 = Function.update v base { c with phase := .idle }
  | 0, sector, lba, buffer, s, h => h
  | left + 1, sector, lba, buffer, s, h => by
    have hphase : reading lba (left + 1) = .toHost lba (left + 1) none := rfl
    rw [hphase] at h
    obtain ⟨hres, hview, hopen⟩ | ⟨hres, -⟩ := waitDrq_cases hp hb h
    · obtain ⟨-, hfetch⟩ := fetch_sector hp hb c (left + 1) hopen
        (sector * sectorWords) buffer hview
      have hrun : readLoop p base (left + 1) sector buffer s = readLoop p base left (sector + 1)
          (fetchWords p base sectorWords (sector * sectorWords) buffer (ideWaitDrq p base s).2).1
          (fetchWords p base sectorWords (sector * sectorWords) buffer (ideWaitDrq p base s).2).2 :=
        if_pos hres
      rw [hrun]
      exact readLoop_prompt hp hq hb c hc left (sector + 1) (lba + 1) _ hfetch
    · have hrun : readLoop p base (left + 1) sector buffer s = ((false, buffer), (ideWaitDrq p base s).2) :=
        if_neg (by simp [hres])
      rw [hrun]
      exact waitDrq_prompt hp hq hb h hc (fun _ hst => hst) hres

/-! ## Sectors written

The words that go over the data port. The drive stores a block once it has all
of it, while the driver already waits for the next one: the state of the loop
is what the channel settles to. -/

/-- The phase of a write with `left` sectors to go. -/
def writing (lba left : Nat) : Phase := if left = 0 then .idle else .fromHost lba left none

/-- The channel once `k` of `n` sectors from `lba` on are stored. -/
def stage (c : Channel) (lba n : Nat) (buffer : Words) (k : Nat) : Channel :=
  { c.setWords (storeWords c.drive.words (lba * sectorWords) (k * sectorWords) buffer) with
    phase := writing (lba + k) (n - k) }

/-- Words of the buffer that make up a sector. -/
def blockOf (buffer : Words) (sector : Nat) : Words :=
  storeWords (fun _ => 0) 0 sectorWords fun j => buffer (sector * sectorWords + j)

/-! ## A block -/

theorem putWords_spec (hp : Follows p view) (hb : IsBase base) (buffer : Words) (c : Channel)
    {lba left : Nat} (hin : lba < c.drive.size) : ∀ (n at' i : Nat) (block : Words) {s : σ},
    i + (n + 1) = sectorWords →
    view s = Function.update v base { c with phase := .fromHost lba left (some (i, block)) } →
    view (putWords p base buffer (n + 1) at' s) = Function.update v base
      { c with phase := .storing lba left (storeWords block i (n + 1) fun j => buffer (at' + j)) }
  | n, at', i, block, s, hi, h => by
    have hopen : (view s base).Transfers := by
      rw [h, Function.update_self]
      exact hin
    have hview := hp.outw (buffer at') hb hopen
    rw [h, Function.update_self, Function.update_idem] at hview
    rw [← storeWords_update block i n fun j => buffer (at' + j)]
    cases n with
    | zero =>
      simp only [Channel.given, if_neg (show ¬ i + 1 < sectorWords by omega)] at hview
      rw [storeWords_zero]
      exact hview
    | succ n =>
      simp only [Channel.given, if_pos (show i + 1 < sectorWords by omega)] at hview
      have hrest := putWords_spec hp hb buffer c hin n (at' + 1) (i + 1)
        (Function.update block i (buffer at')) (by omega) hview
      simp only [Nat.add_right_comm at' 1] at hrest
      exact hrest

theorem put_sector (hp : Follows p view) (hb : IsBase base) (buffer : Words) (c : Channel)
    {lba left : Nat} (hin : lba < c.drive.size) (sector : Nat) {s : σ}
    (h : view s = Function.update v base { c with phase := .fromHost lba left (some (0, fun _ => 0)) }) :
    view (putWords p base buffer sectorWords (sector * sectorWords) s) = Function.update v base
      { c with phase := .storing lba left (blockOf buffer sector) } :=
  putWords_spec hp hb buffer c hin 255 (sector * sectorWords) 0 (fun _ => 0) rfl h

theorem stage_succ (c : Channel) (lba n : Nat) (buffer : Words) {k : Nat} (hk : k < n) :
    ({ stage c lba n buffer k with
      phase := .storing (lba + k) (n - k) (blockOf buffer k) } : Channel).settled =
      stage c lba n buffer (k + 1) := by
  have hwords : storeWords (storeWords c.drive.words (lba * sectorWords) (k * sectorWords) buffer)
      ((lba + k) * sectorWords) sectorWords (blockOf buffer k) =
      storeWords c.drive.words (lba * sectorWords) ((k + 1) * sectorWords) buffer := by
    rw [Nat.add_mul, Nat.succ_mul, ← storeWords_append]
    refine storeWords_congr fun i hi => ?_
    have := storeWords_inside (m := fun _ => 0) (f := fun j => buffer (k * sectorWords + j)) (a := 0) hi
    rwa [Nat.zero_add] at this
  have hphase : (if n - k ≤ 1 then Phase.idle else .fromHost (lba + k + 1) (n - k - 1) none) =
      writing (lba + (k + 1)) (n - (k + 1)) := by
    by_cases h : n - k ≤ 1
    · rw [if_pos h, writing, if_pos (by omega)]
    · rw [if_neg h, writing, if_neg (by omega)]
      rfl
  simp only [Channel.settled, Channel.setWords, Channel.drive, Channel.slave, stage]
  rw [hphase, Function.update_self, Function.update_idem]
  simp only [Channel.drive, Channel.slave] at hwords
  rw [hwords]

/-! ## A write -/

/-- The channel in front of sector `k`: the one before may still be on its way
to the disk. -/
structure Pending (c : Channel) (lba n : Nat) (buffer : Words) (k : Nat) (e : Channel) : Prop where
  settles : e.settled = stage c lba n buffer k
  drives : e.drives = (stage c lba n buffer (k - 1)).drives
  present : e.present = c.present
  slave : e.slave = c.slave
  answers : ∀ st, e.Answers st → ¬ Busy st ∧ if k < n then Drq st ∨ Failed st else Ready st

theorem pending_zero (c : Channel) (lba n : Nat) (buffer : Words) :
    Pending c lba n buffer 0 (stage c lba n buffer 0) := by
  refine ⟨?_, rfl, rfl, rfl, fun st hst => ?_⟩
  · by_cases hn : n = 0 <;> simp only [Channel.settled, stage, writing, hn, Nat.sub_zero, if_true, if_false]
  · rcases Nat.eq_zero_or_pos n with rfl | hn
    · exact hst
    · rw [if_pos hn]
      simp only [Channel.Answers, stage, writing, Nat.sub_zero, show n ≠ 0 by omega, if_false] at hst
      exact hst

theorem pending_succ (c : Channel) (lba n : Nat) (buffer : Words) {k : Nat} (hk : k < n) :
    Pending c lba n buffer (k + 1) { stage c lba n buffer k with
      phase := .storing (lba + k) (n - k) (blockOf buffer k) } := by
  refine ⟨stage_succ c lba n buffer hk, rfl, rfl, rfl, fun st hst => ⟨hst.1, ?_⟩⟩
  have hrest := hst.2
  simp only at hrest
  by_cases h : n - k ≤ 1
  · rw [if_pos h] at hrest
    rw [if_neg (by omega)]
    exact hrest
  · rw [if_neg h] at hrest
    rw [if_pos (by omega)]
    exact hrest

theorem stage_opened (c : Channel) (lba n : Nat) (buffer : Words) {k : Nat} (hk : k < n) :
    (stage c lba n buffer k).opened =
      { stage c lba n buffer k with phase := .fromHost (lba + k) (n - k) (some (0, fun _ => 0)) } := by
  simp only [Channel.opened, stage, writing, show n - k ≠ 0 by omega, if_false]

theorem pending_left {c e c' : Channel} {lba n k : Nat} {buffer : Words} (he : Pending c lba n buffer k e)
    (hk : k ≤ n) (h : Left e c') : ∃ j ≤ n, c'.drives = (stage c lba n buffer j).drives := by
  obtain rfl | rfl | rfl | rfl := h
  · exact ⟨k - 1, by omega, he.drives⟩
  · exact ⟨k, hk, by rw [he.settles]⟩
  · exact ⟨k - 1, by omega, he.drives⟩
  · refine ⟨k, hk, ?_⟩
    rw [← he.settles]
    rfl

theorem put_pending (hp : Follows p view) (hb : IsBase base) {c e : Channel} {lba n k : Nat}
    {buffer : Words} (he : Pending c lba n buffer k e) (hk : k < n) {s : σ}
    (h : view s = Function.update v base e.settled.opened) (hopen : e.settled.opened.Transfers) :
    view (putWords p base buffer sectorWords (k * sectorWords) s) = Function.update v base
        { stage c lba n buffer k with phase := .storing (lba + k) (n - k) (blockOf buffer k) } ∧
      lba + k < c.drive.size := by
  rw [he.settles, stage_opened c lba n buffer hk] at h hopen
  have hin : lba + k < (stage c lba n buffer k).drive.size := hopen
  refine ⟨put_sector hp hb buffer (stage c lba n buffer k) hin k h, ?_⟩
  have hsize : (stage c lba n buffer k).drive.size = c.drive.size := by
    simp only [stage, Channel.setWords, Channel.drive, Channel.slave, Function.update_self]
  rwa [hsize] at hin

theorem writeLoop_spec (hp : Follows p view) (hb : IsBase base) (c : Channel) (lba n : Nat)
    (buffer : Words) : ∀ (left k : Nat) {e : Channel} {s : σ}, k + left = n →
    view s = Function.update v base e → Pending c lba n buffer k e →
    (∃ c', view (writeLoop p base buffer left k s).2 = Function.update v base c' ∧
      ∃ j ≤ n, c'.drives = (stage c lba n buffer j).drives) ∧
    ((writeLoop p base buffer left k s).1 = true →
      ∃ e', view (writeLoop p base buffer left k s).2 = Function.update v base e' ∧
        Pending c lba n buffer n e' ∧ (left ≠ 0 → lba + n ≤ c.drive.size))
  | 0, k, e, s, hk, h, he => by
    obtain rfl : k = n := hk
    exact ⟨⟨e, h, k - 1, by omega, he.drives⟩, fun _ => ⟨e, h, he, fun h0 => absurd rfl h0⟩⟩
  | left + 1, k, e, s, hk, h, he => by
    obtain ⟨hres, hview, hopen⟩ | ⟨hres, c', hview, hleft⟩ := waitDrq_cases hp hb h
    · obtain ⟨hput, hin⟩ := put_pending hp hb he (by omega) hview hopen
      have hrun : writeLoop p base buffer (left + 1) k s = writeLoop p base buffer left (k + 1)
          (putWords p base buffer sectorWords (k * sectorWords) (ideWaitDrq p base s).2) := if_pos hres
      obtain ⟨hany, htrue⟩ := writeLoop_spec hp hb c lba n buffer left (k + 1) (by omega) hput
        (pending_succ c lba n buffer (by omega))
      rw [hrun]
      refine ⟨hany, fun ht => ?_⟩
      obtain ⟨e', he', hpend, hrange⟩ := htrue ht
      refine ⟨e', he', hpend, fun _ => ?_⟩
      rcases Nat.eq_zero_or_pos left with rfl | hpos
      · omega
      · exact hrange (by omega)
    · have hrun : writeLoop p base buffer (left + 1) k s = (false, (ideWaitDrq p base s).2) :=
        if_neg (by simp [hres])
      rw [hrun]
      exact ⟨⟨c', hview, pending_left he (by omega) hleft⟩, fun ht => by cases ht⟩

theorem writeLoop_prompt (hp : Follows p view) (hq : Prompt p view) (hb : IsBase base) (c : Channel)
    (hc : c.present c.slave = true) (lba n : Nat) (buffer : Words) : ∀ (left k : Nat) {e : Channel} {s : σ},
    k + left = n → view s = Function.update v base e → Pending c lba n buffer k e →
    (writeLoop p base buffer left k s).1 = false →
    ∃ j ≤ n, view (writeLoop p base buffer left k s).2 =
      Function.update v base (stage c lba n buffer j).aborted
  | 0, k, e, s, hk, h, he => fun hf => by cases hf
  | left + 1, k, e, s, hk, h, he => by
    intro hf
    obtain ⟨hres, hview, hopen⟩ | ⟨hres, -⟩ := waitDrq_cases hp hb h
    · obtain ⟨hput, -⟩ := put_pending hp hb he (by omega) hview hopen
      have hrun : writeLoop p base buffer (left + 1) k s = writeLoop p base buffer left (k + 1)
          (putWords p base buffer sectorWords (k * sectorWords) (ideWaitDrq p base s).2) := if_pos hres
      rw [hrun] at hf ⊢
      exact writeLoop_prompt hp hq hb c hc lba n buffer left (k + 1) (by omega) hput
        (pending_succ c lba n buffer (by omega)) hf
    · have hrun : writeLoop p base buffer (left + 1) k s = (false, (ideWaitDrq p base s).2) :=
        if_neg (by simp [hres])
      rw [hrun]
      refine ⟨k, by omega, ?_⟩
      rw [← he.settles]
      refine waitDrq_prompt hp hq hb h (by rw [he.present, he.slave]; exact hc) (fun st hst => ?_) hres
      have := he.answers st hst
      rwa [if_pos (by omega)] at this

/-! ## Reads and writes of the driver

Whole calls of `ide_read_sectors` and `ide_write_sectors`, for drives with any
delays and any errors. -/

variable {t : Table} {id : Nat} {s : σ}

/-- The drive a record of the table stands for. -/
def driveOf (view : σ → UInt16 → Channel) (d : IdeDrive) (s : σ) : Drive :=
  (view s d.basePort).drives (isSlave d.driveNum)

/-- The sector a request reaches: the task file has 28 bits for it. -/
def reached (lba : UInt32) : Nat := lba.toNat % 2 ^ 28

/-- The drive's words from a sector on. -/
def wordsFrom (d : Drive) (lba : Nat) : Words := fun i => d.words (lba * sectorWords + i)

/-- The channel a transfer works on, its command aside. -/
def taskFile (view : σ → UInt16 → Channel) (d : IdeDrive) (lba : UInt32) (count : UInt8) (s : σ) : Channel :=
  addressed (selected (view s d.basePort) d.driveNum) d.driveNum lba count

theorem taskFile_drive (d : IdeDrive) (lba : UInt32) (count : UInt8) (s : σ) :
    (taskFile view d lba count s).drive = driveOf view d s := by
  simp only [Channel.drive, taskFile, addressed_slave]
  rfl

theorem view_readied (hp : Follows p view) {d : IdeDrive} (hb : IsBase d.basePort)
    (hrest : (view s d.basePort).phase = .idle) :
    view (ideWaitReady p d.basePort (ideSelectDrive p d.basePort d.driveNum s)).2 =
        Function.update (view s) d.basePort (selected (view s d.basePort) d.driveNum) ∧
      ((ideWaitReady p d.basePort (ideSelectDrive p d.basePort d.driveNum s)).1 = true →
        (view s d.basePort).present (isSlave d.driveNum) = true) := by
  have h := view_select hp hb (Function.update_eq_self d.basePort (view s)).symm hrest d.driveNum
  have hidle : (selected (view s d.basePort) d.driveNum).phase = .idle := hrest
  refine ⟨waitReady_idle hp hb h hidle, fun hready => ?_⟩
  have hpresent := waitReady_present hp hb h hidle hready
  rwa [selected_slave] at hpresent

theorem view_commanded (hp : Follows p view) {d : IdeDrive} (hb : IsBase d.basePort)
    (hrest : (view s d.basePort).phase = .idle) {s' : σ}
    (h : view s' = Function.update (view s) d.basePort (selected (view s d.basePort) d.driveNum))
    (lba : UInt32) (count command : UInt8) :
    view (startTransfer p d.basePort d.driveNum lba count command s') = Function.update (view s) d.basePort
      { taskFile view d lba count s with phase := (taskFile view d lba count s).started command } :=
  view_start hp hb h hrest d.driveNum lba count command

theorem taskFile_there {d : IdeDrive} {lba : UInt32} {count : UInt8}
    (hpresent : (view s d.basePort).present (isSlave d.driveNum) = true) :
    (taskFile view d lba count s).present (taskFile view d lba count s).slave = true := by
  rw [taskFile, addressed_slave]
  exact hpresent

theorem started_read {d : IdeDrive} {lba : UInt32} {count : UInt8} (hn : count ≠ 0)
    (hpresent : (view s d.basePort).present (isSlave d.driveNum) = true) :
    (taskFile view d lba count s).started ideCmdReadSectors = reading (reached lba) count.toNat := by
  have hpos : count.toNat ≠ 0 := fun h => hn (UInt8.toNat_inj.mp h)
  rw [Channel.started, if_neg (by simp [taskFile_there hpresent]), if_pos rfl, reading, if_neg hpos, taskFile, addressed_address,
    addressed_sectors _ _ _ hn]
  rfl

theorem started_write {d : IdeDrive} {lba : UInt32} {count : UInt8} (hn : count ≠ 0)
    (hpresent : (view s d.basePort).present (isSlave d.driveNum) = true) :
    (taskFile view d lba count s).started ideCmdWriteSectors = writing (reached lba) count.toNat := by
  have hpos : count.toNat ≠ 0 := fun h => hn (UInt8.toNat_inj.mp h)
  rw [Channel.started, if_neg (by simp [taskFile_there hpresent]), if_neg (by decide), if_pos rfl, writing, if_neg hpos, taskFile,
    addressed_address, addressed_sectors _ _ _ hn]
  rfl

/-- A call that sends no command: the channel is at rest, its drives as they were. -/
def Unsent (view : σ → UInt16 → Channel) (base : UInt16) (s s' : σ) : Prop :=
  ∃ c, view s' = Function.update (view s) base c ∧ c.drives = (view s base).drives ∧ c.phase = .idle

theorem Unsent.drives {base : UInt16} {s' : σ} (h : Unsent view base s s') (b : UInt16) :
    (view s' b).drives = (view s b).drives := by
  obtain ⟨c, hview, hc, -⟩ := h
  rw [hview]
  by_cases hbase : b = base
  · rw [hbase, Function.update_self, hc]
  · rw [Function.update_of_ne hbase]

theorem unsent_refl {base : UInt16} (hrest : (view s base).phase = .idle) : Unsent view base s s :=
  ⟨_, (Function.update_eq_self _ _).symm, rfl, hrest⟩

/-- A read sends its command to a drive that is there, and then loops; or it
fails without one. -/
theorem read_under_way (hp : Follows p view) (hb : IsBase (t.drives id).basePort)
    (hrest : (view s (t.drives id).basePort).phase = .idle) (lba : UInt32) (count : UInt8)
    (buffer : Words) :
    (∃ s', view s' = Function.update (view s) (t.drives id).basePort
          { taskFile view (t.drives id) lba count s with phase := reading (reached lba) count.toNat } ∧
        count.toNat ≠ 0 ∧ (view s (t.drives id).basePort).present (isSlave (t.drives id).driveNum) = true ∧
        ideReadSectors p t id lba count buffer s =
          readLoop p (t.drives id).basePort count.toNat 0 buffer s') ∨
      ∃ s', Unsent view (t.drives id).basePort s s' ∧
        ideReadSectors p t id lba count buffer s = ((false, buffer), s') := by
  by_cases hok : ideMaxDrives ≤ id ∨ ¬ (t.drives id).existing
  · exact .inr ⟨s, unsent_refl hrest, if_pos hok⟩
  by_cases hn : count = 0
  · exact .inr ⟨s, unsent_refl hrest, (if_neg hok).trans (if_pos hn)⟩
  obtain ⟨hview, hpresent⟩ := view_readied hp hb hrest
  by_cases hready : (ideWaitReady p (t.drives id).basePort
      (ideSelectDrive p (t.drives id).basePort (t.drives id).driveNum s)).1 = true
  · have hstart := view_commanded hp hb hrest hview lba count ideCmdReadSectors
    rw [started_read hn (hpresent hready)] at hstart
    exact .inl ⟨_, hstart, fun h => hn (UInt8.toNat_inj.mp h), hpresent hready,
      (if_neg hok).trans ((if_neg hn).trans (if_pos hready))⟩
  · exact .inr ⟨_, ⟨_, hview, rfl, hrest⟩, (if_neg hok).trans ((if_neg hn).trans (if_neg hready))⟩

/-- **A read never changes a drive, and what it calls a success is the sectors of
the drive**, whatever the delays and errors in between. -/
theorem read_sectors_exact (hp : Follows p view) (hb : IsBase (t.drives id).basePort)
    (hrest : (view s (t.drives id).basePort).phase = .idle) (lba : UInt32) (count : UInt8)
    (buffer : Words) :
    (∀ b, (view (ideReadSectors p t id lba count buffer s).2 b).drives = (view s b).drives) ∧
      ((ideReadSectors p t id lba count buffer s).1.1 = true →
        count ≠ 0 ∧ reached lba + count.toNat ≤ (driveOf view (t.drives id) s).size ∧
        (ideReadSectors p t id lba count buffer s).1.2 = storeWords buffer 0
          (count.toNat * sectorWords) (wordsFrom (driveOf view (t.drives id) s) (reached lba))) := by
  obtain ⟨s', hview, hn, -, hrun⟩ | ⟨s', hunsent, hrun⟩ := read_under_way hp hb hrest lba count buffer
  · rw [hrun]
    obtain ⟨⟨ph, hany⟩, htrue⟩ := readLoop_spec hp hb (taskFile view (t.drives id) lba count s)
      count.toNat 0 (reached lba) buffer hview
    refine ⟨fun b => ?_, fun ht => ?_⟩
    · rw [hany]
      by_cases hbase : b = (t.drives id).basePort
      · rw [hbase, Function.update_self]
        rfl
      · rw [Function.update_of_ne hbase]
    · obtain ⟨-, hwords, hrange⟩ := htrue ht
      rw [taskFile_drive] at hwords hrange
      refine ⟨fun h => hn (congrArg UInt8.toNat h), hrange hn, ?_⟩
      rw [hwords, Nat.zero_mul]
      rfl
  · rw [hrun]
    exact ⟨hunsent.drives, fun ht => by cases ht⟩

/-- The third sector of a drive that is busy for three polls with each block. -/
theorem read_sectors_exact_oneDrive :
    (ideReadSectors (ports 3) oneDriveTable 0 2 1 (fun _ => 0) oneDrive).1.1 = true ∧
    (ideReadSectors (ports 3) oneDriveTable 0 2 1 (fun _ => 0) oneDrive).1.2 =
      storeWords (fun _ => 0) 0 256 fun i => UInt16.ofNat (512 + i) := by
  have hrun : (ideReadSectors (ports 3) oneDriveTable 0 2 1 (fun _ => 0) oneDrive).1.1 = true := by
    decide +kernel
  obtain ⟨-, -, hwords⟩ := (@read_sectors_exact _ (ports 3) State.channels oneDriveTable 0 oneDrive
    (ports_follow 3) (.inl rfl) rfl 2 1 fun _ => 0).2 hrun
  exact ⟨hrun, hwords⟩

/-- On a drive that answers in time no channel is left with a read under way. -/
theorem read_sectors_prompt (hp : Follows p view) (hq : Prompt p view)
    (hb : IsBase (t.drives id).basePort) (hrest : (view s (t.drives id).basePort).phase = .idle)
    (lba : UInt32) (count : UInt8) (buffer : Words) :
    ∃ c, view (ideReadSectors p t id lba count buffer s).2 =
        Function.update (view s) (t.drives id).basePort c ∧ c.phase = .idle := by
  obtain ⟨s', hview, -, hpresent, hrun⟩ | ⟨s', ⟨c, hview, -, hc⟩, hrun⟩ :=
    read_under_way hp hb hrest lba count buffer
  · rw [hrun]
    exact ⟨_, readLoop_prompt hp hq hb (taskFile view (t.drives id) lba count s)
      (taskFile_there hpresent) count.toNat 0 (reached lba) buffer hview, rfl⟩
  · rw [hrun]
    exact ⟨c, hview, hc⟩

/-! ## Writes -/

/-- All drives once `k` sectors of a write are stored. -/
def written (view : σ → UInt16 → Channel) (d : IdeDrive) (lba : UInt32) (k : Nat) (buffer : Words) (s : σ) :
    UInt16 → Bool → Drive :=
  fun b => if b = d.basePort then
      Function.update (view s b).drives (isSlave d.driveNum)
        { driveOf view d s with
          words := storeWords (driveOf view d s).words (reached lba * sectorWords) (k * sectorWords) buffer }
    else (view s b).drives

theorem written_zero (d : IdeDrive) (lba : UInt32) (buffer : Words) (s : σ) (b : UInt16) :
    written view d lba 0 buffer s b = (view s b).drives := by
  by_cases hb : b = d.basePort
  · subst hb
    rw [written, if_pos rfl, Nat.zero_mul, storeWords_zero]
    exact Function.update_eq_self (isSlave d.driveNum) _
  · exact if_neg hb

theorem written_of_stage {d : IdeDrive} {lba : UInt32} {count : UInt8} {k : Nat} {buffer : Words}
    {s s' : σ} {c : Channel} (hview : view s' = Function.update (view s) d.basePort c)
    (hc : c.drives = (stage (taskFile view d lba count s) (reached lba) count.toNat buffer k).drives)
    (b : UInt16) : (view s' b).drives = written view d lba k buffer s b := by
  rw [hview]
  by_cases hb : b = d.basePort
  · rw [hb, Function.update_self, hc, written, if_pos rfl]
    simp only [stage, Channel.setWords, taskFile_drive]
    rw [taskFile, addressed_slave]
    rfl
  · rw [Function.update_of_ne hb, written, if_neg hb]

/-- The machine when all sectors of a write are handed over and its last wait
begins. -/
def handedOver (p : Ports σ) (t : Table) (id : Nat) (lba : UInt32) (count : UInt8) (buffer : Words)
    (s : σ) : σ :=
  let d := t.drives id
  let ready := ideWaitReady p d.basePort (ideSelectDrive p d.basePort d.driveNum s)
  (writeLoop p d.basePort buffer count.toNat 0
    (startTransfer p d.basePort d.driveNum lba count ideCmdWriteSectors ready.2)).2

theorem write_under_way (hp : Follows p view) (hb : IsBase (t.drives id).basePort)
    (hrest : (view s (t.drives id).basePort).phase = .idle) (lba : UInt32) (count : UInt8)
    (buffer : Words) :
    (∃ s', view s' = Function.update (view s) (t.drives id).basePort
          (stage (taskFile view (t.drives id) lba count s) (reached lba) count.toNat buffer 0) ∧
        count.toNat ≠ 0 ∧ (view s (t.drives id).basePort).present (isSlave (t.drives id).driveNum) = true ∧
        (writeLoop p (t.drives id).basePort buffer count.toNat 0 s').2 =
          handedOver p t id lba count buffer s ∧
        ideWriteSectors p t id lba count buffer s =
          if (writeLoop p (t.drives id).basePort buffer count.toNat 0 s').1 then
            ideWaitReady p (t.drives id).basePort
              (writeLoop p (t.drives id).basePort buffer count.toNat 0 s').2
          else (false, (writeLoop p (t.drives id).basePort buffer count.toNat 0 s').2)) ∨
      ∃ s', Unsent view (t.drives id).basePort s s' ∧
        ideWriteSectors p t id lba count buffer s = (false, s') := by
  by_cases hok : ideMaxDrives ≤ id ∨ ¬ (t.drives id).existing
  · exact .inr ⟨s, unsent_refl hrest, if_pos hok⟩
  by_cases hn : count = 0
  · exact .inr ⟨s, unsent_refl hrest, (if_neg hok).trans (if_pos hn)⟩
  obtain ⟨hview, hpresent⟩ := view_readied hp hb hrest
  by_cases hready : (ideWaitReady p (t.drives id).basePort
      (ideSelectDrive p (t.drives id).basePort (t.drives id).driveNum s)).1 = true
  · have hstart := view_commanded hp hb hrest hview lba count ideCmdWriteSectors
    rw [started_write hn (hpresent hready)] at hstart
    have hstage : stage (taskFile view (t.drives id) lba count s) (reached lba) count.toNat buffer 0 =
        { taskFile view (t.drives id) lba count s with phase := writing (reached lba) count.toNat } := by
      simp only [stage, Channel.setWords, Nat.zero_mul, storeWords_zero, Nat.add_zero, Nat.sub_zero]
      congr 1
      exact Function.update_eq_self _ _
    rw [← hstage] at hstart
    exact .inl ⟨_, hstart, fun h => hn (UInt8.toNat_inj.mp h), hpresent hready, rfl,
      (if_neg hok).trans ((if_neg hn).trans (if_pos hready))⟩
  · exact .inr ⟨_, ⟨_, hview, rfl, hrest⟩, (if_neg hok).trans ((if_neg hn).trans (if_neg hready))⟩

/-- On a drive that answers in time a write ends at rest, and one that succeeds
has stored all its sectors. -/
theorem write_sectors_prompt (hp : Follows p view) (hq : Prompt p view)
    (hb : IsBase (t.drives id).basePort) (hrest : (view s (t.drives id).basePort).phase = .idle)
    (lba : UInt32) (count : UInt8) (buffer : Words) :
    ∃ k ≤ count.toNat, ∃ c,
      view (ideWriteSectors p t id lba count buffer s).2 =
        Function.update (view s) (t.drives id).basePort c ∧ c.phase = .idle ∧
      (∀ b, (view (ideWriteSectors p t id lba count buffer s).2 b).drives =
        written view (t.drives id) lba k buffer s b) ∧
      ((ideWriteSectors p t id lba count buffer s).1 = true → k = count.toNat) := by
  obtain ⟨s', hview, hpos, hpresent, -, hrun⟩ | ⟨s', hunsent, hrun⟩ :=
    write_under_way hp hb hrest lba count buffer
  · rw [hrun]
    have hthere : (taskFile view (t.drives id) lba count s).present
        (taskFile view (t.drives id) lba count s).slave = true :=
      taskFile_there hpresent
    by_cases hloop : (writeLoop p (t.drives id).basePort buffer count.toNat 0 s').1 = true
    · rw [if_pos hloop]
      obtain ⟨-, htrue⟩ := writeLoop_spec hp hb (taskFile view (t.drives id) lba count s)
        (reached lba) count.toNat buffer count.toNat 0 (Nat.zero_add _) hview (pending_zero _ _ _ _)
      obtain ⟨e, he, hpend, -⟩ := htrue hloop
      have hidle : e.settled.phase = .idle := by
        rw [hpend.settles]
        exact if_pos (Nat.sub_self _)
      have hend := waitReady_prompt hp hq hb he (by rw [hpend.present, hpend.slave]; exact hthere) hidle
        fun st hst => by
          have := hpend.answers st hst
          rwa [if_neg (by omega)] at this
      exact ⟨count.toNat, by omega, _, hend, hidle,
        written_of_stage hend (by rw [hpend.settles]), fun _ => rfl⟩
    · rw [if_neg hloop]
      obtain ⟨j, hj, hend⟩ := writeLoop_prompt hp hq hb (taskFile view (t.drives id) lba count s) hthere
        (reached lba) count.toNat buffer count.toNat 0 (Nat.zero_add _) hview (pending_zero _ _ _ _)
        (Bool.not_eq_true _ ▸ hloop)
      exact ⟨j, hj, _, hend, rfl, written_of_stage hend rfl, fun ht => by cases ht⟩
  · rw [hrun]
    have hsame := hunsent.drives
    obtain ⟨c, hview, -, hc⟩ := hunsent
    exact ⟨0, by omega, c, hview, hc, fun b => (hsame b).trans (written_zero _ _ _ _ b).symm,
      fun ht => by cases ht⟩

end ContinuumOS.Disk.Transfers
