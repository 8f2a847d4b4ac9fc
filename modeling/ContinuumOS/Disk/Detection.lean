import ContinuumOS.Disk.Transfers

/-! # Drives found

`IDENTIFY` and the probes of `ide_init`: the table holds drives that are there,
in the order of the probes, with the sizes they told. -/
namespace ContinuumOS.Disk.Detection
open ContinuumOS.Disk.Ide ContinuumOS.Disk.Ata ContinuumOS.Disk.Polling
open ContinuumOS.Disk.Transfers

variable {σ : Type} {p : Ports σ} {view : σ → UInt16 → Channel} {base : UInt16}
  {v : UInt16 → Channel} {c : Channel} {s : σ}

/-- The phases between the command and its data. -/
def Identifying (ph : Phase) : Prop := ph = .identify none ∨ ph = .identify (some 0) ∨ ph = .idle

theorem polled_identify {ph : Phase} (h : Identifying ph) (st : UInt8) :
    ∃ ph', Identifying ph' ∧ ({ c with phase := ph } : Channel).polled st = { c with phase := ph' } := by
  by_cases hbusy : Busy st
  · exact ⟨ph, h, if_pos hbusy⟩
  by_cases herr : Failed st
  · exact ⟨.idle, .inr (.inr rfl), (if_neg hbusy).trans (if_pos herr)⟩
  have hrest : ({ c with phase := ph } : Channel).polled st =
      if Drq st then ({ c with phase := ph } : Channel).settled.opened
      else ({ c with phase := ph } : Channel).settled := (if_neg hbusy).trans (if_neg herr)
  rw [hrest]
  obtain rfl | rfl | rfl := h
  · by_cases hdrq : Drq st
    · exact ⟨.identify (some 0), .inr (.inl rfl), if_pos hdrq⟩
    · exact ⟨.identify none, .inl rfl, if_neg hdrq⟩
  · exact ⟨.identify (some 0), .inr (.inl rfl), ite_self _⟩
  · exact ⟨.idle, .inr (.inr rfl), ite_self _⟩

theorem view_glances_identify (hp : Follows p view) (hb : IsBase base) (k : Nat) : ∀ {s : σ} {ph : Phase},
    Identifying ph → view s = Function.update v base { c with phase := ph } →
    ∃ ph', Identifying ph' ∧
      view ((glance p base)^[k] s) = Function.update v base { c with phase := ph' } := by
  induction k with
  | zero => exact fun hph h => ⟨_, hph, h⟩
  | succ k ih =>
    intro s ph hph h
    obtain ⟨ph', hph', hpolled⟩ := polled_identify (c := c) hph (statusAt p base s 0)
    exact ih hph' (by rw [view_glance hp hb h, hpolled])

theorem fetched_identity (c : Channel) : ∀ j < sectorWords,
    Channel.fetched^[j] { c with phase := .identify (some 0) } = { c with phase := .identify (some j) }
  | 0, _ => rfl
  | j + 1, hj => by
    rw [Function.iterate_succ_apply', fetched_identity c j (by omega)]
    simp only [Channel.fetched, if_pos hj]

theorem fetched_identity_end (c : Channel) :
    Channel.fetched^[sectorWords] { c with phase := .identify (some 0) } = { c with phase := .idle } := by
  rw [show sectorWords = 255 + 1 from rfl, Function.iterate_succ_apply',
    fetched_identity c 255 (by decide)]
  rfl

theorem fetch_identity (hp : Follows p view) (hb : IsBase base) (c : Channel) {s : σ} (buffer : Words)
    (h : view s = Function.update v base { c with phase := .identify (some 0) }) :
    (fetchWords p base sectorWords 0 buffer s).1 = storeWords buffer 0 sectorWords c.drive.identity ∧
      view (fetchWords p base sectorWords 0 buffer s).2 =
        Function.update v base { c with phase := .idle } := by
  obtain ⟨hwords, hview⟩ := fetchWords_spec hp hb sectorWords 0 buffer h fun j hj => by
    rw [fetched_identity c j hj]
    exact trivial
  rw [fetched_identity_end] at hview
  refine ⟨hwords.trans (storeWords_congr fun i hi => ?_), hview⟩
  rw [fetched_identity c i hi]
  rfl

theorem waitDrq_identify (hp : Follows p view) (hq : Prompt p view) (hb : IsBase base)
    (hc : c.present c.slave = true) {ph : Phase} (hph : Identifying ph)
    (h : view s = Function.update v base { c with phase := ph }) :
    (ideWaitDrq p base s).1 = true ∧
        view (ideWaitDrq p base s).2 = Function.update v base { c with phase := .identify (some 0) } ∨
      (ideWaitDrq p base s).1 = false ∧
        view (ideWaitDrq p base s).2 = Function.update v base { c with phase := .idle } := by
  rcases Bool.eq_false_or_eq_true (ideWaitDrq p base s).1 with hres | hres
  · refine .inl ⟨hres, ?_⟩
    obtain ⟨-, hview, -⟩ | ⟨hf, -⟩ := waitDrq_cases hp hb h
    · obtain rfl | rfl | rfl := hph
      · exact hview
      · exact hview
      · cases hres.symm.trans (waitDrq_idle hp hb h rfl).1
    · cases hres.symm.trans hf
  · refine .inr ⟨hres, ?_⟩
    obtain rfl | rfl | rfl := hph
    · exact waitDrq_prompt hp hq hb h hc (fun _ hst => hst) hres
    · exact waitDrq_prompt hp hq hb h hc (fun _ hst => hst) hres
    · exact (waitDrq_idle hp hb h rfl).2

/-- **`ide_identify` tells what a drive that is there sends, and leaves the
channel at rest.** -/
theorem identify_spec (hp : Follows p view) (hq : Prompt p view) (t : Table) (id : Nat) (buffer : Words)
    (hb : IsBase (t.drives id).basePort) (hrest : (view s (t.drives id).basePort).phase = .idle) :
    Unsent view (t.drives id).basePort s (ideIdentify p t id buffer s).2 ∧
      ∀ words, (ideIdentify p t id buffer s).1 = some words →
        (view s (t.drives id).basePort).present (isSlave (t.drives id).driveNum) = true ∧
        words = storeWords buffer 0 sectorWords (driveOf view (t.drives id) s).identity := by
  by_cases hid : ideMaxDrives ≤ id
  · rw [show ideIdentify p t id buffer s = (none, s) from if_pos hid]
    exact ⟨unsent_refl hrest, fun _ hw => by cases hw⟩
  obtain ⟨hview, hpresent⟩ := view_readied hp hb hrest
  by_cases hready : (ideWaitReady p (t.drives id).basePort
      (ideSelectDrive p (t.drives id).basePort (t.drives id).driveNum s)).1 = true
  · have hthere := hpresent hready
    generalize hs₁ : (ideWaitReady p (t.drives id).basePort
      (ideSelectDrive p (t.drives id).basePort (t.drives id).driveNum s)).2 = s₁ at hview
    generalize hc : selected (view s (t.drives id).basePort) (t.drives id).driveNum = c at hview
    have hslave : c.slave = isSlave (t.drives id).driveNum := by rw [← hc, selected_slave]
    have hcpresent : c.present c.slave = true := by
      rw [hslave, ← hc]
      exact hthere
    have hcidle : c.phase = .idle := by
      rw [← hc]
      exact hrest
    have hcdrives : c.drives = (view s (t.drives id).basePort).drives := by
      rw [← hc]
      rfl
    -- the command, the delay behind it, and the status that is looked at once
    have hcmd := view_outb hp hb ideRegCommand (by decide) (by decide) hview hcidle ideCmdIdentify
    have hstarted : c.outb ideRegCommand ideCmdIdentify = { c with phase := .identify none } := by
      rw [show c.outb ideRegCommand ideCmdIdentify = { c with phase := c.started ideCmdIdentify } from rfl,
        Channel.started, if_neg (by simp [hcpresent]), if_neg (by decide), if_neg (by decide), if_pos rfl]
    rw [hstarted] at hcmd
    obtain ⟨ph, hph, hdelayed⟩ := view_glances_identify hp hb 4 (.inl rfl) hcmd
    obtain ⟨ph', hph', hlooked⟩ := view_glances_identify hp hb 1 hph hdelayed
    generalize hs₂ : (glance p (t.drives id).basePort)^[4]
      (p.outb ((t.drives id).basePort + ideRegCommand) ideCmdIdentify s₁) = s₂ at hdelayed hlooked
    have hnonzero : (p.inb ((t.drives id).basePort + ideRegStatus) s₂).1 ≠ 0 :=
      hq.shows (s := s₂) hb (by rw [hdelayed, Function.update_self]; exact hcpresent)
    have hrun : ideIdentify p t id buffer s =
        if (ideWaitDrq p (t.drives id).basePort (glance p (t.drives id).basePort s₂)).1 then
          (some (fetchWords p (t.drives id).basePort sectorWords 0 buffer
              (ideWaitDrq p (t.drives id).basePort (glance p (t.drives id).basePort s₂)).2).1,
            (fetchWords p (t.drives id).basePort sectorWords 0 buffer
              (ideWaitDrq p (t.drives id).basePort (glance p (t.drives id).basePort s₂)).2).2)
        else (none, (ideWaitDrq p (t.drives id).basePort (glance p (t.drives id).basePort s₂)).2) := by
      refine (if_neg hid).trans ((if_pos hready).trans ?_)
      rw [hs₁]
      simp only [ideDelay, hs₂]
      exact if_neg hnonzero
    rw [hrun]
    obtain ⟨hres, hopen⟩ | ⟨hres, hended⟩ :=
      waitDrq_identify hp hq hb hcpresent hph' (s := glance p (t.drives id).basePort s₂) hlooked
    · rw [if_pos hres]
      obtain ⟨hwords, hend⟩ := fetch_identity hp hb c buffer hopen
      refine ⟨⟨_, hend, hcdrives, rfl⟩, fun words hw => ⟨hthere, ?_⟩⟩
      rw [← Option.some.inj hw, hwords, Channel.drive, hslave, hcdrives]
      rfl
    · rw [if_neg (by simp [hres])]
      exact ⟨⟨_, hended, hcdrives, rfl⟩, fun _ hw => by cases hw⟩
  · rw [show ideIdentify p t id buffer s = (none, (ideWaitReady p (t.drives id).basePort
      (ideSelectDrive p (t.drives id).basePort (t.drives id).driveNum s)).2) from
      (if_neg hid).trans (if_neg hready)]
    exact ⟨⟨_, hview, rfl, hrest⟩, fun _ hw => by cases hw⟩

/-! ## The probes -/

/-- No command is under way on either channel. -/
def AtRest (view : σ → UInt16 → Channel) (s : σ) : Prop := ∀ b, IsBase b → (view s b).phase = .idle

theorem AtRest.unsent {base : UInt16} {s' : σ} (hrest : AtRest view s) (h : Unsent view base s s') :
    AtRest view s' := by
  obtain ⟨c, hview, -, hc⟩ := h
  intro b hb
  rw [hview]
  by_cases hbase : b = base
  · rw [hbase, Function.update_self, hc]
  · rw [Function.update_of_ne hbase]
    exact hrest b hb

/-- A record that stands for the drive at a position. -/
structure Matches (view : σ → UInt16 → Channel) (s : σ) (pos : UInt16 × UInt8) (d : IdeDrive) : Prop where
  basePort : d.basePort = pos.1
  driveNum : d.driveNum = pos.2
  existing : d.existing = true
  sectors : d.sectors.toNat = (driveOf view d s).size

theorem Matches.congr {pos : UInt16 × UInt8} {d : IdeDrive} {s' : σ}
    (h : ∀ b, (view s' b).drives = (view s b).drives) (hd : Matches view s' pos d) :
    Matches view s pos d := by
  refine ⟨hd.basePort, hd.driveNum, hd.existing, ?_⟩
  rw [hd.sectors, driveOf, h]
  rfl

theorem toNat_pair (lo hi : UInt16) :
    (lo.toUInt32 ||| (hi.toUInt32 <<< 16)).toNat = lo.toNat + 2 ^ 16 * hi.toNat := by
  have hlo := lo.toNat_lt
  have hhi := hi.toNat_lt
  have hshift : (hi.toUInt32 <<< 16).toNat = hi.toNat <<< 16 := by
    simp [Nat.shiftLeft_eq]
    omega
  rw [UInt32.toNat_or, hshift, UInt16.toNat_toUInt32, Nat.or_comm,
    ← Nat.shiftLeft_add_eq_or_of_lt hlo, Nat.shiftLeft_eq, Nat.add_comm, Nat.mul_comm]

theorem detect_spec (hp : Follows p view) (hq : Prompt p view) {base : UInt16} (hb : IsBase base)
    (dn : UInt8) (temp : IdeDrive) (buffer : Words) (t : Table) (hrest : AtRest view s) :
    Unsent view base s (ideDetectDrive p base dn temp buffer t s).2 ∧ ∃ d,
      (ideDetectDrive p base dn temp buffer t s).1.drives = Function.update t.drives t.driveCount d ∧
      ((ideDetectDrive p base dn temp buffer t s).1.driveCount = t.driveCount + 1 ∧
          Matches view s (base, dn) d ∨
        (ideDetectDrive p base dn temp buffer t s).1.driveCount = t.driveCount ∧ d.existing = false) := by
  generalize htried : ({ temp with basePort := base, driveNum := dn } : IdeDrive) = tried
  generalize htable : ({ t with drives := Function.update t.drives t.driveCount tried } : Table) = table
  have hslot : table.drives t.driveCount = tried := by
    rw [← htable]
    exact Function.update_self t.driveCount tried t.drives
  have hbase : tried.basePort = base := by rw [← htried]
  have hnum : tried.driveNum = dn := by rw [← htried]
  obtain ⟨hunsent, hwords⟩ := identify_spec hp hq table t.driveCount buffer
    (by rw [hslot, hbase]; exact hb) (by rw [hslot, hbase]; exact hrest base hb)
  rw [hslot, hbase] at hunsent
  rw [hslot] at hwords
  have hrun : ideDetectDrive p base dn temp buffer t s =
      (ideIdentify p table t.driveCount buffer s).1.elim
        ({ t with drives := Function.update t.drives t.driveCount { tried with existing := false } },
          (ideIdentify p table t.driveCount buffer s).2)
        fun words => (⟨Function.update t.drives t.driveCount { tried with
            existing := true
            cylinders := words 1
            heads := words 3
            sectorsPerTrack := words 6
            sectors := (words 60).toUInt32 ||| ((words 61).toUInt32 <<< 16) }, t.driveCount + 1⟩,
          (ideIdentify p table t.driveCount buffer s).2) := by
    subst htable htried
    unfold ideDetectDrive
    dsimp only
    split
    · next h => simp only [h, Option.elim]
    · next h => simp only [h, Option.elim]
  rw [hrun]
  cases hid : (ideIdentify p table t.driveCount buffer s).1 with
  | none => exact ⟨hunsent, _, rfl, .inr ⟨rfl, rfl⟩⟩
  | some words =>
    obtain ⟨-, rfl⟩ := hwords words hid
    refine ⟨hunsent, _, rfl, .inl ⟨rfl, hbase, hnum, rfl, ?_⟩⟩
    have hword : ∀ i < sectorWords, storeWords buffer 0 sectorWords (driveOf view tried s).identity i =
        (driveOf view tried s).identity i := by
      intro i hi
      have := storeWords_inside (m := buffer) (f := (driveOf view tried s).identity) (a := 0) hi
      rwa [Nat.zero_add] at this
    simp only
    rw [toNat_pair, hword 60 (by decide), hword 61 (by decide)]
    exact (hp.identity _ (by rw [hbase]; exact hb)).1

/-- **What the probes leave**: the drives that answered, in the order of the
probes, and channels as they were. -/
theorem probe_spec (hp : Follows p view) (hq : Prompt p view) (stack : UInt16 × UInt8 → IdeDrive × Words) :
    ∀ (l : List (UInt16 × UInt8)) (t : Table) {s : σ}, (∀ x ∈ l, IsBase x.1) → AtRest view s →
    (∀ j, t.driveCount ≤ j → (t.drives j).existing = false) →
    AtRest view (probe p stack l t s).2 ∧
    (∀ b, (view (probe p stack l t s).2 b).drives = (view s b).drives) ∧
    (∀ j, (probe p stack l t s).1.driveCount ≤ j →
      ((probe p stack l t s).1.drives j).existing = false) ∧
    (∀ j < t.driveCount, (probe p stack l t s).1.drives j = t.drives j) ∧
    ∃ found : List (UInt16 × UInt8), found.Sublist l ∧
      (probe p stack l t s).1.driveCount = t.driveCount + found.length ∧
      ∀ i pos, found[i]? = some pos →
        Matches view s pos ((probe p stack l t s).1.drives (t.driveCount + i))
  | [], t, s, _, hrest, hfree =>
    ⟨hrest, fun _ => rfl, hfree, fun _ _ => rfl, [], .slnil, rfl, fun _ _ h => by simp at h⟩
  | pos :: l, t, s, hl, hrest, hfree => by
    obtain ⟨hunsent, d, hdrives, hcount⟩ := detect_spec hp hq (hl pos (.head _)) pos.2 (stack pos).1
      (stack pos).2 t hrest
    rw [show probe p stack (pos :: l) t s = probe p stack l
      (ideDetectDrive p pos.1 pos.2 (stack pos).1 (stack pos).2 t s).1
      (ideDetectDrive p pos.1 pos.2 (stack pos).1 (stack pos).2 t s).2 from rfl]
    generalize hr : ideDetectDrive p pos.1 pos.2 (stack pos).1 (stack pos).2 t s = r at *
    have hfree' : ∀ j, r.1.driveCount ≤ j → (r.1.drives j).existing = false := by
      intro j hj
      rw [hdrives]
      obtain ⟨hc, -⟩ | ⟨hc, hd⟩ := hcount
      · rw [Function.update_of_ne (by omega)]
        exact hfree j (by omega)
      · by_cases hjc : j = t.driveCount
        · rw [hjc, Function.update_self, hd]
        · rw [Function.update_of_ne hjc]
          exact hfree j (by omega)
    obtain ⟨hrest', hsame, hend, hold, found, hsub, hlen, hmatch⟩ := probe_spec hp hq stack l r.1
      (fun x hx => hl x (.tail _ hx)) (hrest.unsent hunsent) hfree'
    refine ⟨hrest', fun b => (hsame b).trans (hunsent.drives b), hend, fun j hj => ?_, ?_⟩
    · rw [hold j (by rcases hcount with ⟨h, -⟩ | ⟨h, -⟩ <;> omega), hdrives,
        Function.update_of_ne (by omega)]
    obtain ⟨hc, hd⟩ | ⟨hc, -⟩ := hcount
    · refine ⟨pos :: found, hsub.cons_cons pos, by rw [hlen, hc, List.length_cons]; omega, ?_⟩
      intro i x hx
      cases i with
      | zero =>
        obtain rfl : pos = x := by simpa using hx
        rw [Nat.add_zero, hold _ (by omega), hdrives, Function.update_self]
        exact hd
      | succ i =>
        have := hmatch i x (by simpa using hx)
        rw [hc] at this
        rw [show t.driveCount + (i + 1) = t.driveCount + 1 + i by omega]
        exact this.congr fun b => hunsent.drives b
    · refine ⟨found, hsub.cons pos, by rw [hlen, hc], fun i x hx => ?_⟩
      have := hmatch i x hx
      rw [hc] at this
      exact this.congr fun b => hunsent.drives b

theorem init_spec (hp : Follows p view) (hq : Prompt p view) (stack : UInt16 × UInt8 → IdeDrive × Words)
    (hrest : AtRest view s) :
    AtRest view (ideInit p stack s).2 ∧
    (∀ b, (view (ideInit p stack s).2 b).drives = (view s b).drives) ∧
    (∀ j, (ideInit p stack s).1.driveCount ≤ j → ((ideInit p stack s).1.drives j).existing = false) ∧
    ∃ found : List (UInt16 × UInt8), found.Sublist probed ∧
      (ideInit p stack s).1.driveCount = found.length ∧
      ∀ i pos, found[i]? = some pos → Matches view s pos ((ideInit p stack s).1.drives i) := by
  have hbases : ∀ x ∈ probed, IsBase x.1 := by
    intro x hx
    simp only [probed, List.mem_cons, List.not_mem_nil, or_false] at hx
    obtain rfl | rfl | rfl | rfl := hx
    · exact .inl rfl
    · exact .inl rfl
    · exact .inr rfl
    · exact .inr rfl
  obtain ⟨hrest', hsame, hend, -, found, hsub, hlen, hmatch⟩ :=
    probe_spec hp hq stack probed ⟨fun _ => IdeDrive.zero, 0⟩ hbases hrest fun _ _ => rfl
  refine ⟨hrest', hsame, hend, found, hsub, by rw [ideInit, hlen]; exact Nat.zero_add _, ?_⟩
  intro i pos hi
  have := hmatch i pos hi
  rwa [Nat.zero_add] at this

end ContinuumOS.Disk.Detection
