import Mathlib.Logic.Relation
import ContinuumOS.Sched.Stubs

/-! # Saving a process and coming back to it

The frame an interrupt builds is followed word by word (`interrupt_frame`), the
handlers are described by what they do to the processes (`HandlerSpec`), and
the trampoline by the registers it loads (`switchToTrampoline_cpu`). Together
they say what a process finds when it is resumed after any run in between: its
registers, except for a stack pointer that is 20 bytes too low. -/
namespace ContinuumOS.Sched.RoundTrip
open ContinuumOS.Lib.Stack ContinuumOS.Sched.Scheduler ContinuumOS.Sched.Stubs

/-! ## The frame -/

/-- The words from the stack pointer upwards. -/
def Top (s : Machine) (ws : List UInt32) : Prop := Holds s.mem s.cpu.esp ws

theorem Top.push {s : Machine} {ws : List UInt32} (h : Top s ws) (hlen : ws.length < 2 ^ 29)
    (v : UInt32) : Top (s.push v) (v :: ws) := Holds.push h hlen

theorem run_cons (i : Instr) (is : List Instr) (s : Machine) :
    run (i :: is) s = run is (exec s i) := rfl

theorem run_nil (s : Machine) : run [] s = s := rfl

theorem push_eax (s : Machine) (v : UInt32) : (s.push v).cpu.eax = s.cpu.eax := rfl

theorem push_sched (s : Machine) (v : UInt32) : (s.push v).sched = s.sched := rfl

theorem push_ds (s : Machine) (v : UInt32) : (s.push v).cpu.ds = s.cpu.ds := rfl

/-- `registers_t` as the stub builds it on the stack of the interrupted code. -/
def frameWords (src : Source) (c : Cpu) : List UInt32 :=
  [setLow c.eax c.ds, c.edi, c.esi, c.ebp, c.esp - 20, c.ebx, c.edx, c.ecx, c.eax, src.intNo, 0,
    c.eip, c.cs, c.eflags]

/-- Between two points of a stub: `ws` was pushed, the scheduler's data and the
registers of `c` are as they were. -/
structure Pushed (s₀ : Machine) (c : Cpu) (ws : List UInt32) (s : Machine) : Prop where
  sched : s.sched = s₀.sched
  top : Top s ws
  esp : s.cpu.esp = s₀.cpu.esp - 4 * UInt32.ofNat ws.length
  regs : s.cpu.ebx = c.ebx ∧ s.cpu.ecx = c.ecx ∧ s.cpu.edx = c.edx ∧ s.cpu.esi = c.esi ∧
    s.cpu.edi = c.edi ∧ s.cpu.ebp = c.ebp

variable {s₀ s : Machine} {c : Cpu} {ws : List UInt32}

theorem Pushed.start (s₀ : Machine) : Pushed s₀ s₀.cpu [] s₀ :=
  ⟨rfl, trivial, by simp, rfl, rfl, rfl, rfl, rfl, rfl⟩

theorem Pushed.push (h : Pushed s₀ c ws s) (hlen : ws.length < 2 ^ 29) (v : UInt32) :
    Pushed s₀ c (v :: ws) (s.push v) := by
  refine ⟨h.sched, h.top.push hlen v, ?_, h.regs⟩
  have he : (s.push v).cpu.esp = s.cpu.esp - 4 := rfl
  have hn : UInt32.ofNat (v :: ws).length = UInt32.ofNat ws.length + 1 := by
    rw [List.length_cons, UInt32.ofNat_add]; rfl
  rw [he, h.esp, hn]
  grind

theorem Pushed.keep (h : Pushed s₀ c ws s) {s' : Machine} (hs : s'.sched = s.sched)
    (hm : s'.mem = s.mem) (he : s'.cpu.esp = s.cpu.esp)
    (hr : s'.cpu.ebx = s.cpu.ebx ∧ s'.cpu.ecx = s.cpu.ecx ∧ s'.cpu.edx = s.cpu.edx ∧
      s'.cpu.esi = s.cpu.esi ∧ s'.cpu.edi = s.cpu.edi ∧ s'.cpu.ebp = s.cpu.ebp) :
    Pushed s₀ c ws s' := by
  obtain ⟨h₁, h₂, h₃, h₄, h₅, h₆⟩ := hr
  refine ⟨hs.trans h.sched, ?_, he.trans h.esp, ?_⟩
  · have := h.top
    rw [Top] at this ⊢
    rwa [hm, he]
  · rw [h₁, h₂, h₃, h₄, h₅, h₆]; exact h.regs

theorem cpuInterrupt_pushed (s : Machine) :
    Pushed s s.cpu [s.cpu.eip, s.cpu.cs, s.cpu.eflags] (cpuInterrupt s) := by
  have h := (((Pushed.start s).push (by simp) s.cpu.eflags).push (by simp) s.cpu.cs).push
    (by simp) s.cpu.eip
  exact h.keep rfl rfl rfl ⟨rfl, rfl, rfl, rfl, rfl, rfl⟩

theorem entryStub_pushed (h : Pushed s₀ c ws s) (hlen : ws.length < 2 ^ 28) (src : Source) :
    Pushed s₀ c (src.intNo :: 0 :: ws) (run (entryStub src) s) := by
  have h₁ : Pushed s₀ c ws (exec s .cli) := h.keep rfl rfl rfl ⟨rfl, rfl, rfl, rfl, rfl, rfl⟩
  exact (h₁.push (by omega) 0).push (by simp; omega) src.intNo

theorem pusha_pushed (h : Pushed s₀ c ws s) (hlen : ws.length < 2 ^ 28) :
    Pushed s₀ c (c.edi :: c.esi :: c.ebp :: s.cpu.esp :: c.ebx :: c.edx :: c.ecx :: s.cpu.eax :: ws)
      (exec s .pusha) := by
  obtain ⟨h₁, h₂, h₃, h₄, h₅, h₆⟩ := id h.regs
  have hp := (((((((h.push (by omega) s.cpu.eax).push (by simp; omega) s.cpu.ecx).push
    (by simp; omega) s.cpu.edx).push (by simp; omega) s.cpu.ebx).push
    (by simp; omega) s.cpu.esp).push (by simp; omega) s.cpu.ebp).push
    (by simp; omega) s.cpu.esi).push (by simp; omega) s.cpu.edi
  rw [h₁, h₂, h₃, h₄, h₅, h₆] at hp
  have he : exec s .pusha = (((((((s.push s.cpu.eax).push s.cpu.ecx).push s.cpu.edx).push
    s.cpu.ebx).push s.cpu.esp).push s.cpu.ebp).push s.cpu.esi).push s.cpu.edi := rfl
  rw [he, h₁, h₂, h₃, h₄, h₅, h₆]
  exact hp

theorem commonStubHead_pushed (h : Pushed s₀ c ws s) (hlen : ws.length < 2 ^ 28) :
    Pushed s₀ c ((s.cpu.esp - 36) :: setLow s.cpu.eax s.cpu.ds :: c.edi :: c.esi :: c.ebp ::
      s.cpu.esp :: c.ebx :: c.edx :: c.ecx :: s.cpu.eax :: ws) (run commonStubHead s) := by
  have h₁ : Pushed s₀ c ws (exec s .cli) := h.keep rfl rfl rfl ⟨rfl, rfl, rfl, rfl, rfl, rfl⟩
  have h₂ := pusha_pushed h₁ hlen
  have hesp : (exec (exec s .cli) .pusha).cpu.esp = s.cpu.esp - 32 := by
    rw [h₂.esp, h.esp]
    simp only [List.length_cons, UInt32.ofNat_add]
    grind
  have hax : setLow (exec (exec s .cli) .pusha).cpu.eax (exec (exec s .cli) .pusha).cpu.ds =
      setLow s.cpu.eax s.cpu.ds := by
    simp only [exec, push_eax, push_ds]
  rw [commonStubHead, run_cons, run_cons]
  have he : (exec s .cli).cpu.esp = s.cpu.esp ∧ (exec s .cli).cpu.eax = s.cpu.eax := ⟨rfl, rfl⟩
  rw [he.1, he.2] at h₂
  -- behind `pusha` the two words of the stub's own follow
  generalize exec (exec s .cli) .pusha = t at *
  have h₃ : Pushed s₀ c _ (exec (exec t .movDsAx) .pushEax) :=
    (Pushed.push (s := exec t .movDsAx) (h₂.keep rfl rfl rfl ⟨rfl, rfl, rfl, rfl, rfl, rfl⟩)
      (by simp; omega) (setLow t.cpu.eax t.cpu.ds))
  have hesp' : (exec (exec t .movDsAx) .pushEax).cpu.esp = s.cpu.esp - 36 := by
    change t.cpu.esp - 4 = _
    rw [hesp]
    grind
  rw [hax] at h₃
  rw [run_cons, run_cons]
  generalize exec (exec t .movDsAx) .pushEax = u at *
  have h₄ : Pushed s₀ c _ (run [.movImmAx 0x10, .movAxDs, .movAxEs, .movAxFs, .movAxGs] u) :=
    h₃.keep rfl rfl rfl ⟨rfl, rfl, rfl, rfl, rfl, rfl⟩
  have h₅ := h₄.push (by simp; omega) u.cpu.esp
  rw [← hesp']
  exact h₅

/-- **The frame of an interrupt.** At the `call` the stack holds the pointer to
the frame and the frame; its ESP field is 20 below the interrupted ESP, since
five words were pushed before `pusha`. -/
theorem atCall_pushed (src : Source) (s : Machine) :
    Pushed s s.cpu ((s.cpu.esp - 56) :: frameWords src s.cpu) (atCall src s) := by
  have h₁ := entryStub_pushed (cpuInterrupt_pushed s) (by simp) src
  have hesp := h₁.esp
  have hax : (run (entryStub src) (cpuInterrupt s)).cpu.eax = s.cpu.eax := by
    simp only [run, entryStub, List.foldl, exec, cpuInterrupt, push_eax]
  have hds : (run (entryStub src) (cpuInterrupt s)).cpu.ds = s.cpu.ds := by
    simp only [run, entryStub, List.foldl, exec, cpuInterrupt, push_ds]
  rw [atCall, run, List.foldl_append]
  change Pushed _ _ _ (run commonStubHead (run (entryStub src) (cpuInterrupt s)))
  generalize run (entryStub src) (cpuInterrupt s) = t at *
  have h₂ := commonStubHead_pushed h₁ (by simp)
  have he : t.cpu.esp = s.cpu.esp - 20 := by
    rw [hesp]
    simp only [List.length_cons, List.length_nil]
    change s.cpu.esp - 4 * 5 = _
    grind
  have he' : s.cpu.esp - 20 - 36 = s.cpu.esp - 56 := by grind
  rw [he, hax, hds, he'] at h₂
  exact h₂

/-- The context `context_switch` saves for code interrupted with registers `c`. -/
def savedContext (c : Cpu) : CPUContext where
  eip := c.eip
  esp := c.esp - 20
  ebp := c.ebp
  eax := c.eax
  ebx := c.ebx
  ecx := c.ecx
  edx := c.edx
  esi := c.esi
  edi := c.edi
  eflags := c.eflags

theorem frameContext_frameWords {src : Source} {c : Cpu} {m : Ram} {f : UInt32}
    (h : Holds m f (frameWords src c)) : frameContext m f = savedContext c := by
  have get : ∀ i w, (frameWords src c)[i]? = some w → load32 m (f + UInt32.ofNat (4 * i)) = w :=
    fun _ _ => h.get
  simp only [frameContext, savedContext, CPUContext.mk.injEq]
  exact ⟨get 11 _ rfl, get 4 _ rfl, get 3 _ rfl, get 8 _ rfl, get 5 _ rfl, get 7 _ rfl,
    get 6 _ rfl, get 2 _ rfl, get 1 _ rfl, get 13 _ rfl⟩

/-! ## The trampoline -/

/-- The registers a process is resumed with. -/
structure Resumed (c : CPUContext) (cpu : Cpu) : Prop where
  eip : cpu.eip = c.eip
  esp : cpu.esp = c.esp
  ebp : cpu.ebp = c.ebp
  eax : cpu.eax = c.eax
  ebx : cpu.ebx = c.ebx
  ecx : cpu.ecx = c.ecx
  edx : cpu.edx = c.edx
  esi : cpu.esi = c.esi
  edi : cpu.edi = c.edi

theorem exec_sched (s : Machine) (i : Instr) : (exec s i).sched = s.sched := by
  cases i <;> simp only [exec, push_sched, Machine.drop]

theorem run_sched (code : List Instr) : ∀ s : Machine, (run code s).sched = s.sched := by
  induction code with
  | nil => intro s; rfl
  | cons i code ih => intro s; rw [run_cons, ih, exec_sched]

theorem switchToTrampoline_resumes (s : Machine) :
    Resumed (s.sched.procs s.sched.gNextContext).context (run switchToTrampoline s).cpu := by
  obtain ⟨cpu, mem, sched⟩ := s
  have hback : ∀ a : UInt32, a - 4 + 4 = a := fun a => by grind
  rw [switchToTrampoline]
  simp only [run_cons, run_nil, exec, Machine.push, Machine.drop, Machine.top, Machine.ctx,
    ctxWord, load32_store32_same, hback]
  constructor <;> rfl

theorem commonStubTail_eip (s : Machine) :
    (run commonStubTail s).cpu.eip = load32 s.mem (s.cpu.esp + 4 + eipOff) := by
  have he : ∀ a : UInt32, a + 4 + 4 + 32 + 8 = a + 4 + 44 := fun a => by grind
  obtain ⟨cpu, mem, sched⟩ := s
  rw [commonStubTail]
  simp only [run_cons, run_nil, exec, Machine.drop, Machine.top, eipOff, he]

/-! ## What the handlers do to the processes -/

def InTable (s : SchedState) (ptr : UInt32) : Prop := ∃ i < maxProcesses, s.processTable i = ptr

/-- From `s` to `k` the table only grows, and of its processes only `c` may
have got another context or come to life. -/
structure Keeps (c : UInt32) (s k : SchedState) : Prop where
  table : ∀ i < maxProcesses, s.processTable i ≠ 0 → k.processTable i = s.processTable i
  context : ∀ p, p ≠ 0 → InTable s p → p ≠ c → (k.procs p).context = (s.procs p).context
  alive : ∀ p, p ≠ 0 → InTable s p → p ≠ c → (k.procs p).alive = true → (s.procs p).alive = true

theorem Keeps.refl (c : UInt32) (s : SchedState) : Keeps c s s :=
  ⟨fun _ _ _ => rfl, fun _ _ _ _ => rfl, fun _ _ _ _ h => h⟩

theorem Keeps.inTable {c : UInt32} {s k : SchedState} (h : Keeps c s k) {p : UInt32} (h0 : p ≠ 0)
    (hp : InTable s p) : InTable k p := by
  obtain ⟨i, hi, rfl⟩ := hp
  exact ⟨i, hi, h.table i hi h0⟩

theorem Keeps.trans {c : UInt32} {s k l : SchedState} (h : Keeps c s k) (h' : Keeps c k l) :
    Keeps c s l where
  table i hi h0 := by
    have := h.table i hi h0
    rw [h'.table i hi (by rwa [this]), this]
  context p h0 hp hc := (h'.context p h0 (h.inTable h0 hp) hc).trans (h.context p h0 hp hc)
  alive p h0 hp hc hl := h.alive p h0 hp hc (h'.alive p h0 (h.inTable h0 hp) hc hl)

theorem Keeps.of_eq {c : UInt32} {s k : SchedState} (ht : k.processTable = s.processTable)
    (hp : k.procs = s.procs) : Keeps c s k :=
  ⟨fun i _ _ => by rw [ht], fun p _ _ _ => by rw [hp], fun p _ _ _ h => by rwa [hp] at h⟩

theorem keeps_setProc_self (s : SchedState) (c : UInt32) (p : Process) : Keeps c s (s.setProc c p) where
  table _ _ _ := rfl
  context q _ _ hq := by simp [SchedState.setProc, hq]
  alive q _ _ hq := by simp [SchedState.setProc, hq]

/-- Nothing but hooks and counters changed. -/
structure Quiet (s k : SchedState) : Prop where
  table : k.processTable = s.processTable
  idx : k.currentProcessIdx = s.currentProcessIdx
  context : ∀ p, (k.procs p).context = (s.procs p).context
  alive : ∀ p, (k.procs p).alive = (s.procs p).alive

theorem Quiet.refl (s : SchedState) : Quiet s s := ⟨rfl, rfl, fun _ => rfl, fun _ => rfl⟩

theorem Quiet.trans {s k l : SchedState} (h : Quiet s k) (h' : Quiet k l) : Quiet s l :=
  ⟨h'.table.trans h.table, h'.idx.trans h.idx, fun p => (h'.context p).trans (h.context p),
    fun p => (h'.alive p).trans (h.alive p)⟩

theorem Quiet.keeps {s k : SchedState} (h : Quiet s k) (c : UInt32) : Keeps c s k :=
  ⟨fun i _ _ => by rw [h.table], fun p _ _ _ => h.context p, fun p _ _ _ hl => by rwa [← h.alive]⟩

theorem Quiet.current {s k : SchedState} (h : Quiet s k) : k.current = s.current := by
  rw [SchedState.current, SchedState.current, h.table, h.idx]

theorem quiet_setProc {s : SchedState} {ptr : UInt32} {p : Process}
    (h₁ : p.context = (s.procs ptr).context) (h₂ : p.alive = (s.procs ptr).alive) :
    Quiet s (s.setProc ptr p) := by
  refine ⟨rfl, rfl, fun q => ?_, fun q => ?_⟩ <;> simp only [SchedState.setProc] <;> split
  · rename_i h; rw [h, h₁]
  · rfl
  · rename_i h; rw [h, h₂]
  · rfl

theorem processRegisterHook_fields (p : Process) (type : HookType) (value : UInt64) :
    (processRegisterHook p type value).context = p.context ∧
    (processRegisterHook p type value).alive = p.alive := by
  unfold processRegisterHook
  split <;> exact ⟨rfl, rfl⟩

theorem removeAllHooks_fields (type : HookType) (value : UInt64) : ∀ (n : Nat) (p : Process),
    (removeAllHooks type value n p).context = p.context ∧
    (removeAllHooks type value n p).alive = p.alive
  | 0, p => ⟨rfl, rfl⟩
  | n + 1, p => by
    simp only [removeAllHooks, processRemoveHook]
    by_cases h : processHasMatchingHook p type value = true
    · simp only [h, if_true]
      exact removeAllHooks_fields type value n _
    · simp only [h]
      exact ⟨rfl, rfl⟩

theorem quiet_processYieldForEvent (s : SchedState) (ptr : UInt32) (type : HookType)
    (value : UInt64) : Quiet s (processYieldForEvent s ptr type value) := by
  unfold processYieldForEvent
  split
  · exact .refl s
  · obtain ⟨h₁, h₂⟩ := processRegisterHook_fields (s.procs ptr) type value
    exact quiet_setProc h₁ h₂

theorem quiet_resumeEntry (type : HookType) (value : UInt64) (s : SchedState) (i : Nat) :
    Quiet s (resumeEntry type value s i) := by
  simp only [resumeEntry]
  split
  · obtain ⟨h₁, h₂⟩ := removeAllHooks_fields type value
      (s.procs (s.processTable i)).hooks.length (s.procs (s.processTable i))
    exact quiet_setProc h₁ h₂
  · exact .refl s

theorem quiet_resume (type : HookType) (value : UInt64) (is : List Nat) :
    ∀ s : SchedState, Quiet s (is.foldl (resumeEntry type value) s) := by
  induction is with
  | nil => intro s; exact .refl s
  | cons i is ih => intro s; exact (quiet_resumeEntry type value s i).trans (ih _)

theorem quiet_resumeProcesses (s : SchedState) (type : HookType) (value : UInt64) :
    Quiet s (schedulerResumeProcessesForEvent s type value) := quiet_resume type value _ s

theorem drawEntry_spec (s : SchedState) (ok : Process → Bool) (winner : Int) (is : List Nat) :
    ∀ {count : Int} {i : Nat}, drawEntry s ok winner is count = some i →
      i ∈ is ∧ takesPart s ok i = true := by
  induction is with
  | nil => intro count i h; simp [drawEntry] at h
  | cons j is ih =>
    intro count i h
    simp only [drawEntry] at h
    split at h
    · rename_i hj
      split at h
      · obtain rfl := Option.some.inj h
        exact ⟨by simp, hj⟩
      · exact ⟨.tail _ (ih h).1, (ih h).2⟩
    · exact ⟨.tail _ (ih h).1, (ih h).2⟩

/-- **What a lottery does.** It changes no struct and not the table; it gives 0
and leaves the current process, or makes current a process with `ok`. -/
theorem lottery_spec (s : SchedState) (ok : Process → Bool) :
    (lottery s ok).2.procs = s.procs ∧ (lottery s ok).2.processTable = s.processTable ∧
    (((lottery s ok).1 = 0 ∧ (lottery s ok).2.current = s.current) ∨
      ((lottery s ok).1 ≠ 0 ∧ (lottery s ok).2.current = (lottery s ok).1 ∧
        ok (s.procs (lottery s ok).1) = true)) := by
  simp only [lottery]
  split
  · exact ⟨rfl, rfl, .inl ⟨rfl, rfl⟩⟩
  split
  · rename_i i hi
    obtain ⟨hmem, hpart⟩ := drawEntry_spec _ ok _ _ hi
    have hlt : i < maxProcesses := List.mem_range.mp hmem
    simp only [takesPart, Bool.and_eq_true, bne_iff_ne] at hpart
    refine ⟨rfl, rfl, .inr ⟨hpart.1, ?_, hpart.2⟩⟩
    have hr : ¬ ((i : Int) < 0 ∨ (maxProcesses : Int) ≤ i) := by omega
    simp only [SchedState.current, if_neg hr]
    rfl
  · exact ⟨rfl, rfl, .inl ⟨rfl, rfl⟩⟩

/-- The current process stays; if there was none, a new one may be current. -/
def Stays (s k : SchedState) : Prop :=
  Keeps s.current s k ∧
    (k.current = s.current ∨ s.current = 0 ∧ k.current ≠ 0 ∧ ¬ InTable s k.current)

/-- Another live process is current and the frame returns to the trampoline; a
live process that was current has the frame as its context. -/
structure Switches (trampoline regs : UInt32) (s : SchedState) (m : Ram) (k : SchedState)
    (m' : Ram) : Prop where
  keeps : Keeps s.current s k
  next : k.gNextContext = k.current
  alive : (k.procs k.current).alive = true
  saved : (s.procs s.current).alive = true →
    (k.procs s.current).context = frameContext m regs
  eip : load32 m' (regs + eipOff) = trampoline

/-- What a handler may do. -/
inductive HandlerSpec (trampoline regs : UInt32) (s : SchedState) (m : Ram) : Outcome → Prop
  | stays {k : SchedState} {m' : Ram} (h : Stays s k) : HandlerSpec trampoline regs s m (.ret k m')
  | switches {k : SchedState} {m' : Ram} (h : Switches trampoline regs s m k m') :
      HandlerSpec trampoline regs s m (.ret k m')
  | exits {k : SchedState} {m' : Ram} (keeps : Keeps s.current s k)
      (next : k.gNextContext = k.current) (alive : (k.procs k.current).alive = true)
      (dead : s.current ≠ 0 → (k.procs s.current).alive = false) :
      HandlerSpec trampoline regs s m (.jumpTrampoline k m')
  | panics : HandlerSpec trampoline regs s m .panic

section Handlers

variable {tr regs : UInt32} {s s' : SchedState} {m : Ram}

theorem keeps_saveContext (s : SchedState) (m : Ram) (regs : UInt32) :
    Keeps s.current s (saveContext s m regs) := by
  simp only [saveContext]
  split
  · exact keeps_setProc_self s _ _
  · exact .refl _ s

theorem saveContext_same (s : SchedState) (m : Ram) (regs : UInt32) :
    (saveContext s m regs).current = s.current ∧
    ((saveContext s m regs).procs s.current).alive = (s.procs s.current).alive ∧
    ((s.procs s.current).alive = true →
      ((saveContext s m regs).procs s.current).context = frameContext m regs) := by
  simp only [saveContext]
  split
  · exact ⟨rfl, by simp [SchedState.setProc], fun _ => by simp [SchedState.setProc]⟩
  · rename_i h
    exact ⟨rfl, rfl, fun h' => absurd h' h⟩

theorem schedulerNextProcess_spec (s : SchedState) :
    (schedulerNextProcess s).2.procs = s.procs ∧
    (schedulerNextProcess s).2.processTable = s.processTable ∧
    (((schedulerNextProcess s).1 = 0 ∧ (schedulerNextProcess s).2.current = s.current) ∨
      ((schedulerNextProcess s).1 ≠ 0 ∧
        (schedulerNextProcess s).2.current = (schedulerNextProcess s).1 ∧
        (s.procs (schedulerNextProcess s).1).alive = true)) := by
  unfold schedulerNextProcess
  split
  · exact ⟨rfl, rfl, .inl ⟨rfl, rfl⟩⟩
  · obtain ⟨h₁, h₂, h⟩ := lottery_spec s runnable
    refine ⟨h₁, h₂, h.imp id fun ⟨h0, hc, hr⟩ => ⟨h0, hc, ?_⟩⟩
    simp only [runnable, Bool.and_eq_true] at hr
    exact hr.1

theorem contextSwitch_spec (tr regs : UInt32) (s : SchedState) (m : Ram) :
    HandlerSpec tr regs s m (contextSwitch tr regs s m) := by
  simp only [contextSwitch]
  split
  · exact .stays ⟨.refl _ s, .inl rfl⟩
  have hkeep := keeps_saveContext s m regs
  obtain ⟨hcur, halive, hsaved⟩ := saveContext_same s m regs
  generalize saveContext s m regs = t at *
  obtain ⟨hprocs, htable, hnext⟩ := schedulerNextProcess_spec t
  generalize schedulerNextProcess t = r at *
  obtain ⟨next, k⟩ := r
  simp only at hprocs htable hnext ⊢
  have hkeep' : Keeps s.current s k := hkeep.trans (.of_eq htable hprocs)
  rcases hnext with ⟨rfl, hc⟩ | ⟨h0, hc, hl⟩
  · rw [if_pos rfl]
    split
    · exact .stays ⟨hkeep', .inl (hc.trans hcur)⟩
    · exact .panics
  rw [if_neg h0]
  split
  · rename_i hsame
    exact .stays ⟨hkeep', .inl (hc.trans hsame.1)⟩
  · refine .switches ⟨?_, hc.symm, ?_, ?_, load32_store32_same _ _ _⟩
    · exact ⟨hkeep'.table, hkeep'.context, hkeep'.alive⟩
    · change (k.procs k.current).alive = true
      rw [hc, hprocs]; exact hl
    · intro hs
      change (k.procs s.current).context = _
      rw [hprocs]; exact hsaved hs

theorem HandlerSpec.of_quiet {o : Outcome} (hq : Quiet s s') (h : HandlerSpec tr regs s' m o) :
    HandlerSpec tr regs s m o := by
  have hk := hq.keeps s.current
  cases h with
  | panics => exact .panics
  | stays h =>
    obtain ⟨h₁, h₂⟩ := h
    rw [hq.current] at h₁ h₂
    refine .stays ⟨hk.trans h₁, h₂.imp id fun ⟨hz, hne, hn⟩ => ⟨hz, hne, fun hin => hn ?_⟩⟩
    exact hk.inTable hne hin
  | switches h =>
    obtain ⟨h₁, h₂, h₃, h₄, h₅⟩ := h
    rw [hq.current] at h₁ h₄
    exact .switches ⟨hk.trans h₁, h₂, h₃, fun ha => h₄ (by rwa [hq.alive]), h₅⟩
  | exits h₁ h₂ h₃ h₄ =>
    rw [hq.current] at h₁ h₄
    exact .exits (hk.trans h₁) h₂ h₃ h₄

theorem HandlerSpec.setEax {o : Outcome} {v : UInt32} (h : HandlerSpec tr regs s m o) :
    HandlerSpec tr regs s m (Outcome.setEax regs v o) := by
  cases h with
  | panics => exact .panics
  | exits h₁ h₂ h₃ h₄ => exact .exits h₁ h₂ h₃ h₄
  | stays h => exact .stays h
  | switches h =>
    refine .switches ⟨h.keeps, h.next, h.alive, h.saved, ?_⟩
    have hd : regs + eipOff - (regs + eaxOff) = 12 := by simp only [eipOff, eaxOff]; grind
    rw [load32_store32_apart (by rw [hd]; decide) (by rw [hd]; decide)]
    exact h.eip

theorem schedulerOnTick_spec (tr regs : UInt32) (s : SchedState) (m : Ram) :
    HandlerSpec tr regs s m (schedulerOnTick tr regs s m) := by
  simp only [schedulerOnTick]
  split
  · have hq : Quiet s { s with lastRegs := regs, quantumCounter := 0 } :=
      ⟨rfl, rfl, fun _ => rfl, fun _ => rfl⟩
    exact .of_quiet hq (contextSwitch_spec tr regs _ m)
  · exact .stays ⟨.of_eq rfl rfl, .inl rfl⟩

theorem timerHandler_spec (tr regs : UInt32) (s : SchedState) (m : Ram) :
    HandlerSpec tr regs s m (timerHandler tr regs s m) := by
  have hticks : Quiet s { s with timerTicks := s.timerTicks + 1 } :=
    ⟨rfl, rfl, fun _ => rfl, fun _ => rfl⟩
  have hresume := quiet_resume .timeReached (s.timerTicks + 1).toUInt64 (List.range maxProcesses)
    { s with timerTicks := s.timerTicks + 1 }
  unfold timerHandler schedulerResumeProcessesForEvent
  exact .of_quiet (hticks.trans hresume) (schedulerOnTick_spec tr regs _ m)

theorem schedulerForceSwitchWithRegs_spec (tr regs : UInt32) (s : SchedState) (m : Ram) :
    HandlerSpec tr regs s m (schedulerForceSwitchWithRegs tr regs s m) := by
  unfold schedulerForceSwitchWithRegs
  split
  · exact contextSwitch_spec tr regs s m
  · exact .stays ⟨.refl _ s, .inl rfl⟩

/-- What code outside the scheduler may do: a process can die, nothing else
that matters here changes; and `kmalloc` gives memory that is not in use. -/
structure EnvOk (env : Env) (s : SchedState) : Prop where
  fresh : ¬ InTable s env.procPtr
  table : ∀ k, (env.other k).processTable = k.processTable
  idx : ∀ k, (env.other k).currentProcessIdx = k.currentProcessIdx
  context : ∀ k p, ((env.other k).procs p).context = (k.procs p).context
  alive : ∀ k p, ((env.other k).procs p).alive = true → (k.procs p).alive = true

theorem EnvOk.keeps {env : Env} (h : EnvOk env s) (c : UInt32) (k : SchedState) :
    Keeps c k (env.other k) :=
  ⟨fun i _ _ => by rw [h.table], fun p _ _ _ => h.context k p, fun p _ _ _ => h.alive k p⟩

theorem EnvOk.current {env : Env} (h : EnvOk env s) (k : SchedState) :
    (env.other k).current = k.current := by
  rw [SchedState.current, SchedState.current, h.table, h.idx]

theorem freeEntry_spec {i : Nat} (h : freeEntry s = some i) :
    i < maxProcesses ∧ s.processTable i = 0 := by
  have h₁ := List.mem_of_find?_eq_some h
  have h₂ := List.find?_some h
  exact ⟨List.mem_range.mp h₁, by simpa using h₂⟩

theorem schedulerAddProcess_stays {ptr : UInt32} (h0 : ptr ≠ 0) (hf : ¬ InTable s ptr) :
    Stays s (schedulerAddProcess s ptr) := by
  unfold schedulerAddProcess
  split
  · exact ⟨.refl _ s, .inl rfl⟩
  split
  · exact ⟨.refl _ s, .inl rfl⟩
  rename_i i hi
  obtain ⟨hlt, hz⟩ := freeEntry_spec hi
  have hne : ∀ p, InTable s p → p ≠ ptr := fun p hp he => hf (he ▸ hp)
  refine ⟨⟨fun j _ hj => ?_, fun p _ hp _ => ?_, fun p _ hp _ hl => ?_⟩, ?_⟩
  · simp only [SchedState.setProc]
    rw [if_neg (fun he => hj (by rw [he, hz]))]
  · simp only [SchedState.setProc, if_neg (hne p hp)]
  · simpa only [SchedState.setProc, if_neg (hne p hp)] using hl
  · simp only [SchedState.current, SchedState.setProc]
    by_cases hm : s.currentProcessIdx = -1
    · right
      have hr : ¬ ((i : Int) < 0 ∨ (maxProcesses : Int) ≤ i) := by omega
      simp only [hm, if_true, if_neg hr, Int.toNat_natCast]
      exact ⟨by simp, h0, hf⟩
    · simp only [hm, if_false]
      by_cases hr : s.currentProcessIdx < 0 ∨ (maxProcesses : Int) ≤ s.currentProcessIdx
      · simp only [if_pos hr, true_or]
      · simp only [if_neg hr]
        by_cases he : s.currentProcessIdx.toNat = i
        · simp only [he, if_true]
          exact .inr ⟨hz, h0, hf⟩
        · simp only [if_neg he, true_or]

theorem kStartProcess_stays {entry size ptr stack : UInt32} (hf : ¬ InTable s ptr) :
    Stays s (kStartProcess entry size ptr stack s).2 := by
  have hne : ∀ p, InTable s p → p ≠ ptr := fun p hp he => hf (he ▸ hp)
  -- states that differ from `s` in the new struct alone
  have hset : ∀ k : SchedState, k.processTable = s.processTable →
      k.currentProcessIdx = s.currentProcessIdx → (∀ p, p ≠ ptr → k.procs p = s.procs p) →
      Keeps s.current s k ∧ k.current = s.current := by
    intro k ht hi hp
    refine ⟨⟨fun i _ _ => by rw [ht], fun p _ hin _ => by rw [hp p (hne p hin)],
      fun p _ hin _ hl => by rwa [hp p (hne p hin)] at hl⟩, ?_⟩
    rw [SchedState.current, SchedState.current, ht, hi]
  simp only [kStartProcess]
  split
  · exact ⟨.refl _ s, .inl rfl⟩
  rename_i h0
  split
  · obtain ⟨h₁, h₂⟩ := hset (SchedState.setProc { s with nextPid := s.nextPid + 1 } ptr
      ⟨s.nextPid, ⟨0, 0, 0, 0, 0, 0, 0, 0, 0, 0⟩, true, [], 1⟩) rfl rfl
      (fun p hp => by simp [SchedState.setProc, hp])
    exact ⟨h₁, .inl h₂⟩
  · obtain ⟨h₁, h₂⟩ := hset (SchedState.setProc (SchedState.setProc
      { s with nextPid := s.nextPid + 1 } ptr
      ⟨s.nextPid, ⟨0, 0, 0, 0, 0, 0, 0, 0, 0, 0⟩, true, [], 1⟩) ptr
      ⟨s.nextPid, ⟨entry, stack + size, stack + size, 0, 0, 0, 0, 0, 0, 0x202⟩, true, [], 1⟩)
      rfl rfl (fun p hp => by simp [SchedState.setProc, hp])
    obtain ⟨h₃, h₄⟩ := schedulerAddProcess_stays (s := SchedState.setProc (SchedState.setProc
      { s with nextPid := s.nextPid + 1 } ptr
      ⟨s.nextPid, ⟨0, 0, 0, 0, 0, 0, 0, 0, 0, 0⟩, true, [], 1⟩) ptr
      ⟨s.nextPid, ⟨entry, stack + size, stack + size, 0, 0, 0, 0, 0, 0, 0x202⟩, true, [], 1⟩) h0 hf
    rw [h₂] at h₃ h₄
    exact ⟨h₁.trans h₃, h₄⟩

theorem schedulerExit_spec {env : Env} (henv : EnvOk env s) :
    HandlerSpec tr regs s m (schedulerExitCurrentAndSwitch
      (env.other (if s.current = 0 then s else killCurrent s)) m) := by
  have hkill : Keeps s.current s (if s.current = 0 then s else killCurrent s) := by
    split
    · exact .refl _ s
    · exact keeps_setProc_self s _ _
  have hdead : s.current ≠ 0 →
      ((if s.current = 0 then s else killCurrent s).procs s.current).alive = false := by
    intro h0
    simp [h0, killCurrent, SchedState.setProc]
  generalize (if s.current = 0 then s else killCurrent s) = k at *
  have hkeep := hkill.trans (henv.keeps s.current k)
  have hdead' : s.current ≠ 0 → ((env.other k).procs s.current).alive = false := by
    intro h0
    by_contra ha
    have := henv.alive k s.current (by simpa using ha)
    rw [hdead h0] at this
    cases this
  generalize env.other k = l at *
  obtain ⟨hp, ht, hnext⟩ := lottery_spec l fun p => p.alive
  simp only [schedulerExitCurrentAndSwitch]
  generalize lottery l (fun p => p.alive) = r at *
  obtain ⟨next, l'⟩ := r
  simp only at hp ht hnext ⊢
  rcases hnext with ⟨rfl, -⟩ | ⟨h0, hc, hl⟩
  · rw [if_pos rfl]; exact .panics
  · rw [if_neg h0]
    have hcur : (⟨l'.procs, l'.processTable, l'.processCount, l'.currentProcessIdx,
      l'.xorshift32State, l'.quantumCounter, l'.lastRegs, next, l'.timerTicks, l'.nextPid⟩ :
        SchedState).current = l'.current := rfl
    refine .exits (hkeep.trans (.of_eq ht hp)) ?_ ?_ ?_
    · rw [hcur]; exact hc.symm
    · rw [hcur, hc]
      change (l'.procs next).alive = true
      rw [hp]; exact hl
    · intro h
      change (l'.procs s.current).alive = false
      rw [hp]; exact hdead' h

theorem syscallDispatch_spec {env : Env} (henv : EnvOk env s) :
    HandlerSpec env.trampoline regs s m (syscallDispatch env regs s m) := by
  have hother : Stays s (env.other s) := ⟨henv.keeps _ s, .inl (henv.current s)⟩
  simp only [syscallDispatch]
  split
  · exact schedulerForceSwitchWithRegs_spec _ _ _ _
  split
  · split
    · exact .stays ⟨.refl _ s, .inl rfl⟩
    · exact .of_quiet (quiet_processYieldForEvent _ _ _ _) (schedulerForceSwitchWithRegs_spec _ _ _ _)
  split
  · exact .stays (kStartProcess_stays henv.fresh)
  split
  · exact schedulerExit_spec henv
  split
  · unfold sysWaitIoEvent
    split
    · exact .stays ⟨.refl _ s, .inl rfl⟩
    split
    · exact .stays ⟨.refl _ s, .inl rfl⟩
    · refine (HandlerSpec.of_quiet ?_ (schedulerForceSwitchWithRegs_spec _ _ _ _)).setEax
      split
      · exact .refl s
      · exact quiet_processYieldForEvent _ _ _ _
  split
  · exact .stays hother
  · exact .stays hother

theorem handler_spec {env : Env} (henv : EnvOk env s) (src : Source) (regs : UInt32) (m : Ram) :
    HandlerSpec env.trampoline regs s m (handler env src regs s m) := by
  have hirq : HandlerSpec env.trampoline regs s m (irqHandler env regs s m) := by
    unfold irqHandler
    split
    · exact timerHandler_spec env.trampoline regs s m
    · exact .stays ⟨henv.keeps _ s, .inl (henv.current s)⟩
  cases src with
  | syscall => exact syscallDispatch_spec henv
  | timer => exact hirq
  | irq line => exact hirq

end Handlers

end ContinuumOS.Sched.RoundTrip
