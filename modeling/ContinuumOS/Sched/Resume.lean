import ContinuumOS.Sched.RoundTrip

/-! # Coming back to a process

Runs of the machine: user code and interrupts in any order. A process that was
switched away from keeps the context saved for it until it is selected again;
the trampoline then loads exactly that context, and the saved ESP is not the
one the process had. -/
namespace ContinuumOS.Sched.Resume
open ContinuumOS.Lib.Stack ContinuumOS.Sched.Scheduler ContinuumOS.Sched.Stubs
open ContinuumOS.Sched.RoundTrip

/-- What an interrupt does, taken as a whole. -/
inductive InterruptSpec (s s' : Machine) : Prop
  | stays (h : Stays s.sched s'.sched)
  | switches (keeps : Keeps s.sched.current s.sched s'.sched)
      (alive : (s'.sched.procs s'.sched.current).alive = true)
      (resumed : Resumed (s'.sched.procs s'.sched.current).context s'.cpu)
      (left : s.sched.current ≠ 0 → (s.sched.procs s.sched.current).alive = true →
        (s'.sched.procs s.sched.current).alive = true →
        (s'.sched.procs s.sched.current).context = savedContext s.cpu)

theorem trampoline_resumes_current {t : Machine} (hn : t.sched.gNextContext = t.sched.current) :
    Resumed ((run switchToTrampoline t).sched.procs
      (run switchToTrampoline t).sched.current).context (run switchToTrampoline t).cpu := by
  have h := switchToTrampoline_resumes t
  rwa [run_sched, ← hn]

theorem interrupt_frame (env : Env) (src : Source) (s : Machine) :
    ∃ d : Machine, d.cpu.esp + 4 + 4 = s.cpu.esp - 56 ∧
      Holds d.mem (s.cpu.esp - 56) (frameWords src s.cpu) ∧
      interrupt env src s = wayOut env d (handler env src (s.cpu.esp - 56) s.sched d.mem) := by
  have hcall := (atCall_pushed src s).push (by simp [frameWords]) env.returnAddr
  simp only [interrupt]
  generalize (atCall src s).push env.returnAddr = d at *
  obtain ⟨hsched, ⟨-, hregs, hframe⟩, hesp, -⟩ := hcall
  -- the argument points at the frame, two words above the stack pointer
  have hf : d.cpu.esp + 4 + 4 = s.cpu.esp - 56 := by
    rw [hesp]
    simp only [frameWords, List.length_cons, List.length_nil]
    change s.cpu.esp - 4 * 16 + 4 + 4 = s.cpu.esp - 56
    grind
  rw [hf] at hframe
  exact ⟨d, hf, hframe, by rw [hregs, hsched]⟩

theorem interrupt_spec {env : Env} {src : Source} {s s' : Machine} (henv : EnvOk env s.sched)
    (h : interrupt env src s = some s') : InterruptSpec s s' := by
  obtain ⟨d, hf, hframe, hint⟩ := interrupt_frame env src s
  rw [hint] at h
  have hspec := handler_spec henv src (s.cpu.esp - 56) d.mem
  generalize handler env src (s.cpu.esp - 56) s.sched d.mem = o at *
  cases hspec with
  | panics => simp [wayOut] at h
  | exits hk hn ha hd =>
    obtain rfl := Option.some.inj h
    refine .switches ?_ ?_ (trampoline_resumes_current hn) ?_
    · rw [run_sched]; exact hk
    · rw [run_sched]; exact ha
    · rw [run_sched]
      intro h0 _ hl
      rw [hd h0] at hl
      cases hl
  | stays h' =>
    refine .stays ?_
    simp only [wayOut] at h
    split at h <;> obtain rfl := Option.some.inj h
    · rw [run_sched, run_sched]; exact h'
    · rw [run_sched]; exact h'
  | @switches k m' h' =>
    simp only [wayOut] at h
    have heip := commonStubTail_eip (Machine.drop
      ⟨{ d.cpu with eax := env.eax, ecx := env.ecx, edx := env.edx }, m', k⟩ 4)
    have htr : load32 m' (d.cpu.esp + 4 + 4 + eipOff) = env.trampoline := by
      rw [hf]; exact h'.eip
    rw [if_pos (heip.trans htr)] at h
    obtain rfl := Option.some.inj h
    have hs : (run commonStubTail (Machine.drop
      ⟨{ d.cpu with eax := env.eax, ecx := env.ecx, edx := env.edx }, m', k⟩ 4)).sched = k :=
      run_sched _ _
    refine .switches ?_ ?_ (trampoline_resumes_current ?_) ?_
    · rw [run_sched, hs]; exact h'.keeps
    · rw [run_sched, hs]; exact h'.alive
    · rw [hs]; exact h'.next
    · rw [run_sched, hs]
      intro _ hl _
      rw [h'.saved hl, frameContext_frameWords hframe]

/-! ## Runs -/

/-- User code changes registers and stack memory, an interrupt does what the
kernel does. -/
inductive Step : Machine → Machine → Prop
  | user {s : Machine} (cpu : Cpu) (mem : Ram) : Step s { s with cpu := cpu, mem := mem }
  | interrupt {s s' : Machine} {env : Env} {src : Source} (ok : EnvOk env s.sched)
      (h : interrupt env src s = some s') : Step s s'

/-- A step that does not end with `p` as the current process. -/
def StepAway (p : UInt32) (s s' : Machine) : Prop := Step s s' ∧ s'.sched.current ≠ p

/-- While `p` is away: it is in the table, and if it lives its context is `c`. -/
structure Away (p : UInt32) (c : CPUContext) (s : Machine) : Prop where
  listed : InTable s.sched p
  away : s.sched.current ≠ p
  context : (s.sched.procs p).alive = true → (s.sched.procs p).context = c

theorem Away.of_keeps {p : UInt32} {c : CPUContext} {s s' : Machine} (h : Away p c s) (h0 : p ≠ 0)
    (hk : Keeps s.sched.current s.sched s'.sched) :
    InTable s'.sched p ∧ ((s'.sched.procs p).alive = true → (s'.sched.procs p).context = c) := by
  refine ⟨hk.inTable h0 h.listed, fun hl => ?_⟩
  have hne := Ne.symm h.away
  rw [hk.context p h0 h.listed hne]
  exact h.context (hk.alive p h0 h.listed hne hl)

theorem Step.keeps {s s' : Machine} (h : Step s s') : Keeps s.sched.current s.sched s'.sched := by
  cases h with
  | user cpu mem => exact .refl _ _
  | interrupt ok h =>
    cases interrupt_spec ok h with
    | stays h => exact h.1
    | switches hk _ _ _ => exact hk

theorem Away.step {p : UInt32} {c : CPUContext} {s s' : Machine} (h : Away p c s) (h0 : p ≠ 0)
    (hs : StepAway p s s') : Away p c s' := by
  obtain ⟨h₁, h₂⟩ := h.of_keeps h0 hs.1.keeps
  exact ⟨h₁, hs.2, h₂⟩

theorem Away.run {p : UInt32} {c : CPUContext} {s s' : Machine} (h : Away p c s) (h0 : p ≠ 0)
    (hr : Relation.ReflTransGen (StepAway p) s s') : Away p c s' := by
  induction hr with
  | refl => exact h
  | tail _ hs ih => exact ih.step h0 hs

theorem Away.resumed {p : UInt32} {c : CPUContext} {s s' : Machine} (h : Away p c s) (h0 : p ≠ 0)
    (hs : Step s s') (hp : s'.sched.current = p) : Resumed c s'.cpu := by
  obtain ⟨-, hc⟩ := h.of_keeps h0 hs.keeps
  cases hs with
  | user cpu mem => exact absurd hp h.away
  | interrupt ok hi =>
    cases interrupt_spec ok hi with
    | stays hst =>
      rcases hst.2 with hcur | ⟨-, -, hnew⟩
      · exact absurd (hcur.symm.trans hp) h.away
      · exact absurd (hp ▸ h.listed) hnew
    | switches hk hl hr _ =>
      rw [hp] at hl hr
      rwa [hc hl] at hr

/-- In `s₀` process `p` runs; it is interrupted by `src`, saved and switched away
from (`s₁`). After any steps in which it is not selected (`s₂`) a step selects
it, and in `s₃` it runs again. -/
structure AwayAndBack (p : UInt32) (src : Source) (env : Env) (s₀ s₁ s₂ s₃ : Machine) : Prop where
  notNull : p ≠ 0
  current : s₀.sched.current = p
  alive : (s₀.sched.procs p).alive = true
  envOk : EnvOk env s₀.sched
  interrupted : interrupt env src s₀ = some s₁
  away : s₁.sched.current ≠ p
  meanwhile : Relation.ReflTransGen (StepAway p) s₁ s₂
  back : Step s₂ s₃
  selected : s₃.sched.current = p

/-- What saving and restoring a process is for: the registers are the same.
EAX carries a result out of a system call. -/
structure SameRegisters (src : Source) (before after : Cpu) : Prop where
  eip : after.eip = before.eip
  esp : after.esp = before.esp
  ebp : after.ebp = before.ebp
  ebx : after.ebx = before.ebx
  ecx : after.ecx = before.ecx
  edx : after.edx = before.edx
  esi : after.esi = before.esi
  edi : after.edi = before.edi
  eax : src = .timer → after.eax = before.eax

theorem inTable_current {s : SchedState} (h0 : s.current ≠ 0) : InTable s s.current := by
  rw [SchedState.current] at h0 ⊢
  split at h0
  · exact absurd rfl h0
  · rename_i hr
    rw [if_neg hr]
    exact ⟨_, by omega, rfl⟩

section

variable {p : UInt32} {src : Source} {env : Env} {s₀ s₁ s₂ s₃ : Machine}

theorem AwayAndBack.resumed (r : AwayAndBack p src env s₀ s₁ s₂ s₃) :
    Resumed (savedContext s₀.cpu) s₃.cpu := by
  have h0 := r.notNull
  have hlisted : InTable s₀.sched p := by
    rw [← r.current]
    exact inTable_current (by rw [r.current]; exact h0)
  have hfirst : Away p (savedContext s₀.cpu) s₁ := by
    cases interrupt_spec r.envOk r.interrupted with
    | stays hst =>
      rcases hst.2 with hc | ⟨hz, -⟩
      · exact absurd (hc.trans r.current) r.away
      · exact absurd (r.current.symm.trans hz) h0
    | switches hk ha hr hleft =>
      refine ⟨hk.inTable h0 hlisted, r.away, fun hl => ?_⟩
      rw [r.current] at hleft
      exact hleft h0 r.alive hl
  exact (hfirst.run h0 r.meanwhile).resumed h0 r.back r.selected

/-- **No process comes back with the stack pointer it had.** In every run that
interrupts, saves and later resumes a process, EIP, EBP and the general
registers are the ones it was interrupted with, but ESP is 20 lower: five words
lie on the stack before `pusha` stores ESP, and nothing takes them off. -/
theorem process_never_resumes_with_its_esp (r : AwayAndBack p src env s₀ s₁ s₂ s₃) :
    ¬ SameRegisters src s₀.cpu s₃.cpu ∧ s₃.cpu.esp = s₀.cpu.esp - 20 ∧
    s₃.cpu.eip = s₀.cpu.eip ∧ s₃.cpu.ebp = s₀.cpu.ebp ∧ s₃.cpu.eax = s₀.cpu.eax ∧
    s₃.cpu.ebx = s₀.cpu.ebx ∧ s₃.cpu.ecx = s₀.cpu.ecx ∧ s₃.cpu.edx = s₀.cpu.edx ∧
    s₃.cpu.esi = s₀.cpu.esi ∧ s₃.cpu.edi = s₀.cpu.edi := by
  have h := r.resumed
  refine ⟨fun hs => ?_, h.esp, h.eip, h.ebp, h.eax, h.ebx, h.ecx, h.edx, h.esi, h.edi⟩
  have he : s₀.cpu.esp - 20 = s₀.cpu.esp := h.esp.symm.trans hs.esp
  have h0 : (20 : UInt32) = 0 := by grind
  exact absurd h0 (by decide)

end

/-! ## A run -/

def demoCpu : Cpu :=
  ⟨1, 2, 3, 4, 5, 6, 7, 0x9000, 0x100000, 0x202, 8, 0x10, 0x10, 0x10, 0x10⟩

/-- Two runnable processes; the second one is about to yield. -/
def demoSched : SchedState where
  procs ptr :=
    if ptr = 0x1000 then ⟨1, ⟨0, 0, 0, 0, 0, 0, 0, 0, 0, 0⟩, true, [], 1⟩
    else ⟨2, ⟨0x200000, 0xA000, 0, 0x80, 0, 0, 0, 0, 0, 0x202⟩, true, [], 1⟩
  processTable i := if i = 0 then 0x1000 else if i = 1 then 0x2000 else 0
  processCount := 2
  currentProcessIdx := 0
  xorshift32State := 2463534242
  quantumCounter := 9
  lastRegs := 0
  gNextContext := 0
  timerTicks := 0
  nextPid := 3

def demoMachine : Machine := ⟨demoCpu, fun _ => 0, demoSched⟩

def demoEnv : Env := ⟨0x300000, 0x310000, 0, 0, 0, 0x3000, 0, false, id, 0⟩

theorem demoEnv_ok (s : SchedState) (h : ¬ InTable s 0x3000) : EnvOk demoEnv s :=
  ⟨h, fun _ => rfl, fun _ => rfl, fun _ _ => rfl, fun _ _ hl => hl⟩

theorem demo_awayAndBack : ∃ s₁ s₃, AwayAndBack 0x1000 .timer demoEnv demoMachine s₁ s₁ s₃ ∧
    s₃.cpu.esp = 0x8FEC := by
  have h₁ : (interrupt demoEnv .timer demoMachine).map (fun s => (s.sched.current,
      (List.range maxProcesses).all fun i => s.sched.processTable i != 0x3000)) =
        some (0x2000, true) := by decide +kernel
  have h₃ : ((interrupt demoEnv .timer demoMachine).bind (interrupt demoEnv .syscall)).map
      (fun s => (s.sched.current, s.cpu.esp)) = some (0x1000, 0x8FEC) := by decide +kernel
  obtain ⟨s₁, hs₁, hc₁⟩ := Option.map_eq_some_iff.mp h₁
  rw [hs₁, Option.bind_some] at h₃
  obtain ⟨s₃, hs₃, hc₃⟩ := Option.map_eq_some_iff.mp h₃
  simp only [Prod.mk.injEq, List.all_eq_true, List.mem_range, bne_iff_ne] at hc₁ hc₃
  refine ⟨s₁, s₃, ⟨by decide, by decide +kernel, by decide +kernel, demoEnv_ok _ ?_, hs₁, ?_, .refl,
    .interrupt (demoEnv_ok _ ?_) hs₃, hc₃.1⟩, hc₃.2⟩
  · rintro ⟨i, hi, he⟩
    revert i
    decide
  · rw [hc₁.1]; decide
  · rintro ⟨i, hi, he⟩
    exact hc₁.2 i hi he

/-- A timer interrupt and a `yield` later the process runs with ESP 20 lower. -/
theorem esp_differs_after_timer_and_yield :
    ¬ ∀ p src env s₀ s₁ s₂ s₃, src = .timer ∨ src = .syscall →
      AwayAndBack p src env s₀ s₁ s₂ s₃ → SameRegisters src s₀.cpu s₃.cpu := by
  intro h
  obtain ⟨s₁, s₃, hr, hesp⟩ := demo_awayAndBack
  have := (h _ _ _ _ _ _ _ (.inl rfl) hr).esp
  rw [hesp] at this
  exact absurd this (by decide)

/-- The same run: everything but ESP is restored. -/
theorem process_never_resumes_with_its_esp_example : ∃ s₁ s₃,
    AwayAndBack 0x1000 .timer demoEnv demoMachine s₁ s₁ s₃ ∧
    ¬ SameRegisters .timer demoCpu s₃.cpu ∧ s₃.cpu.eip = 0x100000 := by
  obtain ⟨s₁, s₃, hr, -⟩ := demo_awayAndBack
  obtain ⟨hn, -, heip, -⟩ := process_never_resumes_with_its_esp hr
  exact ⟨s₁, s₃, hr, hn, heip⟩

end ContinuumOS.Sched.Resume
