import Mathlib.Data.List.DropRight
import ContinuumOS.Libc.Printf
import ContinuumOS.Shell.Model
import ContinuumOS.Vfs.Handles
import ContinuumOS.Vfs.Visible
import ContinuumOS.Vfs.Writing

/-! # The shell's commands on files

`shell_process_command` of `src/kernel/shell.cpp` and the commands that it runs on the
virtual file system, over the kernel's heap. What a command prints is returned as one
text. A path that does not fit its buffer gives no result, and neither does a call
that does not come back. -/
namespace ContinuumOS.Shell.Commands
open scoped List
open ContinuumOS.Lib.Effect ContinuumOS.Lib.Runs ContinuumOS.Lib.Slots ContinuumOS.Libc.String
open ContinuumOS.Libc.Printf (formatUnsigned)
open ContinuumOS.Vfs.Path ContinuumOS.Vfs.Adapters ContinuumOS.Vfs.Files ContinuumOS.Vfs.Calls
open ContinuumOS.Vfs.Listing ContinuumOS.Vfs.Visible ContinuumOS.Vfs.Handles
open ContinuumOS.Vfs.OnHeap
open ContinuumOS.TextEditor.Model (ascii)

/-- `' '`, `'>'` and `'\n'` -/
def space : UInt8 := 0x20
def redirect : UInt8 := 0x3E
def newline : UInt8 := 0x0A

/-- The commands of the table that work on files. -/
inductive Command where
  | cd
  | cat
  | touch
  | mkdir
  | rm
  | rmdir
  | echo
  | pwd
  | mount
  | umount
  deriving DecidableEq, Repr

/-- Their part of the table `commands`. -/
def commands : List (CStr × Command) :=
  [(ascii "cd", .cd), (ascii "cat", .cat), (ascii "touch", .touch), (ascii "mkdir", .mkdir),
    (ascii "rm", .rm), (ascii "rmdir", .rmdir), (ascii "echo", .echo), (ascii "pwd", .pwd),
    (ascii "mount", .mount), (ascii "umount", .umount)]

/-- The first word of a line, and what stands behind the blank at its end. -/
def splitCommand (cmd : CStr) : Option CStr × Option CStr :=
  let name := strtok [space] (cmd.take (Shell.Model.bufferSize - 1))
  (name.1, (strtok [] name.2).1)

/-- `vfs_chdir` on the kernel; the path is built once more in a buffer of its own. -/
def vfsChdir (fuel : Nat) (path : CStr) : Eff Kernel Code := fun k =>
  if ¬ k.vfs.initialized then some (.error, k)
  else (resolve fuel k.vfs path).bind fun
    | none => some (.notFound, k)
    | some _ =>
      let absolute := workingPath k.vfs.currentWorkingDirectory path
      if absolute.length < vfsMaxPath then
        (vfsNormalizePath fuel k.vfs.currentWorkingDirectory absolute).map fun normalized =>
          (.success, { k with vfs := { k.vfs with currentWorkingDirectory := normalized } })
      else none

/-- The arguments, if there are any. -/
def given (args : Option CStr) : Option CStr := args.filter (· ≠ [])

/-- A command on a path, which it makes absolute. -/
def withAbsolute (s : Sys) (path : CStr) (body : CStr → Option (CStr × Sys)) :
    Option (CStr × Sys) :=
  let absolute := workingPath s.kernel.vfs.currentWorkingDirectory path
  if absolute.length < vfsMaxPath then body absolute else none

/-- How the commands with a path begin: without one they print how they are used. -/
def withPath (s : Sys) (usage : String) (args : Option CStr)
    (body : CStr → CStr → Option (CStr × Sys)) : Option (CStr × Sys) :=
  match given args with
  | none => some (ascii usage, s)
  | some args => withAbsolute s args (body args)

def cmdCd (rounds : Nat) (s : Sys) (args : Option CStr) : Option (CStr × Sys) :=
  withPath s "Usage: cd <dir>\n" args fun args path => do
    let ((code, info), k) ← vfsStat rounds path s.kernel
    if code ≠ .success then
      return (ascii "cd: No such file or directory '" ++ args ++ ascii "'\n",
        { s with kernel := k })
    if info.map Dirent.type ≠ some .directory then
      return (ascii "cd: Not a directory '" ++ args ++ ascii "'\n", { s with kernel := k })
    let (code, k) ← vfsChdir rounds path k
    if code ≠ .success then
      return (ascii "cd: Failed to change directory to '" ++ args ++ ascii "'\n",
        { s with kernel := k })
    return ([], { s with kernel := k })

/-- A chunk as `%s` shows it, up to the first NUL. -/
def shownChunk (bytes : List UInt8) : CStr := bytes.takeWhile (· ≠ 0)

/-- The loop of `cmd_cat` over chunks of the file. -/
def catLoop (rounds n : Nat) : Nat → Sys → Option (CStr × Sys)
  | 0, _ => none
  | chunks + 1, s => do
    let (answer, s) ← call rounds s (.read n 255)
    match answer with
    | .bytes (some (b :: bytes)) =>
      let (text, s) ← catLoop rounds n chunks s
      return (shownChunk (b :: bytes) ++ text, s)
    | _ => return ([], s)

def cmdCat (rounds : Nat) (s : Sys) (args : Option CStr) : Option (CStr × Sys) :=
  withPath s "Usage: cat <file>\n" args fun args path => do
    let n := s.handles.length
    let (answer, s) ← call rounds s (.openFile path)
    if answer ≠ .code .success then
      return (ascii "cat: cannot open '" ++ args ++ ascii "': No such file\n", s)
    let (text, s) ← catLoop rounds n rounds s
    let (_, s) ← call rounds s (.close n)
    return (text ++ [newline], s)

/-- `cmd_touch`, `cmd_mkdir`, `cmd_rm` and `cmd_rmdir`. -/
def cmdOnPath (usage : String) (act : CStr → Act) (failed before after : String) (rounds : Nat)
    (s : Sys) (args : Option CStr) : Option (CStr × Sys) :=
  withPath s usage args fun args path => do
    let (answer, s) ← call rounds s (act path)
    if answer ≠ .code .success then return (ascii failed ++ args ++ ascii "'\n", s)
    return (ascii before ++ args ++ ascii after, s)

def cmdTouch : Nat → Sys → Option CStr → Option (CStr × Sys) :=
  cmdOnPath "Usage: touch <file>\n" .create "touch: cannot create '" "File '" "' created.\n"

def cmdMkdir : Nat → Sys → Option CStr → Option (CStr × Sys) :=
  cmdOnPath "Usage: mkdir <dir>\n" .mkdir "mkdir: cannot create directory '" "Directory '"
    "' created.\n"

def cmdRm : Nat → Sys → Option CStr → Option (CStr × Sys) :=
  cmdOnPath "Usage: rm <file>\n" .remove "rm: cannot remove '" "File '" "' removed.\n"

def cmdRmdir : Nat → Sys → Option CStr → Option (CStr × Sys) :=
  cmdOnPath "Usage: rmdir <dir>\n" .rmdir "rmdir: cannot remove directory '" "Directory '"
    "' removed.\n"

/-- The blanks at the end of the text go, but its first byte stays. -/
def trimEnd : CStr → CStr
  | [] => []
  | c :: text => c :: text.rdropWhile (· = space)

/-- The writes of `cmd_echo` to the file that it opened, and what is printed. -/
def echoTo (rounds n : Nat) (text filename : CStr) (s : Sys) : Option (CStr × Sys) := do
  let (answer, s) ← call rounds s (.write n text)
  match answer with
  | .count (some written) =>
    let (_, s) ← call rounds s (.write n [newline])
    return (ascii "echo: wrote " ++ formatUnsigned (written + 1) 10 false ++
      ascii " bytes to '" ++ filename ++ ascii "'\n", s)
  | _ => return (ascii "echo: failed to write to '" ++ filename ++ ascii "'\n", s)

/-- The branch of `cmd_echo` with a `>`. -/
def echoInto (rounds : Nat) (s : Sys) (text filename : CStr) : Option (CStr × Sys) :=
  if filename = [] then some (ascii "echo: missing filename after >\n", s)
  else withAbsolute s filename fun path => do
    -- the file may be there already
    let (_, s) ← call rounds s (.create path)
    let n := s.handles.length
    let (answer, s) ← call rounds s (.openFile path)
    if answer ≠ .code .success then
      return (ascii "echo: cannot write to '" ++ filename ++ ascii "'\n", s)
    let (out, s) ← echoTo rounds n text filename s
    let (_, s) ← call rounds s (.close n)
    return (out, s)

def cmdEcho (rounds : Nat) (s : Sys) (args : Option CStr) : Option (CStr × Sys) :=
  match given args with
  | none => some ([newline], s)
  | some args =>
    match strchr redirect args with
    | none => some (args ++ [newline], s)
    | some i => echoInto rounds s (trimEnd (args.take i))
        ((args.drop (i + 1)).dropWhile (· = space))

def cmdPwd (s : Sys) : CStr × Sys := (s.kernel.vfs.currentWorkingDirectory ++ [newline], s)

/-- `"/mnt/fat32"` -/
def fat32Mountpoint : CStr := ascii "/mnt/fat32"

/-- The list of the mounts goes to the log. -/
def mountUsage : CStr := ascii "Current mounts:\n\n" ++
  ascii "Usage: mount fat32 - Mount FAT32 from device 0 to /mnt/fat32\n"

def cmdMount (rounds : Nat) (s : Sys) (args : Option CStr) : Option (CStr × Sys) :=
  match given args with
  | none => some (mountUsage, s)
  | some args =>
    if args = ascii "fat32" then do
      let (answer, s) ← call rounds s (.mountFat32 fat32Mountpoint 0)
      if answer ≠ .code .success then return (ascii "Failed to mount FAT32 filesystem\n", s)
      return (ascii "FAT32 filesystem mounted at /mnt/fat32\n", s)
    else some (ascii "Unknown filesystem type: " ++ args ++ ascii "\nSupported types: fat32\n", s)

def cmdUmount (rounds : Nat) (s : Sys) (args : Option CStr) : Option (CStr × Sys) :=
  match given args with
  | none => some (ascii "Usage: umount <mountpoint>\n", s)
  | some args => do
    let (answer, s) ← call rounds s (.unmount args)
    if answer ≠ .code .success then return (ascii "Failed to unmount " ++ args ++ [newline], s)
    return (ascii "Filesystem unmounted from " ++ args ++ [newline], s)

def Command.run (rounds : Nat) (s : Sys) (args : Option CStr) : Command → Option (CStr × Sys)
  | .cd => cmdCd rounds s args
  | .cat => cmdCat rounds s args
  | .touch => cmdTouch rounds s args
  | .mkdir => cmdMkdir rounds s args
  | .rm => cmdRm rounds s args
  | .rmdir => cmdRmdir rounds s args
  | .echo => cmdEcho rounds s args
  | .pwd => some (cmdPwd s)
  | .mount => cmdMount rounds s args
  | .umount => cmdUmount rounds s args

/-- `shell_process_command` of a line that is blank or names one of these commands. -/
def processCommand (rounds : Nat) (s : Sys) (cmd : CStr) : Option (CStr × Sys) :=
  match splitCommand cmd with
  | (none, _) => some ([], s)
  | (some name, args) =>
    (commands.find? fun entry => entry.1 = name).bind fun entry => entry.2.run rounds s args

/-! ## The table of open files -/

/-- The handles in the table are those that were there, and free entries stay zero. -/
def Tidy (v v' : VfsTables) : Prop := Clean v → Clean v' ∧ entered v' ~ entered v

variable {rounds n : Nat} {s t u : Sys} {v v' w : VfsTables} {out : CStr} {args : Option CStr}
  {path : CStr} {r : Answer} {f : VfsFile}

theorem Tidy.refl (v : VfsTables) : Tidy v v := fun h => ⟨h, .refl _⟩

theorem Tidy.trans (h : Tidy v v') (h' : Tidy v' w) : Tidy v w := fun hclean =>
  have hmid := h hclean
  ⟨(h' hmid.1).1, (h' hmid.1).2.trans hmid.2⟩

theorem tidy_of_files (h : v'.openFiles = v.openFiles) : Tidy v v' := fun hclean =>
  ⟨fun f hf => hclean f (h ▸ hf), by rw [entered, entered, h]⟩

theorem tidy_of_eq (h : v' = v) : Tidy v v' := h ▸ .refl _

/-! ### Calls that leave the table alone -/

theorem kmallocIf_vfs {gets : Bool} {size p : Nat} {o : Owner}
    (h : s.kmallocIf gets size o = some (p, u)) : u.kernel.vfs = s.kernel.vfs := by
  unfold Sys.kmallocIf at h
  split at h
  · obtain ⟨q, -, hq⟩ := Option.map_eq_some_iff.mp h
    cases hq
    rfl
  · cases h
    rfl

theorem blocksFor_vfs {starts : Bool} {type : Ramfs.Nodes.FSNodeType} {a : Ramfs.Nodes.Alloc}
    (h : s.blocksFor starts type = some (a, u)) : u.kernel.vfs = s.kernel.vfs := by
  obtain ⟨⟨node, t⟩, hnode, h⟩ := Option.bind_eq_some_iff.mp h
  obtain ⟨⟨second, w⟩, hsecond, h⟩ := Option.bind_eq_some_iff.mp h
  cases h
  exact (kmallocIf_vfs hsecond).trans (kmallocIf_vfs hnode)

theorem run_vfs {α β : Type} {answer : α → β} {b : β} {c : Eff Kernel α}
    (h : s.run answer c = some (b, u)) : ∃ a, c s.kernel = some (a, u.kernel) ∧ b = answer a := by
  obtain ⟨⟨a, k⟩, hk, hr⟩ := Option.map_eq_some_iff.mp h
  cases hr
  exact ⟨a, hk, rfl⟩

theorem onPath_vfs {operation : Ops → CStr → Fs Code} {code : Code} {k k' : Kernel}
    (h : onPath rounds operation path k = some (code, k')) : k'.vfs = k.vfs := by
  obtain rfl | ⟨-, -, -, -, hvfs, -⟩ := onPath_cases h
  · rfl
  · exact hvfs

theorem make_vfs {type : Ramfs.Nodes.FSNodeType} {c : Ramfs.Nodes.Alloc → Eff Kernel Code}
    (hc : ∀ a k code k', c a k = some (code, k') → k'.vfs = k.vfs)
    (h : s.make rounds type c path = some (r, u)) : u.kernel.vfs = s.kernel.vfs := by
  obtain ⟨starts, -, h⟩ := Option.bind_eq_some_iff.mp h
  obtain ⟨⟨a, t⟩, ht, h⟩ := Option.bind_eq_some_iff.mp h
  obtain ⟨code, hrun, -⟩ := run_vfs h
  exact (hc _ _ _ _ hrun).trans (blocksFor_vfs ht)

theorem removal_vfs {c : Eff Kernel Code} (hc : ∀ k code k', c k = some (code, k') → k'.vfs = k.vfs)
    (h : s.removal rounds c path = some (r, u)) : u.kernel.vfs = s.kernel.vfs := by
  obtain ⟨node, -, h⟩ := Option.bind_eq_some_iff.mp h
  obtain ⟨⟨code, t⟩, ht, h⟩ := Option.bind_eq_some_iff.mp h
  obtain ⟨code', hrun, -⟩ := run_vfs ht
  have hvfs := hc _ _ _ hrun
  cases h
  split
  · exact hvfs
  · exact hvfs

theorem create_vfs (h : call rounds s (.create path) = some (r, u)) :
    u.kernel.vfs = s.kernel.vfs :=
  make_vfs (c := fun a => vfsCreate rounds a path) (fun _ _ _ _ hk => onPath_vfs hk) h

theorem mkdir_vfs (h : call rounds s (.mkdir path) = some (r, u)) :
    u.kernel.vfs = s.kernel.vfs :=
  make_vfs (c := fun a => vfsMkdir rounds a path) (fun _ _ _ _ hk => onPath_vfs hk) h

theorem remove_vfs (h : call rounds s (.remove path) = some (r, u)) :
    u.kernel.vfs = s.kernel.vfs :=
  removal_vfs (c := vfsRemove rounds path) (fun _ _ _ hk => onPath_vfs hk) h

theorem rmdir_vfs (h : call rounds s (.rmdir path) = some (r, u)) :
    u.kernel.vfs = s.kernel.vfs :=
  removal_vfs (c := vfsRmdir rounds path) (fun _ _ _ hk => onPath_vfs hk) h

/-! ### A file that is open -/

/-- The tables, and the caller's structure with number `n`, but for its position. -/
structure Holds (v : VfsTables) (n : Nat) (f : VfsFile) (s : Sys) : Prop where
  vfs : s.kernel.vfs = v
  handle : ∃ f', s.handles[n]? = some f' ∧ Moved f f'

theorem moved_trans {f f' f'' : VfsFile} (h : Moved f f') (h' : Moved f' f'') : Moved f f'' := by
  have hback := congrArg (fun g : VfsFile => { g with position := f.position }) h'
  exact Eq.trans hback h

theorem Holds.runOn {α : Type} {answer : α → Answer} {c : VfsFile → Eff Kernel (α × VfsFile)}
    (hc : ∀ f k a f' k', c f k = some ((a, f'), k') → k'.vfs = k.vfs ∧ Moved f f')
    (hs : Holds v n f s) (h : s.runOn n answer c = some (r, u)) : Holds v n f u := by
  obtain ⟨f', hf', hmoved⟩ := hs.handle
  rw [Sys.runOn, hf'] at h
  obtain ⟨⟨⟨a, f''⟩, k⟩, hk, hr⟩ := Option.map_eq_some_iff.mp h
  cases hr
  obtain ⟨hvfs, hmoved'⟩ := hc _ _ _ _ _ hk
  refine ⟨hvfs.trans hs.vfs, f'', ?_, moved_trans hmoved hmoved'⟩
  exact List.getElem?_set_self (List.getElem?_eq_some_iff.mp hf').1

theorem Holds.read {size : Nat} (hs : Holds v n f s)
    (h : call rounds s (.read n size) = some (r, u)) : Holds v n f u :=
  hs.runOn (c := fun f => vfsRead f size) (fun _ _ _ _ _ hk => (vfsRead_cases hk).2) h

theorem growTo_frame {p q size : Nat} {x : Ramfs.Nodes.FSNode}
    (h : s.growTo p x size = some (q, u)) :
    u.kernel.vfs = s.kernel.vfs ∧ u.handles = s.handles := by
  unfold Sys.growTo at h
  split at h
  · obtain ⟨q, -, hq⟩ := Option.map_eq_some_iff.mp h
    cases hq
    exact ⟨rfl, rfl⟩
  · obtain ⟨q, -, hq⟩ := Option.map_eq_some_iff.mp h
    cases hq
    exact ⟨rfl, rfl⟩

theorem grow_frame {place : Option (Nat × Ramfs.Nodes.FSNode × Nat)} {length q : Nat}
    (h : s.grow place length = some (q, u)) :
    u.kernel.vfs = s.kernel.vfs ∧ u.handles = s.handles := by
  unfold Sys.grow at h
  split at h
  · cases h
    exact ⟨rfl, rfl⟩
  split at h
  · cases h
    exact ⟨rfl, rfl⟩
  · exact growTo_frame h

theorem Holds.write {src : List UInt8} (hs : Holds v n f s)
    (h : call rounds s (.write n src) = some (r, u)) : Holds v n f u := by
  obtain ⟨⟨q, t⟩, ht, h⟩ := Option.bind_eq_some_iff.mp h
  obtain ⟨hvfs, hhandles⟩ := grow_frame ht
  have hs' : Holds v n f t := ⟨hvfs.trans hs.vfs, hhandles ▸ hs.handle⟩
  exact hs'.runOn (c := fun f => vfsWrite ⟨q, t.memory⟩ f src)
    (fun _ _ _ _ _ hk => (vfsWrite_cases hk).2) h

theorem Holds.close (hs : Holds v n f s) (hused : f.inUse = true)
    (h : call rounds s (.close n) = some (r, u)) : u.kernel.vfs = withoutEntry v f := by
  obtain ⟨f', hf', hmoved⟩ := hs.handle
  obtain ⟨k, hk, -, hvfs⟩ := vfsClose_spec f' s.kernel
  have hcall : call rounds s (.close n) = some (.nothing, { s with
      kernel := k, handles := s.handles.set n (if f'.inUse then .zero else f') }) := by
    change s.runOn n (fun _ => Answer.nothing) (fun f => do return ((), ← vfsClose f)) = _
    simp only [Sys.runOn, hf', bind_run, hk]
    rfl
  cases hcall.symm.trans h
  rw [hmoved.inUse, if_pos hused, hs.vfs] at hvfs
  rw [hvfs, withoutEntry, withoutEntry, VfsTables.entryOf, VfsTables.entryOf]
  have hkey : (f'.fsHandle, f'.mount) = (f.fsHandle, f.mount) := hmoved.handleOf
  rw [hkey]

/-! ### Commands -/

theorem tidy_open (hopened : v.freeFile = some n) (hused : f.inUse = true)
    (hv : v' = withoutEntry { v with openFiles := v.openFiles.set n f } f) : Tidy v v' := by
  intro hclean
  obtain ⟨hn, hfree, -⟩ := List.findIdx?_eq_some_iff_getElem.mp hopened
  have hfill : entered { v with openFiles := v.openFiles.set n f } ~ handleOf f :: entered v :=
    taken_fill (List.getElem?_eq_getElem hn) (by simpa using hfree) hused
  have hclear := entered_withoutEntry (hfill.mem_iff.mpr (.head _))
  have hclean' : Clean { v with openFiles := v.openFiles.set n f } :=
    clean_set hclean fun hf => absurd hused (by rw [hf]; decide)
  subst hv
  refine ⟨?_, (List.perm_cons _).mp (hclear.trans hfill)⟩
  obtain hsame | ⟨j, hj⟩ := withoutEntry_openFiles { v with openFiles := v.openFiles.set n f } f
  · rw [hsame]
    exact hclean'
  · rw [hj]
    exact clean_set hclean' fun _ => rfl

/-- An open that fails leaves the table alone, and one that succeeds enters a handle
that the caller holds. -/
theorem openFile_cases (h : call rounds s (.openFile path) = some (r, u)) :
    (r ≠ .code .success ∧ Tidy s.kernel.vfs u.kernel.vfs) ∨
      ∃ j f, r = .code .success ∧ s.kernel.vfs.freeFile = some j ∧ f.inUse = true ∧
        Holds { s.kernel.vfs with openFiles := s.kernel.vfs.openFiles.set j f } s.handles.length f
          u := by
  obtain ⟨⟨⟨code, handle⟩, k⟩, hk, hr⟩ := Option.map_eq_some_iff.mp h
  cases hr
  obtain ⟨-, ⟨f, rfl, rfl, hopened⟩ | ⟨-, hrefused⟩⟩ := vfsOpen_cases hk
  · obtain ⟨j, hj, hvfs⟩ := hopened.entry
    refine .inr ⟨j, f, rfl, hj, hopened.inUse, hvfs, f, ?_, .refl f⟩
    exact List.getElem?_concat_length
  · refine .inl ⟨fun hcode => hrefused.failed (Answer.code.inj hcode), fun hclean => ?_⟩
    exact tidy_of_eq (hrefused.same hclean) hclean

theorem catLoop_holds : ∀ {chunks : Nat} {s u : Sys} {out : CStr}, Holds v n f s →
    catLoop rounds n chunks s = some (out, u) → Holds v n f u := by
  intro chunks
  induction chunks with
  | zero => exact fun _ h => nomatch h
  | succ chunks ih =>
    intro s u out hs h
    obtain ⟨⟨answer, t⟩, ht, h⟩ := Option.bind_eq_some_iff.mp h
    have hread := hs.read ht
    dsimp only at h
    split at h
    · obtain ⟨⟨text, w⟩, hw, h⟩ := Option.bind_eq_some_iff.mp h
      cases h
      exact ih hread hw
    · cases h
      exact hread

theorem echoTo_holds {text filename : CStr} (hs : Holds v n f s)
    (h : echoTo rounds n text filename s = some (out, u)) : Holds v n f u := by
  obtain ⟨⟨answer, t⟩, ht, h⟩ := Option.bind_eq_some_iff.mp h
  have hwrite := hs.write ht
  dsimp only at h
  split at h
  · obtain ⟨⟨answer', w⟩, hw, h⟩ := Option.bind_eq_some_iff.mp h
    cases h
    exact hwrite.write hw
  · cases h
    exact hwrite

theorem tidy_session {j : Nat} (hfree : s.kernel.vfs.freeFile = some j) (hused : f.inUse = true)
    (hs : Holds { s.kernel.vfs with openFiles := s.kernel.vfs.openFiles.set j f } n f t)
    (h : call rounds t (.close n) = some (r, u)) : Tidy s.kernel.vfs u.kernel.vfs :=
  tidy_open hfree hused (hs.close hused h)

theorem tidy_withAbsolute {body : CStr → Option (CStr × Sys)}
    (hbody : ∀ path, body path = some (out, u) → Tidy s.kernel.vfs u.kernel.vfs)
    (h : withAbsolute s path body = some (out, u)) : Tidy s.kernel.vfs u.kernel.vfs :=
  hbody _ (Option.ite_none_right_eq_some.mp h).2

theorem tidy_withPath {usage : String} {body : CStr → CStr → Option (CStr × Sys)}
    (hbody : ∀ args path, body args path = some (out, u) → Tidy s.kernel.vfs u.kernel.vfs)
    (h : withPath s usage args body = some (out, u)) : Tidy s.kernel.vfs u.kernel.vfs := by
  unfold withPath at h
  split at h
  · cases h
    exact .refl _
  · exact tidy_withAbsolute (hbody _) h

theorem vfsStat_vfs {k k' : Kernel} {code : Code} {info : Option Dirent}
    (h : vfsStat rounds path k = some ((code, info), k')) : k'.vfs = k.vfs := by
  obtain ⟨⟨found, t⟩, ht, h⟩ := Option.bind_eq_some_iff.mp h
  obtain ⟨rfl, ⟨i, ops, relative, rfl, -⟩ | ⟨code, rfl, -⟩⟩ := vfsLookup_cases ht
  · exact (onStores_spec h).1
  · cases h
    rfl

theorem vfsChdir_files {k k' : Kernel} {code : Code}
    (h : vfsChdir rounds path k = some (code, k')) : k'.vfs.openFiles = k.vfs.openFiles := by
  unfold vfsChdir at h
  split at h
  · cases h
    rfl
  obtain ⟨found, -, h⟩ := Option.bind_eq_some_iff.mp h
  cases found with
  | none =>
    cases h
    rfl
  | some found =>
    obtain ⟨-, h⟩ := Option.ite_none_right_eq_some.mp h
    obtain ⟨normalized, -, hr⟩ := Option.map_eq_some_iff.mp h
    cases hr
    rfl

theorem tidy_cd (h : cmdCd rounds s args = some (out, u)) : Tidy s.kernel.vfs u.kernel.vfs := by
  refine tidy_withPath (fun args path h => ?_) h
  obtain ⟨⟨⟨code, info⟩, k⟩, hstat, h⟩ := Option.bind_eq_some_iff.mp h
  have hvfs := vfsStat_vfs hstat
  dsimp only at h
  split at h
  · cases h
    exact tidy_of_eq hvfs
  split at h
  · cases h
    exact tidy_of_eq hvfs
  obtain ⟨⟨code', k'⟩, hchdir, h⟩ := Option.bind_eq_some_iff.mp h
  have hfiles := (vfsChdir_files hchdir).trans (congrArg VfsTables.openFiles hvfs)
  dsimp only at h
  split at h
  · cases h
    exact tidy_of_files hfiles
  · cases h
    exact tidy_of_files hfiles

theorem tidy_cat (h : cmdCat rounds s args = some (out, u)) : Tidy s.kernel.vfs u.kernel.vfs := by
  refine tidy_withPath (fun args path h => ?_) h
  obtain ⟨⟨answer, t⟩, hopen, h⟩ := Option.bind_eq_some_iff.mp h
  dsimp only at h
  obtain ⟨hcode, htidy⟩ | ⟨j, f, hcode, hfree, hused, hs⟩ := openFile_cases hopen
  · rw [if_pos hcode] at h
    cases h
    exact htidy
  · rw [if_neg (not_not.mpr hcode)] at h
    obtain ⟨⟨text, w⟩, hloop, h⟩ := Option.bind_eq_some_iff.mp h
    obtain ⟨⟨answer', w'⟩, hclose, h⟩ := Option.bind_eq_some_iff.mp h
    cases h
    exact tidy_session hfree hused (catLoop_holds hs hloop) hclose

theorem tidy_onPath {usage failed before after : String} {act : CStr → Act}
    (hact : ∀ {s u : Sys} {path : CStr} {r : Answer}, call rounds s (act path) = some (r, u) →
      u.kernel.vfs = s.kernel.vfs)
    (h : cmdOnPath usage act failed before after rounds s args = some (out, u)) :
    Tidy s.kernel.vfs u.kernel.vfs := by
  refine tidy_withPath (fun args path h => ?_) h
  obtain ⟨⟨answer, t⟩, ht, h⟩ := Option.bind_eq_some_iff.mp h
  dsimp only at h
  split at h
  · cases h
    exact tidy_of_eq (hact ht)
  · cases h
    exact tidy_of_eq (hact ht)

theorem tidy_echoInto {text filename : CStr} (h : echoInto rounds s text filename = some (out, u)) :
    Tidy s.kernel.vfs u.kernel.vfs := by
  unfold echoInto at h
  split at h
  · cases h
    exact .refl _
  refine tidy_withAbsolute (fun path h => ?_) h
  obtain ⟨⟨answer, t⟩, hcreate, h⟩ := Option.bind_eq_some_iff.mp h
  obtain ⟨⟨answer', w⟩, hopen, h⟩ := Option.bind_eq_some_iff.mp h
  refine (tidy_of_eq (create_vfs hcreate)).trans ?_
  dsimp only at h
  obtain ⟨hcode, htidy⟩ | ⟨j, f, hcode, hfree, hused, hs⟩ := openFile_cases hopen
  · rw [if_pos hcode] at h
    cases h
    exact htidy
  · rw [if_neg (not_not.mpr hcode)] at h
    obtain ⟨⟨out', x⟩, hecho, h⟩ := Option.bind_eq_some_iff.mp h
    obtain ⟨⟨answer'', y⟩, hclose, h⟩ := Option.bind_eq_some_iff.mp h
    cases h
    exact tidy_session hfree hused (echoTo_holds hs hecho) hclose

theorem tidy_echo (h : cmdEcho rounds s args = some (out, u)) : Tidy s.kernel.vfs u.kernel.vfs := by
  unfold cmdEcho at h
  split at h
  · cases h
    exact .refl _
  split at h
  · cases h
    exact .refl _
  · exact tidy_echoInto h

theorem mountFat32_files {mountpoint : CStr} {deviceId : Nat}
    (h : call rounds s (.mountFat32 mountpoint deviceId) = some (r, u)) :
    u.kernel.vfs.openFiles = s.kernel.vfs.openFiles := by
  obtain ⟨code, hrun, -⟩ := run_vfs h
  obtain ⟨⟨ok, k⟩, hok, hrun⟩ := Option.bind_eq_some_iff.mp hrun
  have hvfs := (onStores_spec hok).1
  have hmount (v : VfsTables) (fsType : Nat) (ops : Ops) :
      (vfsMount v mountpoint fsType deviceId ops).2.openFiles = v.openFiles := by
    unfold vfsMount
    repeat' split
    all_goals rfl
  simp only [ite_run] at hrun
  split at hrun
  · obtain ⟨-, hk⟩ := Prod.mk.inj (Option.some.inj hrun)
    rw [← hk]
    exact (hmount _ _ _).trans (congrArg VfsTables.openFiles hvfs)
  · cases hrun
    exact congrArg VfsTables.openFiles hvfs

theorem tidy_mount (h : cmdMount rounds s args = some (out, u)) :
    Tidy s.kernel.vfs u.kernel.vfs := by
  unfold cmdMount at h
  split at h
  · cases h
    exact .refl _
  split at h
  · obtain ⟨⟨answer, t⟩, ht, h⟩ := Option.bind_eq_some_iff.mp h
    dsimp only at h
    split at h
    · cases h
      exact tidy_of_files (mountFat32_files ht)
    · cases h
      exact tidy_of_files (mountFat32_files ht)
  · cases h
    exact .refl _

/-- **Every command but `umount` leaves the table of open files as it finds it.** -/
theorem tidy_run (c : Command) (hc : c ≠ .umount) (h : c.run rounds s args = some (out, u)) :
    Tidy s.kernel.vfs u.kernel.vfs := by
  cases c with
  | cd => exact tidy_cd h
  | cat => exact tidy_cat h
  | touch => exact tidy_onPath create_vfs h
  | mkdir => exact tidy_onPath mkdir_vfs h
  | rm => exact tidy_onPath remove_vfs h
  | rmdir => exact tidy_onPath rmdir_vfs h
  | echo => exact tidy_echo h
  | pwd =>
    cases h
    exact .refl _
  | mount => exact tidy_mount h
  | umount => exact absurd rfl hc

/-! ### Sessions -/

/-- What happens in a session: other code calls the kernel, or a line is entered. -/
inductive Event where
  | other (act : Act)
  | line (cmd : CStr)

def step (rounds : Nat) (s : Sys) : Event → Option Sys
  | .other act => (call rounds s act).map Prod.snd
  | .line cmd => (processCommand rounds s cmd).map Prod.snd

theorem clean_closeEntry {file : VfsFile} {k k' : Kernel} (hclean : Clean k.vfs)
    (h : closeEntry file k = some ((), k')) : Clean k'.vfs := by
  obtain ⟨t, ht, -, hvfs⟩ := closeEntry_spec file k
  cases ht.symm.trans h
  rw [hvfs]
  obtain hsame | ⟨j, hj⟩ := withoutEntry_openFiles k.vfs file
  · rw [hsame]
    exact hclean
  · rw [hj]
    exact clean_set hclean fun _ => rfl

theorem clean_closeAll (i : Nat) : ∀ (left j : Nat) {k k' : Kernel}, Clean k.vfs →
    closeAll i left j k = some ((), k') → Clean k'.vfs := by
  intro left
  induction left with
  | zero =>
    intro j k k' hclean h
    cases h
    exact hclean
  | succ left ih =>
    intro j k k' hclean h
    rw [closeAll] at h
    simp only [bind_run, get_run, Option.bind_some, ite_run] at h
    split at h
    · obtain ⟨t, ht, -⟩ := closeEntry_spec (k.vfs.openFiles.getD j .zero) k
      simp only [ht, Option.bind_some] at h
      exact ih _ (clean_set (clean_closeEntry hclean ht) fun _ => rfl) h
    · exact ih _ hclean h

theorem clean_unmount {mountpoint : CStr} {k k' : Kernel} {code : Code} (hclean : Clean k.vfs)
    (h : vfsUnmount mountpoint k = some (code, k')) : Clean k'.vfs := by
  rw [vfsUnmount] at h
  simp only [bind_run, get_run, Option.bind_some, ite_run] at h
  split at h
  · cases h
    exact hclean
  cases hat : k.vfs.mountedAt mountpoint with
  | none =>
    rw [hat] at h
    cases h
    exact hclean
  | some i =>
    obtain ⟨t, ht, -⟩ := closeAll_spec i vfsMaxOpenFiles 0 k
    obtain ⟨w, hw, -, hvfs⟩ := unmountBelow_spec i t
    have hall := clean_closeAll i _ _ hclean ht
    simp only [hat, bind_run, ht, Option.bind_some, hw] at h
    cases h
    exact fun f hf => hall f (by rw [← hvfs]; exact hf)

theorem runOn_kernel {α : Type} {answer : α → Answer} {c : VfsFile → Eff Kernel (α × VfsFile)}
    (h : s.runOn n answer c = some (r, u)) :
    u.kernel = s.kernel ∨ ∃ f a f', c f s.kernel = some ((a, f'), u.kernel) := by
  unfold Sys.runOn at h
  split at h
  · cases h
    exact .inl rfl
  · obtain ⟨⟨⟨a, f'⟩, k⟩, hk, hr⟩ := Option.map_eq_some_iff.mp h
    cases hr
    exact .inr ⟨_, a, f', hk⟩

theorem clean_runOn {α : Type} {answer : α → Answer} {c : VfsFile → Eff Kernel (α × VfsFile)}
    (hc : ∀ f k a f' k', c f k = some ((a, f'), k') → k'.vfs = k.vfs) (hclean : Clean s.kernel.vfs)
    (h : s.runOn n answer c = some (r, u)) : Clean u.kernel.vfs := by
  obtain hk | ⟨f, a, f', hk⟩ := runOn_kernel h
  · rw [hk]
    exact hclean
  · rw [hc _ _ _ _ _ hk]
    exact hclean

theorem clean_stores {α β : Type} {answer : α → β} {b : β} {m : Fs α} (hclean : Clean s.kernel.vfs)
    (h : s.run answer (onStores m) = some (b, u)) : Clean u.kernel.vfs := by
  obtain ⟨a, hrun, -⟩ := run_vfs h
  rw [(onStores_spec hrun).1]
  exact hclean

theorem client_vfs {c : Client} (h : s.client c = some u) : u.kernel.vfs = s.kernel.vfs := by
  cases c with
  | kfree p =>
    cases h
    rfl
  | store p i v =>
    cases h
    rfl
  | kmalloc m =>
    obtain ⟨⟨q, t⟩, hq, rfl⟩ := Option.map_eq_some_iff.mp h
    obtain ⟨x, -, hx⟩ := Option.map_eq_some_iff.mp hq
    cases hx
    rfl
  | krealloc p m =>
    obtain ⟨⟨q, t⟩, hq, rfl⟩ := Option.map_eq_some_iff.mp h
    obtain ⟨x, -, hx⟩ := Option.map_eq_some_iff.mp hq
    cases hx
    rfl

theorem vfsMount_files (v : VfsTables) (mountpoint : CStr) (fsType deviceId : Nat) (ops : Ops) :
    (vfsMount v mountpoint fsType deviceId ops).2.openFiles = v.openFiles := by
  unfold vfsMount
  repeat' split
  all_goals rfl

theorem clean_call (act : Act) (hclean : Clean s.kernel.vfs)
    (h : call rounds s act = some (r, u)) : Clean u.kernel.vfs := by
  cases act with
  | init =>
    obtain ⟨⟨a, t⟩, ht, h⟩ := Option.bind_eq_some_iff.mp h
    obtain ⟨-, h⟩ := Option.ite_none_left_eq_some.mp h
    exact clean_stores (tidy_of_eq (blocksFor_vfs ht) hclean).1 h
  | mount mountpoint fsType deviceId ops =>
    obtain ⟨code, hrun, -⟩ := run_vfs h
    obtain ⟨-, hk⟩ := Prod.mk.inj (Option.some.inj hrun)
    rw [← hk]
    exact (tidy_of_files (vfsMount_files _ _ _ _ _) hclean).1
  | mountFat32 mountpoint deviceId => exact (tidy_of_files (mountFat32_files h) hclean).1
  | unmount mountpoint =>
    obtain ⟨code, hrun, -⟩ := run_vfs h
    exact clean_unmount hclean hrun
  | create path => exact (tidy_of_eq (create_vfs h) hclean).1
  | mkdir path => exact (tidy_of_eq (mkdir_vfs h) hclean).1
  | remove path => exact (tidy_of_eq (remove_vfs h) hclean).1
  | rmdir path => exact (tidy_of_eq (rmdir_vfs h) hclean).1
  | openFile path =>
    obtain ⟨-, htidy⟩ | ⟨j, f, -, -, hused, hs⟩ := openFile_cases h
    · exact (htidy hclean).1
    · rw [hs.vfs]
      exact clean_set hclean fun hf => absurd hused (by rw [hf]; decide)
  | read n size =>
    exact clean_runOn (c := fun f => vfsRead f size) (fun _ _ _ _ _ hk => (vfsRead_cases hk).2.1)
      hclean h
  | write n src =>
    obtain ⟨⟨q, t⟩, ht, h⟩ := Option.bind_eq_some_iff.mp h
    exact clean_runOn (c := fun f => vfsWrite ⟨q, t.memory⟩ f src)
      (fun _ _ _ _ _ hk => (vfsWrite_cases hk).2.1) ((grow_frame ht).1 ▸ hclean) h
  | seek n position =>
    exact clean_runOn (c := fun f => vfsSeek f position)
      (fun _ _ _ _ _ hk => (vfsSeek_cases hk).2.1) hclean h
  | close n =>
    have h' : s.runOn n (fun _ => Answer.nothing) (fun f => do return ((), ← vfsClose f)) =
      some (r, u) := h
    obtain hk | ⟨f, a, f', hk⟩ := runOn_kernel h'
    · rw [hk]
      exact hclean
    · obtain ⟨k, hclose, -, hvfs⟩ := vfsClose_spec f s.kernel
      obtain ⟨⟨f'', k'⟩, hclose', hk⟩ := Option.bind_eq_some_iff.mp hk
      cases hk
      obtain ⟨-, rfl⟩ := Prod.mk.inj (Option.some.inj (hclose.symm.trans hclose'))
      rw [hvfs]
      split
      · obtain hsame | ⟨j, hj⟩ := withoutEntry_openFiles s.kernel.vfs f
        · rw [hsame]
          exact hclean
        · rw [hj]
          exact clean_set hclean fun _ => rfl
      · exact hclean
  | sysOpen path => exact clean_stores hclean h
  | sysRead fd size => exact clean_stores hclean h
  | sysWrite fd src =>
    obtain ⟨⟨q, t⟩, ht, h⟩ := Option.bind_eq_some_iff.mp h
    exact clean_stores ((grow_frame ht).1 ▸ hclean) h
  | sysClose fd =>
    have h' : s.run (fun _ => Answer.nothing) (onStores (Vfs.Transfers.sysClose fd)) =
      some (r, u) := h
    exact clean_stores hclean h'
  | other c =>
    obtain ⟨t, ht, hr⟩ := Option.map_eq_some_iff.mp h
    cases hr
    rw [client_vfs ht]
    exact hclean

theorem tidy_processCommand {cmd : CStr} (hcmd : (splitCommand cmd).1 ≠ some (ascii "umount"))
    (h : processCommand rounds s cmd = some (out, u)) : Tidy s.kernel.vfs u.kernel.vfs := by
  unfold processCommand at h
  split at h
  · cases h
    exact .refl _
  rename_i name args hsplit
  rw [hsplit] at hcmd
  obtain ⟨⟨name', c⟩, hfind, hrun⟩ := Option.bind_eq_some_iff.mp h
  obtain rfl : name' = name := by simpa using List.find?_some hfind
  refine tidy_run c (fun hc => hcmd ?_) hrun
  have hmem := List.mem_of_find?_eq_some hfind
  simpa [commands, hc] using hmem

theorem clean_umount (hclean : Clean s.kernel.vfs) (h : cmdUmount rounds s args = some (out, u)) :
    Clean u.kernel.vfs := by
  unfold cmdUmount at h
  split at h
  · cases h
    exact hclean
  obtain ⟨⟨answer, t⟩, ht, h⟩ := Option.bind_eq_some_iff.mp h
  have hclean' := clean_call _ hclean ht
  dsimp only at h
  split at h
  · cases h
    exact hclean'
  · cases h
    exact hclean'

theorem clean_step (event : Event) (hclean : Clean s.kernel.vfs)
    (h : step rounds s event = some u) : Clean u.kernel.vfs := by
  cases event with
  | other act =>
    obtain ⟨⟨answer, t⟩, ht, rfl⟩ := Option.map_eq_some_iff.mp h
    exact clean_call act hclean ht
  | line cmd =>
    obtain ⟨⟨out, t⟩, ht, rfl⟩ := Option.map_eq_some_iff.mp h
    unfold processCommand at ht
    split at ht
    · cases ht
      exact hclean
    obtain ⟨⟨name, c⟩, -, ht⟩ := Option.bind_eq_some_iff.mp ht
    by_cases hc : c = .umount
    · subst hc
      exact clean_umount hclean ht
    · exact (tidy_run c hc ht hclean).1

theorem clean_vfsInit : Clean vfsInit := fun _ hf _ => (List.mem_replicate.mp hf).2

/-- **No line leaks a handle.** In every state that the kernel's calls and the shell's
lines lead to, in any order, a line that is no `umount` and comes back leaves in the
table of open files the handles that it found there, each as often, whatever the file
systems answer. -/
theorem lines_leak_no_handle (hs : s.kernel.vfs = vfsInit) (rounds : Nat) (events : List Event) :
    ∀ t ∈ visited (step rounds) events s, ∀ (cmd out : CStr) (u : Sys),
      (splitCommand cmd).1 ≠ some (ascii "umount") →
      processCommand rounds t cmd = some (out, u) →
      entered u.kernel.vfs ~ entered t.kernel.vfs := by
  intro t ht cmd out u hcmd hrun
  have hclean : Clean t.kernel.vfs := inv_visited_all
    (fun s event t hs h => clean_step event hs h) events (by rw [hs]; exact clean_vfsInit) t ht
  exact (tidy_processCommand hcmd hrun hclean).2

/-- A RAM file system at the root, and a file with a line in it. -/
def writeLine : List Event :=
  [.other (.mount rootStr fsRamfs 0 .ramfs), .other .init, .line (ascii "echo  hi  >  f")]

/-- `cat` opens the file, prints it and closes it. -/
theorem lines_leak_no_handle_cat :
    ∃ t ∈ visited (step 9) writeLine (start vfsInit Vfs.Runs.noVolume fun _ => 0), ∃ u,
      processCommand 9 t (ascii "cat f") = some (ascii " hi\n\n", u) ∧
        entered u.kernel.vfs ~ entered t.kernel.vfs := by
  have hrun : (writeLine.foldlM (step 9) (start vfsInit Vfs.Runs.noVolume fun _ => 0)).any (fun t =>
      (processCommand 9 t (ascii "cat f")).any fun r => decide (r.1 = ascii " hi\n\n")) = true := by
    decide +kernel
  obtain ⟨t, ht, hcat⟩ := (Option.any_eq_true _ _).mp hrun
  obtain ⟨⟨out, u⟩, hu, hout⟩ := (Option.any_eq_true _ _).mp hcat
  obtain rfl : out = ascii " hi\n\n" := of_decide_eq_true hout
  have hvisited := mem_visited_of_foldlM ht
  exact ⟨t, hvisited, u, hu,
    lines_leak_no_handle rfl 9 writeLine t hvisited _ _ _ (by decide +kernel) hu⟩

end ContinuumOS.Shell.Commands
