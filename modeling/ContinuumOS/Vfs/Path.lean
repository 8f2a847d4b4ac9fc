import ContinuumOS.Libc.String

/-! # Paths of the virtual file system

`vfs_resolve_dots`, `vfs_normalize_path`, `vfs_find_mount`, `vfs_resolve_path`
and `vfs_chdir` of `src/kernel/vfs.cpp`. The token loop of `vfs_resolve_dots`
need not end, so it takes a number of rounds (`fuel`) and returns `none` when
they are used up; every function above it passes the number on. -/
namespace ContinuumOS.Vfs.Path
open ContinuumOS.Libc.String

/-- `VFS_MAX_PATH` -/
def vfsMaxPath : Nat := 256

/-- Rows of the local array `components` of `vfs_resolve_dots`. -/
def maxComponents : Nat := 32

inductive Status where
  | success
  | error
  | notFound
  | notMounted
  deriving DecidableEq, Repr

/-- The part of `vfs_mount_t` that path resolution reads. -/
structure Mount where
  mountpoint : CStr
  mounted : Bool
  deriving DecidableEq, Repr

/-- The static variables of `vfs.cpp` that path resolution reads. -/
structure VfsState where
  initialized : Bool
  currentWorkingDirectory : CStr
  mounts : List Mount
  deriving DecidableEq, Repr

/-- `"."` -/
def dotStr : CStr := [dot]

/-- `".."` -/
def dotDotStr : CStr := [dot, dot]

/-- `"/"` -/
def rootStr : CStr := [slash]

/-- The text that `vfs_resolve_dots` and `vfs_chdir` build first: an absolute
path as it is, any other behind the working directory. -/
def workingPath (cwd path : CStr) : CStr :=
  if path.head? = some slash then path
  else cwd ++ (if cwd = rootStr then [] else [slash]) ++ path

/-- What one token other than `"."` does to the rows of `components` in use. -/
def pushComponent (components : List CStr) (token : CStr) : List CStr :=
  if token = dotDotStr then components.dropLast else components ++ [token]

/-- The token loop. `components` holds the first `component_count` rows. -/
def resolveDotsLoop : Nat → Option CStr → CStr → List CStr → Option (List CStr)
  | 0, _, _, _ => none
  | _ + 1, none, _, components => some components
  | fuel + 1, some token, last, components =>
    if components.length < maxComponents then
      if token = dotStr then
        -- `continue` goes back to the test without a call of `strtok`
        resolveDotsLoop fuel (some token) last components
      else
        let next := strtok [slash] last
        resolveDotsLoop fuel next.1 next.2 (pushComponent components token)
    else some components

/-- The path that the rows of `components` spell. -/
def rebuildPath (components : List CStr) : CStr :=
  if components = [] then rootStr
  else components.foldl (fun resolved c => resolved ++ [slash] ++ c) []

def vfsResolveDots (fuel : Nat) (cwd path : CStr) : Option CStr :=
  let first := strtok [slash] (workingPath cwd path)
  (resolveDotsLoop fuel first.1 first.2 []).map rebuildPath

/-- The copy loop of `vfs_normalize_path` that drops repeated slashes; `written`
counts the bytes already in the destination. -/
def collapseSlashes : CStr → Nat → Bool → CStr
  | [], _, _ => []
  | c :: src, written, lastWasSlash =>
    if written < vfsMaxPath - 1 then
      if c = slash then
        if lastWasSlash then collapseSlashes src written true
        else slash :: collapseSlashes src (written + 1) true
      else c :: collapseSlashes src (written + 1) false
    else []

/-- The clean-up after the copy loop: no trailing slash except the root's, and
the root is not empty. -/
def trimSlash (p : CStr) : CStr :=
  let p := if 1 < p.length ∧ p.getLast? = some slash then p.dropLast else p
  if p = [] then rootStr else p

/-- The parent of the working directory, as the fast path for `".."` has it. -/
def parentOfCwd (cwd : CStr) : CStr :=
  if cwd = rootStr then rootStr
  else match strrchr slash cwd with
    | some (i + 1) => cwd.take (i + 1)
    | _ => rootStr

/-- `vfs_normalize_path` behind its two fast paths. -/
def normalizeGeneral (fuel : Nat) (cwd path : CStr) : Option CStr :=
  (vfsResolveDots fuel cwd path).map fun temp => trimSlash (collapseSlashes temp 0 false)

def vfsNormalizePath (fuel : Nat) (cwd path : CStr) : Option CStr :=
  if path = dotStr then some cwd
  else if path = dotDotStr then some (parentOfCwd cwd)
  else normalizeGeneral fuel cwd path

/-- One round of the search in `vfs_find_mount`: a mounted file system whose
mountpoint ends at a component of `path` and is longer than the best so far. -/
def findMountStep (path : CStr) (best : Option Mount × Nat) (m : Mount) : Option Mount × Nat :=
  let mountLen := m.mountpoint.length
  if m.mounted && m.mountpoint.isPrefixOf path &&
      (path[mountLen]? == none || path[mountLen]? == some slash || m.mountpoint == rootStr) &&
      decide (best.2 < mountLen) then (some m, mountLen)
  else best

def vfsFindMount (vfs : VfsState) (path : CStr) : Option Mount :=
  if vfs.initialized then (vfs.mounts.foldl (findMountStep path) (none, 0)).1 else none

/-- The path inside the file system mounted at `m`. -/
def relativePath (m : Mount) (absolute : CStr) : CStr :=
  if m.mountpoint = rootStr then absolute
  else if absolute[m.mountpoint.length]? = some slash then absolute.drop m.mountpoint.length
  else rootStr

def vfsResolvePath (fuel : Nat) (vfs : VfsState) (path : CStr) : Option (Except Status (Mount × CStr)) :=
  (vfsNormalizePath fuel vfs.currentWorkingDirectory path).map fun absolute =>
    match vfsFindMount vfs absolute with
    | none => .error .notMounted
    | some m => .ok (m, relativePath m absolute)

def vfsChdir (fuel : Nat) (vfs : VfsState) (path : CStr) : Option (Status × VfsState) :=
  if vfs.initialized then
    (vfsResolvePath fuel vfs path).bind fun
      | .error _ => some (.notFound, vfs)
      | .ok _ =>
        (vfsNormalizePath fuel vfs.currentWorkingDirectory
            (workingPath vfs.currentWorkingDirectory path)).map fun normalized =>
          (.success, { vfs with currentWorkingDirectory := normalized })
  else some (.error, vfs)

end ContinuumOS.Vfs.Path
