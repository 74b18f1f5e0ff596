import Ptu.Spec.CopyFile
import Ptu.Spec.Fs
import Ptu.Spec.Path

/-!
# Mirroring files

`create_mirror_file`, `create_mirror_dirs` and `create_mirror_symlink_and_target`. The
last two call each other; `fuel` bounds the nesting of `create_mirror_symlink_and_target`,
and a recursion without end overflows the stack.
-/

namespace Ptu

open Pathname

variable (h : Host)

/-- The message of `okapi_copy_file` before it exits. -/
def copyMessage (dst : CString) : CString := str "Error in copy_file: cannot create '" ++ dst ++ str "'\n"

/-- `okapi_copy_file`. The source is opened first, but the destination is made also if that fails. (A
dangling link at `dst` is not followed here: `link` reports it as `EEXIST` and nothing is copied.) -/
def okapiCopyFile (fs : Fs) (src dst : CString) : Except Fatal Fs :=
  let content := openRead h fs src
  match realpath h fs dst with
  | some p =>
    match fs p with
    | some (.file old) =>
      .ok (fs.set p (.file ⟨okapiCopy h.readSize content (some old.content),
        if content.getD [] = [] then old.mtime else h.now⟩))
    | _ => .error (.exit (copyMessage dst))
  | none =>
    match newEntry h fs false dst with
    | .ok p => .ok (fs.set p (.file ⟨okapiCopy h.readSize content none, h.now⟩))
    | .error _ => .error (.exit (copyMessage dst))

/-- Try a hard link and else copy; that the file exists already is no failure. -/
def linkOrCopy (fs : Fs) (src dst : CString) : Except Fatal Fs :=
  match link h fs src dst with
  | .ok fs => .ok fs
  | .error .eexist => .ok fs
  | .error .other => okapiCopyFile h fs src dst

/-- The type of `create_mirror_symlink_and_target`. -/
abbrev MirrorSymlink := CString → CString → CString → Fs → Except Fatal Fs

/-- One round of the loop of `create_mirror_dirs`. -/
def createMirrorDir (symlinkAndTarget : MirrorSymlink) (srcPrefix dstPrefix : CString) (fs : Fs)
    (dn : CString) : Except Fatal Fs :=
  if (lstat h fs (dstPrefix ++ dn)).isSome then .ok fs
  else if !isAbspath (srcPrefix ++ dn) then .error .assertion
  else
    match lstat h fs (srcPrefix ++ dn) with
    | none => .ok fs
    | some (.link _) => symlinkAndTarget dn srcPrefix dstPrefix fs
    | some .dir => .ok (mkdir h fs (dstPrefix ++ dn))
    | some (.file _) => .error .assertion

/-- `create_mirror_dirs` -/
def createMirrorDirs (symlinkAndTarget : MirrorSymlink) (originalAbspath srcPrefix dstPrefix : CString)
    (popOne : Bool) (fs : Fs) : Except Fatal Fs := do
  if !isAbspath dstPrefix then throw .assertion
  let p ← newPathFromAbspath originalAbspath
  let p := if popOne then pathPop p else p
  (List.range p.depth).foldlM
    (fun fs i => createMirrorDir h symlinkAndTarget srcPrefix dstPrefix fs (path2str p (i + 1))) fs

/-- `MAXPATHLEN` -/
def maxPathLen : ℕ := 4096

/-- `strcat` to a text in a `char buf[MAXPATHLEN]`. What does not fit with its NUL is written
over the stack. -/
def strcat (buf s : CString) : Except Fatal CString :=
  if (buf ++ s).length < maxPathLen then .ok (buf ++ s) else .error .segv

/-- `relative_symlink_target`: the symbolic link to the absolute path `target` as it is written into a
directory with the real path `dirRealpath`. -/
def relativeSymlinkTarget (srcPrefix dirRealpath target : CString) : Except Fatal CString := do
  if !startsWith dirRealpath srcPrefix then throw .assertion
  let buf ← strcat [] (str "./")
  let p ← newPathFromAbspath (dirRealpath.drop srcPrefix.length)
  let buf ← (List.range p.depth).foldlM (fun buf _ => strcat buf (str "../")) buf
  if !startsWith target srcPrefix then throw .assertion
  let suffix := target.drop srcPrefix.length
  if !isAbspath suffix then throw .assertion
  let buf ← strcat buf suffix
  if !startsWith buf (str "./") || !strstr buf (str "//") then throw .assertion
  return buf

/-- The second half of `create_mirror_symlink_and_target`: mirror what the link points to. -/
def createMirrorTarget (symlinkAndTarget : MirrorSymlink) (targetAbspath srcPrefix dstPrefix : CString)
    (fs : Fs) : Except Fatal Fs := do
  if !startsWith targetAbspath srcPrefix then throw .assertion
  let suffix := targetAbspath.drop srcPrefix.length
  if !isAbspath suffix then throw .assertion
  match lstat h fs targetAbspath with
  | none => return fs
  | some (.link _) => symlinkAndTarget suffix srcPrefix dstPrefix fs
  | some nd =>
    let original ← canonicalizeAbspath targetAbspath
    if !startsWith original srcPrefix then throw .assertion
    let originalSuffix := original.drop srcPrefix.length
    if !isAbspath originalSuffix then throw .assertion
    if nd = .dir then
      createMirrorDirs h symlinkAndTarget originalSuffix srcPrefix dstPrefix false fs
    else
      let fs ← createMirrorDirs h symlinkAndTarget originalSuffix srcPrefix dstPrefix true fs
      linkOrCopy h fs targetAbspath (dstPrefix ++ originalSuffix)

/-- `create_mirror_symlink_and_target` -/
def createMirrorSymlinkAndTarget : ℕ → MirrorSymlink
  | 0, _, _, _, _ => .error .stackOverflow
  | fuel + 1, filenameAbspath, srcPrefix, dstPrefix, fs => do
    if !isAbspath filenameAbspath || !isAbspath dstPrefix then throw .assertion
    let srcPath := srcPrefix ++ filenameAbspath
    if !isAbspath srcPath then throw .assertion
    match lstat h fs srcPath with
    | none => throw (.exit (str "FATAL ERROR: lstat('" ++ srcPath ++ str "') failed\n"))
    | some (.link origTarget) =>
      if origTarget = [] then throw .assertion
      match realpath h fs (dirname srcPath) with
      | none => throw .assertion
      | some dir =>
        let dirRealpath := slash :: joinSlash dir
        let fs ← createMirrorDirs h (createMirrorSymlinkAndTarget fuel) filenameAbspath srcPrefix
          dstPrefix true fs
        if isAbspath origTarget then
          let relative ← relativeSymlinkTarget srcPrefix dirRealpath origTarget
          createMirrorTarget h (createMirrorSymlinkAndTarget fuel) origTarget srcPrefix dstPrefix
            (symlink h fs relative (dstPrefix ++ filenameAbspath))
        else
          createMirrorTarget h (createMirrorSymlinkAndTarget fuel) (dirRealpath ++ slash :: origTarget)
            srcPrefix dstPrefix (symlink h fs origTarget (dstPrefix ++ filenameAbspath))
    | some _ => throw .assertion

/-- `st_mtime` of what `stat` finds at `path`. -/
def mtime (path : CString) : Node File CString → ℕ
  | .file f => f.mtime
  | _ => h.dirMtime path

/-- The "lazy optimization to avoid redundant copies": the target is a regular file and the
mirrored one is at least as new. -/
def isFresh (fs : Fs) (dstPath : CString) : Option (Node File CString) → Bool
  | some (.file f) => (stat h fs dstPath).any fun dst => f.mtime ≤ mtime h dstPath dst
  | _ => false

/-- `create_mirror_file` -/
def createMirrorFile (fuel : ℕ) (filenameAbspath srcPrefix dstPrefix : CString) (fs : Fs) :
    Except Fatal Fs := do
  if !isAbspath filenameAbspath || !isAbspath dstPrefix then throw .assertion
  let srcPath := srcPrefix ++ filenameAbspath
  let dstPath := dstPrefix ++ filenameAbspath
  if !isAbspath srcPath then throw .assertion
  match lstat h fs srcPath with
  | none => return fs
  | some (.link _) =>
    if isFresh h fs dstPath (stat h fs srcPath) then return fs
    createMirrorSymlinkAndTarget h fuel filenameAbspath srcPrefix dstPrefix fs
  | some .dir =>
    createMirrorDirs h (createMirrorSymlinkAndTarget h fuel) filenameAbspath srcPrefix dstPrefix false fs
  | some (.file f) =>
    if isFresh h fs dstPath (some (.file f)) then return fs
    let fs ← createMirrorDirs h (createMirrorSymlinkAndTarget h fuel) filenameAbspath srcPrefix
      dstPrefix true fs
    linkOrCopy h fs srcPath dstPath

end Ptu
