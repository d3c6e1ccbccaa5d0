import GtfsStream.GtfsStatic.System

/-!
# The refresh of the static bundle

`download_and_extract_gtfs` and its helpers, as programs over the calls of
`GtfsStream.GtfsStatic.System`. The log lines are left out.
-/

namespace GtfsStream.GtfsStatic

open Program (done raise runIf perform)

/-- One call. -/
def sys (o : Op) : RefreshIO o.Ret := perform o

/-! ## Validators -/

/-- The code points that `str.strip()` removes. -/
def spaces : List ℕ :=
  [9, 10, 11, 12, 13, 28, 29, 30, 31, 32, 133, 160, 5760, 8192, 8193, 8194, 8195, 8196, 8197, 8198,
    8199, 8200, 8201, 8202, 8232, 8233, 8239, 8287, 12288]

/-- `s.strip(chars)` -/
def strip (chars : List ℕ) (s : String) : String :=
  let drop (l : List Char) : List Char := l.dropWhile fun c ↦ c.toNat ∈ chars
  String.ofList (drop (drop s.toList).reverse).reverse

/-- `s or None` -/
def orNone (s : String) : Option String := if s = "" then none else some s

/-- The remote change validators: ETag and Last-Modified, either of which may be missing. -/
def validators (h : Headers) : Option String × Option String :=
  (orNone (strip [34] (h.etag.getD "")), orNone (strip spaces (h.lastModified.getD "")))

def fetchValidators : RefreshIO (Option String × Option String) := do
  done (validators (← sys .head))

def readValidator (name : String) : RefreshIO (Option String) := do
  let there ← sys (.fileExists .target name)
  if there then done (some (strip spaces (← sys (.readText .target name)))) else done none

/-- Compare the remote validators with what is on disk. -/
def bundleIsCurrent (remoteEtag remoteLastModified : Option String) : RefreshIO Bool :=
  match remoteEtag, remoteLastModified with
  | some etag, _ => do done ((← readValidator ".etag") = some etag)
  | none, some modified => do done ((← readValidator ".last_modified") = some modified)
  | none, none => done false

/-! ## Staging and swap -/

/-- Run `body` in a temporary directory, which is removed however `body` ends. -/
def withStaging {α : Type} (body : RefreshIO α) : RefreshIO α := do
  sys .mkdtemp
  let result ← body.tryCatch fun e ↦ do
    sys .cleanup
    raise e
  sys .cleanup
  done result

/-- The required files that are not in the staged bundle. -/
def missingFiles : List String → RefreshIO (List String)
  | [] => done []
  | fn :: fns => do
    let there ← sys (.fileExists .contents fn)
    let missing ← missingFiles fns
    done (if there then missing else fn :: missing)

def writeValidator (name : String) : Option String → RefreshIO Unit
  | some text => sys (.writeText .contents name text)
  | none => done ()

/-- `if old_path.exists(): shutil.rmtree(old_path)` -/
def rmtreeOld : RefreshIO Unit := do
  let old ← sys (.exists .old)
  runIf old (sys (.rmtree .old))

/-- Move a fully extracted bundle into place, keeping the previous one until the swap is done. -/
def swapIntoPlace : RefreshIO Unit := do
  rmtreeOld
  let target ← sys (.exists .target)
  runIf target (sys (.rename .target .old))
  sys (.rename .contents .target)
  rmtreeOld

/-- Download and extract the bundle, and swap it in if it is complete. -/
def stageAndSwap (remoteEtag remoteLastModified : Option String) : RefreshIO Bool := do
  sys (.mkdir .contents)
  sys .get
  sys .extractall
  let missing ← missingFiles requiredFiles
  if missing ≠ [] then done false
  else do
    writeValidator ".etag" remoteEtag
    writeValidator ".last_modified" remoteLastModified
    swapIntoPlace
    done true

/-- The body of the `try` statement. -/
def refreshBundle : RefreshIO Bool := do
  let (remoteEtag, remoteLastModified) ← fetchValidators
  let current ← bundleIsCurrent remoteEtag remoteLastModified
  if current then done false
  else withStaging (stageAndSwap remoteEtag remoteLastModified)

/-- Recover the parked bundle after a crash between the two renames of the swap. -/
def recoverParked : RefreshIO Unit := do
  let target ← sys (.exists .target)
  runIf (target = false) do
    let old ← sys (.exists .old)
    runIf old (sys (.rename .old .target))

/-- Refresh the target directory. Every exception of the `try` statement returns `False`. -/
def downloadAndExtractGtfs : RefreshIO Bool := do
  sys (.mkdir .target)
  recoverParked
  refreshBundle.tryCatch fun _ ↦ done false

end GtfsStream.GtfsStatic
