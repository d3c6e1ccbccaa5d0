import GtfsStream.Library.Program
import Mathlib.Data.List.AList
import Mathlib.Logic.Function.Basic

/-!
# The directories of the static bundle and the calls made on them

The refresh works on three directories: the target that the loader reads, the `*.old` directory
beside it, and the `contents` of the staging directory. A directory is a finite map from paths to
the files and directories below it. The remote side is fixed for one call: what the `HEAD` and the
`GET` request return.

`extractall` takes every name of a ZIP for a path below the directory: it leaves out empty parts,
`.` and `..`, and what ends with a slash is a directory. So `./stops.txt` and `../stops.txt` become
`stops.txt`, and `stops.txt/` a directory of this name, which exists as well.

A rename is atomic. Removing a tree is not: an interruption leaves some of the files. What an
interruption leaves in the staging directory is never looked at, so it may be anything.
-/

namespace GtfsStream.GtfsStatic

/-- What is there under a path. -/
inductive Node
  | file (text : String)
  | directory
  deriving DecidableEq

abbrev Dir := AList fun _ : String ↦ Node

namespace Dir

variable (d : Dir)

/-- The text of the file under a path, if there is one. -/
def text (path : String) : Option String :=
  match d.lookup path with
  | some (.file text) => some text
  | _ => none

/-- A text is written to a file. It fails if there is a directory. -/
def write (path text : String) : Option Dir :=
  match d.lookup path with
  | some .directory => none
  | _ => some (d.insert path (.file text))

theorem write_eq_some {d d' : Dir} {path text : String} (h : d.write path text = some d') :
    d' = d.insert path (.file text) := by
  rw [write] at h
  split at h
  · exact absurd h.symm (Option.some_ne_none d')
  · exact (Option.some.inj h).symm

theorem text_write_self {d d' : Dir} {path text : String} (h : d.write path text = some d') :
    d'.text path = some text := by
  rw [write_eq_some h, Dir.text, AList.lookup_insert]

theorem text_write_of_ne {d d' : Dir} {path path' text : String} (hpath : path' ≠ path)
    (h : d.write path text = some d') : d'.text path' = d.text path' := by
  rw [write_eq_some h, Dir.text, AList.lookup_insert_ne hpath]
  rfl

/-- A directory is made if it is not there. It fails if there is a file. -/
def makeDir (path : String) : Option Dir :=
  match d.lookup path with
  | some (.file _) => none
  | some .directory => some d
  | none => some (d.insert path .directory)

end Dir

/-- A bundle is only swapped in if it contains at least the files the loader requires. -/
def requiredFiles : List String := ["stops.txt", "trips.txt", "stop_times.txt", "routes.txt"]

/-- The directory holds every file the loader requires. -/
def Complete (d : Dir) : Prop := ∀ fn ∈ requiredFiles, fn ∈ d

instance (d : Dir) : Decidable (Complete d) :=
  inferInstanceAs (Decidable (∀ fn ∈ requiredFiles, fn ∈ d))

inductive Place
  | target
  | old
  | contents
  deriving DecidableEq

/-- The validator headers of the response to the `HEAD` request. -/
structure Headers where
  etag : Option String := none
  lastModified : Option String := none

/-- The remote side during one call. A request may fail, and a download may be no ZIP file. -/
structure Remote where
  head : Option Headers
  get : Option (Option (List (String × String)))

inductive RefreshError
  | request
  | badZip
  | other (call : String)

structure World where
  dir : Place → Option Dir
  /-- The downloaded file, if there is one: the entries of a ZIP, or no ZIP. -/
  zip : Option (Option (List (String × String))) := none
  remote : Remote
  /-- The renames that were made. -/
  renames : List (Place × Place) := []

namespace World

variable (w : World)

def setDir (p : Place) (d : Option Dir) : World := { w with dir := Function.update w.dir p d }

@[simp] theorem setDir_self (p : Place) (d : Option Dir) : (w.setDir p d).dir p = d :=
  Function.update_self ..

theorem setDir_of_ne {p q : Place} (h : q ≠ p) (d : Option Dir) :
    (w.setDir p d).dir q = w.dir q := Function.update_of_ne h ..

/-- The directory `d` was renamed from `p` to `q`. -/
def moved (p q : Place) (d : Dir) : World :=
  { (w.setDir p none).setDir q (some d) with renames := w.renames ++ [(p, q)] }

@[simp] theorem moved_renames (p q : Place) (d : Dir) :
    (w.moved p q d).renames = w.renames ++ [(p, q)] := rfl

@[simp] theorem moved_dir_self (p q : Place) (d : Dir) : (w.moved p q d).dir q = some d :=
  Function.update_self ..

theorem moved_dir_source {p q : Place} (h : p ≠ q) (d : Dir) : (w.moved p q d).dir p = none :=
  (Function.update_of_ne h ..).trans (Function.update_self ..)

theorem moved_dir_of_ne {p q r : Place} (hp : r ≠ p) (hq : r ≠ q) (d : Dir) :
    (w.moved p q d).dir r = w.dir r :=
  (Function.update_of_ne hq ..).trans (Function.update_of_ne hp ..)

end World

/-! ## The entries of a ZIP -/

/-- The name of an entry, which ends at its first null character. -/
def entryName (name : String) : List Char := name.toList.takeWhile (· ≠ Char.ofNat 0)

/-- The parts of the path that `extractall` takes from a name. -/
def pathParts (name : List Char) : List String :=
  ((name.splitOn '/').map String.ofList).filter fun part ↦ part ≠ "" ∧ part ≠ "." ∧ part ≠ ".."

def pathOf (parts : List String) : String := "/".intercalate parts

/-- The directories down to this one are made. -/
def makeDirs (d : Dir) (parts : List String) : Option Dir :=
  parts.inits.tail.foldlM (fun d parts ↦ d.makeDir (pathOf parts)) d

/-- An entry is extracted, with the directories above it. It fails where a path is that of a file
and of a directory. -/
def extractMember (d : Dir) (entry : String × String) : Option Dir :=
  let name := entryName entry.1
  let parts := pathParts name
  if name.getLast? = some '/' then makeDirs d parts
  else if parts = [] then none
  else do (← makeDirs d parts.dropLast).write (pathOf parts) entry.2

/-- What `extractall` makes of the entries of a ZIP, none where it raises. -/
def extract (entries : List (String × String)) : Option Dir := entries.foldlM extractMember ∅

/-- The name of a file that is extracted under this name. -/
def Plain (name : String) : Prop :=
  (entryName name).getLast? ≠ some '/' ∧ pathParts (entryName name) = [name]

instance (name : String) : Decidable (Plain name) := inferInstanceAs (Decidable (_ ∧ _))

theorem extractMember_of_plain {d : Dir} {entry : String × String} (hname : Plain entry.1)
    (hfile : d.lookup entry.1 ≠ some .directory) :
    extractMember d entry = some (d.insert entry.1 (.file entry.2)) := by
  have hjoin : pathOf [entry.1] = entry.1 := rfl
  have hwrite : d.write entry.1 entry.2 = some (d.insert entry.1 (.file entry.2)) := by
    rw [Dir.write]
    split
    · next h => exact absurd h hfile
    · rfl
  rw [extractMember, if_neg hname.1, hname.2, if_neg (List.cons_ne_nil _ _), hjoin]
  exact hwrite

/-- The files with these names and texts, the last one of each name. -/
def filesOf (entries : List (String × String)) : Dir :=
  entries.foldl (fun d e ↦ d.insert e.1 (.file e.2)) ∅

/-- Entries with plain names are written one after the other, and there is no directory. -/
theorem extract_of_plain {entries : List (String × String)} (h : ∀ e ∈ entries, Plain e.1) :
    extract entries = some (filesOf entries) ∧
      ∀ name, (filesOf entries).lookup name ≠ some .directory := by
  suffices hfold : ∀ d : Dir, (∀ name, d.lookup name ≠ some .directory) →
      entries.foldlM extractMember d =
          some (entries.foldl (fun d e ↦ d.insert e.1 (.file e.2)) d) ∧
        ∀ name, (entries.foldl (fun d e ↦ d.insert e.1 (.file e.2)) d).lookup name ≠
          some .directory from
    hfold ∅ fun name ↦ by rw [AList.lookup_empty]; exact nofun
  induction entries with
  | nil => exact fun d hfiles ↦ ⟨rfl, hfiles⟩
  | cons e entries ih =>
    intro d hfiles
    obtain ⟨he, hrest⟩ := List.forall_mem_cons.mp h
    rw [List.foldlM_cons, extractMember_of_plain he (hfiles e.1), List.foldl_cons]
    refine ih hrest _ fun name ↦ ?_
    by_cases hname : name = e.1
    · rw [hname, AList.lookup_insert]
      exact nofun
    · rw [AList.lookup_insert_ne hname]
      exact hfiles name

example : (extract [("./stops.txt", "a"), ("../stops.txt", "b"), ("trips.txt/", "")]).map
    AList.entries = some [⟨"trips.txt", .directory⟩, ⟨"stops.txt", .file "b"⟩] := by decide

/-! ## The calls -/

inductive Op
  | mkdir (p : Place)
  | exists (p : Place)
  | fileExists (p : Place) (name : String)
  | readText (p : Place) (name : String)
  | writeText (p : Place) (name text : String)
  | rename (p q : Place)
  | rmtree (p : Place)
  | mkdtemp
  | cleanup
  | head
  | get
  | extractall

namespace Op

/-- What a call returns besides an error. -/
abbrev Ret : Op → Type
  | .exists _ | fileExists .. => Bool
  | readText .. => String
  | head => Headers
  | _ => Unit

/-- The effect of a call when it is not interrupted. `mkdir` is called with `exist_ok`, and a
directory may be renamed to the name of an empty one. -/
def apply : (o : Op) → World → Except RefreshError (Ret o) × World
  | mkdir p, w => (.ok (), match w.dir p with
    | some _ => w
    | none => w.setDir p (some ∅))
  | .exists p, w => (.ok (w.dir p).isSome, w)
  | fileExists p name, w => (.ok ((w.dir p).any fun d ↦ name ∈ d), w)
  | readText p name, w =>
    match (w.dir p).bind fun d ↦ d.text name with
    | some text => (.ok text, w)
    | none => (.error (.other "read_text"), w)
  | writeText p name text, w =>
    match (w.dir p).bind fun d ↦ d.write name text with
    | some d => (.ok (), w.setDir p (some d))
    | none => (.error (.other "write_text"), w)
  | rename p q, w =>
    match w.dir p with
    | none => (.error (.other "rename"), w)
    | some d =>
      if (w.dir q).all fun e ↦ e.entries.isEmpty then (.ok (), w.moved p q d)
      else (.error (.other "rename"), w)
  | rmtree p, w =>
    match w.dir p with
    | some _ => (.ok (), w.setDir p none)
    | none => (.error (.other "rmtree"), w)
  | mkdtemp, w => (.ok (), { w.setDir .contents none with zip := none })
  | cleanup, w => (.ok (), { w.setDir .contents none with zip := none })
  | head, w =>
    match w.remote.head with
    | some h => (.ok h, w)
    | none => (.error .request, w)
  | get, w =>
    match w.remote.get with
    | some z => (.ok (), { w with zip := some z })
    | none => (.error .request, w)
  | extractall, w =>
    match w.zip with
    | some (some entries) =>
      match extract entries with
      | some d => (.ok (), w.setDir .contents (some d))
      | none => (.error (.other "extractall"), w)
    | some none => (.error .badZip, w)
    | none => (.error (.other "open"), w)

/-- What an interrupted call may leave behind. -/
def Cut : Op → World → World → Prop
  | rmtree p, w, w' => w' = w ∨ ∃ d d' : Dir, w.dir p = some d ∧
      (∀ name node, d'.lookup name = some node → d.lookup name = some node) ∧
      w' = w.setDir p (some d')
  | mkdtemp, w, w' | cleanup, w, w' | get, w, w' | extractall, w, w'
  | writeText .contents _ _, w, w' =>
    ∃ c z, w' = { w.setDir .contents c with zip := z }
  | _, w, w' => w' = w

/-- The machine of the refresh: every call may fail, and the process may die in every call. -/
def machine : Machine Op Ret RefreshError World where
  apply := apply
  fault o w r w' := (∃ e, r = .error e) ∧ o.Cut w w'
  crash o w w' := o.Cut w w'

end Op

abbrev RefreshIO := Program Op Op.Ret RefreshError

end GtfsStream.GtfsStatic
