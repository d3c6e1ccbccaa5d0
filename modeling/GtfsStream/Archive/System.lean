import GtfsStream.Library.Program
import GtfsStream.Library.Lines
import Mathlib.Algebra.GroupWithZero.Nat
import Mathlib.Data.List.AList
import Mathlib.Data.List.Sort

/-!
# The archive directory and the calls made on it

The archive consumer writes to `<dir>/YYYY-MM-DD/HH.ndjson` and its two companions, the finished
`.ndjson.gz` and the `.ndjson.gz.tmp` it is built in. A path is therefore an hour and one of three
suffixes, and the directory is a finite map from paths to files.

A file carries its bytes and how many of them a successful `Sync` has made durable. The bytes of a
gzip file are the bytes it decompresses to, and `complete` says whether its trailer was written.

Every call may fail with an error and may be cut by a crash. A failed or cut write leaves a prefix
of its data behind, and so does a failed or cut copy; the other calls leave nothing.
-/

namespace GtfsStream.Archive

abbrev Bytes := List UInt8

/-- `'\n'` -/
def newline : UInt8 := 10

/-- The hour of a clock reading, which stands for the relative path `<YYYY-MM-DD>/<HH>`. -/
abbrev HourKey := ℤ

def nanosecondsPerHour : ℤ := 3600 * 1000000000

/-- The hour that a UTC time in nanoseconds falls in. -/
def hourKey (t : ℤ) : HourKey := t / nanosecondsPerHour

/-- The suffix of an archive file. -/
inductive Ext
  | ndjson
  | gz
  | tmp
  deriving DecidableEq

/-- A file name in the archive directory. -/
structure Path where
  hour : HourKey
  ext : Ext
  deriving DecidableEq

structure File where
  bytes : Bytes
  /-- How many of the bytes are durable. -/
  synced : ℕ := 0
  /-- The gzip trailer was written. -/
  complete : Bool := false
  deriving DecidableEq

abbrev Disk := AList fun _ : Path ↦ File

/-- An error of the operating system, or one wrapped in the text of a caller. -/
inductive GoError
  | os (call : String)
  | wrap (text : String) (path : Option Path) (cause : GoError)

/-- `bufio.Writer`: the bytes not yet handed to the file, and its sticky error. -/
structure Bufio where
  pending : Bytes := []
  err : Option GoError := none

/-- `ArchiveWriter`, less the directory and the clock, which belong to the `World`. -/
structure ArchiveWriter where
  curKey : HourKey
  curFile : Option Path := none
  buf : Bufio := {}

/-- A Kafka message: its offset and its value. -/
structure Message where
  offset : ℕ
  value : Bytes
  deriving DecidableEq

/-- A call of `CommitMessages`: its batch, the directory at that moment, and whether the call
returned without an error. -/
structure CommitCall where
  batch : List Message
  disk : Disk
  acked : Bool

/-- The directory, the clock, the writer in memory and the calls made to Kafka. -/
structure World where
  disk : Disk
  /-- The clock readings, one for each call of `now`. -/
  clock : ℕ → ℤ
  ticks : ℕ := 0
  writer : ArchiveWriter
  commits : List CommitCall := []

namespace World

variable (w : World)

def setDisk (d : Disk) : World := { w with disk := d }

/-- Append to a file; an unlinked file takes the bytes with it. -/
def appendTo (p : Path) (b : Bytes) : World :=
  match w.disk.lookup p with
  | some f => w.setDisk (w.disk.insert p { f with bytes := f.bytes ++ b })
  | none => w

/-- Change a file in place. -/
def modify (p : Path) (g : File → File) : World :=
  match w.disk.lookup p with
  | some f => w.setDisk (w.disk.insert p (g f))
  | none => w

/-- The bytes of a file, none if it is not there. -/
def bytesAt (p : Path) : Bytes := ((w.disk.lookup p).map File.bytes).getD []

def logCommit (ms : List Message) (acked : Bool) : World :=
  { w with commits := w.commits ++ [⟨ms, w.disk, acked⟩] }

end World

/-! ## The calls -/

inductive Syscall
  | now
  | load
  | store (aw : ArchiveWriter)
  | mkdirAll
  | openAppend (p : Path)
  | write (p : Path) (b : Bytes)
  | sync (p : Path)
  | close (p : Path)
  | glob
  | stat (p : Path)
  | openRead (p : Path)
  | create (p : Path)
  | copy (src dst : Path)
  | closeGzip (p : Path)
  | rename (src dst : Path)
  | remove (p : Path)
  | commitMessages (ms : List Message)

namespace Syscall

/-- What a call returns besides an error. -/
abbrev Ret : Syscall → Type
  | now => ℤ
  | load => ArchiveWriter
  | glob => List Path
  | _ => Unit

/-- The plain hour files, in the order of their names. -/
def plainPaths (d : Disk) : List Path :=
  (d.keys.filter fun p ↦ p.ext = .ndjson).insertionSort fun p q ↦ p.hour ≤ q.hour

/-- A call that needs the file to be there. -/
def onExisting (call : String) (p : Path) (w w' : World) : Except GoError Unit × World :=
  if (w.disk.lookup p).isSome then (.ok (), w') else (.error (.os call), w)

/-- The effect of a call when nothing goes wrong. -/
def apply : (c : Syscall) → World → Except GoError (Ret c) × World
  | now, w => (.ok (w.clock w.ticks), { w with ticks := w.ticks + 1 })
  | load, w => (.ok w.writer, w)
  | store aw, w => (.ok (), { w with writer := aw })
  | mkdirAll, w => (.ok (), w)
  | openAppend p, w =>
    (.ok (), if (w.disk.lookup p).isSome then w else w.setDisk (w.disk.insert p { bytes := [] }))
  | write p b, w => (.ok (), w.appendTo p b)
  | sync p, w => (.ok (), w.modify p fun f ↦ { f with synced := f.bytes.length })
  | close _, w => (.ok (), w)
  | glob, w => (.ok (plainPaths w.disk), w)
  | stat p, w => onExisting "stat" p w w
  | openRead p, w => onExisting "open" p w w
  | create p, w => (.ok (), w.setDisk (w.disk.insert p { bytes := [] }))
  | copy src dst, w => (.ok (), w.appendTo dst (w.bytesAt src))
  | closeGzip p, w => (.ok (), w.modify p fun f ↦ { f with complete := true })
  | rename src dst, w =>
    match w.disk.lookup src with
    | some f => (.ok (), w.setDisk ((w.disk.erase src).insert dst f))
    | none => (.error (.os "rename"), w)
  | remove p, w => onExisting "remove" p w (w.setDisk (w.disk.erase p))
  | commitMessages ms, w => (.ok (), w.logCommit ms true)

/-- What a call that failed or was cut after `n` bytes leaves behind. -/
def cut : Syscall → World → ℕ → World
  | write p b, w, n => w.appendTo p (b.take n)
  | copy src dst, w, n => w.appendTo dst ((w.bytesAt src).take n)
  | commitMessages ms, w, _ => w.logCommit ms false
  | _, w, _ => w

/-- The clock and the writer's own memory do not fail. -/
def Fallible : Syscall → Prop
  | now | load | store _ => False
  | _ => True

/-- The archive consumer's machine. With `faulty` false no call fails and nothing crashes. -/
def machine (faulty : Prop) : Machine Syscall Ret GoError World where
  apply := apply
  fault c w r w' := faulty ∧ c.Fallible ∧ (∃ e, r = .error e) ∧ ∃ n, w' = c.cut w n
  crash c w w' := faulty ∧ ∃ n, w' = c.cut w n

end Syscall

/-- A program of the archive consumer. -/
abbrev ArchiveIO := Program Syscall Syscall.Ret GoError

end GtfsStream.Archive
