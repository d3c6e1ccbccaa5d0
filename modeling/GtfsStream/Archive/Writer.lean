import GtfsStream.Archive.System

/-!
# The NDJSON archive writer

`ArchiveWriter` and the batch flush of the consume loop, as programs over the calls of
`GtfsStream.Archive.System`. A method reads and assigns the writer's fields through `load` and
`store`, so that an early return leaves the fields exactly as far as it got.
-/

namespace GtfsStream.Archive

open Program (done raise runIf forEach perform)

/-! ## Errors and fields -/

/-- `fmt.Errorf("<text>: %w", err)` around the error of `p`, if it gives one. -/
def errorf {α : Type} (text : String) (p : ArchiveIO α) (path : Option Path := none) :
    ArchiveIO α :=
  p.tryCatch fun e ↦ raise (.wrap text path e)

/-- One call. -/
def sys (c : Syscall) : ArchiveIO c.Ret := perform c

def now : ArchiveIO ℤ := sys .now

def load : ArchiveIO ArchiveWriter := sys .load

def store (aw : ArchiveWriter) : ArchiveIO Unit := sys (.store aw)

/-! ## The buffer -/

/-- The default size of a `bufio.Writer`. -/
def bufSize : ℕ := 4096

/-- `bufio.Writer.Write` without its writes: the chunks it hands to the file, and what it keeps.
A write that does not fit fills the buffer first; what is then still larger than the whole buffer
goes to the file directly. -/
def bufioWrite (pending p : Bytes) : List Bytes × Bytes :=
  if p.length ≤ bufSize - pending.length then ([], pending ++ p)
  else if pending = [] then ([p], [])
  else
    let n := bufSize - pending.length
    if (p.drop n).length ≤ bufSize then ([pending ++ p.take n], p.drop n)
    else ([pending ++ p.take n, p.drop n], [])

/-- Hand a chunk to the open file; an error sticks to the buffer. -/
def writeChunk (p : Path) (chunk : Bytes) : ArchiveIO Unit :=
  (sys (.write p chunk)).tryCatch fun e ↦ do
    let w ← load
    store { w with buf := { w.buf with err := some e } }
    raise e

/-- `w.buf.Write(value)` -/
def bufWrite (value : Bytes) : ArchiveIO Unit := do
  let w ← load
  match w.curFile, w.buf.err with
  | some p, none =>
    forEach (writeChunk p) (bufioWrite w.buf.pending value).1
    store { w with buf := { w.buf with pending := (bufioWrite w.buf.pending value).2 } }
  | _, some e => raise e
  | none, none => raise (.os "nil buffer")

/-- `w.buf.Flush()` -/
def bufFlush : ArchiveIO Unit := do
  let w ← load
  match w.curFile, w.buf.err with
  | some p, none =>
    if w.buf.pending = [] then done ()
    else do
      writeChunk p w.buf.pending
      store { w with buf := { w.buf with pending := [] } }
  | _, some e => raise e
  | none, none => raise (.os "nil buffer")

/-- `w.buf.WriteByte(c)`: a full buffer is flushed first. -/
def bufWriteByte (c : UInt8) : ArchiveIO Unit := do
  let w ← load
  runIf (w.buf.err = none ∧ bufSize ≤ w.buf.pending.length) bufFlush
  let w ← load
  match w.buf.err with
  | some e => raise e
  | none => store { w with buf := { w.buf with pending := w.buf.pending ++ [c] } }

/-! ## Finalization -/

/-- Remove the temporary file and go on with the error of `p`, if it gives one. -/
def removeOnError (tmp : Path) (text : String) (path : Path) (p : ArchiveIO Unit) :
    ArchiveIO Unit :=
  p.tryCatch fun e ↦ do
    (sys (.remove tmp)).tryCatch fun _ ↦ done ()
    raise (.wrap text (some path) e)

/-- Compress one plain hour file to `.gz` and remove the plain original, by way of a temporary
file and a rename. Where a `.gz` is there already the plain file is just dropped. -/
def gzipFile (path : Path) : ArchiveIO Unit := do
  let gzPath : Path := { path with ext := .gz }
  let tmp : Path := { path with ext := .tmp }
  let found ← ((sys (.stat gzPath)).bind fun _ ↦ done true).tryCatch fun _ ↦ done false
  if found then
    sys (.remove path)
  else do
    errorf "open" (sys (.openRead path)) (some path)
    errorf "create" (sys (.create tmp)) (some tmp)
    removeOnError tmp "compress" path (sys (.copy path tmp))
    removeOnError tmp "close gzip" path (sys (.closeGzip tmp))
    removeOnError tmp "close" tmp (sys (.close tmp))
    removeOnError tmp "rename" tmp (sys (.rename tmp gzPath))
    sys (.remove path)

/-- Gzip every plain hour file except the current hour's. -/
def finalizeStale : ArchiveIO Unit := do
  let matched ← errorf "glob archive files" (sys .glob)
  let w ← load
  -- the first error ends the loop, and the files after it wait for the next call
  forEach (fun path ↦ if path = ⟨w.curKey, .ndjson⟩ then done () else gzipFile path) matched

/-! ## The writer's methods -/

/-- Create the output directory and finalize the leftovers of previous runs, except the current
hour, which a restart may append to. -/
def newArchiveWriter : ArchiveIO Unit := do
  errorf "create archive dir" (sys .mkdirAll)
  store { curKey := hourKey (← now) }
  finalizeStale

/-- Flush and close the active file, leaving it plain. -/
def close : ArchiveIO Unit := do
  let w ← load
  match w.curFile with
  | none => done ()
  | some p =>
    errorf "flush buffer" bufFlush
    let w ← load
    (sys (.close p)).tryCatch fun e ↦ do
      store { w with curFile := none }
      raise (.wrap "close file" none e)
    store { w with curFile := none }

/-- Close the current hour, if any, and open the given hour's file. -/
def rotate (key : HourKey) : ArchiveIO Unit := do
  let w ← load
  runIf w.curFile.isSome close
  errorf "create date dir" (sys .mkdirAll)
  errorf "open hour file" (sys (.openAppend ⟨key, .ndjson⟩))
  store { curKey := key, curFile := some ⟨key, .ndjson⟩ }
  -- the closed hour is one of the stale files now
  finalizeStale

/-- Append one message value as a single line, rotating files when the hour changes. -/
def write (value : Bytes) : ArchiveIO Unit := do
  let key := hourKey (← now)
  let w ← load
  runIf (key ≠ w.curKey ∨ w.curFile = none) (rotate key)
  errorf "write line" (bufWrite value)
  bufWriteByte newline

/-- Push the buffered data to the operating system and make it durable. -/
def flush : ArchiveIO Unit := do
  let w ← load
  match w.curFile with
  | none => done ()
  | some p =>
    errorf "flush buffer" bufFlush
    errorf "fsync" (sys (.sync p))

/-! ## The consume loop's use of it -/

/-- Write every message, make the lines durable, then commit the batch's offsets. -/
def flushBatch (batch : List Message) : ArchiveIO Unit := do
  forEach (fun msg ↦ errorf "write to archive" (write msg.value)) batch
  errorf "flush archive" flush
  errorf "commit offsets" (sys (.commitMessages batch))

end GtfsStream.Archive
