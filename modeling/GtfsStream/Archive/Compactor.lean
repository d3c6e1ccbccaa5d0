import GtfsStream.Archive.Site

/-!
# The archive compactor

The second process on the archive directory. A pass folds every old day into Parquet, under
`parquet/date=<day>`, and then removes the raw files of days whose Parquet is there and verified.

`Tiers` is the directory with the published partitions and the temporary output directory of the
running pass. The programs below are the functions of the compactor over the calls it makes, one
call for each look at the directory and each change of it; any of them may fail and raise.

DuckDB is a parameter: what it selects from the bytes of an hour file, and what it writes for it.
-/

namespace GtfsStream.Archive

open Program (done raise forEach perform)

/-- A UTC day, which stands for the directory `<YYYY-MM-DD>`. -/
abbrev DayKey := ℤ

def dayOf (k : HourKey) : DayKey := k / 24

def nanosecondsPerDay : ℤ := 24 * nanosecondsPerHour

/-- The day's 00:00 UTC. -/
def dayStart (d : DayKey) : ℤ := d * nanosecondsPerDay

/-- `MIN_AGE`, 48 hours. -/
def minAge : ℤ := 48 * nanosecondsPerHour

/-- The directory `parquet/date=<day>`: the `raw` column of each hour's file. -/
structure Partition where
  files : List (HourKey × List Bytes)
  mtime : ℤ

def Partition.rows (p : Partition) : List Bytes := p.files.flatMap Prod.snd

/-- What DuckDB does with an hour file. -/
structure DuckDB where
  /-- `SELECT raw FROM read_csv(…) WHERE raw <> ''` on the decompressed bytes. -/
  select : Bytes → List Bytes
  /-- The `raw` column of what `COPY` writes for the selected lines. -/
  copy : List Bytes → List Bytes

/-- The compactor's side of the archive. -/
structure Store where
  parquet : AList fun _ : DayKey ↦ Partition := ∅
  /-- The temporary output directory of the running pass. -/
  staging : List (HourKey × List Bytes) := []
  /-- The modification time that the output directory of a day has. -/
  mtimes : DayKey → ℤ

/-- The archive directory, both tiers of it. -/
structure Tiers where
  site : Site
  store : Store

inductive CompactError
  | os (call : String)
  | duckdb (call : String)
  | verification (day : DayKey)

/-! ## The calls -/

inductive CompactCall
  | dayDirectories
  | hasPlain (day : DayKey)
  | outputExists (day : DayKey)
  | globGz (day : DayKey)
  | mkdtemp
  | countLines (path : Path)
  | copyHour (path : Path)
  | replace (day : DayKey)
  | rmtree
  | countRows (day : DayKey)
  | compactedDays
  | mtime (day : DayKey)
  | unlink (path : Path)

namespace CompactCall

abbrev Ret : CompactCall → Type
  | dayDirectories => List DayKey
  | hasPlain _ => Bool
  | outputExists _ => Bool
  | globGz _ => List Path
  | countLines _ => ℕ
  | countRows _ => ℕ
  | compactedDays => List DayKey
  | mtime _ => ℤ
  | _ => Unit

/-- `sorted((archive_dir / day).glob("*.ndjson.gz"))` -/
def gzPaths (d : Disk) (day : DayKey) : List Path :=
  (d.keys.filter fun p ↦ p.ext = .gz ∧ dayOf p.hour = day).insertionSort fun p q ↦ p.hour ≤ q.hour

/-- The lines that DuckDB reads from an hour file, an error if it is not there or is truncated. -/
def selectFrom (duck : DuckDB) (d : Disk) (p : Path) : Except CompactError (List Bytes) :=
  match d.lookup p with
  | some f => if f.complete then .ok (duck.select f.bytes) else .error (.duckdb "read_csv")
  | none => .error (.duckdb "read_csv")

variable (duck : DuckDB)

/-- The effect of a call when nothing goes wrong. A day directory stays when its files are gone. -/
def apply : (c : CompactCall) → Tiers → Except CompactError (Ret c) × Tiers
  | dayDirectories, s => (.ok (s.site.opened.map dayOf).dedup, s)
  | hasPlain day, s =>
    (.ok (s.site.disk.keys.any fun p ↦ p.ext = .ndjson ∧ dayOf p.hour = day), s)
  | outputExists day, s => (.ok (s.store.parquet.lookup day).isSome, s)
  | globGz day, s => (.ok (gzPaths s.site.disk day), s)
  | mkdtemp, s => (.ok (), { s with store := { s.store with staging := [] } })
  | countLines p, s => ((selectFrom duck s.site.disk p).map List.length, s)
  | copyHour p, s =>
    match selectFrom duck s.site.disk p with
    | .ok ls => (.ok (), { s with
        store := { s.store with staging := s.store.staging ++ [(p.hour, duck.copy ls)] } })
    | .error e => (.error e, s)
  | replace day, s =>
    -- a directory is not renamed over one that has files in it
    if (s.store.parquet.lookup day).isSome then (.error (.os "replace"), s)
    else (.ok (), { s with store := { s.store with
      parquet := s.store.parquet.insert day ⟨s.store.staging, s.store.mtimes day⟩
      staging := [] } })
  | rmtree, s => (.ok (), { s with store := { s.store with staging := [] } })
  | countRows day, s =>
    match s.store.parquet.lookup day with
    | some part => (.ok part.rows.length, s)
    | none => (.error (.duckdb "read_parquet"), s)
  | compactedDays, s => (.ok (s.store.parquet.keys.insertionSort (· ≤ ·)), s)
  | mtime day, s =>
    match s.store.parquet.lookup day with
    | some part => (.ok part.mtime, s)
    | none => (.error (.os "stat"), s)
  | unlink p, s =>
    if (s.site.disk.lookup p).isSome then
      (.ok (), { s with site := { s.site with disk := s.site.disk.erase p } })
    else (.error (.os "unlink"), s)

/-- What a call leaves behind that failed or was cut: of a copied hour the first `n` rows. -/
def cut : CompactCall → Tiers → ℕ → Tiers
  | copyHour p, s, n =>
    match selectFrom duck s.site.disk p with
    | .ok ls => { s with store := { s.store with
        staging := s.store.staging ++ [(p.hour, (duck.copy ls).take n)] } }
    | .error _ => s
  | _, s, _ => s

/-- The compactor's machine. Every call may raise, and every call may be cut by a crash. -/
def machine : Machine CompactCall Ret CompactError Tiers where
  apply := apply duck
  fault c s r s' := (∃ e, r = .error e) ∧ ∃ n, s' = c.cut duck s n
  crash c s s' := ∃ n, s' = c.cut duck s n

end CompactCall

/-- A program of the compactor. -/
abbrev CompactIO := Program CompactCall CompactCall.Ret CompactError

/-- One call. -/
def ask (c : CompactCall) : CompactIO c.Ret := perform c

/-! ## Eligibility -/

/-- `_old_enough` -/
def oldEnough (day : DayKey) (now : ℤ) : Prop := minAge ≤ now - dayStart day

instance (day : DayKey) (now : ℤ) : Decidable (oldEnough day now) :=
  inferInstanceAs (Decidable (_ ≤ _))

/-- Take `a` where the directory could not be read. -/
def orOnOSError {α : Type} (p : CompactIO α) (a : α) : CompactIO α :=
  p.tryCatch fun
    | .os _ => done a
    | e => raise e

/-- `_has_plain_ndjson`: a directory that cannot be read is not yet safe. -/
def hasPlainNdjson (day : DayKey) : CompactIO Bool := orOnOSError (ask (.hasPlain day)) true

/-- The loop of `eligible_days` over the day directories, with its three gates. -/
def eligibleAmong (now : ℤ) : List DayKey → CompactIO (List DayKey)
  | [] => done []
  | day :: days =>
    if ¬oldEnough day now then eligibleAmong now days
    else do
      if ← hasPlainNdjson day then eligibleAmong now days
      else if ← ask (.outputExists day) then eligibleAmong now days
      else do
        let eligible ← eligibleAmong now days
        done (day :: eligible)

/-- The days that are old, fully compressed and not yet compacted, oldest first. -/
def eligibleDays (now : ℤ) : CompactIO (List DayKey) := do
  let days ← orOnOSError (ask .dayDirectories) []
  let eligible ← eligibleAmong now days
  done (eligible.insertionSort (· ≤ ·))

/-! ## Compaction -/

/-- Count one hour's raw lines and fold them into one Parquet file. -/
def foldHour (src : Path) : CompactIO ℕ := do
  let sourceLines ← ask (.countLines src)
  ask (.copyHour src)
  done sourceLines

/-- The loop of `compact_day` over the source files. -/
def foldHours : List Path → CompactIO ℕ
  | [] => done 0
  | path :: paths => do
    let n ← foldHour path
    let m ← foldHours paths
    done (n + m)

structure CompactResult where
  day : DayKey
  sourceFiles : List Path := []
  sourceLines : ℕ := 0
  parquetRows : ℕ := 0
  /-- The published output directory, if anything was published. -/
  outputDir : Option DayKey := none

/-- Compact one day's `HH.ndjson.gz` files into `parquet/date=<day>`, by way of a temporary
directory and a rename. -/
def compactDay (day : DayKey) : CompactIO CompactResult := do
  let sourceFiles ← ask (.globGz day)
  if sourceFiles = [] then done { day := day }
  else do
    ask .mkdtemp
    let sourceLines ← Program.tryCatch
      (do
        let n ← foldHours sourceFiles
        ask (.replace day)
        done n)
      fun e ↦ do
        ask .rmtree
        raise e
    -- counted in what was published, not in what was read
    let parquetRows ← ask (.countRows day)
    done
      { day := day, sourceFiles := sourceFiles, sourceLines := sourceLines
        parquetRows := parquetRows, outputDir := some day }

/-! ## Verify, then delete -/

/-- Re-count the raw lines of the files. -/
def countAll : List Path → CompactIO ℕ
  | [] => done 0
  | path :: paths => do
    let n ← ask (.countLines path)
    let m ← countAll paths
    done (n + m)

/-- `_count_source_lines` -/
def countSourceLines (day : DayKey) : CompactIO ℕ := do
  let paths ← ask (.globGz day)
  countAll paths

/-- Go on with `none` where DuckDB could not read a file. -/
def orOnDuckError (p : CompactIO ℕ) : CompactIO (Option ℕ) :=
  (do
    let n ← p
    done (some n)).tryCatch fun
    | .duckdb _ => done none
    | e => raise e

/-- The day's Parquet rows equal its raw lines, re-counted. Fail-closed on either side. -/
def verifyCounts (day : DayKey) : CompactIO Bool := do
  match ← orOnDuckError (countSourceLines day) with
  | none => done false
  | some sourceLines =>
    match ← orOnDuckError (ask (.countRows day)) with
    | none => done false
    | some parquetRows => done (sourceLines = parquetRows)

/-- `_grace_elapsed` -/
def graceElapsed (outputMtime keepRawDays now : ℤ) : Prop :=
  keepRawDays ≤ 0 ∨ keepRawDays * nanosecondsPerDay ≤ now - outputMtime

instance (outputMtime keepRawDays now : ℤ) : Decidable (graceElapsed outputMtime keepRawDays now) :=
  inferInstanceAs (Decidable (_ ∨ _))

/-- Verify-then-delete one day's raw files. Returns the paths it deleted. -/
def deleteRawDay (day : DayKey) (keepRawDays now : ℤ) : CompactIO (List Path) := do
  let rawFiles ← ask (.globGz day)
  if rawFiles = [] then done []
  else if ¬(← ask (.outputExists day)) then done []
  else if ¬graceElapsed (← ask (.mtime day)) keepRawDays now then done []
  -- the gates above pass in silence; a day whose counts differ is an error
  else if ¬(← verifyCounts day) then raise (.verification day)
  else do
    forEach (fun path ↦ ask (.unlink path)) rawFiles
    done rawFiles

/-! ## A pass -/

/-- Run `f` for every day and count the days it failed for. -/
def countFailures (f : DayKey → CompactIO Unit) : List DayKey → CompactIO ℕ
  | [] => done 0
  | day :: days => do
    let n ← ((f day).bind fun _ ↦ done 0).tryCatch fun _ ↦ done 1
    let m ← countFailures f days
    done (n + m)

/-- One full pass. Returns the number of days that failed. -/
def runOnce (keepRawDays now : ℤ) : CompactIO ℕ := do
  let days ← eligibleDays now
  let n ← countFailures (fun day ↦ (compactDay day).bind fun _ ↦ done ()) days
  let compacted ← ask .compactedDays
  let m ← countFailures
    (fun day ↦ (deleteRawDay day keepRawDays now).bind fun _ ↦ done ()) compacted
  done (n + m)

end GtfsStream.Archive
