import GtfsStream.Archive.Hours
import GtfsStream.Archive.Writer

/-!
# The archive directory at every moment

`Site` is the directory with the memory of the writer process and the time on its clock, and with a
record of the hours that were opened and of the bytes that have reached each plain file.
`siteMachine` runs the writer's programs on it: a call does to the directory what it does in
`GtfsStream.Archive.System`, nothing fails, and a crash in the middle of a call leaves what it has
done so far, of a write or a copy the first bytes.

A `Process` is a site with what the writer process has still to do. It goes on call by call while
time passes, and a crash at any moment, between two calls or within one, starts the process anew.
-/

namespace GtfsStream.Archive

open Program

structure Site where
  disk : Disk
  /-- The memory of the writer process. -/
  writer : ArchiveWriter
  /-- The time on the writer's clock. -/
  time : ℤ
  /-- The hours whose plain file was ever opened. -/
  opened : List HourKey := []
  /-- The bytes that have reached the plain file of an hour, in order. -/
  reached : HourKey → Bytes := fun _ ↦ []

namespace Syscall

/-- The bytes that a call hands to the plain file of an hour. -/
def reaches : Syscall → HourKey → Bytes
  | write p b, k => if p = ⟨k, .ndjson⟩ then b else []
  | _, _ => []

/-- The hour whose plain file a call opens. -/
def opens : Syscall → List HourKey
  | openAppend p => if p.ext = .ndjson then [p.hour] else []
  | _ => []

end Syscall

namespace Site

variable (s : Site)

/-- The site as the calls see it: the clock stands at the time it is. -/
def world : World := { disk := s.disk, clock := fun _ ↦ s.time, writer := s.writer }

/-- The site after a call has left the world `w`. -/
def put (w : World) : Site := { s with disk := w.disk, writer := w.writer }

/-- The effect of a call, with the record of what it did. -/
def apply (c : Syscall) (s : Site) : Except GoError c.Ret × Site :=
  ((c.apply s.world).1, { s.put (c.apply s.world).2 with
    opened := c.opens ++ s.opened
    reached := fun k ↦ s.reached k ++ c.reaches k })

/-- What a crash leaves that cuts a call after `n` bytes. -/
def cut (c : Syscall) (n : ℕ) : Site :=
  { s.put (c.cut s.world n) with reached := fun k ↦ s.reached k ++ (c.reaches k).take n }

def tick (t : ℤ) : Site := { s with time := t }

/-- The plain file and the compressed one of every hour, and the record. -/
def hours : Hours where
  plain k := (s.disk.lookup ⟨k, .ndjson⟩).map File.bytes
  gz k := s.disk.lookup ⟨k, .gz⟩
  opened := s.opened
  reached := s.reached
  time := s.time

end Site

/-- The calls of the writer on a site. -/
def siteMachine : Machine Syscall Syscall.Ret GoError Site where
  apply := Site.apply
  fault _ _ _ _ := False
  crash c s s' := ∃ n, s' = s.cut c n

/-! ## The process -/

/-- A call of the writer's owner. -/
inductive Request
  | write (value : Bytes)
  | flush

def Request.program : Request → ArchiveIO Unit
  | write value => Archive.write value
  | flush => Archive.flush

/-- The writer process: the site, and what it has still to do. -/
structure Process where
  site : Site
  todo : ArchiveIO Unit

/-- The process has come to the end of a call. -/
def Process.Idle (P : Process) : Prop := P.todo = done () ∨ ∃ e, P.todo = raise e

/-- One step: time passes, the process makes its next call, it is asked for something, or it crashes
and starts anew. -/
inductive Process.Step : Process → Process → Prop
  | tick (s : Site) (p : ArchiveIO Unit) (t : ℤ) (ht : s.time ≤ t) :
    Process.Step ⟨s, p⟩ ⟨s.tick t, p⟩
  | call (s : Site) (c : Syscall) (k : Except GoError c.Ret → ArchiveIO Unit) :
    Process.Step ⟨s, .call c k⟩ ⟨(s.apply c).2, k (s.apply c).1⟩
  | request (P : Process) (hP : P.Idle) (r : Request) : Process.Step P ⟨P.site, r.program⟩
  | crash (s : Site) (p : ArchiveIO Unit) : Process.Step ⟨s, p⟩ ⟨s, newArchiveWriter⟩
  | torn (s : Site) (c : Syscall) (k : Except GoError c.Ret → ArchiveIO Unit) (n : ℕ) :
    Process.Step ⟨s, .call c k⟩ ⟨s.cut c n, newArchiveWriter⟩

/-- The process after any number of steps. -/
abbrev Process.Runs : Process → Process → Prop := Relation.ReflTransGen Process.Step

/-- A new process in an empty directory, at the time `t`. Its memory holds anything. -/
def Process.fresh (t : ℤ) (aw : ArchiveWriter) : Process :=
  ⟨{ disk := ∅, writer := aw, time := t }, newArchiveWriter⟩

end GtfsStream.Archive
