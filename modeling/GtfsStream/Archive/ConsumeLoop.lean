import GtfsStream.Archive.Writer

/-!
# The consume loop

`Run`, as a program over the calls that it makes on the reader, the writer, the clock and its
context. The loop ends only by a return, so a run is followed for a number of turns. The reader
hands out a sequence of messages; instead of the next one a fetch may end with any error, and every
other call may fail. A context that is cancelled stays so.

The flush of a batch is the same whatever the calls on the writer are: `flushBatch` of the writer's
model is this one over the writer's programs.
-/

namespace GtfsStream.Archive

open Program (done raise runIf forEach perform)

section

variable {Op : Type} {Ret : Op → Type} {α : Type}

/-- The error of `p`, if it gives one, with a text before it. -/
def wrapError (text : String) (p : Program Op Ret GoError α) : Program Op Ret GoError α :=
  p.tryCatch fun e ↦ raise (.wrap text none e)

/-- `flushBatch` over the calls of a writer and a reader. -/
def flushBatchOver (write : Bytes → Program Op Ret GoError Unit)
    (flush : Program Op Ret GoError Unit)
    (commitMessages : List Message → Program Op Ret GoError Unit)
    (batch : List Message) : Program Op Ret GoError Unit := do
  forEach (fun msg ↦ wrapError "write to archive" (write msg.value)) batch
  wrapError "flush archive" flush
  wrapError "commit offsets" (commitMessages batch)

end

theorem flushBatch_eq_over (batch : List Message) :
    flushBatch batch = flushBatchOver write flush (fun ms ↦ sys (.commitMessages ms)) batch :=
  rfl

namespace ConsumeLoop

/-! ## The calls -/

inductive LoopCall
  | fetchMessage (deadline : Option ℤ)
  | ctxErr
  | now
  | write (value : Bytes)
  | flush
  | commitMessages (batch : List Message)
  | close

/-- What a call returns besides an error. -/
abbrev LoopCall.Ret : LoopCall → Type
  | .fetchMessage _ => Message
  | .ctxErr => Bool
  | .now => ℤ
  | _ => Unit

abbrev LoopIO := Program LoopCall LoopCall.Ret GoError

/-- A call that succeeded. -/
inductive LoopEvent
  | fetched (msg : Message)
  | wrote (value : Bytes)
  | flushed
  | committed (batch : List Message)
  | closed
  deriving DecidableEq

/-- The messages to come, the clock readings, whether the context is cancelled, and what happened
so far. -/
structure LoopWorld where
  inbox : ℕ → Message
  clock : ℕ → ℤ
  received : ℕ := 0
  ticks : ℕ := 0
  cancelled : Bool := false
  log : List LoopEvent := []

def LoopWorld.record (w : LoopWorld) (e : LoopEvent) : LoopWorld := { w with log := w.log ++ [e] }

namespace LoopCall

def apply : (c : LoopCall) → LoopWorld → Except GoError (Ret c) × LoopWorld
  | fetchMessage _, w =>
    (.ok (w.inbox w.received),
      { w with received := w.received + 1 }.record (.fetched (w.inbox w.received)))
  | ctxErr, w => (.ok w.cancelled, w)
  | now, w => (.ok (w.clock w.ticks), { w with ticks := w.ticks + 1 })
  | write value, w => (.ok (), w.record (.wrote value))
  | flush, w => (.ok (), w.record .flushed)
  | commitMessages batch, w => (.ok (), w.record (.committed batch))
  | close, w => (.ok (), w.record .closed)

/-- What else a call may answer. The context may have been cancelled in the meantime. -/
inductive Fault : (c : LoopCall) → LoopWorld → Except GoError (Ret c) → LoopWorld → Prop
  | fetchMessage (deadline : Option ℤ) (w : LoopWorld) (e : GoError) :
    Fault (.fetchMessage deadline) w (.error e) w
  | cancelled (w : LoopWorld) : Fault .ctxErr w (.ok true) { w with cancelled := true }
  | write (value : Bytes) (w : LoopWorld) (e : GoError) : Fault (.write value) w (.error e) w
  | flush (w : LoopWorld) (e : GoError) : Fault .flush w (.error e) w
  | commitMessages (batch : List Message) (w : LoopWorld) (e : GoError) :
    Fault (.commitMessages batch) w (.error e) w
  | close (w : LoopWorld) (e : GoError) : Fault .close w (.error e) w

/-- The machine of the loop. A crash leaves what happened so far. -/
def machine : Machine LoopCall Ret GoError LoopWorld where
  apply := apply
  fault := Fault
  crash _ w w' := w' = w

end LoopCall

/-! ## The loop -/

/-- One call. -/
def invoke (c : LoopCall) : LoopIO c.Ret := perform c

/-- Whether the error is that of an elapsed deadline, or wraps it. -/
def isDeadline : GoError → Bool
  | .os call => call = "context deadline exceeded"
  | .wrap _ _ cause => isDeadline cause

def flushBatch (batch : List Message) : LoopIO Unit :=
  flushBatchOver (fun value ↦ invoke (.write value)) (invoke .flush)
    (fun batch ↦ invoke (.commitMessages batch)) batch

/-- The loop for a number of turns: whether it has returned, without an error. The deadline is
none until the first message of a batch arrives. -/
def loop (batchSize batchWait : ℤ) : ℕ → List Message → Option ℤ → LoopIO Bool
  | 0, _, _ => done false
  | turns + 1, batch, deadline =>
    if batchSize ≤ batch.length then do
      flushBatch batch
      loop batchSize batchWait turns [] none
    else
      .call (.fetchMessage deadline) fun
        | .ok msg =>
          if batch = [] then do
            let now ← invoke .now
            loop batchSize batchWait turns (batch ++ [msg]) (some (now + batchWait))
          else loop batchSize batchWait turns (batch ++ [msg]) deadline
        | .error err => do
          -- shutdown: the partial batch is not committed
          if ← invoke .ctxErr then return true
          if deadline.isSome then
            -- the batch has waited long enough
            if !(← invoke .ctxErr) && isDeadline err then
              flushBatch batch
              loop batchSize batchWait turns [] none
            else raise (.wrap "fetch message" none err)
          else raise (.wrap "fetch message" none err)

/-- `defer w.Close()`: the writer is closed also after an error, and its own error is dropped. -/
def deferClose (p : LoopIO Bool) : LoopIO Bool := do
  let returned ← p.tryCatch fun e ↦ do
    (invoke .close).tryCatch fun _ ↦ done ()
    raise e
  runIf (returned = true) ((invoke .close).tryCatch fun _ ↦ done ())
  return returned

/-- `Run` for a number of turns. -/
def run (turns : ℕ) (batchSize batchWait : ℤ) : LoopIO Bool :=
  if batchSize ≤ 0 then raise (.os "batchSize must be > 0")
  else if batchWait ≤ 0 then raise (.os "batchWait must be > 0")
  else deferClose (loop batchSize batchWait turns [] none)

end ConsumeLoop

end GtfsStream.Archive
