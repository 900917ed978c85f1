import VirePortal.Auth.Records
import VirePortal.Concurrent.Trace
import VirePortal.Go.Encoding

/-!
# The log store

`HTTPLogStore` of `log_store.go`. `Store`, `timerFlush` and the first part of `Close` hold the
mutex, so each of them is one function on the guarded fields. What such a section hands to `send` is
its last result, and `World` puts the sections together with the calls of `send`, which run at the
same time, and with the timer, which starts `timerFlush`.

A call of `send` goes through its entries in turns, one batch a turn (`Send.turn`). The reply to a
batch only decides what is written to the standard error stream, so it is not part of the model.
-/

namespace VirePortal.Client

open Go Auth

/-- `logFlushSize`. -/
def logFlushSize : ℕ := 50

/-- `logMaxBatch`. -/
def logMaxBatch : ℕ := 500

/-- `log.Level`. -/
inductive Level where
  | trace
  | debug
  | info
  | warn
  | error
  | fatal
  | panic
  | other (n : UInt32)
  deriving DecidableEq

/-- `levelString`. -/
def levelString : Level → Str
  | .trace => "trace"
  | .debug => "debug"
  | .info => "info"
  | .warn => "warn"
  | .error => "error"
  | .fatal => "fatal"
  | .panic => "panic"
  | .other _ => "info"

/-- `models.LogEvent`, the fields that `Store` reads. -/
structure LogEvent where
  timestamp : Time
  level : Level
  message : Str
  correlationID : Str := []
  pfx : Str := []
  error : Str := []
  function : Str := []
  fields : List (Str × Json) := []

/-- `logIngestEntry`. -/
structure LogIngestEntry where
  timestamp : Time
  level : Str
  message : Str
  correlationID : Str
  pfx : Str
  error : Str
  function : Str
  fields : List (Str × Json)

/-- The entry that `Store` makes of an event. -/
def ingest (entry : LogEvent) : LogIngestEntry :=
  ⟨entry.timestamp, levelString entry.level, entry.message, entry.correlationID, entry.pfx,
    entry.error, entry.function, entry.fields⟩

/-- The fields that the mutex guards. Of the timer it matters whether it is to fire. -/
structure HTTPLogStore where
  buf : List LogIngestEntry := []
  armed : Bool := true
  closed : Bool := false

namespace HTTPLogStore

/-- `flushLocked`. -/
def flushLocked (s : HTTPLogStore) : HTTPLogStore × Option (List LogIngestEntry) :=
  if s.buf.length = 0 then (s, none)
  else ({ s with buf := [] }, some s.buf)

/-- `Store`, with the error that it returns. -/
def store (s : HTTPLogStore) (entry : LogEvent) :
    Option Str × HTTPLogStore × Option (List LogIngestEntry) :=
  if s.closed then (some "log store closed", s, none)
  else
    let s := { s with buf := s.buf ++ [ingest entry] }
    if logFlushSize ≤ s.buf.length then (none, s.flushLocked) else (none, s, none)

/-- `timerFlush`. -/
def timerFlush (s : HTTPLogStore) : HTTPLogStore × Option (List LogIngestEntry) :=
  if s.closed then (s, none)
  else
    let (s, sent) := s.flushLocked
    ({ s with armed := true }, sent)

/-- `Close`, up to its call of `send`. -/
def close (s : HTTPLogStore) : HTTPLogStore × Option (List LogIngestEntry) :=
  ({ s with closed := true, armed := false, buf := [] },
    if 0 < s.buf.length then some s.buf else none)

end HTTPLogStore

/-- A call of `send`: its entries, the variable of its loop, and the batches so far. -/
structure Send where
  entries : List LogIngestEntry
  i : ℕ := 0
  batches : List (List LogIngestEntry) := []

/-- One turn of the loop of `send`. -/
def Send.turn (s : Send) : Send :=
  if s.i < s.entries.length then
    let stop := s.i + logMaxBatch
    let stop := if s.entries.length < stop then s.entries.length else stop
    let batch := (s.entries.take stop).drop s.i
    { s with i := s.i + logMaxBatch, batches := s.batches ++ [batch] }
  else s

/-- The loop of `send` has come to its end. -/
def Send.Finished (s : Send) : Prop := s.entries.length ≤ s.i

/-- The store with everything that runs around it. -/
structure World where
  store : HTTPLogStore := {}
  /-- The calls of `timerFlush` that the timer has started and that have not locked yet. -/
  flushes : ℕ := 0
  /-- The calls of `send`, in the order in which they were made. -/
  sends : List Send := []
  /-- The calls of `Store`, in the order in which they locked, with their results. -/
  stored : List (LogEvent × Option Str) := []

/-- What happens next: a call of `Store` or `Close` locks, the timer fires, a call of `timerFlush`
that it started locks, or the call of `send` with the number `k` makes a turn. -/
inductive Label where
  | store (entry : LogEvent)
  | close
  | fire
  | timerFlush
  | send (k : ℕ)

namespace World

/-- The call of `send` that a section makes. -/
def calls : Option (List LogIngestEntry) → List Send
  | some entries => [{ entries := entries }]
  | none => []

/-- One step. A timer that is not to fire does not, and where no call of `timerFlush` waits none
locks. -/
def step (w : World) : Label → World
  | .store entry =>
    let (err, s, sent) := w.store.store entry
    { w with store := s, sends := w.sends ++ calls sent, stored := w.stored ++ [(entry, err)] }
  | .close =>
    let (s, sent) := w.store.close
    { w with store := s, sends := w.sends ++ calls sent }
  | .fire =>
    if w.store.armed then
      { w with store := { w.store with armed := false }, flushes := w.flushes + 1 }
    else w
  | .timerFlush =>
    if 0 < w.flushes then
      let (s, sent) := w.store.timerFlush
      { w with store := s, sends := w.sends ++ calls sent, flushes := w.flushes - 1 }
    else w
  | .send k => { w with sends := w.sends.modify k Send.turn }

/-- The timer fires when it is armed. -/
theorem step_fire (w : World) : w.step .fire =
    if w.store.armed then
      { w with store := { w.store with armed := false }, flushes := w.flushes + 1 }
    else w := rfl

/-- A flush that was due is done. -/
theorem step_timerFlush (w : World) : w.step .timerFlush =
    if 0 < w.flushes then
      { w with store := w.store.timerFlush.1, sends := w.sends ++ calls w.store.timerFlush.2,
               flushes := w.flushes - 1 }
    else w := rfl

/-- The events for which `Store` returned `nil`, in the order of the calls. -/
def accepted (w : World) : List LogEvent :=
  w.stored.filterMap fun (entry, err) => if err = none then some entry else none

end World

end VirePortal.Client
