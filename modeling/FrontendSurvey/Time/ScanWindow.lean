import FrontendSurvey.Time.Instant
import FrontendSurvey.Json.Basic

set_option autoImplicit false

namespace FrontendSurvey

structure ScanWindow where
  started : String
  ended : String
  millis : Nat
  deriving DecidableEq, Repr

namespace ScanWindow

-- an instant cut to whole milliseconds, if that is still in range
def cut (t : Instant) : Instant := (Instant.ofMillis? t.millis).getD t

def between (started ended : Instant) : ScanWindow where
  -- the duration is zero if the end lies before the start
  started := (cut started).iso
  ended := (cut ended).iso
  millis := (ended.millis - started.millis).toNat

def toJson (w : ScanWindow) : Json :=
  .obj [("startedIso", .str w.started), ("endedIso", .str w.ended), ("durationMs", .count w.millis)]

def ofJson? (j : Json) : Option ScanWindow := do
  let started ← j.required "startedIso" Json.text?
  let ended ← j.required "endedIso" Json.text?
  let millis ← j.required "durationMs" Json.count?
  some ⟨started, ended, millis⟩

end ScanWindow

end FrontendSurvey
