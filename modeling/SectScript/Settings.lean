import SectScript.Event

/-!
# Settings

What a user can choose about a run. A settings file overrides the defaults and flags override the
file; listing and version come from flags only.
-/

namespace SectScript

structure Settings where
  dialect : Bytes := []
  color : Bool := true
  stats : Bool := false
  dump : Bool := false
  readPrompt : Bytes := []
  /-- Seconds, within 16 bits. -/
  readTimeout : Int := 0
  trace : TraceSettings := {}
  list : Bool := false
  version : Bool := false
  deriving DecidableEq

def Settings.watch (s : Settings) : Watch := s.trace.watch s.dump

end SectScript
