/-!
# Log records

What the checker reports about its own work: a level, the part that reports, and a message.
-/

namespace Conformance

/-- How important a record is. -/
inductive LogLevel where
  | debug
  | info
  deriving DecidableEq, Repr, Inhabited

namespace LogLevel

def name : LogLevel → String
  | debug => "DEBUG"
  | info => "INFO"

end LogLevel

/-- The part of the checker that reports. -/
inductive LogSource where
  | registry
  | classifier
  | resolver
  | invocation
  | harness
  deriving DecidableEq, Repr, Inhabited

namespace LogSource

def name : LogSource → String
  | registry => "sigconf.registry"
  | classifier => "sigconf.classifier"
  | resolver => "sigconf.resolver"
  | invocation => "sigconf.invocation"
  | harness => "sigconf.harness"

end LogSource

/-- One record. -/
structure LogRecord where
  level : LogLevel
  source : LogSource
  message : String
  deriving DecidableEq, Repr, Inhabited

namespace LogRecord

/-- A record at the lowest level. -/
def debug (source : LogSource) (message : String) : LogRecord := ⟨.debug, source, message⟩

end LogRecord

end Conformance
