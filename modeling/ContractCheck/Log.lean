/-!
Records of what a session does, for people who look for the cause of a surprise.
-/

namespace ContractCheck

inductive LogLevel where
  | error
  | warn
  | info
  | debug
  | trace
deriving DecidableEq, Repr

def LogLevel.name : LogLevel → String
  | .error => "ERROR"
  | .warn => "WARN"
  | .info => "INFO"
  | .debug => "DEBUG"
  | .trace => "TRACE"

structure LogRecord where
  level : LogLevel
  text : String
deriving DecidableEq, Repr

end ContractCheck
