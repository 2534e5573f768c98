/-!
What is recorded while the client works.
-/

namespace PetClient

inductive Level
  | trace
  | debug
  | info
  | warn
  | error
  deriving DecidableEq, Repr

def Level.name : Level → String
  | trace => "TRACE"
  | debug => "DEBUG"
  | info => "INFO"
  | warn => "WARN"
  | error => "ERROR"

structure LogRecord where
  level : Level
  message : String
  deriving DecidableEq, Repr

end PetClient
