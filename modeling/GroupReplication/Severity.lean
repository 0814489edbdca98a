/-
How loudly a conflict is logged.
-/
namespace GroupReplication

inductive Severity where
  | debug
  | info
  | warn
  | error
  deriving Repr, DecidableEq

namespace Severity

def all : List Severity := [debug, info, warn, error]

def rank : Severity → Nat
  | .debug => 0
  | .info => 1
  | .warn => 2
  | .error => 3

def name : Severity → String
  | .debug => "debug"
  | .info => "info"
  | .warn => "warn"
  | .error => "error"

def ofName? (text : String) : Option Severity := all.find? (·.name == text)

def level : Severity → String
  | .debug => "DEBUG"
  | .info => "INFO"
  | .warn => "WARN"
  | .error => "ERROR"

/-- One level less severe; nothing lies below debug. -/
def lower : Severity → Severity
  | .error => .warn
  | .warn => .info
  | .info | .debug => .debug

end Severity

end GroupReplication
