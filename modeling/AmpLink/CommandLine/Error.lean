import AmpLink.Error

/-!
# Failure of a command

A command fails because of its arguments or because its run failed. Scripts tell the cases apart by
the exit code.
-/

namespace AmpLink

/-- Why a text names no address to talk to. -/
inductive LookupFault where
  | invalidPort
  /-- The host has no address for a name, and says why. -/
  | unknownHost (detail : String)
  deriving DecidableEq, Repr

/-- An argument that cannot be used. -/
inductive ArgumentFault where
  | unresolved (address : String) (fault : LookupFault)
  | notV4 (address : String)
  | noDevices
  | volume (v : Binary32)
  | other (detail : String)
  deriving DecidableEq, Repr

inductive CommandError where
  | run (e : RunError)
  | argument (f : ArgumentFault)
  deriving DecidableEq, Repr

def LookupFault.message : LookupFault → String
  | invalidPort => "invalid port value"
  | unknownHost detail => detail

def ArgumentFault.message : ArgumentFault → String
  | unresolved address fault => "cannot resolve '" ++ address ++ "': " ++ fault.message
  | notV4 address => "no IPv4 address for '" ++ address ++ "'"
  | noDevices => "no devices given, pass --addresses or --discover"
  | volume v => "volume " ++ v.text ++ " is outside 0.0..=1.0"
  | other detail => detail

namespace CommandError

def message : CommandError → String
  | run e => "Core error: " ++ e.message
  | argument f => "Invalid argument: " ++ f.message

def success : Nat := 0
def generalError : Nat := 1
def networkError : Nat := 2
def invalidArguments : Nat := 4

def exitCode : CommandError → Nat
  | run (.io _) | run (.interface _) | run (.client (.writeTimeout _)) => networkError
  | run (.protocol (.invalidVolume _)) | argument _ => invalidArguments
  | run _ => generalError

end CommandError
end AmpLink
