import AmpLink.Number.Decimal

/-!
# Causes of failure

What can go wrong in the codec, in the life of a client and in a whole run, each cause with its data.
The wording is kept apart, in one function per type.
-/

namespace AmpLink

/-- A datagram or a command that cannot be decoded or built. -/
inductive ProtocolError where
  | shortBuffer (needed got : Nat)
  | invalidVolume (volume : Binary32)
  | pathTooLong (entries : Nat)
  deriving DecidableEq, Repr

/-- A step that the life cycle of a client does not allow. -/
inductive ClientError where
  | alreadyExists (name : String)
  | notFound (name : String)
  | busy (reason : String)
  | alreadyRunning (name : String)
  | writeTimeout (destination : String)
  deriving DecidableEq, Repr

/-- Why a run failed. -/
inductive RunError where
  | protocol (e : ProtocolError)
  | client (e : ClientError)
  | interface (detail : String)
  | io (detail : String)
  | other (detail : String)
  deriving DecidableEq, Repr

/-- How a task or a run ends. -/
abbrev Outcome := Except RunError Unit

def ProtocolError.message : ProtocolError → String
  | shortBuffer needed got => s!"Short buffer: need {needed} bytes, got {got}"
  | invalidVolume volume => "Volume " ++ volume.text ++ " is outside 0.0..=1.0"
  | pathTooLong entries => s!"Live command path has {entries} entries, at most 5 allowed"

def ClientError.message : ClientError → String
  | alreadyExists name => "Client for " ++ name ++ " already exists"
  | notFound name => "Client for " ++ name ++ " not found"
  | busy reason => "Client is busy with " ++ reason
  | alreadyRunning name => "Client " ++ name ++ " is already running"
  | writeTimeout destination => "Write to " ++ destination ++ " timed out"

def RunError.message : RunError → String
  | protocol e => "Protocol error: " ++ e.message
  | client e => "Client error: " ++ e.message
  | interface detail => "Interface error: " ++ detail
  | io detail => "IO error: " ++ detail
  | other detail => detail

end AmpLink
