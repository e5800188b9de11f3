import AmpLink.Rehearsal.SessionScript

/-!
# Command line

Plays a command line where no network can be reached: arguments are read and refused, a simulated device
is started, discovery finds nothing and no device can be talked to. Outputs go to standard output, what
went wrong to standard error. The end of standard input interrupts a command that would go on.
-/

namespace AmpLink.Main

/-- A scene without any interface, interrupted later than any deadline that a day holds. -/
def scene : SessionScript.Scene where
  interfaces := []
  script := []
  sends := false
  interruptAt := 1000000000000
  stamp := .ofUnix 0

/-- Waits until standard input ends. -/
partial def awaitInterrupt (input : IO.FS.Stream) : IO Unit := do
  unless (← input.getLine).isEmpty do awaitInterrupt input

/-- The outputs that come before the interrupt: a simulated device is announced. -/
def announced (t : SessionScript.Transcript) : Nat := if t.bound.isSome then 1 else 0

/-- The status of a process that aborts: the signal 6, marked as one. -/
def abortCode : Nat := 0x80 + 6

/-- Prints the outputs of a command and gives its exit code. -/
def present (a : Arguments) (t : SessionScript.Transcript) : IO Nat := do
  let texts := t.texts (SessionScript.style a)
  for text in texts.take (announced t) do IO.println text
  (← IO.getStdout).flush
  unless t.early do awaitInterrupt (← IO.getStdin)
  for text in texts.drop (announced t) do IO.println text
  match t.result with
  | .error _ => return abortCode
  | .ok (.ok ()) => return CommandError.success
  | .ok (.error e) =>
    IO.eprintln ("Error: " ++ e.message)
    return e.exitCode

def exitCode (args : List String) : IO Nat := do
  match CommandLine.parse (← IO.getEnv "PPA_PORT") args with
  | .error f => return f.exitCode
  | .ok a =>
    match SessionScript.play scene a with
    | .error f =>
      IO.eprintln ("Error: " ++ f.message)
      return CommandError.generalError
    | .ok t => present a t

end AmpLink.Main

def main (args : List String) : IO UInt32 := do
  return (← AmpLink.Main.exitCode args).toUInt32
