import AmpLink.CommandLine.Grammar

/-!
# Reading the command line

Words are read from left to right. An option that takes a value is kept open until the next word has
given it one, and its value is checked when the next option or the end closes it; so the first fault in
the order of closing is the one that is reported. The environment may give the port; it is looked at,
before and behind the command, where the port was not given.
-/

namespace AmpLink.CommandLine

/-- Why a command line is not carried out. -/
inductive Fault where
  | displayHelp
  | displayVersion
  /-- Nothing was said, so help is shown. -/
  | nothingGiven
  | missingCommand
  | unknownCommand
  | unknownArgument
  | missingRequired
  /-- An option is given again. -/
  | conflict
  /-- A value where none is taken. -/
  | tooManyValues
  /-- No value where one is needed. -/
  | missingValue
  /-- A value that cannot be read. -/
  | badValue
  deriving DecidableEq, Repr

/-- The code with which the program ends. -/
def Fault.exitCode : Fault → Nat
  | displayHelp | displayVersion => 0
  | _ => 2

/-- The form of a word. -/
inductive Word where
  | escape
  | long (name : String) (value : Option String)
  | short (flags : List Char)
  | plain
  deriving DecidableEq, Repr

def Word.of (s : String) : Word :=
  match s.toList with
  | ['-', '-'] => .escape
  | '-' :: '-' :: rest =>
    let name := rest.takeWhile (· ≠ '=')
    .long (.ofList name)
      (if name.length < rest.length then some (.ofList (rest.drop (name.length + 1))) else none)
  | ['-'] => .plain
  | '-' :: flags => .short flags
  | _ => .plain

/-- What has been read at one place. -/
structure Level where
  /-- Options in the order of their first closing, with their values. -/
  given : List (Opt × List String)
  /-- The option that is open, and the value that it has got. -/
  pending : Option (Spec × Option String)
  deriving Repr

namespace Level

def empty : Level := ⟨[], none⟩

def has (l : Level) (o : Opt) : Bool := l.given.any (·.1 = o)

def values (l : Level) (o : Opt) : List String := (l.given.filter (·.1 = o)).flatMap (·.2)

def value? (l : Level) (o : Opt) : Option String := (l.values o).head?

/-- The values that one word gives. -/
def pieces (separator : Option Char) (s : String) : List String :=
  match separator with
  | some c => (s.toList.splitOnP (· = c)).map String.ofList
  | none => [s]

/-- Takes an option with its words over. -/
def record (l : Level) (spec : Spec) (word : Option String) : Except Fault Level :=
  match spec.use with
  | .help => .error .displayHelp
  | .version => .error .displayVersion
  | .flag => if l.has spec.opt then .error .conflict else .ok { l with given := l.given ++ [(spec.opt, [])] }
  | .value | .values _ =>
    match word with
    | none => .error .missingValue
    | some w =>
      let values := match spec.use with
        | .values separator => pieces separator w
        | _ => [w]
      if spec.use = .value ∧ l.has spec.opt then .error .conflict
      else if values.all (accepts spec.opt) then .ok { l with given := l.given ++ [(spec.opt, values)] }
      else .error .badValue

/-- Closes the option that is open. -/
def close (l : Level) : Except Fault Level :=
  match l.pending with
  | none => .ok l
  | some (spec, word) => record { l with pending := none } spec word

/-- Gives an option with the value that is attached to it, if any. -/
def give (l : Level) (spec : Spec) (word : Option String) : Except Fault Level := do
  let l ← l.close
  match spec.use, word with
  | .value, none | .values _, none => return { l with pending := some (spec, none) }
  | _, _ => l.record spec word

/-- Reads a cluster of short options, the last of which may have its value attached. -/
def short (l : Level) (specs : List Spec) : List Char → Except Fault Level
  | [] => .ok l
  | c :: rest =>
    match specs.find? fun s => s.short = some c with
    | none => .error .unknownArgument
    | some spec =>
      match spec.use with
      | .value | .values _ =>
        let word := match rest with
          | [] => none
          | '=' :: rest => some (String.ofList rest)
          | rest => some (String.ofList rest)
        l.give spec word
      | _ => do short (← l.give spec none) specs rest

/-- Reads a long option. -/
def long (l : Level) (specs : List Spec) (name : String) (word : Option String) : Except Fault Level :=
  match specs.find? fun s => s.long = name with
  | none => .error .unknownArgument
  | some spec =>
    match spec.use, word with
    | .value, _ | .values _, _ | _, none => l.give spec word
    | _, some _ => .error .tooManyValues

/-- Ends a place: closes what is open, and lets the environment give the port. -/
def finish (l : Level) (environment : Option String) : Except Fault Level := do
  let l ← l.close
  match environment with
  | some s =>
    if l.has .port then return l
    else if accepts .port s then return l
    else .error .badValue
  | none => return l

end Level

/-- The command, and what was given before and behind it. -/
structure Reading where
  before : Level
  verb : Verb
  behind : Level
  deriving Repr

/-- The words behind the command. -/
def readBehind (verb : Verb) : Level → List String → Except Fault Level
  | l, [] => .ok l
  | l, w :: rest => do
    match Word.of w with
    | .escape => if rest.isEmpty then return l else .error .unknownArgument
    | .long name value => readBehind verb (← l.long (specs (some verb)) name value) rest
    | .short flags => readBehind verb (← l.short (specs (some verb)) flags) rest
    | .plain =>
      match l.pending with
      | some (spec, none) => readBehind verb { l with pending := some (spec, some w) } rest
      | _ => .error .unknownArgument

/-- Words behind a request for help name a command. -/
def readHelp : List String → Fault
  | [] => .displayHelp
  | [w] => if w = "help" ∨ (Verb.ofName? w).isSome then .displayHelp else .unknownCommand
  | _ => .unknownCommand

def isCommand (w : String) : Bool := w = "help" || (Verb.ofName? w).isSome

/-- The words before the command, and everything behind it. -/
def readBefore (environment : Option String) : Level → List String → Except Fault Reading
  | l, [] => do
    let l ← l.finish environment
    .error (if l.given.isEmpty ∧ environment.isNone then .nothingGiven else .missingCommand)
  | l, w :: rest => do
    match Word.of w with
    | .escape =>
      match rest with
      | [] => readBefore environment l []
      | w :: _ => .error (if isCommand w then .unknownArgument else .unknownCommand)
    | .long name value => readBefore environment (← l.long (specs none) name value) rest
    | .short flags => readBefore environment (← l.short (specs none) flags) rest
    | .plain =>
      match l.pending with
      | some (spec, none) => readBefore environment { l with pending := some (spec, some w) } rest
      | _ =>
        if w = "help" then .error (readHelp rest)
        else
          match Verb.ofName? w with
          | none => .error .unknownCommand
          | some verb => do
            let behind ← readBehind verb .empty rest
            let behind ← behind.finish environment
            if (required (some verb)).any fun o => !behind.has o then .error .missingRequired
            else return { before := ← l.finish environment, verb, behind }

/-- Reads the words of a command line. -/
def read (environment : Option String) (words : List String) : Except Fault Reading :=
  readBefore environment .empty words

end AmpLink.CommandLine
