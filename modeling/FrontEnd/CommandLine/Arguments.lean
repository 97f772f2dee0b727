import FrontEnd.Compilation
import FrontEnd.Text.Number

/-!
# Arguments of the command line

The command takes one path, switches, and options with a number, which follows as the next argument
or after an equals sign.  After `--` every argument is a path.  Single-letter switches may be
combined.

Nothing may be given twice, and the value of an option may not start with a dash unless the dash is
all of it.  Arguments are read from left to right, so asking for the version wins over a mistake
that comes later, and loses to one that comes before.
-/

namespace FrontEnd.CommandLine

/-- What the arguments ask for. -/
structure Options where
  path : Option String
  dumpTokens : Bool
  trace : Bool
  dumpSymbols : Bool
  keepGoing : Bool
  verbose : Bool
  wordLimit : Option Nat
  scanLimit : Option Nat
  maxNesting : Option Nat

namespace Options

/-- Nothing asked for yet. -/
def none : Options :=
  ⟨.none, false, false, false, false, false, .none, .none, .none⟩

/-- The settings the options amount to. -/
def settings (o : Options) : Settings :=
  let usual := Settings.default
  { usual with
    wordLimit := o.wordLimit.getD usual.wordLimit
    limits :=
      ⟨o.scanLimit.getD usual.limits.scan, o.maxNesting.getD usual.limits.nesting⟩
    haltOnLexicalErrors := !o.keepGoing
    analyzeRejected := o.keepGoing }

end Options

/-- What to do for a list of arguments. -/
inductive Invocation where
  /-- Compile the file at a path. -/
  | compile (path : String) (options : Options)
  /-- Say which version this is. -/
  | version
  /-- Refuse the arguments. -/
  | refused

/-- What a switch does to the options, unless it was given before. -/
def switch? (name : String) (o : Options) : Option Options :=
  match name with
  | "dump-tokens" => if o.dumpTokens then none else some { o with dumpTokens := true }
  | "trace" => if o.trace then none else some { o with trace := true }
  | "dump-symbols" => if o.dumpSymbols then none else some { o with dumpSymbols := true }
  | "keep-going" => if o.keepGoing then none else some { o with keepGoing := true }
  | "verbose" => if o.verbose then none else some { o with verbose := true }
  | _ => none

/-- Whether a name is that of an option with a number. -/
def takesNumber (name : String) : Bool :=
  name == "max-identifier-len" || name == "scan-limit" || name == "max-nesting"

/-- What an option with a number does to the options, unless it was given before. -/
def number? (name : String) (value : String) (o : Options) : Option Options :=
  match Text.natural? value with
  | none => none
  | some n =>
    match name with
    | "max-identifier-len" => if o.wordLimit.isSome then none else some { o with wordLimit := n }
    | "scan-limit" => if o.scanLimit.isSome then none else some { o with scanLimit := n }
    | "max-nesting" => if o.maxNesting.isSome then none else some { o with maxNesting := n }
    | _ => none

/-- What a path does to the options, unless one was given before. -/
def path? (path : String) (o : Options) : Option Options :=
  if path.isEmpty || o.path.isSome then none else some { o with path := path }

/-- What to do once all arguments are read. -/
def finish (o : Options) : Invocation :=
  match o.path with
  | some path => .compile path o
  | none => .refused

/-- Reads arguments that are all paths. -/
def readPaths (o : Options) : List String → Invocation
  | [] => finish o
  | a :: rest =>
    match path? a o with
    | some o => readPaths o rest
    | none => .refused

/-- How a single argument is written. -/
inductive Form where
  /-- The mark that only paths follow. -/
  | pathsFollow
  /-- A name after two dashes, perhaps with a value. -/
  | long (name : String) (value : Option String)
  /-- Letters after one dash. -/
  | short (letters : List Char)
  /-- Anything else: a path or the value of an option. -/
  | plain

/-- A text cut at its first equals sign. -/
def splitValue (cs : List Char) : String × Option String :=
  let name := cs.takeWhile (· != '=')
  match cs.drop name.length with
  | [] => (String.ofList name, none)
  | _ :: value => (String.ofList name, some (String.ofList value))

/-- The form of an argument. -/
def Form.of (a : String) : Form :=
  match a.toList with
  | ['-', '-'] => pathsFollow
  | '-' :: '-' :: cs => let (name, value) := splitValue cs; long name value
  | '-' :: c :: cs => short (c :: cs)
  | _ => plain

/-- What a group of letters asks for. -/
inductive Letters where
  | options (o : Options)
  | version
  | refused

/-- Reads a group of letters. -/
def readLetters (o : Options) : List Char → Letters
  | [] => .options o
  | 'v' :: cs =>
    match switch? "verbose" o with
    | some o => readLetters o cs
    | none => .refused
  | 'V' :: _ => .version
  | _ => .refused

/-- Reads the arguments that are left. -/
def readArguments (o : Options) : List String → Invocation
  | [] => finish o
  | a :: rest =>
    match Form.of a with
    | .pathsFollow => readPaths o rest
    | .short letters =>
      match readLetters o letters with
      | .options o => readArguments o rest
      | .version => .version
      | .refused => .refused
    | .plain =>
      match path? a o with
      | some o => readArguments o rest
      | none => .refused
    | .long name (some value) =>
      match number? name value o with
      | some o => readArguments o rest
      | none => .refused
    | .long name none =>
      if name = "version" then .version
      else if takesNumber name then
        match rest with
        | [] => .refused
        | value :: rest =>
          match Form.of value, number? name value o with
          | .plain, some o => readArguments o rest
          | _, _ => .refused
      else
        match switch? name o with
        | some o => readArguments o rest
        | none => .refused

/-- What to do for the arguments of a command. -/
def Invocation.of (arguments : List String) : Invocation :=
  readArguments .none arguments

end FrontEnd.CommandLine
