/-!
# Command lines

Arguments are read from left to right. Options may stand before and after the command, each but the
request for more detail at most once in either place; what stands after the command prevails. Help
and version end the reading where they stand, and so does the first mistake.
-/

namespace BehaviorRegistrar.CommandLine

inductive Verb where
  | version
  | transform
  | build
  deriving DecidableEq, Repr

def Verb.ofName? : String → Option Verb
  | "version" => some .version
  | "transform" => some .transform
  | "build" => some .build
  | _ => none

inductive Switch where
  | json
  | verbose
  | enableHmr
  | help
  | version
  deriving DecidableEq, Repr

inductive Setting where
  | cwd
  | outfile
  | outDir
  | options
  deriving DecidableEq, Repr

inductive Key where
  | switch (switch : Switch)
  | setting (setting : Setting)
  deriving DecidableEq, Repr

/-- Where an argument stands: before the command, or after one. -/
abbrev Scope := Option Verb

def loaderKey? : String → Option Key
  | "enable-hmr" => some (.switch .enableHmr)
  | "options" => some (.setting .options)
  | _ => none

def longKey? (scope : Scope) (name : String) : Option Key :=
  match name with
  | "json" => some (.switch .json)
  | "verbose" => some (.switch .verbose)
  | "help" => some (.switch .help)
  | "cwd" => some (.setting .cwd)
  | _ =>
    match scope, name with
    | none, "version" => some (.switch .version)
    | some .transform, "outfile" => some (.setting .outfile)
    | some .build, "out-dir" => some (.setting .outDir)
    | some .transform, _ => loaderKey? name
    | some .build, _ => loaderKey? name
    | _, _ => none

def shortKey? (scope : Scope) (name : Char) : Option Key :=
  match scope, name with
  | _, 'v' => some (.switch .verbose)
  | _, 'h' => some (.switch .help)
  | none, 'V' => some (.switch .version)
  | some .transform, 'o' => some (.setting .outfile)
  | _, _ => none

def wordLimit : Scope → Nat
  | some .transform => 1
  | some .build => 1
  | _ => 0

/-- What the arguments of one place say. -/
structure Given where
  json : Bool := false
  enableHmr : Bool := false
  verbosity : Nat := 0
  cwd : Option String := none
  outfile : Option String := none
  outDir : Option String := none
  options : Option String := none
  word : Option String := none
  words : Nat := 0
  deriving DecidableEq, Repr

inductive Halt where
  | mistake
  | help
  | version
  deriving DecidableEq, Repr

namespace Given

def turn (given : Given) : Switch → Except Halt Given
  | .help => .error .help
  | .version => .error .version
  | .verbose => .ok { given with verbosity := given.verbosity + 1 }
  | .json => if given.json then .error .mistake else .ok { given with json := true }
  | .enableHmr => if given.enableHmr then .error .mistake else .ok { given with enableHmr := true }

def value? (given : Given) : Setting → Option String
  | .cwd => given.cwd
  | .outfile => given.outfile
  | .outDir => given.outDir
  | .options => given.options

/-- Takes an option with its value. An empty path is a mistake. -/
def assign (given : Given) (setting : Setting) (value : String) : Except Halt Given :=
  if (given.value? setting).isSome ∨ (value = "" ∧ setting ≠ .options) then .error .mistake
  else .ok <| match setting with
    | .cwd => { given with cwd := some value }
    | .outfile => { given with outfile := some value }
    | .outDir => { given with outDir := some value }
    | .options => { given with options := some value }

/-- Takes an argument that is no option: a path, of which a place takes a number. -/
def take (given : Given) (scope : Scope) (word : String) : Except Halt Given :=
  if word = "" ∨ wordLimit scope ≤ given.words then .error .mistake
  else .ok { given with word := some word, words := given.words + 1 }

end Given

/-- What an argument leaves: what is given so far, and an option that waits for its value. -/
abbrev Taken := Except Halt (Given × Option Setting)

/-- Takes short options that share an argument. The first one with a value takes what follows it. -/
def takeShort (scope : Scope) (given : Given) : List Char → Taken
  | [] => .ok (given, none)
  | c :: r =>
    match shortKey? scope c with
    | none => .error .mistake
    | some (.switch switch) =>
      match given.turn switch with
      | .error halt => .error halt
      | .ok given => takeShort scope given r
    | some (.setting setting) =>
      match r with
      | [] => .ok (given, some setting)
      | '=' :: value => (given.assign setting (String.ofList value)).map (·, none)
      | value => (given.assign setting (String.ofList value)).map (·, none)

def takeLong (scope : Scope) (given : Given) (s : List Char) : Taken :=
  let name := s.takeWhile (· != '=')
  let attached : Option String := match s.drop name.length with
    | [] => none
    | _ :: value => some (String.ofList value)
  match longKey? scope (String.ofList name), attached with
  | none, _ => .error .mistake
  | some (.switch _), some _ => .error .mistake
  | some (.switch switch), none => (given.turn switch).map (·, none)
  | some (.setting setting), none => .ok (given, some setting)
  | some (.setting setting), some value => (given.assign setting value).map (·, none)

def isOption (argument : String) : Bool :=
  match argument.toList with
  | '-' :: _ :: _ => true
  | _ => false

def takeArgument (scope : Scope) (given : Given) (argument : String) : Taken :=
  match argument.toList with
  | '-' :: '-' :: name => takeLong scope given name
  | '-' :: c :: r => takeShort scope given (c :: r)
  | _ => (given.take scope argument).map (·, none)

abbrev Ending := Except Halt (Given × Option (Verb × List String))

def takeWords (scope : Scope) (given : Given) : List String → Ending
  | [] => .ok (given, none)
  | word :: rest =>
    match given.take scope word with
    | .error halt => .error halt
    | .ok given => takeWords scope given rest

def helpExists : List String → Bool
  | [] => true
  | [topic] => (Verb.ofName? topic).isSome || topic == "help"
  | _ => false

/-- Takes the arguments of a place. A value for an option that waits for one has not the form of an
option itself. -/
def takeAll (scope : Scope) (given : Given) : List String → Ending
  | [] => .ok (given, none)
  | argument :: rest =>
    match scope, Verb.ofName? argument with
    | none, some verb => .ok (given, some (verb, rest))
    | _, _ =>
      if scope = none ∧ argument = "help" then
        .error (if helpExists rest then .help else .mistake)
      else if argument = "--" then takeWords scope given rest
      else
        match takeArgument scope given argument with
        | .error halt => .error halt
        | .ok (given, none) => takeAll scope given rest
        | .ok (given, some setting) =>
          match rest with
          | [] => .error .mistake
          | value :: more =>
            if isOption value then .error .mistake
            else
              match given.assign setting value with
              | .error halt => .error halt
              | .ok given => takeAll scope given more

inductive OptionsSource where
  /-- The switch for hot reload, set or not. -/
  | switch (hotReload : Bool)
  /-- A JSON text. -/
  | text (json : String)
  deriving DecidableEq, Repr

/-- What a run is to do. -/
inductive Task where
  | version
  | transform (file : String) (outfile : Option String) (options : OptionsSource)
  | build (root outDir : String) (options : OptionsSource)
  deriving DecidableEq, Repr

structure Invocation where
  json : Bool
  verbosity : Nat
  cwd : Option String
  task : Task
  deriving DecidableEq, Repr

/-- The source of the loader options. The switch and the text exclude each other. -/
def Given.source (given : Given) : Except Halt OptionsSource :=
  match given.options with
  | none => .ok (.switch given.enableHmr)
  | some text => if given.enableHmr then .error .mistake else .ok (.text text)

def taskOf (given : Given) : Verb → Except Halt Task
  | .version => .ok .version
  | .transform =>
    match given.word, given.source with
    | some file, .ok source => .ok (.transform file given.outfile source)
    | _, _ => .error .mistake
  | .build =>
    match given.outDir, given.source with
    | some outDir, .ok source => .ok (.build (given.word.getD ".") outDir source)
    | _, _ => .error .mistake

def read (arguments : List String) : Except Halt Invocation :=
  match takeAll none {} arguments with
  | .error halt => .error halt
  | .ok (_, none) => .error .mistake
  | .ok (before, some (verb, rest)) =>
    match takeAll (some verb) {} rest with
    | .error halt => .error halt
    | .ok (after, _) =>
      (taskOf after verb).map fun task =>
        { json := before.json || after.json
          verbosity := if after.verbosity = 0 then before.verbosity else after.verbosity
          cwd := after.cwd <|> before.cwd
          task := task }

end BehaviorRegistrar.CommandLine
