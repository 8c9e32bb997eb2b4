import ImemReplay.Run

/-!
# The command line

The command line names a configuration and may name a prefix for the written files. Options have
a short and a long name, a long name may be cut as long as it is the only one that begins so, and
a value stands behind its option or is attached to it. The last of several values counts, and two
dashes that are attached to an option give it no value.

Main results:

- Definition `CommandLine.ofArgs`: what a list of arguments asks for.
- Definition `CommandLine.perform`: what the files and the console are afterwards.
-/

namespace ImemReplay

/-- The names of options. -/
inductive OptionName where
  | help
  | config
  | outPrefix
deriving DecidableEq, Repr

namespace OptionName

/-- The letter of an option. -/
def letter : OptionName → Char
  | help => 'h'
  | config => 'c'
  | outPrefix => 'o'

/-- The long name of an option. -/
def long : OptionName → String
  | help => "--help"
  | config => "--config"
  | outPrefix => "--out-prefix"

/-- All options. -/
def all : List OptionName := [help, config, outPrefix]

/-- The option with a letter. -/
def ofLetter? (c : Char) : Option OptionName := all.find? fun name => name.letter = c

/-- The options whose long name begins with some characters. -/
def beginning (s : List Char) : List OptionName :=
  all.filter fun name => s.isPrefixOf name.long.toList

end OptionName

/-- An argument as it is read. -/
inductive Argument where
  /-- An option, whose value, if it takes one, is the next argument. -/
  | option (name : OptionName)
  /-- An option with the value attached to it, if that is one. -/
  | attached (name : OptionName) (value : Option String)
  /-- The options behind the letter of help, which takes no value. -/
  | cluster (letters : List Char)
  | value (s : String)
  /-- The beginning of several options. -/
  | ambiguous
  /-- What looks like an option and is none. -/
  | unknown
deriving DecidableEq, Repr

namespace Argument

/-- The argument behind which nothing is an option. -/
def separator : String := "--"

/-- Whether a character is a decimal digit. -/
def isDecimal (c : Char) : Bool := (Text.digitValue? c).isSome

/-- A text without a line end at its end. -/
def withoutLineEnd (cs : List Char) : List Char :=
  if cs.getLast? = some '\n' then cs.dropLast else cs

/-- Whether an argument is a negative number rather than an option. It may end its line. -/
def isNegativeNumber (cs : List Char) : Bool :=
  match withoutLineEnd cs with
  | '-' :: cs =>
    match cs.dropWhile isDecimal with
    | [] => !cs.isEmpty
    | '.' :: digits => !digits.isEmpty && digits.all isDecimal
    | _ => false
  | _ => false

/-- An argument that is no option by its name. -/
def ofOther (s : String) : Argument :=
  if isNegativeNumber s.toList || ' ' ∈ s.toList then value s else unknown

/-- The value of attached characters; the separator is none. -/
def attachedValue (cs : List Char) : Option String :=
  if String.ofList cs = separator then none else some (String.ofList cs)

/-- The argument of a short option with what is attached to it, behind an equals sign or without
one. -/
def ofLetter (name : OptionName) (rest : List Char) : Argument :=
  match name, rest with
  | name, [] => option name
  | .help, ['='] => attached .help (some "")
  | .help, '=' :: letters => cluster letters
  | .help, letters => cluster letters
  | name, '=' :: cs => attached name (attachedValue cs)
  | name, cs => attached name (attachedValue cs)

/-- Reads an argument. -/
def ofText (s : String) : Argument :=
  match s.toList with
  | '-' :: '-' :: cs =>
    let word := cs.takeWhile (· ≠ '=')
    match OptionName.beginning ('-' :: '-' :: word), cs.drop word.length with
    | [name], [] => option name
    | [name], _ :: text => attached name (attachedValue text)
    | [], _ => ofOther s
    | _, _ => ambiguous
  | '-' :: c :: cs =>
    match OptionName.ofLetter? c with
    | some name => ofLetter name cs
    | none => ofOther s
  | _ => value s

end Argument

/-- What a command line asks for. -/
inductive CommandLine where
  | usage
  | help
  /-- A run with a configuration and a prefix, each of which may have been given no value. -/
  | run (config outPrefix : Option String)
deriving DecidableEq, Repr

namespace CommandLine

/-- The values read so far. -/
structure Settings where
  /-- The configuration, if the option was there; it may have been given no value. -/
  config : Option (Option String) := none
  outPrefix : Option String := none
  /-- Whether an argument has no place. -/
  surplus : Bool := false
deriving DecidableEq, Repr

namespace Settings

/-- Gives an option a value. -/
def assign (settings : Settings) (name : OptionName) (value : Option String) : Settings :=
  match name with
  | .help => settings
  | .config => { settings with config := some value }
  | .outPrefix => { settings with outPrefix := value }

/-- What the settings ask for at the end of the command line. -/
def finish (settings : Settings) : CommandLine :=
  match settings.config with
  | some config => if settings.surplus then .usage else .run config settings.outPrefix
  | none => .usage

end Settings

/-- Whether help is asked for by letters, the last of which may need a value. -/
def clusterHelps (hasValue : Bool) : List Char → Bool
  | [] => true
  | c :: cs =>
    match OptionName.ofLetter? c with
    | some .help => clusterHelps hasValue cs
    | some _ => !cs.isEmpty || hasValue
    | none => false

/-- Whether a value comes next. -/
def startsWithValue : List String → Bool
  | [] => false
  | s :: _ =>
    match Argument.ofText s with
    | .value _ => true
    | _ => false

/-- Reads arguments one after the other. Help is given as soon as it is asked for. -/
def read (settings : Settings) : List String → CommandLine
  | [] => settings.finish
  | s :: rest =>
    if s = Argument.separator then .usage
    else
      match Argument.ofText s with
      | .option .help => .help
      | .attached .help _ => .usage
      | .attached name value => read (settings.assign name value) rest
      | .option name =>
        match rest with
        | [] => .usage
        | value :: rest =>
          if startsWithValue [value] then read (settings.assign name (some value)) rest
          else .usage
      | .cluster letters => if clusterHelps (startsWithValue rest) letters then .help else .usage
      | .ambiguous => .usage
      | .value _ => read { settings with surplus := true } rest
      | .unknown => read { settings with surplus := true } rest

/-- What a list of arguments asks for. An ambiguous argument in front of the separator is refused
before anything else is looked at. -/
def ofArgs (args : List String) : CommandLine :=
  if (args.takeWhile (· ≠ Argument.separator)).any (Argument.ofText · = .ambiguous) then .usage
  else read {} args

/-- How a command line ends. -/
inductive Ending where
  /-- The exit code. -/
  | exit (code : Nat)
  | fault (fault : Fault)
deriving DecidableEq, Repr

/-- The end of a command line, with the files and the console it leaves. -/
structure Result where
  ending : Ending
  files : FileTree
  console : String := ""
deriving DecidableEq, Repr

/-- Does what a command line asks for. -/
def perform [Memory] (t : FileTree) : CommandLine → Result
  | usage => { ending := .exit 2, files := t }
  | help => { ending := .exit 0, files := t }
  | run none _ => { ending := .fault .wrongType, files := t }
  | run (some config) outPrefix =>
    match Project.load t config with
    | (.error fault, console) => { ending := .fault fault, files := t, console }
    | (.ok project, console) =>
      match project.run outPrefix ⟨t, project.decoder.start.print console⟩ with
      | (.error fault, desk) =>
        { ending := .fault fault, files := desk.files, console := desk.state.console }
      | (.ok _, desk) =>
        { ending := .exit 0, files := desk.files, console := desk.state.console }

end CommandLine
end ImemReplay
