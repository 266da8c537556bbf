import Flowgraph.Text.Split

/-!
# Arguments of the command

The command takes one source and some options.  The arguments are looked at from
left to right, and the first that is wrong, or that asks for the version, decides.
An option that takes a value has it after an equals sign or as the next argument;
as the next argument it cannot begin with a dash, unless it is a single dash.
After `--` every argument is a source.
-/

namespace Flowgraph.CommandLine

/-- What the command prints about a program that has no errors. -/
inductive Emit where
  | check
  | ast
  | graph
  | temporal
  | dot
  | buildInfo
deriving DecidableEq, Repr

/-- How the command reports errors. -/
inductive ErrorFormat where
  | text
  | json
deriving DecidableEq, Repr

/-- What the command is asked to compile, and how. -/
structure Invocation where
  path : String
  emit : Emit
  errorFormat : ErrorFormat
  /-- Report every violation and not only the first. -/
  all : Bool
  /-- The name under which the source is reported, if not by its path. -/
  filename : Option String
  /-- How often more messages were asked for. -/
  verbosity : Nat
deriving DecidableEq, Repr

/-- What the command is asked to do. -/
inductive Request where
  | compile (invocation : Invocation)
  | version
  /-- The arguments are wrong. -/
  | usage
deriving DecidableEq, Repr

/-- The options that take a value. -/
inductive ValueOption where
  | emit
  | errorFormat
  | filename
deriving DecidableEq, Repr

/-- What the arguments so far say. -/
structure Given where
  path : Option String := none
  emit : Option Emit := none
  errorFormat : Option ErrorFormat := none
  all : Bool := false
  filename : Option String := none
  verbosity : Nat := 0
  /-- The option whose value is the next argument. -/
  pending : Option ValueOption := none
  /-- Whether all further arguments are sources. -/
  onlySources : Bool := false

/-- The value of `--emit`. -/
def Emit.ofText? (text : String) : Option Emit :=
  match text with
  | "check" => some check
  | "ast" => some ast
  | "graph" => some graph
  | "temporal" => some temporal
  | "dot" => some dot
  | "build-info" => some buildInfo
  | _ => none

/-- The value of `--error-format`. -/
def ErrorFormat.ofText? : String → Option ErrorFormat
  | "text" => some text
  | "json" => some json
  | _ => none

/-- The option with a name, if it takes a value. -/
def ValueOption.ofName? : String → Option ValueOption
  | "emit" => some emit
  | "error-format" => some errorFormat
  | "filename" => some filename
  | _ => none

namespace Given

/-- A source, if it is the first and has a name. -/
def addSource? (given : Given) (path : String) : Option Given :=
  if given.path.isSome || path.isEmpty then none else some { given with path := some path }

/-- The value of an option, if it is allowed and the option has none yet. -/
def addValue? (given : Given) (option : ValueOption) (value : String) : Option Given :=
  match option with
  | .emit =>
      if given.emit.isSome then none
      else (Emit.ofText? value).map fun emit => { given with emit := some emit }
  | .errorFormat =>
      if given.errorFormat.isSome then none
      else
        (ErrorFormat.ofText? value).map fun errorFormat =>
          { given with errorFormat := some errorFormat }
  | .filename =>
      if given.filename.isSome then none else some { given with filename := some value }

/-- What is asked for once all arguments have been looked at. -/
def request (given : Given) : Request :=
  match given.path, given.pending with
  | some path, none =>
      .compile
        { path
          emit := given.emit.getD .check
          errorFormat := given.errorFormat.getD .text
          all := given.all
          filename := given.filename
          verbosity := given.verbosity }
  | _, _ => .usage

/--
The effect of one argument: it adds to what is given, or it decides the request.
-/
abbrev Effect : Type := Except Request Given

/-- What is given, or the arguments are wrong. -/
def orUsage : Option Given → Effect
  | some given => .ok given
  | none => .error .usage

/-- A row of letters after a single dash. -/
def addLetters (given : Given) : List Char → Effect
  | [] => .ok given
  | 'v' :: rest => { given with verbosity := given.verbosity + 1 }.addLetters rest
  | 'V' :: _ => .error .version
  | _ :: _ => .error .usage

/-- A name after two dashes, with a value if an equals sign follows it. -/
def addNamed (given : Given) (name : String) (value : Option String) : Effect :=
  match ValueOption.ofName? name, value with
  | some option, some text => orUsage (given.addValue? option text)
  | some option, none => .ok { given with pending := some option }
  | none, some _ => .error .usage
  | none, none =>
      match name with
      | "all" => if given.all then .error .usage else .ok { given with all := true }
      | "verbose" => .ok { given with verbosity := given.verbosity + 1 }
      | "version" => .error .version
      | _ => .error .usage

/-- One more argument. -/
def add (given : Given) (argument : String) : Effect :=
  match given.pending, argument.toList with
  | some _, '-' :: _ :: _ => .error .usage
  | some option, _ => orUsage ({ given with pending := none }.addValue? option argument)
  | none, characters =>
      if given.onlySources then orUsage (given.addSource? argument)
      else
        match characters with
        | ['-', '-'] => .ok { given with onlySources := true }
        | '-' :: '-' :: body =>
            let (name, value) := Text.splitAtFirst '=' body
            given.addNamed (String.ofList name) (value.map String.ofList)
        | '-' :: first :: letters => given.addLetters (first :: letters)
        | _ => orUsage (given.addSource? argument)

/-- All further arguments. -/
def addAll (given : Given) : List String → Request
  | [] => given.request
  | argument :: rest =>
      match given.add argument with
      | .ok next => next.addAll rest
      | .error request => request

end Given

/-- What the command is asked to do by its arguments. -/
def Request.ofArguments (arguments : List String) : Request :=
  Given.addAll {} arguments

end Flowgraph.CommandLine
