import ThreeAddress.Command.Script

/-!
# Arguments of the command

One argument names the source.  `-o` or `--output` names the file for the code, `-v` or `--verbose` asks
for progress, and after `--` every argument is a name.  Short options may be joined, and a value may follow
its option directly, behind an equals sign, or as the next argument.  This is one way to come to options; what is proved
about the command is proved for all options.

* `Request` — what the arguments ask for, `Request.script` — what is done about it;
* `Request.ofArgs` — arguments as a request.
-/

namespace ThreeAddress

/-- What the arguments ask for. -/
inductive Request
  | run (options : Options)
  | version
  | help
  | misuse
deriving DecidableEq

/-- What has been read of the arguments so far. -/
structure Given where
  source : Option String
  output : Option String
  verbose : Bool

namespace Given

/-- Nothing has been read. -/
def nothing : Given := ⟨none, none, false⟩

/-- Take a name for the source.  There is only one, and it is not empty. -/
def withSource? (g : Given) (name : String) : Option Given :=
  if g.source.isSome || name.isEmpty then none else some { g with source := some name }

/-- Take a name for the code, likewise. -/
def withOutput? (g : Given) (name : String) : Option Given :=
  if g.output.isSome || name.isEmpty then none else some { g with output := some name }

/-- Note that progress is asked for, which can be said once. -/
def withVerbose? (g : Given) : Option Given :=
  if g.verbose then none else some { g with verbose := true }

/-- The request when all arguments have been read. -/
def request (g : Given) : Request :=
  match g.source with
  | none => .misuse
  | some source => .run ⟨.ofText source, .ofText (g.output.getD defaultOutput), g.verbose⟩

end Given

/-- One option, or one name. -/
inductive Word
  | name (text : String)
  | output (value : Option String)
  | verbose
  | version
  | help
  | unknown
deriving DecidableEq

/-- The options joined behind one hyphen.  All that follows an `o` is its value. -/
def shortWords : List Char → List Word
  | [] => []
  | 'v' :: more => .verbose :: shortWords more
  | 'V' :: more => .version :: shortWords more
  | 'h' :: more => .help :: shortWords more
  | ['o'] => [.output none]
  | 'o' :: '=' :: value => [.output (some (String.ofList value))]
  | 'o' :: value => [.output (some (String.ofList value))]
  | _ => [.unknown]

/-- The option behind two hyphens. -/
def longWord (name : List Char) : Word :=
  match name.span (· != '=') with
  | (key, []) =>
    match String.ofList key with
    | "output" => .output none
    | "verbose" => .verbose
    | "version" => .version
    | "help" => .help
    | _ => .unknown
  | (key, _ :: value) =>
    if String.ofList key = "output" then .output (some (String.ofList value)) else .unknown

/-- The words that an argument before `--` stands for.  A hyphen by itself is a name. -/
def argumentWords (arg : String) : List Word :=
  match arg.toList with
  | '-' :: '-' :: name => [longWord name]
  | ['-'] => [.name arg]
  | '-' :: letters => shortWords letters
  | _ => [.name arg]

/-- Whether an argument cannot be the value of an option before it. -/
def looksLikeOption (arg : String) : Bool :=
  match arg.toList with
  | '-' :: _ :: _ => true
  | _ => false

/-- What comes of one argument: a request at once, an output that still lacks its value, or only more
of what is given. -/
inductive Taken
  | request (r : Request)
  | lacksOutput (g : Given)
  | more (g : Given)

/-- Take some words in order. -/
def Given.takeWords (g : Given) : List Word → Taken
  | [] => .more g
  | .name text :: rest =>
    match g.withSource? text with
    | some g' => g'.takeWords rest
    | none => .request .misuse
  | .output (some value) :: rest =>
    match g.withOutput? value with
    | some g' => g'.takeWords rest
    | none => .request .misuse
  | .output none :: _ => .lacksOutput g
  | .verbose :: rest =>
    match g.withVerbose? with
    | some g' => g'.takeWords rest
    | none => .request .misuse
  | .version :: _ => .request .version
  | .help :: _ => .request .help
  | .unknown :: _ => .request .misuse

/-- Take arguments in order; the flag says whether `--` has been passed. -/
def Given.takeArgs (g : Given) : Bool → List String → Request
  | _, [] => g.request
  | true, arg :: rest =>
    match g.withSource? arg with
    | some g' => g'.takeArgs true rest
    | none => .misuse
  | false, arg :: rest =>
    if arg = "--" then g.takeArgs true rest
    else
      match g.takeWords (argumentWords arg) with
      | .request r => r
      | .more g' => g'.takeArgs false rest
      | .lacksOutput g' =>
        match rest with
        | [] => .misuse
        | value :: rest' =>
          if looksLikeOption value then .misuse
          else
            match g'.withOutput? value with
            | some g'' => g''.takeArgs false rest'
            | none => .misuse

/-- What some arguments ask for. -/
def Request.ofArgs (args : List String) : Request := Given.nothing.takeArgs false args

/-! ### Requests -/

/-- The name under which the command is called. -/
def commandName : String := "ccal"

/-- How the command is used. -/
def usage : String := "Usage: " ++ commandName ++ " [OPTIONS] <SOURCE_FILE>\n"

/-- The script for a request, with the reports drawn in some way. -/
def Request.script (draw : Picture → Option String) : Request → Script
  | .run options => options.script draw
  | .version => .print (commandName ++ " " ++ compilerVersion ++ "\n") (.exit 0)
  | .help => .print usage (.exit 0)
  | .misuse => .complain usage (.exit 2)

end ThreeAddress
