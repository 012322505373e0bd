import Highlight.CommandLine.Arguments
import Highlight.Output.Format
import Highlight.Registry

/-!
# The command line

A run divides one text into tokens and writes them. It first looks at the format, then at the language, and reads its
input last, so of several faults the first of these is reported. Nothing is written before all has gone well; a
failure is one line among the errors, with the tip of the failure or else its message.

Reading is left to the caller, as a function from the input to its bytes in any monad.
-/

namespace Highlight.CommandLine

/-- Where the text comes from. -/
inductive Input
  | standard
  | file (path : String)
  deriving DecidableEq, Repr

/-- What an input is called in messages. -/
def Input.name : Input → String
  | standard => "<stdin>"
  | file path => path

/-- Why an input could not be read. -/
inductive ReadFault
  | notFound
  | isDirectory
  | notDirectory
  | notUnicode
  | other (text : String)
  deriving DecidableEq, Repr

def ReadFault.message : ReadFault → String
  | notFound => "No such file or directory (os error 2)"
  | isDirectory => "Is a directory (os error 21)"
  | notDirectory => "Not a directory (os error 20)"
  | notUnicode => "stream did not contain valid UTF-8"
  | other text => text

/-- The text that bytes encode. -/
def decode (bytes : ByteArray) : Except ReadFault String :=
  match String.fromUTF8? bytes with
  | some text => .ok text
  | none => .error .notUnicode

namespace Arguments

/-- The file of the path; a hyphen, or no path, is the standard input. -/
def input (a : Arguments) : Input :=
  match a.path with
  | none => .standard
  | some path => if path = "-" then .standard else .file path

/-- The format and the grammar that are asked for. -/
def choose (a : Arguments) (registry : Registry) : Except Failure (Format × Grammar) := do
  let format ← Format.ofName (a.format.getD "listing")
  let found ← registry.get (a.language.getD "moonli")
  return (format, found.grammar)

/-- The output for an input that has been read. -/
def output (a : Arguments) (format : Format) (g : Grammar) (bytes : Except ReadFault ByteArray) :
    Except Failure String :=
  match bytes.bind decode with
  | .error fault => .error (.readError a.input.name fault.message)
  | .ok source => .ok (format.render source (g.tokenize source (!a.flat)))

end Arguments

/-- What a run leaves behind. -/
structure Outcome where
  exitCode : UInt8
  stdout : String
  stderr : String
  deriving DecidableEq, Repr

namespace Outcome

def success (text : String) : Outcome :=
  ⟨0, text, ""⟩

def failure (f : Failure) : Outcome :=
  ⟨1, "", "Error: " ++ f.name ++ " (" ++ f.advice ++ ")\n"⟩

def ofOutput : Except Failure String → Outcome
  | .ok text => success (text ++ "\n")
  | .error f => failure f

end Outcome

def versionText : String :=
  "moonli-highlight 0.1.0\n"

def usageText : String :=
  "Usage: moonli-highlight [OPTIONS] [PATH]\n"

/-- A run with understood arguments. -/
def runArguments {m : Type → Type} [Monad m] (registry : Registry)
    (read : Input → m (Except ReadFault ByteArray)) (a : Arguments) : m Outcome :=
  if a.listLanguages then
    return .success (String.join (registry.languages.map (· ++ "\n")))
  else
    match a.choose registry with
    | .error f => return .failure f
    | .ok (format, g) => return .ofOutput (a.output format g (← read a.input))

/-- A run of the program. -/
def run {m : Type → Type} [Monad m] (registry : Registry)
    (read : Input → m (Except ReadFault ByteArray)) (args : List String) : m Outcome :=
  match Invocation.ofArguments args with
  | .run a => runArguments registry read a
  | .version => return .success versionText
  | .help => return .success usageText
  | .usageError => return ⟨2, "", usageText⟩

end Highlight.CommandLine
