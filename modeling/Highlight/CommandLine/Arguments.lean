/-!
# Arguments

What is asked for on the command line. Arguments are read from left to right. An option may be given once; its value is
attached or is the next argument, and a next argument that looks like an option is no value. Behind `--` every
argument is a path, and there is one path at most. Where the version or the help is reached before a fault, it is
the answer.
-/

namespace Highlight.CommandLine

/-- The arguments as they were given. -/
structure Arguments where
  path : Option String := none
  language : Option String := none
  format : Option String := none
  flat : Bool := false
  listLanguages : Bool := false
  deriving DecidableEq, Repr

inductive Invocation
  | run (arguments : Arguments)
  | version
  | help
  /-- The arguments cannot be understood. -/
  | usageError
  deriving DecidableEq, Repr

/-- An argument taken by itself. -/
inductive Argument
  /-- Two hyphens alone. -/
  | endOfOptions
  /-- An option with two hyphens, and the value behind its equals sign. -/
  | long (name : String) (value : Option String)
  /-- An option with one hyphen, and what is attached to it. -/
  | short (name : Char) (attached : List Char)
  | path (text : String)
  deriving DecidableEq, Repr

namespace Argument

def ofString (text : String) : Argument :=
  match text.toList with
  | ['-', '-'] => endOfOptions
  | '-' :: '-' :: cs =>
    let name := String.ofList (cs.takeWhile (· ≠ '='))
    match cs.dropWhile (· ≠ '=') with
    | [] => long name none
    | _ :: value => long name (some (String.ofList value))
  | '-' :: c :: cs => short c cs
  | _ => path text

/-- The value that is attached to a short option; an equals sign may part them. -/
def attachedValue : List Char → Option String
  | [] => none
  | '=' :: cs => some (String.ofList cs)
  | cs => some (String.ofList cs)

end Argument

namespace Arguments

/-- Sets the path, once. -/
def setPath? (a : Arguments) (text : String) : Option Arguments :=
  if a.path.isSome then none else some { a with path := some text }

/-- Sets the language, once. -/
def setLanguage? (a : Arguments) (text : String) : Option Arguments :=
  if a.language.isSome then none else some { a with language := some text }

/-- Sets the format, once. -/
def setFormat? (a : Arguments) (text : String) : Option Arguments :=
  if a.format.isSome then none else some { a with format := some text }

/-- What an argument asks for by itself. -/
inductive Effect
  | done (a : Arguments)
  | answer (i : Invocation)
  /-- A value has to follow. -/
  | awaits (set : String → Option Arguments)

def Effect.ofOption : Option Arguments → Effect
  | some a => done a
  | none => answer .usageError

/-- The effect of an option that takes a value. -/
def withValue (set : String → Option Arguments) : Option String → Effect
  | some value => .ofOption (set value)
  | none => .awaits set

/-- The effect of an option with two hyphens. -/
def long (a : Arguments) (name : String) (value : Option String) : Effect :=
  if name = "language" then withValue a.setLanguage? value
  else if name = "format" then withValue a.setFormat? value
  else if value.isSome then .answer .usageError
  else if name = "flat" then
    if a.flat then .answer .usageError else .done { a with flat := true }
  else if name = "list-languages" then
    if a.listLanguages then .answer .usageError else .done { a with listLanguages := true }
  else if name = "version" then .answer .version
  else if name = "help" then .answer .help
  else .answer .usageError

/-- The effect of an option with one hyphen. -/
def short (a : Arguments) (name : Char) (attached : List Char) : Effect :=
  if name = 'l' then withValue a.setLanguage? (Argument.attachedValue attached)
  else if name = 'f' then withValue a.setFormat? (Argument.attachedValue attached)
  else if name = 'V' then .answer .version
  else if name = 'h' then .answer .help
  else .answer .usageError

/-- Reads the arguments behind the end of the options. -/
def readPaths (a : Arguments) : List String → Invocation
  | [] => .run a
  | text :: rest =>
    match a.setPath? text with
    | some a => readPaths a rest
    | none => .usageError

/-- An argument that can be the value of an option before it. -/
def isValue (text : String) : Bool :=
  match Argument.ofString text with
  | .path _ => true
  | _ => false

mutual

/-- Reads arguments behind those that have been read. -/
def read (a : Arguments) : List String → Invocation
  | [] => .run a
  | text :: rest =>
    match Argument.ofString text with
    | .endOfOptions => readPaths a rest
    | .long name value => goOn rest (a.long name value)
    | .short name attached => goOn rest (a.short name attached)
    | .path text => goOn rest (.ofOption (a.setPath? text))
termination_by args => (args.length, 0)

/-- Reads the arguments behind one whose effect is known. -/
def goOn (rest : List String) (effect : Effect) : Invocation :=
  match effect with
  | .done a => read a rest
  | .answer i => i
  | .awaits set =>
    match rest with
    | [] => .usageError
    | value :: rest =>
      if isValue value then
        match set value with
        | some a => read a rest
        | none => .usageError
      else .usageError
termination_by (rest.length, 1)

end

end Arguments

/-- What the arguments of a command line ask for. -/
def Invocation.ofArguments (args : List String) : Invocation :=
  Arguments.read {} args

end Highlight.CommandLine
