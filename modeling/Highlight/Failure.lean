import Highlight.Text.Quoted

/-!
# Failures

What can go wrong outside of dividing a text, which never fails. A failure has a name, a message and, where there
is something to suggest, a tip.
-/

namespace Highlight

inductive Failure
  /-- A pattern cannot be used in a rule. -/
  | invalidPattern (rule text : String)
  | duplicateRule (rule : String)
  | emptyRule (rule : String)
  | unknownLanguage (language : String)
  | languageAlreadyRegistered (language : String)
  | readError (path text : String)
  | serializeError (text : String)
  | unknownFormat (format : String)
  deriving DecidableEq, Repr

namespace Failure

def name : Failure → String
  | invalidPattern _ _ => "InvalidPattern"
  | duplicateRule _ => "DuplicateRule"
  | emptyRule _ => "EmptyRule"
  | unknownLanguage _ => "UnknownLanguage"
  | languageAlreadyRegistered _ => "LanguageAlreadyRegistered"
  | readError _ _ => "ReadError"
  | serializeError _ => "SerializeError"
  | unknownFormat _ => "UnknownFormat"

def message : Failure → String
  | invalidPattern rule text => "invalid pattern for rule " ++ quoted rule ++ ": " ++ text
  | duplicateRule rule => "rule " ++ quoted rule ++ " already defined"
  | emptyRule rule => "rule " ++ quoted rule ++ " has no patterns"
  | unknownLanguage language => "unknown language " ++ quoted language
  | languageAlreadyRegistered language => "language " ++ quoted language ++ " already registered"
  | readError path text => "failed to read " ++ quoted path ++ ": " ++ text
  | serializeError text => "failed to serialize tokens: " ++ text
  | unknownFormat format => "unknown output format " ++ quoted format

def tip? : Failure → Option String
  | invalidPattern rule text =>
    some ("Pattern for `" ++ rule ++ "` does not compile: " ++ text)
  | duplicateRule rule =>
    some ("Rule `" ++ rule ++ "` is already defined, merge the patterns into a composite rule")
  | emptyRule rule => some ("Composite rule `" ++ rule ++ "` needs at least one pattern")
  | unknownLanguage language =>
    some ("Language `" ++ language ++ "` is not registered, see --list-languages")
  | languageAlreadyRegistered language =>
    some ("Language `" ++ language ++ "` already registered")
  | readError _ _ => none
  | serializeError _ => none
  | unknownFormat format =>
    some ("Unknown format `" ++ format ++ "`, expected `listing` or `json`")

/-- The tip, or the message where there is none. -/
def advice (f : Failure) : String :=
  f.tip?.getD f.message

end Failure

end Highlight
