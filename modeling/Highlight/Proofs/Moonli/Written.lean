import Highlight.Moonli.Basic
import Highlight.Regex.Parse

/-!
# The written forms of the expressions of moonli

The expressions of the table are given as trees, and each stands for a written form. `parse?_written` says that reading
the written forms gives these trees, and that the table is made of them.
-/

namespace Highlight.Moonli

/-- The expressions of the table with their written forms, in the order of the table. -/
def written : List (Regex × String) := [
  (lineComment, "(^|[^\\\\])#[^\\n\\r\\x\x7b2028\x7d\\x\x7b2029\x7d]*"),
  (regexLiteral, "r\"(?:\\\\[^\\n\\r\\x\x7b2028\x7d\\x\x7b2029\x7d]|[^\"\\\\\\r\\n])*\"[imsx]\x7b0,4\x7d"),
  (tripleQuoted, "\"\"\"[\\s\\S]+?\"\"\""),
  (prefixedString,
    "(?:(?-u:\\b)[0-9A-Za-z_]+)?\"(?:\\\\[^\\n\\r\\x\x7b2028\x7d\\x\x7b2029\x7d]|[^\"\\\\\\r\\n])*\""),
  (commandString, "\x60(?:[^\\\\\x60\\r\\n]|\\\\[^\\n\\r\\x\x7b2028\x7d\\x\x7b2029\x7d])*\x60"),
  (charLiteral, "(^|[^0-9A-Za-z_'])'(?:\\\\[^\\r\\n][^'\\r\\n]*|[^\\\\\\r\\n])'"),
  (keyword,
    "((?-u:\\b)|:)(?:defparameter|defvar|defun|let|let\\+|defconstant|loop|do|else|elif|declare|type|" ++
    "declaim|optimize|ifelse|end|in-package|finally|for|if|locally|defmacro|print|format|quote|return|" ++
    "defstruct|lambda|lm|inline|&values|&optional|&rest|&key)(?-u:\\b)"),
  (boolean, "(?-u:\\b)(?:nil|t)(?-u:\\b)"),
  (number,
    "(?i)(?:(?-u:\\b)(?:0[box](?:[0-9a-f]+(?:_[0-9a-f]+)*(?:\\.(?:[0-9]+(?:_[0-9]+)*)?)?" ++
    "|\\.[0-9]+(?:_[0-9]+)*)|[0-9][0-9a-f]*(?:_[0-9a-f]+)*(?:\\.(?:[0-9]+(?:_[0-9]+)*)?)?)" ++
    "|(?-u:\\B)\\.[0-9]+(?:_[0-9]+)*)(?:[efp][+-]?[0-9]+(?:_[0-9]+)*)?j?"),
  (operator, "(?-u:\\b)[-+*/^&|<>]|==(?-u:\\b)"),
  (punctuation, "[\x7b\x7d\\[\\]():;,]"),
  (constant, "(?-u:\\b)(?:(?:Inf|NaN)(?:16|32|64)?|im|pi)(?-u:\\b)|[πℯ]")]

/-- **The table is made of the expressions that are read from the written forms.** Only its first pattern is not
written as an expression. -/
theorem parse?_written :
    grammar.entries.map (fun e => e.pattern.matcher) =
        .blockComment :: written.map (fun x => .regex x.1) ∧
      ∀ x ∈ written, Regex.parse? x.2 = some x.1 := by
  refine ⟨rfl, ?_⟩
  simp only [written, List.forall_mem_cons]
  refine ⟨?_, ?_, ?_, ?_, ?_, ?_, ?_, ?_, ?_, ?_, ?_, ?_, List.forall_mem_nil _⟩
  all_goals
    simp only [Regex.parse?, String.toList_append]
    repeat rw [String.toList_ofList]
    decide +kernel

end Highlight.Moonli
