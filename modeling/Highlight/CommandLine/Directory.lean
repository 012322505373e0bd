import Highlight.CommandLine.Basic

/-!
# Directories of files

A directory that holds plain files and nothing else, as far as paths are looked up in it. Empty parts of a path and points
stay where they are, two points lead out of the directory, and outside of it no file is known. A file has nothing
within it, so a path that goes on behind one fails.
-/

namespace Highlight.CommandLine

structure Directory where
  files : List (String × ByteArray)

namespace Directory

/-- Looks up the parts of a path, from so many levels above the directory. -/
def lookup (dir : Directory) (above : Nat) : List String → Except ReadFault ByteArray
  | [] => .error .isDirectory
  | part :: more =>
    if part = "" ∨ part = "." then dir.lookup above more
    else if part = ".." then dir.lookup (above + 1) more
    else if above ≠ 0 then .error .notFound
    else match dir.files.lookup part with
      | none => .error .notFound
      | some bytes => if more = [] then .ok bytes else .error .notDirectory

/-- The bytes of the file at a path. -/
def read (dir : Directory) (path : String) : Except ReadFault ByteArray :=
  if path = "" then .error .notFound
  else dir.lookup (if path.startsWith "/" then 1 else 0) (path.splitOn "/")

end Directory

end Highlight.CommandLine
