import PackageLint.Text.Basic
import PackageLint.Text.Word

/-!
# Kinds of paths in a manifest

A manifest value is read as a location by its first characters alone: `./a`, `../a` and `a/b` are
relative, a path from the root or after a drive letter is absolute, and `std:lib` is neither.

## Main definitions

* `Path.looksRelative`, `Path.looksAbsolute`: the two readings.
* `Path.slashed`: a path with forward slashes only.
-/

namespace PackageLint.Path

/-- Whether a value looks like a relative path. -/
def looksRelative (path : String) : Bool :=
  match path.toList with
  | '.' :: _ => true
  | '/' :: _ => false
  | cs => !cs.contains ':'

/-- Whether a value looks like an absolute path, be it with a drive letter or without. -/
def looksAbsolute (path : String) : Bool :=
  match path.toList with
  | '/' :: _ => true
  | drive :: ':' :: _ => Text.isAsciiLetter drive
  | _ => false

/-- The path with forward slashes in place of backslashes. -/
def slashed (path : String) : String := Text.exchange '\\' '/' path

end PackageLint.Path
