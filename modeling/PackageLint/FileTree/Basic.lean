/-!
# File trees

All that a check sees of a package goes through four questions about paths. A tree is anything that
answers them. Reading a file fails when there is none or when the path is a directory, and listing
fails when the path is no directory. A disk moreover refuses texts that are no paths at all.

## Main definitions

* `FileError`: why a path cannot be read or listed.
* `Question`, `Question.Answer`: the questions and the type of each answer.
* `FileTree`: the answers of a tree.
-/

namespace PackageLint

/-- Why a path cannot be read or listed. -/
inductive FileError where
  | notFound (path : String)
  | isDirectory (path : String)
  | notDirectory (path : String)
  /-- A name in the path is longer than any name can be. -/
  | nameTooLong (path : String)
  /-- The text holds the character that ends a path, so it is none. -/
  | notPath (path : String)
  deriving DecidableEq, Repr, Inhabited

/-- The path that cannot be read or listed. -/
def FileError.path : FileError → String
  | .notFound path | .isDirectory path | .notDirectory path | .nameTooLong path | .notPath path =>
    path

/-- What a check asks of a file tree. -/
inductive Question where
  /-- The text of a file. -/
  | contents (path : String)
  /-- The names in a directory. -/
  | entries (path : String)
  /-- Whether a path is a directory. -/
  | isDir (path : String)
  /-- Whether a path is a file or a directory. -/
  | isThere (path : String)
  deriving DecidableEq, Repr

/-- The type of the answer to a question. -/
def Question.Answer : Question → Type
  | .contents _ => Except FileError String
  | .entries _ => Except FileError (List String)
  | .isDir _ => Bool
  | .isThere _ => Bool

/-- A tree of files, given by its answers. -/
structure FileTree where
  /-- The text of a file. -/
  contents : String → Except FileError String
  /-- The names in a directory. -/
  entries : String → Except FileError (List String)
  /-- Whether a path is a directory. -/
  isDir : String → Bool
  /-- Whether a path is a file or a directory. -/
  isThere : String → Bool
  /-- A bound on the length of a chain of nested directories. -/
  depth : Nat

/-- The answer of a tree to a question. -/
def FileTree.answer (tree : FileTree) : (q : Question) → q.Answer
  | .contents path => tree.contents path
  | .entries path => tree.entries path
  | .isDir path => tree.isDir path
  | .isThere path => tree.isThere path

end PackageLint
