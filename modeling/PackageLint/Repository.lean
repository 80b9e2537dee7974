import PackageLint.Text.Basic
import PackageLint.Text.Word

/-!
# Repository addresses

The `repository` field holds either a shorthand such as `user/repo` or a git address. An address is an
optional protocol and user, a host with an optional port, and a path of at least one character. Only
an address that shows a protocol or a user counts as one.

## Main definitions

* `Repository.GitAddress`, `Repository.GitAddress.parse?`: the parts of an address.
* `Repository.isGitAddress`, `Repository.isShorthand`: the two forms.
* `Repository.isIncompleteSiteAddress`, `Repository.isRetiredGithubAddress`: addresses to be mended.
* `Repository.complete`: the complete form of an address.
-/

namespace PackageLint.Repository

open PackageLint.Text

/-! ### Addresses -/

/-- The parts of an address that matter. -/
structure GitAddress where
  /-- The protocol, without what separates it from the rest. -/
  protocol : Option String
  /-- The host. -/
  host : List Char
  /-- The path with its first slash. -/
  path : List Char
  deriving DecidableEq, Repr

/-- The protocols of git. -/
def protocols : List String :=
  ["git+https", "git+http", "git+ssh", "https", "http", "ssh", "git"]

/-- Splits off the protocol, when there is one. -/
def splitProtocol (cs : List Char) : Option String × List Char :=
  let found := protocols.findSome? fun p =>
    (dropStart? (p ++ "://").toList cs).map fun rest => (p, rest)
  match found with
  | some (p, rest) => (some p, rest)
  | none => (none, cs)

/-- The characters of a host. -/
def isHostChar (c : Char) : Bool := isWord c || c = '.' || c = '-'

/-- The characters of a path after its first slash. -/
def isPathChar (c : Char) : Bool := isHostChar c || c = '/'

/-- The text after the user, when there is one. -/
def dropUser (cs : List Char) : List Char :=
  match cs.takeWhile isHostChar, cs.dropWhile isHostChar with
  | _ :: _, '@' :: rest => rest
  | _, _ => cs

/-- The text after the port, when there is one. -/
def dropPort (cs : List Char) : List Char :=
  match cs with
  | ':' :: rest =>
    if (rest.takeWhile fun c => isWord c || c = '-').isEmpty then cs
    else rest.dropWhile fun c => isWord c || c = '-'
  | _ => cs

/-- A path up to the end or a final line feed. -/
def wholePath? (cs : List Char) : Option (List Char) :=
  let path := if cs.getLast? = some '\n' then cs.dropLast else cs
  match path with
  | '/' :: c :: rest => if (c :: rest).all isPathChar then some path else none
  | _ => none

/-- The parts of an address. -/
def GitAddress.parse? (cs : List Char) : Option GitAddress :=
  let (protocol, rest) := splitProtocol cs
  let rest := dropUser rest
  let host := rest.takeWhile isHostChar
  if host.isEmpty then none
  else
    (wholePath? (dropPort (rest.dropWhile isHostChar))).map fun path => { protocol, host, path }

/-- The parts of an address that is given as a string. -/
def parse? (url : String) : Option GitAddress := GitAddress.parse? url.toList

/-- Whether a text shows a protocol or a user. -/
def showsOrigin (url : String) : Bool := hasPart url "://" || hasPart url "@"

/-- Whether a text is a git address that shows a protocol or a user. -/
def isGitAddress (url : String) : Bool := (parse? url).isSome && showsOrigin url

/-- Whether an address of one of two well-known sites lacks the protocol or the ending that the
registry completes it with. -/
def isIncompleteSiteAddress (url : String) : Bool :=
  match parse? url with
  | none => false
  | some address =>
    showsOrigin url
      && (occursIn "github".toList address.host || occursIn "gitlab".toList address.host)
      && (!hasStart url "git+" || !".git".toList.isSuffixOf address.path)

/-- Whether an address uses the bare git protocol on the site that no longer serves it. -/
def isRetiredGithubAddress (url : String) : Bool :=
  match parse? url with
  | none => false
  | some address => address.protocol = some "git" && occursIn "github".toList address.host

/-- The complete form of an address: protocol with `git+`, host, path and the ending `.git`. -/
def complete (url : String) : String :=
  let url :=
    if hasPart url "://" then url
    else
      "git+ssh://" ++ ((replaceFirst? [':'] ['/'] url.toList).map String.ofList).getD url
  let url := dropEnd url "/"
  let url := if hasStart url "git+" then url else "git+" ++ url
  if hasEnd url ".git" then url else url ++ ".git"

/-! ### Shorthands -/

/-- Whether a text is one non-empty line, be it with a final line feed. -/
def isLine (cs : List Char) : Bool :=
  let line := if cs.getLast? = some '\n' then cs.dropLast else cs
  !line.isEmpty && line.all (· ≠ '\n')

/-- Whether a text is an owner, a slash and a line. -/
def isOwned (cs : List Char) : Bool :=
  let owner := cs.takeWhile (· ≠ '/')
  match cs.dropWhile (· ≠ '/') with
  | '/' :: rest => !owner.isEmpty && isLine rest
  | _ => false

/-- Whether a text is two parts without slashes, and a slash between them. -/
def isPair (cs : List Char) : Bool :=
  match pieces '/' cs with
  | [owner, name] => !owner.isEmpty && !name.isEmpty
  | _ => false

/-- Whether a text is a shorthand of a repository. -/
def isShorthand (url : String) : Bool :=
  let cs := url.toList
  (["github:", "bitbucket:", "gitlab:"].any fun site => ((dropStart? site.toList cs).map isOwned).getD false)
    || ((dropStart? "gist:".toList cs).map isLine).getD false
    || isPair cs

end PackageLint.Repository
