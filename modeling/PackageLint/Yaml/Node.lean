import PackageLint.Assoc
import PackageLint.Yaml.Tag
import PackageLint.Yaml.Token

/-!
# Documents

The tokens of a text form a tree of scalars, sequences and mappings, whose parts may carry the name of
an anchor and a tag, and may refer to an anchor in place of a value. Directives before a document can
declare handles for the names of tags. A settings file holds one document at most.

## Main definitions

* `Yaml.Node`: the trees.
* `Yaml.Handles`: the handles that a document may use.
* `Yaml.Document.ofTokens?`: the document of a list of tokens.
-/

namespace PackageLint.Yaml

/-- The names that stand before a node. -/
structure Labels where
  /-- The name of its anchor. -/
  anchor : Option String := none
  /-- Its tag. -/
  tag : Option TagName := none
  deriving Repr, DecidableEq, Inhabited

/-- A part of a document. -/
inductive Node where
  | alias (name : String)
  | scalar (labels : Labels) (text : String) (plain : Bool)
  | seq (labels : Labels) (items : List Node)
  | map (labels : Labels) (entries : List (Node × Node))
  deriving Repr, Inhabited

namespace Node

/-- The node that stands for nothing: an empty plain scalar. -/
def empty : Node := .scalar {} "" true

/-- A result with the tokens after it. -/
abbrev Parsed (α : Type) := Option (α × List Token)

/-- Reads the names before a node, each at most once and in either order. -/
def labels : List Token → Labels × List Token
  | .anchor a :: .tag t :: rest => ({ anchor := some a, tag := some t }, rest)
  | .tag t :: .anchor a :: rest => ({ anchor := some a, tag := some t }, rest)
  | .anchor a :: rest => ({ anchor := some a }, rest)
  | .tag t :: rest => ({ tag := some t }, rest)
  | tokens => ({}, tokens)

/-- Whether the next token is one of a list. -/
def comesNext (tokens : List Token) (any : List Token) : Bool :=
  match tokens with
  | [] => false
  | t :: _ => any.contains t

/-- The tokens after which a block mapping's key or value is empty. -/
def endsBlockEntry : List Token := [.key, .value, .blockEnd]

mutual

/-- Reads a node; `bound` limits the nesting of calls. Blocks are read where `block` says so, and a
sequence that is not indented where `indentless` does. -/
def node? (block indentless : Bool) : Nat → List Token → Parsed Node
  | 0, _ => none
  | bound + 1, tokens =>
    match tokens with
    | .alias name :: rest => some (.alias name, rest)
    | _ =>
      let (names, rest) := labels tokens
      match rest with
      | .blockEntry :: _ =>
        if indentless then
          (openItems? bound rest).map fun (items, rest) => (.seq names items, rest)
        else unnamed? names rest
      | .scalar text plain :: rest => some (.scalar names text plain, rest)
      | .flowSequenceStart :: rest =>
        (flowItems? true bound rest).map fun (items, rest) => (.seq names items, rest)
      | .flowMappingStart :: rest =>
        (flowEntries? true bound rest).map fun (entries, rest) => (.map names entries, rest)
      | .blockSequenceStart :: rest =>
        if block then
          (blockItems? bound rest).map fun (items, rest) => (.seq names items, rest)
        else unnamed? names (.blockSequenceStart :: rest)
      | .blockMappingStart :: rest =>
        if block then
          (blockEntries? bound rest).map fun (entries, rest) => (.map names entries, rest)
        else unnamed? names (.blockMappingStart :: rest)
      | rest => unnamed? names rest

/-- A node without content, which needs a name at least. -/
def unnamed? (names : Labels) (rest : List Token) : Parsed Node :=
  if names = {} then none else some (.scalar names "" true, rest)

/-- Reads a node, or none at all before one of some tokens. -/
def optional? (block indentless : Bool) (before : List Token) :
    Nat → List Token → Parsed Node
  | 0, _ => none
  | bound + 1, tokens =>
    if comesNext tokens before then some (.empty, tokens)
    else node? block indentless bound tokens

/-- Reads the items of a block sequence. -/
def blockItems? : Nat → List Token → Parsed (List Node)
  | 0, _ => none
  | bound + 1, tokens =>
    match tokens with
    | .blockEnd :: rest => some ([], rest)
    | .blockEntry :: rest =>
      match optional? true false [.blockEntry, .blockEnd] bound rest with
      | none => none
      | some (item, rest) =>
        (blockItems? bound rest).map fun (items, rest) => (item :: items, rest)
    | _ => none

/-- Reads the items of a sequence that is not indented below its key. -/
def openItems? : Nat → List Token → Parsed (List Node)
  | 0, _ => none
  | bound + 1, tokens =>
    match tokens with
    | .blockEntry :: rest =>
      match optional? true false (.blockEntry :: endsBlockEntry) bound rest with
      | none => none
      | some (item, rest) =>
        (openItems? bound rest).map fun (items, rest) => (item :: items, rest)
    | rest => some ([], rest)

/-- Reads the entries of a block mapping. -/
def blockEntries? : Nat → List Token → Parsed (List (Node × Node))
  | 0, _ => none
  | bound + 1, tokens =>
    let key : Parsed Node :=
      match tokens with
      | .key :: rest => optional? true true endsBlockEntry bound rest
      | _ => none
    match tokens, key with
    | .blockEnd :: rest, _ => some ([], rest)
    | _, none => none
    | _, some (key, rest) =>
      match blockValue? bound rest with
      | none => none
      | some (value, rest) =>
        (blockEntries? bound rest).map fun (entries, rest) => ((key, value) :: entries, rest)

/-- Reads the value of an entry of a block mapping. -/
def blockValue? : Nat → List Token → Parsed Node
  | 0, _ => none
  | bound + 1, tokens =>
    match tokens with
    | .value :: rest => optional? true true endsBlockEntry bound rest
    | rest => some (.empty, rest)

/-- Reads the items between square brackets. A key among them makes a mapping of one entry. -/
def flowItems? (first : Bool) : Nat → List Token → Parsed (List Node)
  | 0, _ => none
  | bound + 1, tokens =>
    match tokens with
    | .flowSequenceEnd :: rest => some ([], rest)
    | _ =>
      match afterComma? first tokens with
      | none => none
      | some (.flowSequenceEnd :: rest) => some ([], rest)
      | some rest =>
        match flowItem? bound rest with
        | none => none
        | some (item, rest) =>
          (flowItems? false bound rest).map fun (items, rest) => (item :: items, rest)

/-- The tokens after the comma that separates entries; the first entry has none. -/
def afterComma? (first : Bool) (tokens : List Token) : Option (List Token) :=
  if first then some tokens
  else
    match tokens with
    | .flowEntry :: rest => some rest
    | _ => none

/-- Reads one item between square brackets. -/
def flowItem? : Nat → List Token → Parsed Node
  | 0, _ => none
  | bound + 1, tokens =>
    match tokens with
    | .key :: rest =>
      match optional? false false [.value, .flowEntry, .flowSequenceEnd] bound rest with
      | none => none
      | some (key, rest) =>
        (flowValue? .flowSequenceEnd bound rest).map fun (value, rest) =>
          (.map {} [(key, value)], rest)
    | rest => node? false false bound rest

/-- Reads the value of an entry between brackets that a token closes. -/
def flowValue? (close : Token) : Nat → List Token → Parsed Node
  | 0, _ => none
  | bound + 1, tokens =>
    match tokens with
    | .value :: rest => optional? false false [.flowEntry, close] bound rest
    | rest => some (.empty, rest)

/-- Reads the entries between curly brackets. A value without a key has the empty one. -/
def flowEntries? (first : Bool) : Nat → List Token → Parsed (List (Node × Node))
  | 0, _ => none
  | bound + 1, tokens =>
    match tokens with
    | .flowMappingEnd :: rest => some ([], rest)
    | _ =>
      match afterComma? first tokens with
      | none => none
      | some (.flowMappingEnd :: rest) => some ([], rest)
      | some rest =>
        match flowEntry? bound rest with
        | none => none
        | some (entry, rest) =>
          (flowEntries? false bound rest).map fun (entries, rest) => (entry :: entries, rest)

/-- Reads one entry between curly brackets. -/
def flowEntry? : Nat → List Token → Parsed (Node × Node)
  | 0, _ => none
  | bound + 1, tokens =>
    match tokens with
    | .key :: rest =>
      match optional? false false [.value, .flowEntry, .flowMappingEnd] bound rest with
      | none => none
      | some (key, rest) =>
        (flowValue? .flowMappingEnd bound rest).map fun (value, rest) => ((key, value), rest)
    | rest => (node? false false bound rest).map fun (key, rest) => ((key, .empty), rest)

end

end Node

/-! ### Documents -/

/-- The handles that a document may use, with what they stand for. -/
abbrev Handles := Assoc String

/-- The handles that are always there. -/
def Handles.default : Handles := [("!", "!"), ("!!", Tag.coreStart)]

/-- The handles that directives declare, over those that are always there. A handle is declared once
at most, and the version is named once at most. -/
def Handles.ofDirectives? (directives : List Directive) : Option Handles :=
  let declared : List (String × String) := directives.filterMap fun d =>
    match d with
    | .handle name start => some (name, start)
    | _ => none
  if declared.length = (Assoc.ofList declared).length && directives.count .version ≤ 1 then
    some (declared.foldl (fun acc entry => Assoc.put entry.1 entry.2 acc) Handles.default)
  else none

/-- The full name of a tag, unless its handle is not declared. -/
def Handles.fullName? (handles : Handles) (name : TagName) : Option String :=
  match name.handle with
  | none => some name.rest
  | some handle => (Assoc.get? handle handles).map (· ++ name.rest)

/-- A document. -/
structure Document where
  /-- The handles that it may use. -/
  handles : Handles
  /-- Its content. -/
  root : Node

namespace Document

/-- The directives at the start of a list of tokens, and the tokens after them. -/
def directives : List Token → List Directive × List Token
  | .directive d :: rest => (d :: (directives rest).1, (directives rest).2)
  | tokens => ([], tokens)

/-- Whether a document without content ends here. -/
def endsContent : List Token → Bool
  | .directive _ :: _ => true
  | .documentStart :: _ => true
  | .documentEnd :: _ => true
  | .streamEnd :: _ => true
  | _ => false

/-- Reads the content of a document that began with a marker. -/
def content? (bound : Nat) (tokens : List Token) : Option (Node × List Token) :=
  if endsContent tokens then some (.empty, tokens) else Node.node? true false bound tokens

/-- Reads a document. A marker has to stand between directives and its content. -/
def read? (bound : Nat) (tokens : List Token) : Option (Document × List Token) :=
  match directives tokens with
  | (found, .documentStart :: rest) => do
    let handles ← Handles.ofDirectives? found
    let (root, rest) ← content? bound rest
    pure ({ handles, root }, rest)
  | ([], rest) => do
    let (root, rest) : Node × List Token ← Node.node? true false bound rest
    pure ({ handles := .default, root }, rest)
  | _ => none

/-- The document of a list of tokens, or none at all when they hold nothing. The outer option is none
for tokens that make no document, or several. -/
def ofTokens? (tokens : List Token) : Option (Option Document) :=
  match tokens with
  | [.streamEnd] => some none
  | _ =>
    match read? (4 * tokens.length + 4) tokens with
    | some (found, rest) =>
      if rest.dropWhile (· = .documentEnd) = [.streamEnd] then some (some found) else none
    | none => none

end Document

end PackageLint.Yaml
