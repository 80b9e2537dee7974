import PackageLint.Text.Hex
import PackageLint.Text.Utf8
import PackageLint.Yaml.Fault
import PackageLint.Yaml.Mark

/-!
# Scalars and names in the text

The parts of a YAML text that consist of more than an indicator: plain, quoted and block scalars, with
their lines folded, the names of anchors and tags, and the directives before a document. Each is read
from the marks where it begins, and gives the marks after it; a text that is not well-formed gives none.
Only a quoted scalar can fail for another reason: it can name a character that does not exist.

## Main definitions

* `Yaml.plainScalar`, `Yaml.quotedScalar`, `Yaml.blockScalar?`: the scalars.
* `Yaml.anchorName?`, `Yaml.TagName`, `Yaml.tagName?`: the names.
* `Yaml.Directive`, `Yaml.directive?`: the directives.
-/

namespace PackageLint.Yaml

/-- Whether the gap that has to follow a name or an indicator is here. A tab is none. -/
def endsName (ms : List Mark) : Bool := firstChar ms = ' ' || isBreakOrEnd (firstChar ms)

/-! ### Line folding -/

/-- Line ends that come together: a single line feed is a space, and of several the first vanishes.
Other line ends stay. -/
def folded : List Char → List Char
  | [] => []
  | b :: rest => if b != '\n' then b :: rest else if rest.isEmpty then [' '] else rest

/-! ### Plain scalars -/

/-- Whether a plain scalar ends before a character that another one follows. -/
def endsPlain (inFlow : Bool) (c next : Char) : Bool :=
  isGap c || (c = ':' && (isGap next || (inFlow && [',', '[', ']', '{', '}'].contains next)))
    || (inFlow && [',', '?', '[', ']', '{', '}'].contains c)

/-- The part of a plain scalar up to the next gap. -/
def plainChunk (inFlow : Bool) : List Mark → List Char × List Mark
  | [] => ([], [])
  | m :: rest =>
    if endsPlain inFlow m.char (firstChar rest) then ([], m :: rest)
    else
      let (cs, after) := plainChunk inFlow rest
      (m.char :: cs, after)

/-- The line ends between two lines of a plain scalar; the flag says whether a document marker ends
it. -/
def plainBreaks : List Mark → List Char × List Mark × Bool
  | [] => ([], [], false)
  | m :: rest =>
    if m.char = ' ' then plainBreaks rest
    else if isBreak m.char then
      if isAnyMarker rest then ([breakOf m.char], rest, true)
      else
        let (bs, after, stop) := plainBreaks rest
        (breakOf m.char :: bs, after, stop)
    else ([], m :: rest, false)

/-- What stands between two chunks of a plain scalar: spaces, or line ends folded. -/
structure PlainGap where
  /-- The text of the gap; empty when the scalar ends before it. -/
  text : List Char
  /-- The marks after the gap. -/
  after : List Mark
  /-- Whether the gap holds a line end. -/
  breaks : Bool

/-- The gap after a chunk. -/
def plainGap (ms : List Mark) : PlainGap :=
  let spaces := ms.takeWhile (·.char = ' ')
  let after := ms.dropWhile (·.char = ' ')
  if isBreak (firstChar after) then
    let (bs, after, stop) := plainBreaks after
    { text := if stop then [] else folded bs, after, breaks := true }
  else { text := charsOf spaces, after, breaks := false }

/-- A scalar that has been read. -/
structure PlainScalar where
  /-- Its text. -/
  text : List Char
  /-- The marks after it. -/
  after : List Mark
  /-- Whether a line end came after its last chunk. -/
  endsLine : Bool

/-- The chunks of a plain scalar after a gap; at most `bound` of them. Lines of a plain scalar stand
at `least` or further right, except between brackets. -/
def plainFrom (inFlow : Bool) (least : Int) : Nat → List Char → Bool → List Mark → PlainScalar
  | 0, _, endsLine, ms => { text := [], after := ms, endsLine }
  | bound + 1, gap, endsLine, ms =>
    if firstChar ms = '#' then { text := [], after := ms, endsLine }
    else
      match plainChunk inFlow ms with
      | ([], _) => { text := [], after := ms, endsLine }
      | (chunk, after) =>
        let next := plainGap after
        if next.text.isEmpty || firstChar next.after = '#'
            || (!inFlow && (columnOf next.after : Int) < least) then
          { text := gap ++ chunk, after := next.after, endsLine := next.breaks }
        else
          let rest := plainFrom inFlow least bound next.text next.breaks next.after
          { rest with text := gap ++ chunk ++ rest.text }

/-- A plain scalar within a structure at a column. -/
def plainScalar (inFlow : Bool) (indent : Int) (ms : List Mark) : PlainScalar :=
  plainFrom inFlow (indent + 1) ms.length [] false ms

/-! ### Quoted scalars -/

/-- The line ends between two lines of a quoted scalar; `fresh` says whether a line begins here. A
document marker may not stand in a quoted scalar. -/
def quotedBreaks? (fresh : Bool) : List Mark → Option (List Char × List Mark)
  | [] => some ([], [])
  | m :: rest =>
    if fresh && isAnyMarker (m :: rest) then none
    else if m.char = ' ' || m.char = '\t' then quotedBreaks? false rest
    else if isBreak m.char then
      (quotedBreaks? true rest).map fun (bs, after) => (breakOf m.char :: bs, after)
    else some ([], m :: rest)

/-- The spaces or folded line ends before the next part of a quoted scalar. -/
def quotedGap? (ms : List Mark) : Option (List Char × List Mark) :=
  let isSpace (m : Mark) : Bool := m.char = ' ' || m.char = '\t'
  let after := ms.dropWhile isSpace
  if firstChar after = endChar then none
  else if isBreak (firstChar after) then
    (quotedBreaks? false after).map fun (bs, after) => (folded bs, after)
  else some (charsOf (ms.takeWhile isSpace), after)

/-- The characters of escapes of two characters. -/
def escapes : List (Char × Char) :=
  [('0', '\x00'), ('a', '\x07'), ('b', '\x08'), ('t', '\t'), ('\t', '\t'), ('n', '\n'),
   ('v', '\x0b'), ('f', '\x0c'), ('r', '\r'), ('e', '\x1b'), (' ', ' '), ('"', '"'), ('\\', '\\'),
   ('/', '/'), ('N', '\u0085'), ('_', '\u00a0'), ('L', '\u2028'), ('P', '\u2029')]

/-- The number of hexadecimal digits after a letter of an escape. -/
def escapeLength? (c : Char) : Option Nat :=
  if c = 'x' then some 2 else if c = 'u' then some 4 else if c = 'U' then some 8 else none

/-- The character of a number that an escape names. -/
def escapedChar (n : Nat) : Except Fault Char :=
  if n.isValidChar then .ok (Char.ofNat n)
  else if n ≤ 0x10ffff then .error .malformed
  else if n < 0x80000000 then .error .noCharacter
  else .error .longCharacter

/-- The result of a part that can only be malformed. -/
def orMalformed {α : Type} : Option α → Except Fault α
  | some a => .ok a
  | none => .error .malformed

/-- The text of an escape, after its backslash. -/
def escape (ms : List Mark) : Except Fault (List Char × List Mark) := do
  let c := firstChar ms
  match escapes.lookup c, escapeLength? c with
  | some found, _ => pure ([found], ms.drop 1)
  | none, some length =>
    let digits := charsOf ((ms.drop 1).take length)
    let n ← orMalformed (if digits.length = length then Text.hexNumber? digits else none)
    pure ([← escapedChar n], ms.drop (1 + length))
  | none, none => if isBreak c then orMalformed (quotedBreaks? true (ms.drop 1)) else .error .malformed

/-- The rest of a quoted scalar with the marks after it; at most `bound` steps. -/
def quotedFrom (double : Bool) : Nat → List Mark → Except Fault (List Char × List Mark)
  | 0, _ => .error .malformed
  | bound + 1, ms =>
    let c := firstChar ms
    let goOn (text : List Char) (after : List Mark) : Except Fault (List Char × List Mark) :=
      (quotedFrom double bound after).map fun (cs, end_) => (text ++ cs, end_)
    if !double && c = '\'' && charAt ms 1 = '\'' then goOn ['\''] (ms.drop 2)
    else if c = (if double then '"' else '\'') then .ok ([], ms.drop 1)
    else if double && c = '\\' then
      match escape (ms.drop 1) with
      | .ok (text, after) => goOn text after
      | .error fault => .error fault
    else if isGap c then
      match quotedGap? ms with
      | some (text, after) => goOn text after
      | none => .error .malformed
    else goOn [c] (ms.drop 1)

/-- A quoted scalar, from its opening quote on. -/
def quotedScalar (ms : List Mark) : Except Fault (List Char × List Mark) :=
  quotedFrom (firstChar ms = '"') ms.length (ms.drop 1)

/-! ### Block scalars -/

/-- What the line that opens a block scalar says. -/
structure BlockHeader where
  /-- Whether all line ends at the end are kept, or none; by default one is. -/
  keep : Option Bool := none
  /-- How far the lines are indented, when that is said. -/
  indentation : Option Nat := none

/-- The indicators after the one that opens a block scalar, in either order. -/
def blockHeader? (ms : List Mark) : Option (BlockHeader × List Mark) :=
  let keepOf (c : Char) : Option Bool :=
    if c = '+' then some true else if c = '-' then some false else none
  let isCount (c : Char) : Bool := '0' ≤ c && c ≤ '9'
  let count (c : Char) : Option Nat := if isCount c then some (c.toNat - '0'.toNat) else none
  let a := charAt ms 0
  let b := charAt ms 1
  let header : BlockHeader × List Mark :=
    match keepOf a, count a with
    | some keep, _ =>
      if isCount b then ({ keep := some keep, indentation := count b }, ms.drop 2)
      else ({ keep := some keep }, ms.drop 1)
    | none, some n =>
      match keepOf b with
      | some keep => ({ keep := some keep, indentation := some n }, ms.drop 2)
      | none => ({ indentation := some n }, ms.drop 1)
    | none, none => ({}, ms)
  if header.1.indentation = some 0 || !endsName header.2 then none else some header

/-- The marks after the line that opens a block scalar, which may end with a comment. -/
def afterHeader? (ms : List Mark) : Option (List Mark) :=
  let ms := ms.dropWhile (·.char = ' ')
  let ms := if firstChar ms = '#' then ms.dropWhile fun m => !isBreakOrEnd m.char else ms
  if isBreak (firstChar ms) then some (ms.drop 1)
  else if firstChar ms = endChar then some ms
  else none

/-- The line ends before the first line of a block scalar, and the furthest column that spaces
reach. -/
def blockStart : List Mark → List Char × Nat × List Mark
  | [] => ([], 0, [])
  | m :: rest =>
    if m.char = ' ' then
      let (bs, column, after) := blockStart rest
      (bs, max (m.column + 1) column, after)
    else if isBreak m.char then
      let (bs, column, after) := blockStart rest
      (breakOf m.char :: bs, column, after)
    else ([], 0, m :: rest)

/-- The line ends before the next line of a block scalar, whose indentation is skipped. -/
def blockBreaks (indent : Nat) : List Mark → List Char × List Mark
  | [] => ([], [])
  | m :: rest =>
    if m.char = ' ' && m.column < indent then blockBreaks indent rest
    else if isBreak m.char then
      let (bs, after) := blockBreaks indent rest
      (breakOf m.char :: bs, after)
    else ([], m :: rest)

/-- What is put between two lines of a block scalar. -/
def blockJoint (fold : Bool) (lineEnd : List Char) (flush : Bool) (breaks : List Char) :
    List Char :=
  if fold && lineEnd = ['\n'] && flush then (if breaks.isEmpty then [' '] else [])
  else lineEnd

/-- The lines of a block scalar; at most `bound` of them. -/
def blockLines (header : BlockHeader) (fold : Bool) (indent : Nat) :
    Nat → List Char → List Mark → List Char × List Mark
  | 0, breaks, ms => (if header.keep = some true then breaks else [], ms)
  | bound + 1, breaks, ms =>
    let line := ms.takeWhile fun m => !isBreakOrEnd m.char
    let after := ms.drop line.length
    let isIndented (ms : List Mark) : Bool := firstChar ms = ' ' || firstChar ms = '\t'
    let lineEnd := if isBreak (firstChar after) then [breakOf (firstChar after)] else []
    let (next, after) := blockBreaks indent (after.drop lineEnd.length)
    if columnOf after = indent && firstChar after != endChar then
      let flush := !isIndented ms && !isIndented after
      let (text, end_) := blockLines header fold indent bound next after
      (breaks ++ charsOf line ++ blockJoint fold lineEnd flush next ++ text, end_)
    else
      (breaks ++ charsOf line ++ (if header.keep = some false then [] else lineEnd)
        ++ (if header.keep = some true then next else []), after)

/-- A block scalar within a structure at a column, from its indicator on. -/
def blockScalar? (indent : Int) (ms : List Mark) : Option (List Char × List Mark) :=
  match blockHeader? (ms.drop 1) with
  | none => none
  | some (header, after) =>
    (afterHeader? after).map fun after =>
      let least := max 1 (indent + 1).toNat
      let (breaks, column, after) : List Char × Nat × List Mark :=
        match header.indentation with
        | some n =>
          let column := least + n - 1
          let (breaks, after) := blockBreaks column after
          (breaks, column, after)
        | none =>
          let (breaks, column, after) := blockStart after
          (breaks, max least column, after)
      if columnOf after = column && firstChar after != endChar then
        blockLines header (firstChar ms = '>') column after.length breaks after
      else (if header.keep = some true then breaks else [], after)

/-! ### Names -/

/-- Whether a character can stand in the name of an anchor. -/
def isNameChar (c : Char) : Bool := c.isAlphanum || c = '-' || c = '_'

/-- The name of an anchor, after its indicator. -/
def anchorName? (ms : List Mark) : Option (String × List Mark) :=
  let name := ms.takeWhile fun m => isNameChar m.char
  let after := ms.drop name.length
  let c := firstChar after
  if !name.isEmpty && (isGap c || ['?', ':', ',', ']', '}', '%', '@', '`'].contains c) then
    some (String.ofList (charsOf name), after)
  else none

/-- Whether a character can stand in the address that a tag is. -/
def isAddressChar (c : Char) : Bool :=
  c.isAlphanum || "-;/?:@&=+$,_.!~*'()[]".toList.contains c

/-- The bytes of a run of escapes in an address, with the marks after it; at most `bound` of them. -/
def addressBytes? : Nat → List Mark → Option (List UInt8 × List Mark)
  | 0, ms => some ([], ms)
  | bound + 1, ms =>
    if firstChar ms = '%' then do
      let digits := charsOf ((ms.drop 1).take 2)
      let n ← if digits.length = 2 then Text.hexNumber? digits else none
      let (bytes, after) ← addressBytes? bound (ms.drop 3)
      pure (n.toUInt8 :: bytes, after)
    else some ([], ms)

/-- An address, in which runs of escapes stand for text in UTF-8; at most `bound` parts of it. -/
def addressFrom? : Nat → List Mark → Option (List Char × List Mark)
  | 0, ms => some ([], ms)
  | bound + 1, ms =>
    let plain := ms.takeWhile fun m => isAddressChar m.char
    let after := ms.drop plain.length
    if firstChar after = '%' then do
      let (bytes, after) ← addressBytes? after.length after
      let text ← Utf8.all? (Utf8.decode bytes)
      let (rest, end_) ← addressFrom? bound after
      pure (charsOf plain ++ text ++ rest, end_)
    else some (charsOf plain, after)

/-- An address that is not empty. -/
def address? (ms : List Mark) : Option (String × List Mark) :=
  if isAddressChar (firstChar ms) || firstChar ms = '%' then
    (addressFrom? ms.length ms).map fun (cs, after) => (String.ofList cs, after)
  else none

/-- The handle at the start of a tag: a name between exclamation marks, or one such mark alone before a
space. -/
def handle? (ms : List Mark) : Option (String × List Mark) :=
  if firstChar ms != '!' then none
  else if charAt ms 1 = ' ' then some ("!", ms.drop 1)
  else
    let name := (ms.drop 1).takeWhile fun m => isNameChar m.char
    if charAt ms (1 + name.length) = '!' then
      some (String.ofList ('!' :: charsOf name ++ ['!']), ms.drop (2 + name.length))
    else none

/-- The name of a tag as it is written. -/
structure TagName where
  /-- The handle, which stands for the start of the name; none for a name that is written in full. -/
  handle : Option String
  /-- The name after it. -/
  rest : String
  deriving Repr, DecidableEq, Inhabited

/-- Whether an exclamation mark comes before the gap after a tag. -/
def hasHandle : List Mark → Bool
  | [] => false
  | m :: rest =>
    if m.char = ' ' || isBreakOrEnd m.char then false else m.char = '!' || hasHandle rest

/-- The name of a tag, from its indicator on. An indicator alone is a name too. -/
def tagName? (ms : List Mark) : Option (TagName × List Mark) := do
  let after := ms.drop 1
  let (name, after) ←
    if firstChar after = '<' then do
      let (name, after) ← address? (after.drop 1)
      if firstChar after = '>' then some ((⟨none, name⟩ : TagName), after.drop 1) else none
    else if isGap (firstChar after) then some (⟨none, "!"⟩, after)
    else do
      let (handle, after) ← if hasHandle after then handle? ms else some ("!", after)
      let (name, after) ← address? after
      pure (⟨some handle, name⟩, after)
  if endsName after then some (name, after) else none

/-! ### Directives -/

/-- What a directive says. -/
inductive Directive where
  /-- The version of the format. -/
  | version
  /-- The start of the names that a handle stands for. -/
  | handle (handle start : String)
  /-- Anything else, which is passed over. -/
  | other
  deriving Repr, DecidableEq, Inhabited

/-- The marks without spaces before them. -/
def dropSpaces (ms : List Mark) : List Mark := ms.dropWhile (·.char = ' ')

/-- The digits at the start, of which there is one at least, and the marks after them. -/
def digits? (ms : List Mark) : Option (List Char × List Mark) :=
  let digits := ms.takeWhile fun m => '0' ≤ m.char && m.char ≤ '9'
  if digits.isEmpty then none else some (charsOf digits, ms.drop digits.length)

/-- The marks after the version that a directive names. Only versions of the first generation can be
read. -/
def version? (ms : List Mark) : Option (List Mark) := do
  let (major, after) ← digits? (dropSpaces ms)
  if major.dropWhile (· = '0') = ['1'] && firstChar after = '.' then
    let (_, after) ← digits? (after.drop 1)
    if endsName after then some after else none
  else none

/-- The handle that a directive declares, and what it stands for. -/
def declaration? (ms : List Mark) : Option (Directive × List Mark) := do
  let (handle, after) ← handle? (dropSpaces ms)
  if firstChar after = ' ' then
    let (start, after) ← address? (dropSpaces after)
    if endsName after then some (.handle handle start, after) else none
  else none

/-- A directive, from its indicator on, whose line may end with a comment. -/
def directive? (ms : List Mark) : Option (Directive × List Mark) := do
  let name := (ms.drop 1).takeWhile fun m => isNameChar m.char
  let after := ms.drop (1 + name.length)
  let toLineEnd (ms : List Mark) : List Mark := ms.dropWhile fun m => !isBreakOrEnd m.char
  if name.isEmpty || !endsName after then none
  else
    let (found, after) ←
      if charsOf name = "YAML".toList then (version? after).map fun after => (.version, after)
      else if charsOf name = "TAG".toList then declaration? after
      else some (Directive.other, toLineEnd after)
    let after := dropSpaces after
    if firstChar after = '#' || isBreakOrEnd (firstChar after) then some (found, toLineEnd after)
    else none

end PackageLint.Yaml
