import PackageLint.Terminal.Wrap

/-!
# Tables

A table has a heading row and rows of cells, all aligned to the left, with a line around and between
its columns. A column is as wide as its widest cell, unless the table would be wider than the terminal:
then its widest columns get narrower. Its title stands above, in the middle.

## Main definitions

* `Table`: the tables.
* `Table.lines`: a table as lines.
-/

namespace PackageLint

/-- A table of texts. -/
structure Table where
  /-- The text above the table. -/
  title : String
  /-- The headings of the columns. -/
  headings : List String
  /-- The rows, each with a cell for every column. -/
  rows : List (List String)
  deriving Repr

namespace Table

/-- Whether a character ends a line when the cells of a text are counted. -/
def endsLine (c : Char) : Bool :=
  c = '\n' || [0x1c, 0x1d, 0x1e, 0x85, 0x2028, 0x2029].contains c.toNat

/-- The cells of the widest line of a text. -/
def widest (s : String) : Nat :=
  (((s.toList.splitBy fun a _ => !endsLine a).map fun line =>
    Wrap.width (line.filter fun c => !endsLine c)).max?).getD 0

/-! ### The widths of columns -/

/-- The blanks on both sides of a cell. -/
def padding : Nat := 2

/-- The cells that a text takes in a column of at most `room` cells, blanks included. -/
def cellSize (room : Nat) (text : String) : Nat :=
  if room ≤ padding then room else min room (widest text + padding)

/-- The texts of a column: its heading and its cells. -/
def column (table : Table) (i : Nat) : List String :=
  table.headings.getD i "" :: table.rows.map fun row => row.getD i ""

/-- The cells that a column needs, of at most `room`. -/
def columnSize (table : Table) (room i : Nat) : Nat :=
  (table.column i).foldl (fun size text => max size (cellSize room text)) 0

/-- The nearest number to a quotient; of two, the even one. -/
def nearest (num den : Nat) : Nat :=
  let low := num / den
  let twice := 2 * (num % den)
  if den < twice || (twice = den && low % 2 = 1) then low + 1 else low

/-- Takes cells from the marked ones of some sizes in equal shares, at most `most` from each; `marked`
of them are left. -/
def takeShares (most excess marked : Nat) : List (Nat × Bool) → List Nat
  | [] => []
  | (size, false) :: rest => size :: takeShares most excess marked rest
  | (size, true) :: rest =>
    let share := min most (nearest excess marked)
    (size - share) :: takeShares most (excess - share) (marked - 1) rest

/-- Makes the widest columns narrower until all fit in a number of cells; at most `bound` steps. -/
def shrink (room : Nat) : Nat → List Nat → List Nat
  | 0, sizes => sizes
  | bound + 1, sizes =>
    let excess := total sizes - room
    let most := sizes.foldl max 0
    let second := (sizes.filter (· ≠ most)).foldl max 0
    if excess = 0 || most = 0 then sizes
    else
      let marked := sizes.map fun size => (size, decide (size = most))
      shrink room bound
        (takeShares (min excess (most - second)) excess (sizes.count most) marked)
where
  /-- The cells of all columns. -/
  total (sizes : List Nat) : Nat := sizes.foldl (· + ·) 0

/-- The cells of the columns and their blanks, all together within the width of the terminal. -/
def columnSizes (table : Table) : List Nat :=
  let columns := List.range table.headings.length
  let room := Wrap.screenWidth - (columns.length + 1)
  let sizes := columns.map (table.columnSize room)
  if shrink.total sizes ≤ room then sizes
  else
    let shrunk := shrink room (shrink.total sizes) sizes
    (shrunk.zipIdx).map fun (size, i) => table.columnSize size i

/-- The cells of the content of each column. -/
def columnWidths (table : Table) : List Nat := table.columnSizes.map (· - padding)

/-! ### Lines -/

/-- A horizontal line, with the marks at its left end, along it, between columns and at its right
end. -/
def rule (left along between right : Char) (widths : List Nat) : List Char :=
  left :: [between].intercalate (widths.map fun size => List.replicate (size + 2) along) ++ [right]

/-- The lines of a cell, each as wide as its column. -/
def cellLines (size : Nat) (text : String) : List (List Char) :=
  (Wrap.wrap false size text.toList).map fun line => Wrap.padTo size (Wrap.cut size line)

/-- The lines of a row of cells, with the mark between columns. -/
def rowLines (mark : Char) (widths : List Nat) (row : List String) : List (List Char) :=
  let cells := (widths.zip row).map fun (size, text) => (size, cellLines size text)
  let height := cells.foldl (fun height cell => max height cell.2.length) 1
  (List.range height).map fun i =>
    mark :: cells.flatMap fun (size, lines) =>
      ' ' :: Wrap.padTo size (lines.getD i []) ++ [' ', mark]

/-- A table as lines. -/
def lines (table : Table) : List String :=
  let widths := table.columnWidths
  let total := widths.foldl (fun total width => total + width + 3) 1
  (((Wrap.wrap true total table.title.toList).map (Wrap.centred total))
    ++ [rule '┏' '━' '┳' '┓' widths]
    ++ rowLines '┃' widths table.headings
    ++ [rule '┡' '━' '╇' '┩' widths]
    ++ table.rows.flatMap (rowLines '│' widths)
    ++ [rule '└' '─' '┴' '┘' widths]).map String.ofList

end Table

end PackageLint
