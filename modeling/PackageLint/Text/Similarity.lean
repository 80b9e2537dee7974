import PackageLint.Text.Basic

/-!
# Similar words

A mistyped name is answered with the names it is close to. Two words are as similar as the share of
their characters that lie in common blocks: the longest common block, and in turn the blocks on both
sides of it.

## Main definitions

* `Text.shared`: the number of characters in common blocks.
* `Text.closeTo`: the names that a word is close to.
-/

namespace PackageLint.Text

/-- The length of the common start of two texts. -/
def commonStart : List Char → List Char → Nat
  | a :: as, b :: bs => if a = b then commonStart as bs + 1 else 0
  | _, _ => 0

/-- A common block: where it begins in both texts, and its length. -/
structure Block where
  /-- The characters before it in the first text. -/
  left : Nat
  /-- The characters before it in the second text. -/
  right : Nat
  /-- Its length. -/
  length : Nat
  deriving Repr

/-- The longest common block of two texts, the earliest one in the first text and then in the
second. -/
def longestBlock (as bs : List Char) : Block :=
  let places := (List.range as.length).flatMap fun i =>
    (List.range bs.length).map fun j => (i, j)
  places.foldl
    (fun best (i, j) =>
      let length := commonStart (as.drop i) (bs.drop j)
      if best.length < length then ⟨i, j, length⟩ else best)
    ⟨0, 0, 0⟩

/-- The number of characters in common blocks; at most `bound` levels of them. -/
def sharedWithin : Nat → List Char → List Char → Nat
  | 0, _, _ => 0
  | bound + 1, as, bs =>
    let best := longestBlock as bs
    if best.length = 0 then 0
    else
      best.length + sharedWithin bound (as.take best.left) (bs.take best.right)
        + sharedWithin bound (as.drop (best.left + best.length))
            (bs.drop (best.right + best.length))

/-- The number of characters in common blocks of two words. -/
def shared (a b : String) : Nat := sharedWithin (a.length + 1) a.toList b.toList

/-- Whether at least three fifths of the characters of two words lie in common blocks. -/
def isClose (a b : String) : Bool := 3 * (a.length + b.length) ≤ 10 * shared a b

/-- Whether a name is more similar to a word than another one; of equally similar ones the later in
the order of texts. -/
def isCloser (word a b : String) : Bool :=
  let left := shared a word * (b.length + word.length)
  let right := shared b word * (a.length + word.length)
  right < left || (left = right && b ≤ a)

/-- The names that a word is close to, three at most, in the order of texts. -/
def closeTo (word : String) (names : List String) : List String :=
  (((names.filter fun name => isClose name word).mergeSort (isCloser word)).take 3).mergeSort
    fun a b => a ≤ b

end PackageLint.Text
