import QueryPlanner.Text.Basic

namespace QueryPlanner.Text

-- How alike two texts are is measured by the characters that they share. The longest piece that
-- occurs in both is shared, and then the same is done with what stands before it and after it.

structure Piece where
  left   : Nat := 0
  right  : Nat := 0
  length : Nat := 0
  deriving DecidableEq, Repr

def commonLength : List Char → List Char → Nat
  | a :: as, b :: bs => if a = b then commonLength as bs + 1 else 0
  | _, _             => 0

def longestPiece (as bs : List Char) : Piece :=
  (List.range as.length).foldl (fun best i =>
    (List.range bs.length).foldl (fun best j =>
      let length := commonLength (as.drop i) (bs.drop j)
      if best.length < length then { left := i, right := j, length := length } else best) best) {}

def sharedWithin : (fuel : Nat) → List Char → List Char → Nat
  | 0, _, _            => 0
  | fuel + 1, as, bs =>
    let piece := longestPiece as bs
    if piece.length = 0 then
      0
    else
      sharedWithin fuel (as.take piece.left) (bs.take piece.right) + piece.length +
        sharedWithin fuel (as.drop (piece.left + piece.length))
          (bs.drop (piece.right + piece.length))

def shared (a b : String) : Nat :=
  sharedWithin a.length a.toList b.toList

def resembles (a b : String) : Bool :=
  3 * (a.length + b.length) ≤ 5 * (2 * shared a b)

def isCloser (text a b : String) : Bool :=
  let weightA := shared a text * (b.length + text.length)
  let weightB := shared b text * (a.length + text.length)
  weightB < weightA || weightB = weightA && decide (b < a)

def closest (text : String) (names : List String) : List String :=
  sortByText id (((names.filter (resembles · text)).mergeSort fun a b => !isCloser text b a).take 3)

end QueryPlanner.Text
