/-!
# Edit distance

The least number of insertions, deletions and substitutions of one character
that turn one text into another.  It is computed row by row: each row holds the
distances of one beginning of the first text to all beginnings of the second.
Two rows are enough, and they take turns: a row is filled over what is left in it from two
rows before.
-/

namespace DalvikHorn

/-- Two rows of the table of distances to the beginnings of a text. -/
structure DistanceRows (target : Array Char) where
  /-- The row that is complete. -/
  above : Vector Nat (target.size + 1)
  /-- The row that is being filled. -/
  current : Vector Nat (target.size + 1)

namespace DistanceRows

variable {target : Array Char}

/-- The rows before a character is read: from nothing, every character is an insertion. -/
def start (target : Array Char) : DistanceRows target where
  above := Vector.range (target.size + 1)
  current := Vector.replicate (target.size + 1) 0

/-- Fills the cells of the current row up to a column, after `row` characters and then `c` are
read.  A cell looks at the ones above it, to its left, and above that. -/
def fillTo (rows : DistanceRows target) (row : Nat) (c : Char) :
    (column : Nat) → column ≤ target.size → DistanceRows target
  | 0, _ => { rows with current := rows.current.set 0 (row + 1) }
  | column + 1, h =>
      let rows := rows.fillTo row c column (by omega)
      let cost := if c = target[column] then 0 else 1
      let cell := min (min (rows.above[column + 1] + 1) (rows.current[column] + 1))
        (rows.above[column] + cost)
      { rows with current := rows.current.set (column + 1) cell }

/-- Fills the current row, which then is the complete one. -/
def advance (rows : DistanceRows target) (row : Nat) (c : Char) : DistanceRows target :=
  let filled := rows.fillTo row c target.size target.size.le_refl
  { above := filled.current, current := filled.above }

/-- The rows after reading a text. -/
def read (source : List Char) (target : Array Char) : DistanceRows target :=
  source.zipIdx.foldl (fun rows (c, row) => rows.advance row c) (start target)

end DistanceRows

/-- The edit distance of two texts. -/
def editDistance (source target : String) : Nat :=
  (DistanceRows.read source.toList target.toList.toArray).above.back

/-- The first of the texts that are nearest to a text. -/
def nearest? (text : String) (texts : List String) : Option String :=
  texts.minOn? (editDistance text)

end DalvikHorn
