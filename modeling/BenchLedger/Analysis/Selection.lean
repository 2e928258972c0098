/-!
Selection of the element of a given rank by partitioning around the median of three. The array is
rearranged on the way; elements below the rank come to stand before it and those above it behind.
-/

namespace BenchLedger.Analysis.Selection

-- The element at `i`; no search leaves the array while the elements can be compared.
def item (a : Array Float) (i : Nat) : Float :=
  a.getD i 0

def orderPair (a : Array Float) (i j : Nat) : Array Float :=
  if item a i > item a j then a.swapIfInBounds i j else a

-- The next place above `i` whose element is not below the pivot.
def scanUp (a : Array Float) (pivot : Float) : Nat → Nat → Nat
  | 0, i => i
  | fuel + 1, i => if item a (i + 1) ≥ pivot then i + 1 else scanUp a pivot fuel (i + 1)

def scanDown (a : Array Float) (pivot : Float) : Nat → Nat → Nat
  | 0, j => j
  | fuel + 1, j => if item a (j - 1) ≤ pivot then j - 1 else scanDown a pivot fuel (j - 1)

/-- Exchanges elements on the wrong sides of the pivot until the two scans have met. -/
def partition (pivot : Float) : Nat → Array Float → Nat → Nat → Array Float × Nat × Nat
  | 0, a, i, j => (a, i, j)
  | fuel + 1, a, i, j =>
    let i := scanUp a pivot a.size i
    let j := scanDown a pivot a.size j
    if j < i then (a, i, j) else partition pivot fuel (a.swapIfInBounds i j) i j

-- Narrows the span from `low` to `high`, which holds the element of that rank.
def narrow (rank : Nat) : Nat → Array Float → Nat → Nat → Array Float
  | 0, a, _, _ => a
  | fuel + 1, a, low, high =>
    if high ≤ low + 1 then
      if high = low + 1 then orderPair a low high else a
    else
      let a := a.swapIfInBounds ((low + high) / 2) (low + 1)
      let a := orderPair a low high
      let a := orderPair a (low + 1) high
      let a := orderPair a low (low + 1)
      let pivot := item a (low + 1)
      let (a, i, j) := partition pivot a.size a (low + 1) high
      let a := (a.setIfInBounds (low + 1) (item a j)).setIfInBounds j pivot
      let high := if rank ≤ j then j - 1 else high
      let low := if j ≤ rank then i else low
      narrow rank fuel a low high

-- The least element, or a later one that is not a number.
def least (a : Array Float) : Float :=
  match a.toList with
  | [] => 0 / 0
  | x :: xs => xs.foldl (fun acc x => if x < acc || x.isNaN then x else acc) x

/-- The element of that rank, counted from 0, and the rearranged array. -/
def select (a : Array Float) (rank : Nat) : Float × Array Float :=
  if rank = 0 then (least a, a)
  else
    let a := narrow rank (2 * a.size) a 0 (a.size - 1)
    (item a rank, a)

end BenchLedger.Analysis.Selection
