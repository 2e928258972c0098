import BenchLedger.Analysis.Selection

/-!
Mean, spread and median of lists of numbers, each with the order of its operations fixed, so that
the last binary place is determined.
-/

namespace BenchLedger.Analysis

-- Moves the mean towards each value in turn, by the share that the value has so far.
def meanFrom (count mean : Float) : List Float → Float
  | [] => mean
  | x :: xs => meanFrom (count + 1) (mean + (x - mean) / (count + 1)) xs

def mean (values : List Float) : Float :=
  meanFrom 0 0 values

-- The sum of squared deviations, updated with the running sum of the values.
def deviationsFrom (count sum squares : Float) : List Float → Float × Float
  | [] => (count, squares)
  | x :: xs =>
    let count := count + 1
    let sum := sum + x
    let d := count * x - sum
    deviationsFrom count sum (squares + d * d / (count * (count - 1))) xs

/-- The sample standard deviation; a single value has none. -/
def standardDeviation : List Float → Float
  | [] => 0
  | [_] => 0
  | x :: xs =>
    let (count, squares) := deviationsFrom 1 x 0 xs
    (squares / (count - 1)).sqrt

def median (values : List Float) : Float :=
  let a := values.toArray
  let k := a.size / 2
  if a.size % 2 = 1 then (Selection.select a k).1
  else
    let (lower, a) := Selection.select a (k - 1)
    (lower + (Selection.select a k).1) / 2

def medianDeviation (values : List Float) : Float :=
  let m := median values
  median (values.map fun v => (v - m).abs)

end BenchLedger.Analysis
