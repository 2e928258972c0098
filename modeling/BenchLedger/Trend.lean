import BenchLedger.Series

/-!
Trends: the history of one benchmark as points, one for each commit.
-/

namespace BenchLedger

structure TrendPoint where
  commit : Commit
  value : Float
  range : Float
  unit : MeasureUnit
  deriving DecidableEq, Repr, Inhabited

namespace TrendPoint

def ofMeasurement (m : Measurement) : TrendPoint :=
  ⟨m.commit, m.value, m.range, m.unit⟩

def toJson (p : TrendPoint) : Json :=
  .object [("commit", p.commit.toJson), ("value", .ofFloat p.value), ("range", .ofFloat p.range),
    ("unit", .string p.unit.text)]

end TrendPoint

def Series.trend (s : Series) (r : TimeRange) : List TrendPoint :=
  (s.within r).map .ofMeasurement

end BenchLedger
