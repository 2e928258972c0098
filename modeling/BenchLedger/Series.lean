import BenchLedger.Measurement
import BenchLedger.Order.Sorted

/-!
Series: the measurements of one benchmark, ordered by the time of their commits. Measurements of
equal time keep the order in which they came.
-/

namespace BenchLedger

def Measurement.notAfter (a b : Measurement) : Bool :=
  decide (a.instant ≤ b.instant)

theorem Measurement.notAfter_total (a b : Measurement) (h : a.notAfter b = false) :
    b.notAfter a = true := by
  simp only [notAfter, decide_eq_false_iff_not, decide_eq_true_eq, Instant.le_def] at h ⊢
  omega

theorem Measurement.notAfter_trans (a b c : Measurement) (hab : a.notAfter b = true)
    (hbc : b.notAfter c = true) : a.notAfter c = true := by
  simp only [notAfter, decide_eq_true_eq, Instant.le_def] at hab hbc ⊢
  omega

structure Series where
  key : SeriesKey
  records : List Measurement
  sorted : records.Pairwise (Measurement.notAfter · ·)

namespace Series

def ofRecords (key : SeriesKey) (records : List Measurement) : Series where
  key := key
  records := Order.stableSort Measurement.notAfter records
  sorted := Order.pairwise_stableSort Measurement.notAfter_total Measurement.notAfter_trans records

def empty (key : SeriesKey) : Series where
  key := key
  records := []
  sorted := .nil

def size (s : Series) : Nat :=
  s.records.length

def latest? (s : Series) : Option Measurement :=
  s.records.getLast?

-- The unit of a series is that of its first record.
def unit? (s : Series) : Option MeasureUnit :=
  s.records.head?.map (·.unit)

def position? (s : Series) (commitId : String) : Option Nat :=
  s.records.findIdx? (·.commit.id == commitId)

-- The `window` records before the place `index`, or as many as there are.
def windowBefore (s : Series) (index window : Nat) : List Measurement :=
  let stop := min index s.size
  (s.records.take stop).drop (stop - window)

end Series

/-- A span of time with its ends, each of which may be open. -/
structure TimeRange where
  start : Option Instant := none
  stop : Option Instant := none
  deriving DecidableEq, Repr

def TimeRange.contains (r : TimeRange) (t : Instant) : Bool :=
  r.start.all (decide <| · ≤ t) && r.stop.all (decide <| t ≤ ·)

def Series.within (s : Series) (r : TimeRange) : List Measurement :=
  s.records.filter fun m => r.contains m.instant

end BenchLedger
