import BenchLedger.Ledger.Batch

/-!
A ledger in memory: the measurements as they came, and for each tool the commits it has seen. A
commit counts as seen once a batch of it was accepted, even one without measurements.
-/

namespace BenchLedger

structure Resident where
  -- All measurements in the order in which they came.
  records : List Measurement := []
  -- Tool and id of every commit seen.
  commits : List (String × String) := []
  deriving DecidableEq, Repr, Inhabited

namespace Resident

def recordsOf (r : Resident) (key : SeriesKey) : List Measurement :=
  r.records.filter (·.key = key)

-- The unit of a series is that of the measurement that came first.
def unit? (r : Resident) (key : SeriesKey) : Option MeasureUnit :=
  (r.recordsOf key).head?.map (·.unit)

def containsCommit (r : Resident) (tool commitId : String) : Bool :=
  r.commits.contains (tool, commitId)

def see (r : Resident) (tool commitId : String) : Resident :=
  if r.containsCommit tool commitId then r
  else { r with commits := r.commits ++ [(tool, commitId)] }

def push (r : Resident) (m : Measurement) : Resident :=
  { r with records := r.records ++ [m] }.see m.tool m.commit.id

/-- Records a batch as a whole or not at all. Units are checked before the commit. -/
def append (r : Resident) (tool : String) (commit : Commit) (records : List Measurement) :
    Except LedgerError Resident := do
  Ledger.checked (Ledger.validateBatch tool commit records)
  records.forM fun m => Ledger.ensureUnit (r.unit? m.key) m
  if r.containsCommit tool commit.id then throw (.duplicateCommit tool commit.id)
  return records.foldl push (r.see tool commit.id)

/-- Records one measurement. Its commit must be new to the series, not to the tool. -/
def appendRecord (r : Resident) (m : Measurement) : Except LedgerError (Resident × Receipt) := do
  Ledger.checked m.validate
  let recorded := r.recordsOf m.key
  if recorded.any (·.commit.id == m.commit.id) then throw (.duplicateCommit m.tool m.commit.id)
  Ledger.ensureUnit (r.unit? m.key) m
  return (r.push m,
    { key := m.key
      seriesLength := recorded.length + 1
      outOfOrder := recorded.any fun old => m.instant < old.instant })

def series (r : Resident) (key : SeriesKey) : Series :=
  .ofRecords key (r.recordsOf key)

def names (r : Resident) (tool : String) : List String :=
  Order.sortTexts ((r.records.filter (·.tool = tool)).map (·.name))

def tools (r : Resident) : List String :=
  Order.sortTexts (r.commits.map (·.1))

end Resident

end BenchLedger
