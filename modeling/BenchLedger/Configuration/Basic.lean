import BenchLedger.Analysis.Settings
import BenchLedger.Configuration.Entry

/-!
The configuration of the ledger's programs. Each setting has a default, so a source need not name
any of them; sections and settings that are not known are skipped.
-/

namespace BenchLedger

structure Storage where
  databaseUrl : String := "sqlite://benchtrack.db"
  -- Longest time that one operation of a ledger may take.
  timeoutMillis : Nat := 5000
  maxConnections : Nat := 4
  deriving DecidableEq, Repr

structure Configuration where
  storage : Storage := {}
  analysis : Analysis.Settings := {}
  -- The address on which requests are taken.
  bindAddress : String := "0.0.0.0:8080"
  logLevel : String := "info"
  -- Log lines are written as JSON.
  jsonLogs : Bool := false
  deriving DecidableEq, Repr

instance : Inhabited Configuration := ⟨{}⟩

namespace Storage

def toJson (s : Storage) : Json :=
  .object [("database_url", .string s.databaseUrl), ("io_timeout_ms", .ofNat s.timeoutMillis),
    ("max_connections", .ofNat s.maxConnections)]

def decode? (e : Entry) : Option Storage := do
  let ms ← e.members?
  let default : Storage := {}
  return {
    databaseUrl := ← Entry.take ms "database_url" default.databaseUrl (·.asText?)
    timeoutMillis := ← Entry.take ms "io_timeout_ms" default.timeoutMillis (·.asNat? (Nat.pow 2 64))
    maxConnections :=
      ← Entry.take ms "max_connections" default.maxConnections (·.asNat? (Nat.pow 2 32)) }

end Storage

namespace Analysis

def Override.decode? (e : Entry) : Option Override := do
  let ms ← e.members?
  return {
    thresholdRatio := ← Entry.take ms "threshold_ratio" none (Entry.asOption? (·.asFloat?))
    windowSize := ← Entry.take ms "window_size" none (Entry.asOption? (·.asNat? (Nat.pow 2 64)))
    statistic := ← Entry.take ms "statistic" none (Entry.asOption? (·.asName? Statistic.names)) }

def Override.tableOf? : Entry → Option (List (String × Override))
  | .table ms => ms.mapM fun (name, e) => (decode? e).map (name, ·)
  | _ => none

def Settings.decode? (e : Entry) : Option Settings := do
  let ms ← e.members?
  let default : Settings := {}
  return {
    windowSize := ← Entry.take ms "window_size" default.windowSize (·.asNat? (Nat.pow 2 64))
    minHistory := ← Entry.take ms "min_history" default.minHistory (·.asNat? (Nat.pow 2 64))
    thresholdRatio := ← Entry.take ms "threshold_ratio" default.thresholdRatio (·.asFloat?)
    statistic := ← Entry.take ms "statistic" default.statistic (·.asName? Statistic.names)
    overrides := ← Entry.take ms "overrides" default.overrides Override.tableOf? }

end Analysis

namespace Configuration

def toJson (c : Configuration) : Json :=
  .object [("storage", c.storage.toJson), ("analyzer", c.analysis.toJson),
    ("server", .object [("bind_addr", .string c.bindAddress)]),
    ("logging", .object [("level", .string c.logLevel), ("json", .bool c.jsonLogs)])]

def section? (ms : List (String × Entry)) (name : String) : Option (List (String × Entry)) :=
  Entry.take ms name [] (·.members?)

def decode? (ms : List (String × Entry)) : Option Configuration := do
  let default : Configuration := {}
  let server ← section? ms "server"
  let logging ← section? ms "logging"
  return {
    storage := ← Entry.take ms "storage" default.storage Storage.decode?
    analysis := ← Entry.take ms "analyzer" default.analysis Analysis.Settings.decode?
    bindAddress := ← Entry.take server "bind_addr" default.bindAddress (·.asText?)
    logLevel := ← Entry.take logging "level" default.logLevel (·.asText?)
    jsonLogs := ← Entry.take logging "json" default.jsonLogs (·.asBool?) }

end Configuration

end BenchLedger
