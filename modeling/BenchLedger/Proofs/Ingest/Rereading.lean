import BenchLedger.Proofs.Analysis.Rereading
import BenchLedger.Proofs.Ingest.Reachable
import BenchLedger.Proofs.Ingest.Repetition

/-!
# Reading written reports

A report reads back from its JSON just when all numbers of its verdicts do.  Numbers that are not
finite never do, and the squares of large values and the quotients by small ones need not be finite.
-/

namespace BenchLedger

open Json.Shape (decodeMembers_field decodeMembers_nil set_of_decode)

namespace Status

theorem writableMembers_members (status : Status) : Json.WritableMembers status.members := by
  cases status with
  | evaluated v outOfOrder => exact ⟨trivial, v.writable_toJson, trivial, trivial⟩
  | duplicate => exact ⟨trivial, trivial⟩
  | rejected kind reason => exact ⟨trivial, trivial, trivial, trivial⟩
  | storeFailed reason | analysisFailed reason => exact ⟨trivial, trivial, trivial⟩

/-- The numbers of the status, which are those of its verdict. -/
def numbers (status : Status) : List Float :=
  status.verdict?.toList.flatMap (·.numbers)

@[simp]
theorem numbers_evaluated (v : Analysis.Verdict) (outOfOrder : Bool) :
    (evaluated v outOfOrder).numbers = v.numbers :=
  List.flatMap_singleton _ _

/-- The verdict of the status, if it has one, is ordinary. -/
def Ordinary (status : Status) : Prop :=
  ∀ v ∈ status.verdict?, v.Ordinary

theorem ne_benchmark_of_mem_members {status : Status} {m : String × Json}
    (hm : m ∈ status.members) : m.1 ≠ "benchmark" := by
  cases status with
  | evaluated | duplicate | rejected | storeFailed | analysisFailed =>
    simp only [members, List.mem_cons, List.not_mem_nil, or_false] at hm
    rcases hm with rfl | rfl | rfl
    all_goals simp

theorem isKeepable_of_mem_members {status : Status} (hordinary : status.Ordinary)
    (h : ∀ x ∈ status.numbers, Json.ReadsBack x) {m : String × Json} (hm : m ∈ status.members) :
    m.2.isKeepable Json.keptLevels = true := by
  cases status with
  | evaluated v outOfOrder =>
    simp only [members, List.mem_cons, List.not_mem_nil, or_false] at hm
    rcases hm with rfl | rfl | rfl
    · rfl
    · rw [numbers_evaluated] at h
      exact Analysis.Verdict.isKeepable_toJson (hordinary v rfl) h 125
    · rfl
  | duplicate | rejected | storeFailed | analysisFailed =>
    simp only [members, List.mem_cons, List.not_mem_nil, or_false] at hm
    rcases hm with rfl | rfl | rfl
    all_goals rfl

theorem ofMembers_members {status : Status} (hordinary : status.Ordinary)
    (h : ∀ x ∈ status.numbers, Json.ReadsBack x) : ofMembers status.members = .ok status := by
  cases status with
  | evaluated v outOfOrder =>
    rw [numbers_evaluated] at h
    have hverdict := Analysis.Verdict.ofJson_toJson (hordinary v rfl) h
    have hparts : (Parts.shape ["verdict", "out_of_order"]).decode
        (.object [("verdict", v.toJson), ("out_of_order", .bool outOfOrder)]) =
        .ok { verdict := v, outOfOrder := outOfOrder } := by
      show (Parts.shape _).decodeMembers {} [] _ = _
      rw [decodeMembers_field (by decide) (by decide) (set_of_decode hverdict fun _ => rfl),
        decodeMembers_field (by decide) (by decide) rfl, decodeMembers_nil (by decide)]
    simp [ofMembers, members, kindOfJson, kinds, hparts, Fallible.ok_bind]
  | duplicate => rfl
  | rejected kind reason =>
    have hkind : (Json.string kind.name).asName RejectionKind.names = .ok kind := by
      cases kind <;> rfl
    have hparts : (Parts.shape ["kind", "reason"]).decode
        (.object [("kind", .string kind.name), ("reason", .string reason)]) =
        .ok { kind := kind, reason := reason } := by
      show (Parts.shape _).decodeMembers {} [] _ = _
      rw [decodeMembers_field (by decide) (by decide) (set_of_decode hkind fun _ => rfl),
        decodeMembers_field (by decide) (by decide) rfl, decodeMembers_nil (by decide)]
    simp [ofMembers, members, kindOfJson, kinds, hparts, Fallible.ok_bind]
  | storeFailed reason | analysisFailed reason => rfl

-- The verdict is left as it is by all fields but its own.
theorem Parts.verdict_of_set {fields : List String} {name : String} {j : Json} {p after : Parts}
    (hne : name ≠ "verdict") (h : (Parts.shape fields).set name j p = .ok after) :
    after.verdict = p.verdict := by
  unfold Parts.shape at h
  dsimp only at h
  split at h
  case h_1 => exact absurd rfl hne
  case h_5 => rw [Except.ok.inj h]
  all_goals
    obtain ⟨_, -, h⟩ := Fallible.bind_eq_ok.1 h
    rw [← Except.ok.inj h]

/-- The members of a status are read as the status just when its numbers read back. -/
theorem ofMembers_members_iff {status : Status} (hordinary : status.Ordinary) :
    ofMembers status.members = .ok status ↔ ∀ x ∈ status.numbers, Json.ReadsBack x := by
  refine ⟨fun h => ?_, ofMembers_members hordinary⟩
  cases status with
  | evaluated verdict outOfOrder =>
    have h : ((Parts.shape ["verdict", "out_of_order"]).decode
        (.object [("verdict", verdict.toJson), ("out_of_order", .bool outOfOrder)]) >>= fun p =>
          .ok (evaluated p.verdict p.outOfOrder)) = .ok (evaluated verdict outOfOrder) := h
    obtain ⟨p, hp, heq⟩ := Fallible.bind_eq_ok.1 h
    have hverdict : p.verdict = verdict := (Status.evaluated.inj (Except.ok.inj heq)).1
    have hread : Analysis.Verdict.ofJson verdict.toJson = .ok p.verdict :=
      Json.Shape.decode_of_mem (by decide) (fun _ _ => rfl) (fun _ _ => rfl)
        (fun _ _ _ _ => Parts.verdict_of_set) hp (by simp)
    rw [hverdict] at hread
    rw [numbers_evaluated]
    exact (Analysis.Verdict.ofJson_toJson_iff (hordinary verdict rfl)).1 hread
  | duplicate | rejected | storeFailed | analysisFailed => exact fun x hx => nomatch hx

end Status

namespace Outcome

/-- The JSON of an outcome is read as the outcome just when its numbers read back. -/
theorem ofJson_toJson_iff {o : Outcome} (hordinary : o.status.Ordinary) :
    ofJson o.toJson = .ok o ↔ ∀ x ∈ o.status.numbers, Json.ReadsBack x := by
  obtain ⟨benchmark, status⟩ := o
  have hname : ∀ name j, (name, j) ∈ status.members → name ≠ "benchmark" :=
    fun name j hm => Status.ne_benchmark_of_mem_members hm
  have hpartition : (("benchmark", Json.string benchmark) :: status.members).partition
      (·.1 == "benchmark") = ([("benchmark", .string benchmark)], status.members) := by
    have hnone : status.members.filter (·.1 == "benchmark") = [] := by simpa using hname
    simpa [List.partition_eq_filter_filter, hnone] using hname
  unfold toJson ofJson
  simp only [hpartition]
  constructor
  · intro h
    obtain ⟨-, h⟩ := Fallible.check_eq_ok.1 h
    obtain ⟨_, -, h⟩ := Fallible.bind_eq_ok.1 h
    obtain ⟨status', hstatus, h⟩ := Fallible.bind_eq_ok.1 h
    obtain rfl : status' = status := congrArg Outcome.status (Except.ok.inj h)
    exact (Status.ofMembers_members_iff hordinary).1 hstatus
  · intro h
    rw [if_neg (by simpa using fun name j hm => Status.isKeepable_of_mem_members hordinary h hm),
      Status.ofMembers_members hordinary h]
    rfl

end Outcome

namespace Report

/-- The numbers of the report's verdicts. -/
def numbers (r : Report) : List Float :=
  r.outcomes.flatMap (·.status.numbers)

/-- The verdicts of the report are ordinary. -/
def Ordinary (r : Report) : Prop :=
  ∀ o ∈ r.outcomes, o.status.Ordinary

theorem writable_toJson (r : Report) : r.toJson.Writable := by
  refine ⟨trivial, trivial, ?_, trivial⟩
  exact Json.writableItems_map fun o _ => ⟨trivial, o.status.writableMembers_members⟩

theorem ofJson_toJson {r : Report} (hordinary : r.Ordinary)
    (h : ∀ x ∈ r.numbers, Json.ReadsBack x) : ofJson r.toJson = .ok r := by
  have houtcomes := Json.asList_map fun o ho =>
    (Outcome.ofJson_toJson_iff (hordinary o ho)).2 fun x hx => h x (List.mem_flatMap.2 ⟨o, ho, hx⟩)
  obtain ⟨tool, commitId, outcomes⟩ := r
  show shape.decodeMembers default [] [("tool", .string tool), ("commit_id", .string commitId),
    ("outcomes", .array (outcomes.map Outcome.toJson))] = _
  rw [decodeMembers_field (by decide) (by decide) rfl,
    decodeMembers_field (by decide) (by decide) rfl,
    decodeMembers_field (by decide) (by decide) (set_of_decode houtcomes fun _ => rfl),
    decodeMembers_nil (by decide)]

theorem outcomes_of_set {name : String} {j : Json} {r after : Report} (hne : name ≠ "outcomes")
    (h : shape.set name j r = .ok after) : after.outcomes = r.outcomes := by
  unfold shape at h
  dsimp only at h
  split at h
  case h_3 => exact absurd rfl hne
  case h_4 => rw [Except.ok.inj h]
  all_goals
    obtain ⟨_, -, h⟩ := Fallible.bind_eq_ok.1 h
    rw [← Except.ok.inj h]

/-- A report of ordinary verdicts reads back just when their numbers do. -/
theorem readAs_render_iff {r : Report} (hordinary : r.Ordinary) :
    Json.readAs ofJson r.toJson.render = .ok r ↔ ∀ x ∈ r.numbers, Json.ReadsBack x := by
  rw [Json.readAs, Json.read_render r.writable_toJson]
  refine ⟨fun h x hx => ?_, ofJson_toJson hordinary⟩
  obtain ⟨o, ho, hx⟩ := List.mem_flatMap.1 hx
  have houtcomes : (Json.array (r.outcomes.map Outcome.toJson)).asList Outcome.ofJson =
      .ok r.outcomes :=
    Json.Shape.decode_of_mem (by decide) (fun _ _ => rfl) (fun _ _ => rfl)
      (fun _ _ _ _ => outcomes_of_set) h (by simp)
  exact (Outcome.ofJson_toJson_iff (hordinary o ho)).1 (Json.asList_map_iff.1 houtcomes o ho) x hx

end Report

namespace Service

variable {kind : Ledger.Kind} {s s' : Service} {log : List Measurement} {tool : String}
  {commit : Commit}

theorem ordinary_of_judge (h : Ledger.Records kind s.ledger log) (hsized : s.settings.Sized)
    {m : Measurement} (hm : m ∈ log) (hunit : m.unit.Written) {outOfOrder : Bool} :
    (s.judge m.key commit outOfOrder).1.Ordinary := by
  intro v hv
  unfold judge at hv
  split at hv
  case h_1 => exact absurd hv (Option.not_mem_none v)
  case h_2 series hseries =>
    split at hv
    case h_1 => exact absurd hv (Option.not_mem_none v)
    case h_2 verdict hverdict =>
      obtain rfl := Option.some.inj hv
      have hunits := h.unit_eq_of_mem hm hunit hseries
      exact Analysis.Verdict.ordinary_of_assess hsized (fun a ha => hunits a ha ▸ hunit) hverdict

theorem ordinary_of_ingestMeasurement (h : Ledger.Records kind s.ledger log)
    (hsized : s.settings.Sized) {m : Measurement} (hunit : m.unit.Written) :
    (s.ingestMeasurement tool commit m).1.Ordinary := by
  intro v hv
  unfold ingestMeasurement at hv
  split at hv
  case h_1 => exact absurd hv (Option.not_mem_none v)
  case h_2 => exact absurd hv (Option.not_mem_none v)
  case h_3 hbelongs =>
    split at hv
    case h_1 e _ => exact absurd hv (by cases e <;> exact Option.not_mem_none v)
    case h_2 ledger receipt hrecord =>
      obtain ⟨rfl, -⟩ := Measurement.ensureBelongs_eq_ok.1 hbelongs
      have hrecords : Ledger.Records kind ledger (log ++ [m]) := h.appendRecord_ok hrecord
      have hm : m ∈ log ++ [m] := List.mem_append_right log (List.mem_singleton_self m)
      exact ordinary_of_judge (s := { s with ledger }) hrecords hsized hm hunit v hv

theorem ordinary_reportOf (h : Ledger.Records kind s.ledger log) (hsized : s.settings.Sized)
    {entries : List (Except Rejection Measurement)}
    (hunits : ∀ m, .ok m ∈ entries → m.unit.Written) :
    (s.reportOf tool commit entries).Ordinary := by
  intro o ho v hv
  obtain ⟨slot, hslot, rfl⟩ := List.mem_map.1 ho
  cases slot with
  | settled o =>
    -- what was settled before anything was stored has no verdict
    have hstored := Slot.not_stored_of_settled hslot
    rw [Slot.outcome] at hv
    cases hstatus : o.status with
    | evaluated verdict outOfOrder =>
      rw [hstatus] at hstored
      exact absurd hstored Bool.noConfusion
    | _ =>
      rw [hstatus] at hv
      exact absurd hv (Option.not_mem_none v)
  | pending m =>
    have hpending : m ∈ Slot.pendingOf [] entries := List.mem_filterMap.2 ⟨_, hslot, rfl⟩
    have hunit := hunits m (Slot.mem_of_mem_pendingOf hpending)
    exact ordinary_of_ingestMeasurement h hsized hunit v hv

/-- The report on a run that comes to a reachable ledger reads back from its JSON just when all
numbers of its verdicts do.  If all that are finite do, this is just when all are finite. -/
theorem readAs_report_iff (h : Ledger.Reachable kind s.ledger) (hsized : s.settings.Sized)
    {r : Run} {report : Report} (hok : s.ingestRun r = .ok (report, s')) :
    (Json.readAs Report.ofJson report.toJson.render = .ok report ↔
      ∀ x ∈ report.numbers, Json.ReadsBack x) ∧
    ((∀ x ∈ report.numbers, x.isFinite = true → Json.ReadsBack x) →
      (Json.readAs Report.ofJson report.toJson.render = .ok report ↔
        ∀ x ∈ report.numbers, x.isFinite = true)) := by
  obtain ⟨log, hlog⟩ := h.exists_log
  have hunits : ∀ m, .ok m ∈ r.entries → m.unit.Written := by
    intro m hm
    obtain ⟨_, b, hreports⟩ := Run.ofRun_of_mem_entries hm
    exact ⟨b.unit, hreports.unit⟩
  have hreport : s.reportOf r.tool r.commit r.entries = report := by
    have hentries := (ingestRun_eq_ok.1 hok).2
    rw [ingestEntries_eq] at hentries
    exact (Prod.mk.inj hentries).1
  have hread := Report.readAs_render_iff (hreport ▸ ordinary_reportOf hlog hsized hunits)
  exact ⟨hread, fun hback => hread.trans
    ⟨fun h x hx => (h x hx).isFinite, fun h x hx => hback x hx (h x hx)⟩⟩

/-- A service with two values of a benchmark; the square of one is too large for a number. -/
def withLargeSquare : Service :=
  (Service.afterRun { ledger := Ledger.Kind.resident.empty } (runAt "c1" 1e200)).afterRun
    (runAt "c2" 0)

-- The spread in the baseline of a third value is not finite, and the report does not read back.
theorem readAs_report_iff_largeSquare :
    ∃ report s', withLargeSquare.ingestRun (runAt "c3" 1) = .ok (report, s') ∧
      (¬∀ x ∈ report.numbers, x.isFinite = true) ∧
      Json.readAs Report.ofJson report.toJson.render ≠ .ok report := by
  have hl : Ledger.Reachable .resident withLargeSquare.ledger :=
    Ledger.Reachable.afterRun (Ledger.Reachable.afterRun .empty _) _
  have hsized : withLargeSquare.settings.Sized := ⟨by decide +kernel, by decide +kernel⟩
  have hspread : (withLargeSquare.ingestRun (runAt "c3" 1)).toOption.map
      (fun x => x.1.verdicts.map (·.baseline.stdDev.isFinite)) = some [false] := by
    decide +kernel
  cases hok : withLargeSquare.ingestRun (runAt "c3" 1) with
  | error e =>
    rw [hok] at hspread
    exact nomatch hspread
  | ok x =>
    obtain ⟨report, s'⟩ := x
    rw [hok] at hspread
    have hverdicts : report.verdicts.map (·.baseline.stdDev.isFinite) = [false] :=
      Option.some.inj hspread
    have hinfinite : ¬∀ x ∈ report.numbers, x.isFinite = true := by
      intro hfinite
      have hmem : false ∈ report.verdicts.map (·.baseline.stdDev.isFinite) := by simp [hverdicts]
      obtain ⟨v, hv, hstdDev⟩ := List.mem_map.1 hmem
      obtain ⟨o, ho, hverdict⟩ := List.mem_filterMap.1 hv
      have hnumber : v.baseline.stdDev ∈ report.numbers :=
        List.mem_flatMap.2 ⟨o, ho, List.mem_flatMap.2 ⟨v, Option.mem_toList.2 hverdict,
          by simp [Analysis.Verdict.numbers, Analysis.Baseline.numbers]⟩⟩
      rw [hfinite _ hnumber] at hstdDev
      exact absurd hstdDev Bool.noConfusion
    refine ⟨report, s', rfl, hinfinite, fun hread => hinfinite fun x hx => ?_⟩
    exact ((readAs_report_iff hl hsized hok).1.1 hread x hx).isFinite

end Service

end BenchLedger
