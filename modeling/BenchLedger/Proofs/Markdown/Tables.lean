import BenchLedger.Proofs.Decimal.Layouts
import BenchLedger.Proofs.Ingest.Totals
import BenchLedger.Proofs.Markdown.Reading

/-!
# Tables of reports

A summary writes the texts of a report as they are.  A reader finds the tables that were meant, one
row of five cells for each outcome, just when each of these texts fits into its place: no line ends
within it, and no bar divides it.
-/

namespace BenchLedger.Markdown

/-- The text neither ends a line nor divides a row. -/
def FitsCell (s : String) : Prop :=
  IsOneLine s ∧ IsOneCell s

instance (s : String) : Decidable (FitsCell s) :=
  inferInstanceAs (Decidable (_ ∧ _))

section Plain

/-- A character that has no meaning for lines and rows. -/
def isPlainChar (c : Char) : Bool :=
  c != '|' && c != '\\' && !isLineEnd c

/-- All characters are plain. -/
def IsPlain (cs : List Char) : Prop :=
  ∀ c ∈ cs, isPlainChar c = true

-- Named, since a search may as well go through all the characters there are.
instance (cs : List Char) : Decidable (IsPlain cs) :=
  List.decidableBAll _ cs

variable {c : Char} {cs ds : List Char} {s t : String}

theorem IsPlain.cons (hc : isPlainChar c = true) (hcs : IsPlain cs) : IsPlain (c :: cs) :=
  List.forall_mem_cons.2 ⟨hc, hcs⟩

theorem IsPlain.append (hcs : IsPlain cs) (hds : IsPlain ds) : IsPlain (cs ++ ds) :=
  List.forall_mem_append.2 ⟨hcs, hds⟩

theorem isOneLine_append : IsOneLine (s ++ t) ↔ IsOneLine s ∧ IsOneLine t := by
  rw [IsOneLine, String.toList_append]
  exact List.forall_mem_append

theorem IsPlain.isOneLine (h : IsPlain s.toList) : IsOneLine s := by
  intro c hc
  have hplain := h c hc
  simp only [isPlainChar, Bool.and_eq_true, Bool.not_eq_true'] at hplain
  exact hplain.2

-- Plain characters are passed over, wherever they stand before a text.
theorem IsPlain.length_piecesFrom_append (h : IsPlain cs) (piece ds : List Char) :
    (piecesFrom piece false (cs ++ ds)).length = (piecesFrom [] false ds).length := by
  induction cs generalizing piece with
  | nil => exact length_piecesFrom_congr _ _ _ _
  | cons c cs ih =>
    obtain ⟨hc, hcs⟩ := List.forall_mem_cons.1 h
    simp only [isPlainChar, Bool.and_eq_true, bne_iff_ne] at hc
    obtain ⟨⟨hbar, hbackslash⟩, -⟩ := hc
    rw [List.cons_append, piecesFrom, beq_false_of_ne hbar, beq_false_of_ne hbackslash,
      Bool.false_and, if_neg Bool.false_ne_true]
    exact ih hcs _

theorem IsPlain.isOneCell_append (h : IsPlain s.toList) : IsOneCell (s ++ t) ↔ IsOneCell t := by
  rw [IsOneCell, String.toList_append, h.length_piecesFrom_append, IsOneCell]

theorem IsPlain.fitsCell_append (h : IsPlain s.toList) : FitsCell (s ++ t) ↔ FitsCell t := by
  rw [FitsCell, isOneLine_append, h.isOneCell_append, and_iff_right h.isOneLine, FitsCell]

theorem IsPlain.fitsCell (h : IsPlain s.toList) : FitsCell s := by
  have hcell : IsOneCell (s ++ "") := h.isOneCell_append.2 (by decide)
  rw [String.append_empty] at hcell
  exact ⟨h.isOneLine, hcell⟩

end Plain

section Numbers

theorem isPlainChar_of_isDigit {c : Char} (h : c.isDigit = true) : isPlainChar c = true := by
  have hne : ∀ d : Char, d.isDigit = false → c ≠ d := by
    rintro d hd rfl
    exact Bool.false_ne_true (hd.symm.trans h)
  simp [isPlainChar, isLineEnd, hne '|' (by decide), hne '\\' (by decide), hne '\n' (by decide),
    hne '\r' (by decide)]

theorem isPlain_digitsOf (n : Nat) : IsPlain (Decimal.digitsOf n) :=
  fun _ hc => isPlainChar_of_isDigit (Decimal.isDigit_of_mem_digitsOf hc)

theorem isPlain_natText (n : Nat) : IsPlain (Decimal.natText n).toList := by
  rw [Decimal.natText, String.toList_ofList]
  exact isPlain_digitsOf n

theorem isPlain_positional (d : Decimal.Scaled) : IsPlain (d.positional false) := by
  unfold Decimal.Scaled.positional
  split
  · rw [if_neg Bool.false_ne_true, List.append_nil]
    refine (isPlain_digitsOf _).append fun c hc => ?_
    rw [List.eq_of_mem_replicate hc]
    decide
  · have hfilled : IsPlain (Decimal.filled (-d.exponent).toNat d.digits) :=
      fun c hc => isPlainChar_of_isDigit (Decimal.isDigit_of_mem_filled c hc)
    refine IsPlain.append (fun c hc => hfilled c (List.mem_of_mem_take hc)) ?_
    exact IsPlain.cons (by decide) fun c hc => hfilled c (List.mem_of_mem_drop hc)

theorem isPlain_sign (negative signed : Bool) :
    IsPlain (if negative then ['-'] else if signed then ['+'] else []) := by
  cases negative <;> cases signed <;> decide

theorem isPlain_plainText (x : Float) : IsPlain (Decimal.plainText x).toList := by
  rw [Decimal.plainText, String.toList_ofList, Decimal.Layout.write]
  split
  · decide +kernel
  · refine (isPlain_sign _ false).append ?_
    split
    · decide +kernel
    · exact isPlain_positional _

theorem isPlain_fixed (places : Nat) (signed : Bool) (x : Float) :
    IsPlain (Decimal.fixed places signed x).toList := by
  unfold Decimal.fixed
  split
  · decide +kernel
  · rw [String.toList_ofList]
    refine (isPlain_sign _ signed).append ?_
    split
    · decide +kernel
    · unfold Decimal.withPoint
      split
      · exact isPlain_digitsOf _
      · refine (isPlain_digitsOf _).append (IsPlain.cons (by decide) fun c hc => ?_)
        exact isPlainChar_of_isDigit (Decimal.isDigit_of_mem_padded hc)

end Numbers

/-- The texts that the row of an outcome takes over as they are. -/
def texts (o : Outcome) : List String :=
  match o.status with
  | .evaluated v _ => [o.benchmark, v.unit.text]
  | .duplicate => [o.benchmark]
  | .rejected _ reason => [o.benchmark, reason]
  | .storeFailed reason => [o.benchmark, reason]
  | .analysisFailed reason => [o.benchmark, reason]

/-- Every text of the report fits into its place in the heading or in a row. -/
def Fits (r : Report) : Prop :=
  IsOneLine r.tool ∧ IsOneLine (Commit.shortId r.commitId) ∧
    ∀ o ∈ r.outcomes, ∀ t ∈ texts o, FitsCell t

/-- The line is a row of five cells, the first of which is the name of the outcome. -/
def IsRowOf (o : Outcome) (line : String) : Prop :=
  ∃ value baseline change result,
    cells line = [padded o.benchmark, value, baseline, change, result]

/-- The lines are a heading and a table with one row for each outcome of the report. -/
def IsTableOf (r : Report) (ls : List String) : Prop :=
  ∃ title rows, List.Forall₂ IsRowOf r.outcomes rows ∧
    ls = ["## " ++ title, "", "| Benchmark | Value | Baseline | Change | Result |",
      "|-----------|-------|----------|--------|--------|"] ++ rows ++ [""]

/-- The lines are a title, a table for each report, and the numbers of reports and regressions. -/
def Tabulates (reports : List Report) (ls : List String) : Prop :=
  ∃ tables, List.Forall₂ IsTableOf reports tables ∧
    ls = ["# Benchmark Summary", ""] ++ tables.flatten ++
      ["---", "Runs: " ++ Decimal.natText reports.length ++ ", regressions: " ++
        Decimal.natText (reports.flatMap (·.regressions)).length]

section Rows

variable {o : Outcome} {r : Report} {ls : List String}

theorem fitsCell_number_append {number : String} (h : IsPlain number.toList) (t : String) :
    FitsCell (number ++ " " ++ t) ↔ FitsCell t := by
  refine IsPlain.fitsCell_append ?_
  rw [String.toList_append]
  exact h.append (by decide)

theorem fitsCell_baselineCell {v : Analysis.Verdict} (h : FitsCell v.unit.text) :
    FitsCell (baselineCell v) := by
  unfold baselineCell
  split
  · decide
  · exact (fitsCell_number_append (isPlain_fixed _ _ _) _).2 h

theorem fitsCell_change (v : Analysis.Verdict) : FitsCell v.change := by
  refine IsPlain.fitsCell ?_
  rw [Analysis.Verdict.change, String.toList_append]
  exact (isPlain_fixed _ _ _).append (by decide)

theorem fitsCell_resultCell (v : Analysis.Verdict) : FitsCell (resultCell v) := by
  unfold resultCell
  split
  · decide
  · cases v.classification <;> decide

-- The cells where there is no verdict: words, which tell what went wrong, and the reason.
theorem forall_fitsCell_failed {benchmark words reason : String} (h : IsPlain words.toList) :
    (∀ c ∈ [benchmark, "-", "-", "-", words ++ reason], FitsCell c) ↔
      ∀ t ∈ [benchmark, reason], FitsCell t := by
  have hdash : FitsCell "-" := by decide
  simp [hdash, h.fitsCell_append]

/-- The texts of an outcome decide whether its cells fit; numbers and fixed words always do. -/
theorem forall_fitsCell_outcomeCells :
    (∀ c ∈ outcomeCells o, FitsCell c) ↔ ∀ t ∈ texts o, FitsCell t := by
  have hdash : FitsCell "-" := by decide
  have hrecorded : FitsCell "already recorded" := by decide
  obtain ⟨benchmark, status⟩ := o
  cases status with
  | evaluated v _ =>
    have hvalue := fitsCell_number_append (isPlain_plainText v.value) v.unit.text
    simp only [outcomeCells, texts, List.forall_mem_cons, hvalue]
    constructor
    · rintro ⟨hname, hunit, -⟩
      exact ⟨hname, hunit, by simp⟩
    · rintro ⟨hname, hunit, -⟩
      exact ⟨hname, hunit, fitsCell_baselineCell hunit, fitsCell_change v, fitsCell_resultCell v,
        by simp⟩
  | duplicate => simp [outcomeCells, texts, hdash, hrecorded]
  | rejected => exact forall_fitsCell_failed (by decide)
  | storeFailed => exact forall_fitsCell_failed (by decide)
  | analysisFailed => exact forall_fitsCell_failed (by decide)

theorem benchmark_mem_texts (o : Outcome) : o.benchmark ∈ texts o := by
  unfold texts
  cases o.status <;> exact List.mem_cons_self

theorem outcomeCells_eq (o : Outcome) :
    ∃ value baseline change result,
      outcomeCells o = [o.benchmark, value, baseline, change, result] := by
  unfold outcomeCells
  cases o.status <;> exact ⟨_, _, _, _, rfl⟩

theorem outcomeCells_ne_nil (o : Outcome) : outcomeCells o ≠ [] := by
  obtain ⟨_, _, _, _, hcells⟩ := outcomeCells_eq o
  simp [hcells]

/-- The row of an outcome is one just when none of its texts is divided. -/
theorem isRowOf_row_iff :
    IsRowOf o (row (outcomeCells o)) ↔ ∀ c ∈ outcomeCells o, IsOneCell c := by
  obtain ⟨value, baseline, change, result, hcells⟩ := outcomeCells_eq o
  constructor
  · rintro ⟨_, _, _, _, hread⟩
    rw [← length_cells_row_eq_iff (outcomeCells_ne_nil o), hread, hcells]
    rfl
  · intro h
    rw [IsRowOf, cells_row_of_isOneCell (outcomeCells_ne_nil o) h, hcells]
    exact ⟨_, _, _, _, rfl⟩

theorem isOneLine_padded {s : String} : IsOneLine (padded s) ↔ IsOneLine s := by
  have hblank : IsOneLine " " := by decide
  simp only [padded, isOneLine_append, hblank, true_and, and_true]

theorem isOneLine_row_iff {cs : List String} (hne : cs ≠ []) :
    IsOneLine (row cs) ↔ ∀ c ∈ cs, IsOneLine c := by
  have hbar : IsOneLine "|" := by decide
  induction cs with
  | nil => exact absurd rfl hne
  | cons c cs ih =>
    cases cs with
    | nil => simp [row_singleton, isOneLine_append, isOneLine_padded, hbar]
    | cons d cs =>
      rw [row_cons_cons, isOneLine_append, isOneLine_append, and_iff_right hbar, isOneLine_padded,
        List.forall_mem_cons]
      exact and_congr_right fun _ => ih (List.cons_ne_nil d cs)

/-- The lines of a report are single ones just when the heading's and the rows' texts are. -/
theorem forall_isOneLine_reportLines : (∀ l ∈ reportLines r, IsOneLine l) ↔
    IsOneLine r.tool ∧ IsOneLine (Commit.shortId r.commitId) ∧
      ∀ o ∈ r.outcomes, ∀ c ∈ outcomeCells o, IsOneLine c := by
  have hheading : IsOneLine ("## " ++ r.tool ++ " @ `" ++ Commit.shortId r.commitId ++ "`") ↔
      IsOneLine r.tool ∧ IsOneLine (Commit.shortId r.commitId) := by
    have hhash : IsOneLine "## " := by decide
    have hat : IsOneLine " @ `" := by decide
    have htick : IsOneLine "`" := by decide
    simp only [isOneLine_append, hhash, hat, htick, true_and, and_true]
  have hempty : IsOneLine "" := by decide
  have hhead : IsOneLine "| Benchmark | Value | Baseline | Change | Result |" := by decide
  have hrule : IsOneLine "|-----------|-------|----------|--------|--------|" := by decide
  have hrows : (∀ l ∈ r.outcomes.map (row ∘ outcomeCells), IsOneLine l) ↔
      ∀ o ∈ r.outcomes, ∀ c ∈ outcomeCells o, IsOneLine c := by
    rw [List.forall_mem_map]
    exact forall₂_congr fun o _ => isOneLine_row_iff (outcomeCells_ne_nil o)
  simp only [reportLines, List.forall_mem_append, List.forall_mem_cons, hheading, hrows, hempty,
    hhead, hrule, true_and, and_assoc]
  simp

/-- A report fits just when its lines are single ones and its rows have five cells each. -/
theorem fits_iff : Fits r ↔
    (∀ l ∈ reportLines r, IsOneLine l) ∧ ∀ o ∈ r.outcomes, IsRowOf o (row (outcomeCells o)) := by
  have hcells : (∀ o ∈ r.outcomes, ∀ t ∈ texts o, FitsCell t) ↔
      (∀ o ∈ r.outcomes, ∀ c ∈ outcomeCells o, IsOneLine c) ∧
        ∀ o ∈ r.outcomes, IsRowOf o (row (outcomeCells o)) := by
    rw [← forall₂_and]
    refine forall₂_congr fun o _ => ?_
    rw [← forall_fitsCell_outcomeCells, isRowOf_row_iff, ← forall₂_and]
    rfl
  rw [Fits, forall_isOneLine_reportLines, hcells, and_assoc, and_assoc]

end Rows

section Summaries

variable {reports : List Report} {r : Report} {ls : List String}

theorem summaryLines_eq (reports : List Report) :
    summaryLines reports = ["# Benchmark Summary", ""] ++ (reports.map reportLines).flatten ++
      ["---", "Runs: " ++ Decimal.natText reports.length ++ ", regressions: " ++
        Decimal.natText (reports.flatMap (·.regressions)).length] := by
  have hsum : (reports.map (·.tally.regressed)).foldl (· + ·) 0 =
      (reports.flatMap (·.regressions)).length := by
    rw [← List.sum_eq_foldl, List.length_flatMap]
    simp only [Report.regressed_tally]
  unfold summaryLines
  rw [hsum]
  rfl

theorem isTableOf_reportLines_iff : IsTableOf r (reportLines r) ↔
    ∀ o ∈ r.outcomes, IsRowOf o (row (outcomeCells o)) := by
  have hrows : List.Forall₂ IsRowOf r.outcomes (r.outcomes.map (row ∘ outcomeCells)) ↔
      ∀ o ∈ r.outcomes, IsRowOf o (row (outcomeCells o)) := by
    rw [List.forall₂_map_right_iff, List.forall₂_same]
    rfl
  rw [← hrows]
  constructor
  · rintro ⟨title, rows, hread, hlines⟩
    simp only [reportLines, List.cons_append, List.nil_append, List.cons.injEq,
      List.append_cancel_right_eq, true_and] at hlines
    rw [hlines.2]
    exact hread
  · intro h
    exact ⟨r.tool ++ " @ `" ++ Commit.shortId r.commitId ++ "`", _, h, by
      simp [reportLines, String.append_assoc]⟩

theorem IsTableOf.length_eq (h : IsTableOf r ls) : ls.length = (reportLines r).length := by
  obtain ⟨title, rows, hrows, rfl⟩ := h
  simp [reportLines, hrows.length_eq]

theorem map_length_reportLines {tables : List (List String)}
    (h : List.Forall₂ IsTableOf reports tables) :
    (reports.map reportLines).map List.length = tables.map List.length := by
  induction h with
  | nil => rfl
  | cons htable _ ih => simp only [List.map_cons, htable.length_eq, ih]

theorem forall_mem_summaryLines {p : String → Prop} (htitle : p "# Benchmark Summary")
    (hempty : p "") (hreports : ∀ r ∈ reports, ∀ l ∈ reportLines r, p l) (hrule : p "---")
    (htotals : ∀ m n, p ("Runs: " ++ Decimal.natText m ++ ", regressions: " ++ Decimal.natText n)) :
    ∀ l ∈ summaryLines reports, p l := by
  have htables : ∀ l ∈ reports.flatMap reportLines, p l := by
    intro l hl
    obtain ⟨r, hr, hl⟩ := List.mem_flatMap.1 hl
    exact hreports r hr l hl
  simp only [summaryLines, List.forall_mem_append, List.forall_mem_cons]
  exact ⟨⟨⟨htitle, hempty, by simp⟩, htables⟩, hrule, htotals _ _, by simp⟩

theorem isOneLine_totals (m n : Nat) :
    IsOneLine ("Runs: " ++ Decimal.natText m ++ ", regressions: " ++ Decimal.natText n) := by
  have hruns : IsOneLine "Runs: " := by decide
  have hregressions : IsOneLine ", regressions: " := by decide
  simp only [isOneLine_append]
  exact ⟨⟨⟨hruns, (isPlain_natText m).isOneLine⟩, hregressions⟩, (isPlain_natText n).isOneLine⟩

theorem IsOneLine.getLast?_ne {l : String} (h : IsOneLine l) : l.toList.getLast? ≠ some '\r' := by
  intro hlast
  exact absurd (h _ (List.mem_of_getLast? hlast)) (by decide)

-- No line ends in a carriage return, which the line feed behind it would complete.
theorem getLast?_of_mem_summaryLines :
    ∀ l ∈ summaryLines reports, l.toList.getLast? ≠ some '\r' := by
  have hends : ∀ s t : String, IsOneLine t → t ≠ "" → (s ++ t).toList.getLast? ≠ some '\r' := by
    intro s t ht hne
    rw [String.toList_append, List.getLast?_append_of_ne_nil _ (by simpa using hne)]
    exact ht.getLast?_ne
  have hrow : ∀ cs, (row cs).toList.getLast? ≠ some '\r' :=
    fun cs => hends _ " |" (by decide) (by decide)
  refine forall_mem_summaryLines (by decide) (by decide) (fun r _ => ?_) (by decide)
    fun m n => (isOneLine_totals m n).getLast?_ne
  simp only [reportLines, List.forall_mem_append, List.forall_mem_cons, List.forall_mem_map]
  exact ⟨⟨⟨hends _ "`" (by decide) (by decide), by decide, by decide, by decide, by simp⟩,
    fun o _ => hrow _⟩, by decide, by simp⟩

/-- The summary of some reports is read as their tables just when all of their texts fit. -/
theorem tabulates_summary_iff (reports : List Report) :
    Tabulates reports (lines (summary reports)) ↔ ∀ r ∈ reports, Fits r := by
  have htables : List.Forall₂ IsTableOf reports (reports.map reportLines) ↔
      ∀ r ∈ reports, IsTableOf r (reportLines r) := by
    rw [List.forall₂_map_right_iff, List.forall₂_same]
  constructor
  · rintro ⟨tables, hread, hlines⟩
    have hlengths := map_length_reportLines hread
    -- as many lines as were written, so every one of them is found again
    have hone : ∀ l ∈ summaryLines reports, IsOneLine l := by
      rw [← length_lines_unlines_eq_iff getLast?_of_mem_summaryLines]
      change (lines (summary reports)).length = _
      rw [hlines, summaryLines_eq]
      simp only [List.length_append, List.length_flatten, hlengths]
    have hsame := (lines_unlines_of_isOneLine hone).symm.trans hlines
    rw [summaryLines_eq] at hsame
    have hflatten := List.append_cancel_left (List.append_cancel_right hsame)
    obtain rfl := List.eq_iff_flatten_eq.2 ⟨hflatten, hlengths⟩
    intro r hr
    rw [fits_iff, ← isTableOf_reportLines_iff]
    refine ⟨fun l hl => hone l ?_, htables.1 hread r hr⟩
    rw [summaryLines_eq]
    simp only [List.mem_append]
    exact .inl (.inr (List.mem_flatten_of_mem (List.mem_map_of_mem hr) hl))
  · intro h
    have hone : ∀ l ∈ summaryLines reports, IsOneLine l :=
      forall_mem_summaryLines (by decide) (by decide) (fun r hr => (fits_iff.1 (h r hr)).1)
        (by decide) isOneLine_totals
    refine ⟨_, htables.2 fun r hr => ?_, ?_⟩
    · exact isTableOf_reportLines_iff.2 (fits_iff.1 (h r hr)).2
    · rw [← summaryLines_eq]
      exact lines_unlines_of_isOneLine hone

-- A valid run is ingested and reported, but a bar in the name of its benchmark divides the row.
theorem tabulates_summary_iff_barredName :
    let s : Service := { ledger := .resident {} }
    let run := { runAt "c1" 1 with benches := [⟨"parse|fast", 1, "± 1", "ns/iter"⟩] }
    ∃ reported, s.ingestRun run = .ok reported ∧
      ¬ Tabulates [reported.1] (lines (summary [reported.1])) := by
  intro s run
  have hnames : (s.ingestRun run).map (·.1.outcomes.map (·.benchmark)) = .ok ["parse|fast"] := by
    decide +kernel
  cases hrun : s.ingestRun run with
  | error e => simp [hrun, Except.map] at hnames
  | ok reported =>
    rw [hrun] at hnames
    have hmap : reported.1.outcomes.map (·.benchmark) = ["parse|fast"] := Except.ok.inj hnames
    obtain ⟨o, ho, hname⟩ : ∃ o ∈ reported.1.outcomes, o.benchmark = "parse|fast" := by
      rw [← List.mem_map, hmap]
      exact List.mem_singleton_self _
    refine ⟨reported, rfl, fun htabulates => ?_⟩
    have hfits := (tabulates_summary_iff [reported.1]).1 htabulates _ (List.mem_singleton_self _)
    have hcell := hfits.2.2 o ho _ (benchmark_mem_texts o)
    rw [hname] at hcell
    exact absurd hcell (by decide)

end Summaries

end BenchLedger.Markdown
