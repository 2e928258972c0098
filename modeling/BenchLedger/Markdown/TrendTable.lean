import BenchLedger.Markdown.Summary
import BenchLedger.Trend
import BenchLedger.RangeText

/-!
A trend as a markdown document with one table row for each point.
-/

namespace BenchLedger.Markdown

def pointCells (p : TrendPoint) : List String :=
  ["[`" ++ Commit.shortId p.commit.id ++ "`](" ++ p.commit.url ++ ")",
    p.commit.timestamp.tableText,
    Decimal.plainText p.value ++ " " ++ p.unit.text,
    RangeText.write p.range]

def trendLines (key : SeriesKey) (points : List TrendPoint) : List String :=
  ["# " ++ key.tool ++ " / " ++ key.name, ""] ++
    if points.isEmpty then ["No data."]
    else
      ["| Commit | Timestamp | Value | Range |", "|--------|-----------|-------|-------|"] ++
        points.map (row ∘ pointCells) ++
        ["", "---", "Points: " ++ Decimal.natText points.length]

def trendTable (key : SeriesKey) (points : List TrendPoint) : String :=
  unlines (trendLines key points)

end BenchLedger.Markdown
