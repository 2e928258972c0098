import BenchLedger.Analysis.Settings

/-!
# The override of a series

Settings that were read from a file have their overrides under keys in lower case.  With such keys
an override of tool and name comes before one of the name alone, in whatever case the series is
written, except where the name is written in lower case and the tool is not: the name is looked up
as it is written before tool and name are looked up in lower case.
-/

namespace BenchLedger.Analysis

namespace Settings

/-- Every override is kept under a key in lower case. -/
def LowerKeys (s : Settings) : Prop :=
  ∀ o ∈ s.overrides, Text.lowercase o.1 = o.1

instance (s : Settings) : Decidable s.LowerKeys :=
  inferInstanceAs (Decidable (∀ o ∈ s.overrides, Text.lowercase o.1 = o.1))

/-- The override under tool and name in lower case, else the one under the name in lower case. -/
def qualifiedFirst (s : Settings) (k : SeriesKey) : Option Override :=
  (s.overrides.lookup (Text.lowercase k.text)).or (s.overrides.lookup (Text.lowercase k.name))

/-- The name has an override as it is written, and tool and name are not in lower case. -/
def NameAhead (s : Settings) (k : SeriesKey) : Prop :=
  (s.overrides.lookup k.name).isSome = true ∧ Text.lowercase k.text ≠ k.text

instance (s : Settings) (k : SeriesKey) : Decidable (s.NameAhead k) :=
  inferInstanceAs (Decidable (_ ∧ _))

-- Nothing is kept under a key that is not in lower case.
theorem LowerKeys.lookup_eq_none {s : Settings} (h : s.LowerKeys) {key : String}
    (hkey : Text.lowercase key ≠ key) : s.overrides.lookup key = none := by
  rw [List.lookup_eq_none_iff]
  intro o ho
  rw [bne_iff_ne]
  rintro rfl
  exact hkey (h o ho)

end Settings

namespace Policy

/-- The policy has from the override what the override sets, and the rest from the settings. -/
structure Follows (p : Policy) (s : Settings) (o? : Option Override) : Prop where
  thresholdRatio : p.thresholdRatio = (o?.bind (·.thresholdRatio)).getD s.thresholdRatio
  windowSize : p.windowSize = (o?.bind (·.windowSize)).getD s.windowSize
  minHistory : p.minHistory = s.minHistory
  statistic : p.statistic = (o?.bind (·.statistic)).getD s.statistic

theorem resolve_follows (s : Settings) (k : SeriesKey) :
    (resolve s k).Follows s ((keys k).findSome? fun key => s.overrides.lookup key) := by
  unfold resolve
  cases (keys k).findSome? fun key => s.overrides.lookup key <;> exact ⟨rfl, rfl, rfl, rfl⟩

theorem findSome?_keys (s : Settings) (k : SeriesKey) :
    ((keys k).findSome? fun key => s.overrides.lookup key) =
      ((s.overrides.lookup k.text).or (s.overrides.lookup k.name)).or (s.qualifiedFirst k) := by
  unfold keys Settings.qualifiedFirst
  simp only [List.findSome?_cons, List.findSome?_nil]
  cases s.overrides.lookup k.text <;> cases s.overrides.lookup k.name <;>
    cases s.overrides.lookup (Text.lowercase k.text) <;>
    cases s.overrides.lookup (Text.lowercase k.name) <;> rfl

-- Tool and name that are in lower case are looked up first and once.
theorem findSome?_keys_of_lower {s : Settings} (h : s.LowerKeys) {k : SeriesKey}
    (hk : Text.lowercase k.text = k.text) :
    ((keys k).findSome? fun key => s.overrides.lookup key) = s.qualifiedFirst k := by
  rw [findSome?_keys, Settings.qualifiedFirst, hk]
  cases htext : s.overrides.lookup k.text with
  | some o => rfl
  | none =>
    rw [Option.none_or, Option.none_or]
    by_cases hname : Text.lowercase k.name = k.name
    · rw [hname, Option.or_self]
    · rw [h.lookup_eq_none hname, Option.none_or]

theorem findSome?_keys_of_not_lower {s : Settings} (h : s.LowerKeys) {k : SeriesKey}
    (hk : Text.lowercase k.text ≠ k.text) :
    ((keys k).findSome? fun key => s.overrides.lookup key) =
      (s.overrides.lookup k.name).or (s.qualifiedFirst k) := by
  rw [findSome?_keys, h.lookup_eq_none hk, Option.none_or]

/-- An override of tool and name comes first, but for a name that stands ahead of it. -/
theorem resolve_of_lowerKeys {s : Settings} (h : s.LowerKeys) (k : SeriesKey) :
    (resolve s k).Follows s
      (if s.NameAhead k then s.overrides.lookup k.name else s.qualifiedFirst k) := by
  have hresolve := resolve_follows s k
  by_cases hk : Text.lowercase k.text = k.text
  · have hahead : ¬s.NameAhead k := fun hahead => hahead.2 hk
    rw [if_neg hahead, ← findSome?_keys_of_lower h hk]
    exact hresolve
  · rw [findSome?_keys_of_not_lower h hk] at hresolve
    cases hname : s.overrides.lookup k.name with
    | some o =>
      have hahead : s.NameAhead k := ⟨by rw [hname]; rfl, hk⟩
      rw [if_pos hahead]
      rwa [hname] at hresolve
    | none =>
      have hahead : ¬s.NameAhead k := fun hahead => by
        have hsome := hahead.1
        rw [hname] at hsome
        contradiction
      rw [if_neg hahead]
      rwa [hname, Option.none_or] at hresolve

/-- Overrides of one name, alone and with its tool. -/
def twoOverrides : Settings where
  overrides := [("cargo/x", { windowSize := some 7 }), ("x", { windowSize := some 9 })]

-- A name in capitals is found in lower case, behind its tool.
theorem resolve_of_lowerKeys_capitalName :
    twoOverrides.LowerKeys ∧
      (resolve twoOverrides ⟨"Cargo", "X"⟩).Follows twoOverrides
        (some { windowSize := some 7 }) := by
  have hkeys : twoOverrides.LowerKeys := by decide +kernel
  have hahead : ¬twoOverrides.NameAhead ⟨"Cargo", "X"⟩ := by decide +kernel
  have hfirst : twoOverrides.qualifiedFirst ⟨"Cargo", "X"⟩ = some { windowSize := some 7 } := by
    decide +kernel
  have hfollows := resolve_of_lowerKeys hkeys ⟨"Cargo", "X"⟩
  rw [if_neg hahead, hfirst] at hfollows
  exact ⟨hkeys, hfollows⟩

-- A tool in capitals hides its override behind the one of the name.
theorem resolve_not_qualifiedFirst :
    ¬∀ (s : Settings) (k : SeriesKey), s.LowerKeys →
      (resolve s k).Follows s (s.qualifiedFirst k) := by
  intro hall
  have hkeys : twoOverrides.LowerKeys := by decide +kernel
  have hwindow := (hall twoOverrides ⟨"Cargo", "x"⟩ hkeys).windowSize
  have hnine : (resolve twoOverrides ⟨"Cargo", "x"⟩).windowSize = 9 := by decide +kernel
  have hseven : ((twoOverrides.qualifiedFirst ⟨"Cargo", "x"⟩).bind (·.windowSize)).getD
      twoOverrides.windowSize = 7 := by
    decide +kernel
  rw [hnine, hseven] at hwindow
  contradiction

end Policy

end BenchLedger.Analysis
