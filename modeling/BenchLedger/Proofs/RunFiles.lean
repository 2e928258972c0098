import BenchLedger.Proofs.Dashboard.Documents
import BenchLedger.RunFile

/-!
# Reading files of runs

A run may be written as an object or as an array of its four fields, and so may every record in it.
The first field of a run is a text, which is no run, so that no array is read both as one run and
as runs: to try one run first takes no array of runs for something else.  What is read is the very
runs that were written just when their values and timestamps read back from their texts.
-/

namespace BenchLedger

namespace Json

-- A field of an array that has no value is `null`.
def orNull (value : Option Json) : Json :=
  value.getD .null

theorem asOption_orNull {α : Type} {decode : Json → Except Failure α} {encode : α → Json}
    (hdecode : ∀ a, decode (encode a) = .ok a) (hne : ∀ a, encode a ≠ .null) (value : Option α) :
    (orNull (value.map encode)).asOption decode = .ok value := by
  cases value with
  | none => rfl
  | some a =>
    show (encode a).asOption decode = _
    rw [asOption]
    · rw [hdecode a]
      rfl
    · exact hne a

theorem itemsKeepable_of_forall₂ {α : Type} {R : α → Json → Prop} {levels : ℕ} {l : List α}
    {items : List Json} (h : List.Forall₂ R l items)
    (hR : ∀ a j, R a j → j.isKeepable levels = true) : itemsKeepable levels items = true := by
  induction h with
  | nil => rfl
  | cons hj _ ih => rw [itemsKeepable, hR _ _ hj, ih, Bool.and_self]

-- Each item of a list that is read back was decoded from the value that writes it.
theorem exists_of_mem_of_asList {α : Type} {R : α → Json → Prop} {decode : Json → Except Failure α}
    {l : List α} {items : List Json} (hR : List.Forall₂ R l items)
    (h : (array items).asList decode = .ok l) {a : α} (ha : a ∈ l) :
    ∃ j, R a j ∧ decode j = .ok a := by
  obtain ⟨i, hi, rfl⟩ := List.mem_iff_getElem.1 ha
  have hi' : i < items.length := hR.length_eq ▸ hi
  exact ⟨items[i], hR.get hi hi', (Fallible.mapM_eq_ok.1 h).get hi' hi⟩

theorem forall₂_map_self {α : Type} {R : α → Json → Prop} {encode : α → Json}
    (h : ∀ a, R a (encode a)) (l : List α) : List.Forall₂ R l (l.map encode) :=
  List.forall₂_map_right_iff.2 (List.forall₂_same.2 fun a _ => h a)

end Json

open Json.Shape (decodeItems_field decodeItems_nil set_of_decode)

namespace Person

/-- The value writes the person, as an object or as an array. -/
def Spelled (p : Person) (j : Json) : Prop :=
  j = p.toJson ∨
    j = .array [.string p.name, .orNull (p.email.map .string), .orNull (p.username.map .string)]

theorem spelled_toJson (p : Person) : p.Spelled p.toJson :=
  .inl rfl

variable {p : Person} {j : Json}

theorem Spelled.ofJson (h : p.Spelled j) : ofJson j = .ok p := by
  have htext : ∀ value : Option String,
      (Json.orNull (value.map .string)).asOption Json.asString = .ok value :=
    Json.asOption_orNull (fun _ => rfl) (fun _ => Json.noConfusion)
  obtain ⟨name, email, username⟩ := p
  rcases h with rfl | rfl
  · exact ofJson_toJson _
  · show shape.decodeItems default 0 ["name", "email", "username"] _ = _
    rw [decodeItems_field rfl,
      decodeItems_field (set_of_decode (htext email) fun _ => rfl),
      decodeItems_field (set_of_decode (htext username) fun _ => rfl),
      decodeItems_nil (by decide)]

theorem Spelled.isKeepable (h : p.Spelled j) (levels : ℕ) :
    j.isKeepable (levels + 1) = true := by
  obtain ⟨name, email, username⟩ := p
  rcases h with rfl | rfl
  all_goals
    cases email <;> cases username <;>
      simp [toJson, Json.isKeepable, Json.itemsKeepable, Json.membersKeepable, Json.optional,
        Json.orNull]

end Person

namespace Commit

/-- The value writes the commit, as an object or as an array; in an array the persons may be
arrays themselves. -/
def Spelled (c : Commit) (j : Json) : Prop :=
  j = c.toJson ∨ ∃ author committer, c.author.Spelled author ∧ c.committer.Spelled committer ∧
    j = .array [.string c.id, author, committer, c.timestamp.toJson, .string c.treeId,
      .string c.url, .orNull (c.message.map .string), .orNull (c.distinct.map .bool)]

theorem spelled_toJson (c : Commit) : c.Spelled c.toJson :=
  .inl rfl

variable {c : Commit} {j : Json}

theorem Spelled.ofJson (h : c.Spelled j) (hc : c.Written) : ofJson j = .ok c := by
  obtain rfl | ⟨author, committer, hauthor, hcommitter, rfl⟩ := h
  · exact ofJson_toJson hc
  have hmessage : ∀ value : Option String,
      (Json.orNull (value.map .string)).asOption Json.asString = .ok value :=
    Json.asOption_orNull (fun _ => rfl) (fun _ => Json.noConfusion)
  have hdistinct : ∀ value : Option Bool,
      (Json.orNull (value.map .bool)).asOption Json.asBool = .ok value :=
    Json.asOption_orNull (fun _ => rfl) (fun _ => Json.noConfusion)
  have hauthor := hauthor.ofJson
  have hcommitter := hcommitter.ofJson
  have htimestamp := Timestamp.ofJson_toJson_of_some (Timestamp.Written.reread? hc)
  obtain ⟨id, authored, committed, timestamp, treeId, url, message, distinct⟩ := c
  show shape.decodeItems default 0 ["id", "author", "committer", "timestamp", "tree_id", "url",
    "message", "distinct"] _ = _
  rw [decodeItems_field rfl,
    decodeItems_field (set_of_decode hauthor fun _ => rfl),
    decodeItems_field (set_of_decode hcommitter fun _ => rfl),
    decodeItems_field (set_of_decode htimestamp fun _ => rfl),
    decodeItems_field rfl, decodeItems_field rfl,
    decodeItems_field (set_of_decode (hmessage message) fun _ => rfl),
    decodeItems_field (set_of_decode (hdistinct distinct) fun _ => rfl),
    decodeItems_nil (by decide)]

theorem Spelled.isKeepable (h : c.Spelled j) (levels : ℕ) :
    j.isKeepable (levels + 2) = true := by
  obtain rfl | ⟨author, committer, hauthor, hcommitter, rfl⟩ := h
  · have hauthor := c.author.spelled_toJson.isKeepable levels
    have hcommitter := c.committer.spelled_toJson.isKeepable levels
    unfold toJson
    cases c.message <;> cases c.distinct <;>
      simp [Json.isKeepable, Json.membersKeepable, Json.optional, hauthor, hcommitter,
        Timestamp.toJson]
  · have hauthor := hauthor.isKeepable levels
    have hcommitter := hcommitter.isKeepable levels
    cases c.message <;> cases c.distinct <;>
      simp [Json.isKeepable, Json.itemsKeepable, Json.orNull, hauthor, hcommitter,
        Timestamp.toJson]

end Commit

namespace Bench

/-- The value writes the entry, as an object or as an array. -/
def Spelled (b : Bench) (j : Json) : Prop :=
  j = b.toJson ∨
    j = .array [.string b.name, .ofFloat b.value, .string b.range, .string b.unit]

theorem spelled_toJson (b : Bench) : b.Spelled b.toJson :=
  .inl rfl

variable {b : Bench} {j : Json}

theorem Spelled.ofJson (h : b.Spelled j) (hb : Json.ReadsBack b.value) : ofJson j = .ok b := by
  rcases h with rfl | rfl
  · exact ofJson_toJson hb
  · obtain ⟨name, value, range, unit⟩ := b
    show shape.decodeItems default 0 ["name", "value", "range", "unit"] _ = _
    rw [decodeItems_field rfl, decodeItems_field (set_of_decode hb fun _ => rfl),
      decodeItems_field rfl, decodeItems_field rfl, decodeItems_nil (by decide)]

-- The value is left as it is by all fields but its own.
theorem value_of_set {name : String} {b after : Bench} (hne : name ≠ "value")
    (h : shape.set name j b = .ok after) : after.value = b.value := by
  unfold shape at h
  dsimp only at h
  split at h
  case h_2 => exact absurd rfl hne
  case h_5 => rw [Except.ok.inj h]
  all_goals
    obtain ⟨_, -, h⟩ := Fallible.bind_eq_ok.1 h
    rw [← Except.ok.inj h]

theorem Spelled.ofJson_iff (h : b.Spelled j) :
    Bench.ofJson j = .ok b ↔ Json.ReadsBack b.value := by
  refine ⟨fun hread => ?_, h.ofJson⟩
  rcases h with rfl | rfl
  · exact Json.Shape.decode_of_mem (by decide) (fun _ _ => rfl) (fun _ _ => rfl)
      (fun _ _ _ _ => value_of_set) hread (by simp)
  · exact Json.Shape.decode_of_mem_zip (fun _ _ => rfl) (fun _ _ => rfl)
      (fun _ _ _ _ => value_of_set) (by decide) hread (by simp [shape])

theorem Spelled.isKeepable (h : b.Spelled j) (hb : Json.ReadsBack b.value) (levels : ℕ) :
    j.isKeepable (levels + 1) = true := by
  have hvalue := Json.isKeepable_ofFloat levels hb
  rcases h with rfl | rfl
  all_goals simp [toJson, Json.isKeepable, Json.itemsKeepable, Json.membersKeepable, hvalue]

end Bench

namespace Run

/-- The value writes the run, as an object or as an array; in an array the commit and the entries
may be arrays themselves. -/
def Spelled (r : Run) (j : Json) : Prop :=
  j = r.toJson ∨ ∃ commit benches, r.commit.Spelled commit ∧
    List.Forall₂ Bench.Spelled r.benches benches ∧
    j = .array [.string r.tool, commit, .ofInt r.date, .array benches]

theorem spelled_toJson (r : Run) : r.Spelled r.toJson :=
  .inl rfl

variable {r : Run} {j : Json}

theorem Spelled.ofJson (h : r.Spelled j) (hr : r.ReadsBack) : ofJson j = .ok r := by
  obtain rfl | ⟨commit, benches, hcommit, hbenches, rfl⟩ := h
  · exact ofJson_toJson hr
  have hcommit := hcommit.ofJson hr.commit
  have hlist : (Json.array benches).asList Bench.ofJson = .ok r.benches := by
    apply Json.asList_of_forall₂
    have hall := (List.forall₂_and_left _ _).2 ⟨hr.values, hbenches⟩
    exact hall.imp fun b j h => h.2.ofJson h.1
  have hdate := Json.asInt_ofInt hr.date
  obtain ⟨tool, committed, date, entries⟩ := r
  show shape.decodeItems default 0 ["tool", "commit", "date", "benches"] _ = _
  rw [decodeItems_field rfl,
    decodeItems_field (set_of_decode hcommit fun _ => rfl),
    decodeItems_field (set_of_decode hdate fun _ => rfl),
    decodeItems_field (set_of_decode hlist fun _ => rfl), decodeItems_nil (by decide)]

-- The entries are left as they are by all fields but their own.
theorem benches_of_set {name : String} {r after : Run} (hne : name ≠ "benches")
    (h : shape.set name j r = .ok after) : after.benches = r.benches := by
  unfold shape at h
  dsimp only at h
  split at h
  case h_4 => exact absurd rfl hne
  case h_5 => rw [Except.ok.inj h]
  all_goals
    obtain ⟨_, -, h⟩ := Fallible.bind_eq_ok.1 h
    rw [← Except.ok.inj h]

/-- What writes a run is read as that run just when all of it reads back. -/
theorem Spelled.ofJson_iff (h : r.Spelled j) : Run.ofJson j = .ok r ↔ r.ReadsBack := by
  refine ⟨fun hread => ⟨representable_of_ofJson hread, fun b hb => ?_⟩, h.ofJson⟩
  -- the entries were decoded one by one from values that write them
  have hentries : ∃ benches, List.Forall₂ Bench.Spelled r.benches benches ∧
      (Json.array benches).asList Bench.ofJson = .ok r.benches := by
    obtain rfl | ⟨commit, benches, -, hbenches, rfl⟩ := h
    · refine ⟨_, Json.forall₂_map_self Bench.spelled_toJson r.benches, ?_⟩
      exact Json.Shape.decode_of_mem (by decide) (fun _ _ => rfl) (fun _ _ => rfl)
        (fun _ _ _ _ => benches_of_set) hread (by simp)
    · refine ⟨benches, hbenches, ?_⟩
      exact Json.Shape.decode_of_mem_zip (fun _ _ => rfl) (fun _ _ => rfl)
        (fun _ _ _ _ => benches_of_set) (by decide) hread (by simp [shape])
  obtain ⟨benches, hspelled, hlist⟩ := hentries
  obtain ⟨j, hj, hbench⟩ := Json.exists_of_mem_of_asList hspelled hlist hb
  exact (Bench.Spelled.ofJson_iff hj).1 hbench

theorem Spelled.isKeepable (h : r.Spelled j) (hr : r.ReadsBack) (levels : ℕ) :
    j.isKeepable (levels + 3) = true := by
  have hdate := Json.isKeepable_ofInt (levels + 2) hr.date
  have hentries : ∀ benches, List.Forall₂ Bench.Spelled r.benches benches →
      Json.itemsKeepable (levels + 1) benches = true := by
    intro benches hbenches
    have hall := (List.forall₂_and_left _ _).2 ⟨hr.values, hbenches⟩
    exact Json.itemsKeepable_of_forall₂ hall fun _ _ h => h.2.isKeepable h.1 levels
  obtain rfl | ⟨commit, benches, hcommit, hbenches, rfl⟩ := h
  · have hcommit := r.commit.spelled_toJson.isKeepable levels
    have hbenches := hentries _ (Json.forall₂_map_self Bench.spelled_toJson r.benches)
    simp [toJson, Json.isKeepable, Json.membersKeepable, hcommit, hdate, hbenches]
  · have hcommit := hcommit.isKeepable levels
    simp [Json.isKeepable, Json.itemsKeepable, hcommit, hdate, hentries benches hbenches]

-- A text comes first in the array of a run, and a text is no run.
theorem not_ofJson_of_asList {rs : List Run} (h : j.asList ofJson = .ok rs) :
    ofJson j ≠ .ok r := by
  intro hr
  cases j with
  | array items =>
    cases items with
    | nil => exact Fallible.error_ne_ok hr
    | cons first items =>
      obtain ⟨after, hset, -⟩ := Fallible.bind_eq_ok.1 hr
      obtain ⟨tool, htool, -⟩ := Fallible.bind_eq_ok.1 hset
      have hfirst := Fallible.mapM_eq_ok.1 h
      cases hfirst with
      | cons hfirst =>
        cases first with
        | string => exact Fallible.error_ne_ok hfirst
        | null | bool | number | unpaired | array | object | cut =>
          exact Fallible.error_ne_ok htool
  | null | bool | number | string | unpaired | object | cut => exact Fallible.error_ne_ok h

theorem listOfJson_of_ofJson (hkeep : j.isKeepable Json.keptLevels = true)
    (h : ofJson j = .ok r) : listOfJson j = .ok [r] := by
  simp [listOfJson, hkeep, h]

theorem listOfJson_of_asList {rs : List Run} (hkeep : j.isKeepable Json.keptLevels = true)
    (h : j.asList ofJson = .ok rs) : listOfJson j = .ok rs := by
  obtain ⟨e, he⟩ := Fallible.exists_error fun r => not_ofJson_of_asList (r := r) h
  simp [listOfJson, hkeep, he, h]

theorem readList_of_spells {t : String} (h : Json.Spells j t.toList) :
    readList t = listOfJson j := by
  rw [readList, Json.readAs, ← Json.read_of_spells h, String.ofList_toList]

-- A value that writes a run begins with no text.
theorem Spelled.ne_string {s : String} (h : r.Spelled j) : j ≠ .string s := by
  obtain rfl | ⟨commit, benches, -, -, rfl⟩ := h <;> exact Json.noConfusion

-- An array that writes runs is not read as one run.
theorem not_ofJson_of_forall₂ {runs : List Run} {items : List Json}
    (h : List.Forall₂ Spelled runs items) : ofJson (.array items) ≠ .ok r := by
  intro hr
  cases h with
  | nil => exact Fallible.error_ne_ok hr
  | @cons run item runs items hitem =>
    obtain ⟨after, hset, -⟩ := Fallible.bind_eq_ok.1 hr
    obtain ⟨tool, htool, -⟩ := Fallible.bind_eq_ok.1 hset
    cases item with
    | string s => exact hitem.ne_string rfl
    | null | bool | number | unpaired | array | object | cut => exact Fallible.error_ne_ok htool

-- A value that writes a run is not read as a list of runs.
theorem Spelled.not_asList {rs : List Run} (h : r.Spelled j) : j.asList Run.ofJson ≠ .ok rs := by
  intro hrs
  obtain rfl | ⟨commit, benches, -, -, rfl⟩ := h
  · exact Fallible.error_ne_ok hrs
  · cases Fallible.mapM_eq_ok.1 hrs with
    | cons hfirst => exact Fallible.error_ne_ok hfirst

theorem listOfJson_eq_ok {rs : List Run} (h : listOfJson j = .ok rs) :
    (∃ r, ofJson j = .ok r ∧ rs = [r]) ∨ j.asList ofJson = .ok rs := by
  unfold listOfJson at h
  split at h
  · exact absurd h Fallible.error_ne_ok
  · split at h
    case h_1 r hr => exact .inl ⟨r, hr, (Except.ok.inj h).symm⟩
    case h_2 => exact .inr h

/-- What is written of a list of runs is read as that list just when all runs read back, whatever
its length, and what is written of one run as that run alone, each record as an object or as an
array and with blanks anywhere.  No text is read both as one run and as an array of runs.  So a text
of an array of runs is read as that array, or else it cannot be kept until both readings were
tried. -/
theorem readList_unambiguous (runs : List Run) :
    (∀ items t, List.Forall₂ Spelled runs items → Json.Spells (.array items) t.toList →
      (readList t = .ok runs ↔ ∀ r ∈ runs, r.ReadsBack)) ∧
    (∀ r j t, r.Spelled j → Json.Spells j t.toList → (readList t = .ok [r] ↔ r.ReadsBack)) ∧
    (∀ t r rs, Json.readAs (·.asList ofJson) t = .ok rs → Json.readAs ofJson t ≠ .ok r) ∧
    ∀ t rs, Json.readAs (·.asList ofJson) t = .ok rs → readList t =
      if (Json.read t).isKeepable Json.keptLevels then .ok rs else .error .malformed := by
  refine ⟨fun items t hitems ht => ?_, fun r j t hj ht => ?_,
    fun t r rs => not_ofJson_of_asList, fun t rs hrs => ?_⟩
  · rw [readList_of_spells ht]
    refine ⟨fun h r hr => ?_, fun h => ?_⟩
    · obtain ⟨r', hr', -⟩ | hlist := listOfJson_eq_ok h
      · exact absurd hr' (not_ofJson_of_forall₂ hitems)
      · obtain ⟨j, hj, hrun⟩ := Json.exists_of_mem_of_asList hitems hlist hr
        exact (Spelled.ofJson_iff hj).1 hrun
    · have hall := (List.forall₂_and_left _ _).2 ⟨h, hitems⟩
      have hkeep : (Json.array items).isKeepable Json.keptLevels = true :=
        Json.itemsKeepable_of_forall₂ hall fun r j h => h.2.isKeepable h.1 123
      exact listOfJson_of_asList hkeep
        (Json.asList_of_forall₂ (hall.imp fun r j h => h.2.ofJson h.1))
  · rw [readList_of_spells ht, ← Spelled.ofJson_iff hj]
    refine ⟨fun h => ?_, fun h => ?_⟩
    · obtain ⟨r', hr', heq⟩ | hlist := listOfJson_eq_ok h
      · rwa [List.singleton_inj.1 heq]
      · exact absurd hlist (Spelled.not_asList hj)
    · exact listOfJson_of_ofJson (Spelled.isKeepable hj ((Spelled.ofJson_iff hj).1 h) 124) h
  · show listOfJson (Json.read t) = _
    by_cases hkeep : (Json.read t).isKeepable Json.keptLevels = true
    · rw [if_pos hkeep]
      exact listOfJson_of_asList hkeep hrs
    · simp [listOfJson, hkeep]

def runOf (value : Float) : Run where
  tool := "cargo"
  commit := default
  date := 0
  benches := [{ name := "x", value, range := "1", unit := "ns" }]

theorem readsBack_runOf_iff {value : Float} : (runOf value).ReadsBack ↔ Json.ReadsBack value := by
  have hvalues : (∀ b ∈ (runOf value).benches, Json.ReadsBack b.value) ↔ Json.ReadsBack value := by
    simp [runOf]
  refine ⟨fun h => hvalues.1 h.values, fun h => ⟨⟨?_, Commit.written_default⟩, hvalues.2 h⟩⟩
  exact (by decide : -0x8000000000000000 ≤ (0 : ℤ) ∧ (0 : ℤ) < 0x8000000000000000)

-- Four runs, as many as a run has fields, one that is an array of its fields, and one whose value
-- is read as a number next to it.
theorem readList_unambiguous_fourRuns :
    readList (Json.array ((List.replicate 4 (runOf 1)).map toJson)).renderIndented =
        .ok (List.replicate 4 (runOf 1)) ∧
      readList (Json.array [.string "cargo", (default : Commit).toJson, .ofInt 0,
        .array ((runOf 1).benches.map Bench.toJson)]).render = .ok [runOf 1] ∧
      readList (runOf 51.248178375505404).toJson.render ≠ .ok [runOf 51.248178375505404] := by
  have hone : (runOf 1).ReadsBack := readsBack_runOf_iff.2 (by decide +kernel)
  have hother : ¬(runOf 51.248178375505404).ReadsBack :=
    readsBack_runOf_iff.not.2 (by decide +kernel)
  obtain ⟨hlist, hsingle, -⟩ := readList_unambiguous (List.replicate 4 (runOf 1))
  have hitems : (runOf 1).Spelled (.array [.string "cargo", (default : Commit).toJson, .ofInt 0,
      .array ((runOf 1).benches.map Bench.toJson)]) :=
    .inr ⟨_, _, Commit.spelled_toJson _, Json.forall₂_map_self Bench.spelled_toJson _, rfl⟩
  refine ⟨(hlist _ _ (Json.forall₂_map_self spelled_toJson _) ?_).2 ?_,
    (hsingle _ _ _ hitems ?_).2 hone, (hsingle _ _ _ (spelled_toJson _) ?_).not.2 hother⟩
  · rw [Json.renderIndented, String.toList_ofList]
    exact Json.spells_indented 0 _ (Json.writableItems_map fun r _ => r.writable_toJson)
  · exact fun r hr => List.eq_of_mem_replicate hr ▸ hone
  · rw [Json.render, String.toList_ofList]
    exact Json.spells_compact _ ⟨trivial, Commit.writable_toJson _, Json.writable_ofInt 0,
      Json.writableItems_map fun b _ => b.writable_toJson, trivial⟩
  · rw [Json.render, String.toList_ofList]
    exact Json.spells_compact _ (writable_toJson _)

end Run

end BenchLedger
