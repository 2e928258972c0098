import BenchLedger.Commit
import BenchLedger.Proofs.Json.Records
import BenchLedger.Proofs.Time.Rereading

/-!
# Reading written commits

The JSON of a commit reads back as that commit, metadata and all, if some text writes its timestamp.
Otherwise where only its JSON is kept another time stands for that of the commit, or the commit is
lost.
-/

namespace BenchLedger

namespace Timestamp

variable {t t' : Timestamp}

theorem ofJson_toJson_of_some (h : t.reread? = some t') : ofJson t.toJson = .ok t' := by
  unfold ofJson toJson Json.asString
  rw [Fallible.ok_bind, read?_text, h]
  rfl

theorem ofJson_toJson_of_none (h : t.reread? = none) : ofJson t.toJson = .error .mismatched := by
  unfold ofJson toJson Json.asString
  rw [Fallible.ok_bind, read?_text, h]
  rfl

theorem written_of_ofJson {j : Json} (h : ofJson j = .ok t) : t.Written := by
  obtain ⟨s, -, h⟩ := Fallible.bind_eq_ok.1 h
  split at h
  case h_1 t hread =>
    obtain rfl := Except.ok.inj h
    exact ⟨s, hread⟩
  case h_2 => exact absurd h Fallible.error_ne_ok

end Timestamp

namespace Person

theorem writable_toJson (p : Person) : p.toJson.Writable := by
  show Json.WritableMembers (("name", .string p.name) :: _)
  refine ⟨trivial, Json.writableMembers_append ?_ ?_⟩
  all_goals
    apply Json.writableMembers_optional
    intro j hj
    obtain ⟨_, -, rfl⟩ := Option.map_eq_some_iff.1 hj
    trivial

theorem ofJson_toJson (p : Person) : ofJson p.toJson = .ok p := by
  obtain ⟨name, email, username⟩ := p
  show shape.decodeMembers default [] (("name", .string name) :: (_ ++ _)) = _
  rw [Json.Shape.decodeMembers_field (by decide) (by decide) rfl]
  refine Json.Shape.decodeMembers_last_optionals ⟨name, email, none⟩ (by decide) (by decide)
    (by decide) ?_ ?_ (by decide)
  · cases email <;> rfl
  · cases username <;> rfl

end Person

namespace Commit

theorem writable_toJson (c : Commit) : c.toJson.Writable := by
  refine Json.writableMembers_append (Json.writableMembers_append ?_ ?_) ?_
  · exact ⟨trivial, c.author.writable_toJson, c.committer.writable_toJson, trivial, trivial,
      trivial, trivial⟩
  all_goals
    apply Json.writableMembers_optional
    intro j hj
    obtain ⟨_, -, rfl⟩ := Option.map_eq_some_iff.1 hj
    trivial

variable {c c' : Commit}

/-- Some text writes the timestamp of the commit. -/
def Written (c : Commit) : Prop :=
  c.timestamp.Written

instance (c : Commit) : Decidable c.Written :=
  inferInstanceAs (Decidable c.timestamp.Written)

/-- The commit that its JSON is read as: all of it is kept but for the timestamp. -/
def reread? (c : Commit) : Option Commit :=
  c.timestamp.reread?.map fun t => { c with timestamp := t }

theorem Written.reread? (h : c.Written) : c.reread? = some c := by
  rw [Commit.reread?, Timestamp.Written.reread? h]
  rfl

theorem reread?_eq_some (h : c.reread? = some c') :
    c.timestamp.reread? = some c'.timestamp ∧ c' = { c with timestamp := c'.timestamp } := by
  obtain ⟨t, ht, rfl⟩ := Option.map_eq_some_iff.1 h
  exact ⟨ht, rfl⟩

theorem written_of_reread? (h : c.reread? = some c') : c'.Written :=
  Timestamp.written_of_reread? (reread?_eq_some h).1

/-- A commit that its JSON is not read as is read with another time. -/
theorem instant_ne_of_not_written (h : ¬c.Written) (hread : c.reread? = some c') :
    c'.instant ≠ c.instant :=
  Timestamp.instant_ne_of_not_written h (reread?_eq_some hread).1

/-- The commit that its JSON is read as, or the commit itself if it is read as none. -/
def kept (c : Commit) : Commit :=
  c.reread?.getD c

theorem Written.kept (h : c.Written) : c.kept = c := by
  rw [Commit.kept, h.reread?]
  rfl

@[simp]
theorem id_kept (c : Commit) : c.kept.id = c.id := by
  cases h : c.reread? with
  | none => rw [kept, h, Option.getD_none]
  | some c' => rw [kept, h, Option.getD_some, (reread?_eq_some h).2]

theorem reread?_eq_kept (h : c.reread? ≠ none) : c.reread? = some c.kept := by
  obtain ⟨c', hc⟩ := Option.ne_none_iff_exists'.1 h
  rw [kept, hc, Option.getD_some]

-- What was read once is read as it is.
theorem written_kept (h : c.reread? ≠ none) : c.kept.Written :=
  written_of_reread? (reread?_eq_kept h)

theorem kept_kept (c : Commit) : c.kept.kept = c.kept := by
  by_cases h : c.reread? = none
  · have hkept : c.kept = c := by rw [kept, h, Option.getD_none]
    rw [hkept, hkept]
  · exact (written_kept h).kept

theorem written_default : (default : Commit).Written := by
  decide

-- The members of a commit before its timestamp decide nothing about it.
private theorem ofJson_toJson_eq (c : Commit) {x : Except Json.Failure Timestamp}
    (h : Timestamp.ofJson c.timestamp.toJson = x) :
    ofJson c.toJson = x.map fun t => { c with timestamp := t } := by
  obtain ⟨id, author, committer, timestamp, treeId, url, message, distinct⟩ := c
  show shape.decodeMembers default [] (("id", .string id) :: ("author", author.toJson) ::
    ("committer", committer.toJson) :: ("timestamp", timestamp.toJson) ::
    ("tree_id", .string treeId) :: ("url", .string url) :: (_ ++ _)) = _
  rw [Json.Shape.decodeMembers_field (by decide) (by decide) rfl,
    Json.Shape.decodeMembers_field (by decide) (by decide)
      (Json.Shape.set_of_decode author.ofJson_toJson fun _ => rfl),
    Json.Shape.decodeMembers_field (by decide) (by decide)
      (Json.Shape.set_of_decode committer.ofJson_toJson fun _ => rfl)]
  cases x with
  | error e =>
    exact Json.Shape.decodeMembers_error (by decide) (by decide)
      (Json.Shape.set_of_decode_error h fun _ => rfl)
  | ok t =>
    rw [Json.Shape.decodeMembers_field (by decide) (by decide)
        (Json.Shape.set_of_decode h fun _ => rfl),
      Json.Shape.decodeMembers_field (by decide) (by decide) rfl,
      Json.Shape.decodeMembers_field (by decide) (by decide) rfl]
    refine Json.Shape.decodeMembers_last_optionals
      ⟨id, author, committer, t, treeId, url, message, none⟩ (by decide) (by decide)
      (by decide) ?_ ?_ (by decide)
    · cases message <;> rfl
    · cases distinct <;> rfl

theorem ofJson_toJson_of_some (h : c.reread? = some c') : ofJson c.toJson = .ok c' := by
  obtain ⟨ht, hc⟩ := reread?_eq_some h
  rw [ofJson_toJson_eq c (Timestamp.ofJson_toJson_of_some ht), hc]
  rfl

theorem ofJson_toJson_of_none (h : c.reread? = none) : ofJson c.toJson = .error .mismatched :=
  ofJson_toJson_eq c (Timestamp.ofJson_toJson_of_none (Option.map_eq_none_iff.1 h))

theorem ofJson_toJson (h : c.Written) : ofJson c.toJson = .ok c :=
  ofJson_toJson_of_some h.reread?

/-- What is read as a commit has a timestamp that some text writes. -/
theorem written_of_ofJson {j : Json} (h : ofJson j = .ok c) : c.Written := by
  refine Json.Shape.holds_of_decode (P := Written) written_default ?_ h
  intro name j c after hc hset
  unfold shape at hset
  dsimp only at hset
  split at hset
  case h_9 => exact Except.ok.inj hset ▸ hc
  all_goals obtain ⟨a, ha, hset⟩ := Fallible.bind_eq_ok.1 hset
  all_goals obtain rfl := Except.ok.inj hset
  case h_4 => exact Timestamp.written_of_ofJson ha
  all_goals exact hc

theorem readAs_render (c : Commit) : Json.readAs ofJson c.toJson.render = ofJson c.toJson := by
  rw [Json.readAs, Json.read_render c.writable_toJson]

end Commit

end BenchLedger
