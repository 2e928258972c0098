import BenchLedger.Json.Decode
import BenchLedger.Proofs.Fallible
import BenchLedger.Proofs.Json.Written

/-!
# Reading written records

A record that is written as an object is decoded field by field, each into the record as far as it
is read; members without a value are left out.
-/

namespace BenchLedger.Json

theorem writableMembers_append {ms ns : List (String × Json)} (hms : WritableMembers ms)
    (hns : WritableMembers ns) : WritableMembers (ms ++ ns) := by
  induction ms with
  | nil => exact hns
  | cons m ms ih => exact ⟨hms.1, ih hms.2⟩

theorem writableMembers_optional {name : String} {value : Option Json}
    (h : ∀ j ∈ value, Writable j) : WritableMembers (optional name value) := by
  cases value with
  | none => trivial
  | some j => exact ⟨h j rfl, trivial⟩

theorem writableItems_map {α : Type} {encode : α → Json} {l : List α}
    (h : ∀ a ∈ l, Writable (encode a)) : WritableItems (l.map encode) := by
  induction l with
  | nil => trivial
  | cons a l ih =>
    obtain ⟨ha, hl⟩ := List.forall_mem_cons.1 h
    exact ⟨ha, ih hl⟩

theorem writableMembers_map {α : Type} (encode : α → Json) {l : List (String × α)}
    (h : ∀ m ∈ l, Writable (encode m.2)) :
    WritableMembers (l.map fun (name, a) => (name, encode a)) := by
  induction l with
  | nil => trivial
  | cons m l ih =>
    obtain ⟨hm, hl⟩ := List.forall_mem_cons.1 h
    exact ⟨hm, ih hl⟩

theorem membersKeepable_append (levels : ℕ) (ms ns : List (String × Json)) :
    membersKeepable levels (ms ++ ns) =
      (membersKeepable levels ms && membersKeepable levels ns) := by
  induction ms with
  | nil => rfl
  | cons m ms ih => rw [List.cons_append, membersKeepable, membersKeepable, ih, Bool.and_assoc]

section Containers

variable {α : Type} {decode : Json → Except Failure α}

theorem exists_of_mem_asList {j : Json} {l : List α} {a : α} (h : j.asList decode = .ok l)
    (ha : a ∈ l) : ∃ item, decode item = .ok a := by
  cases j with
  | array items =>
    obtain ⟨item, -, hitem⟩ := Fallible.exists_of_mem_mapM h ha
    exact ⟨item, hitem⟩
  | null | bool | number | string | unpaired | object | cut => exact absurd h Fallible.error_ne_ok

theorem exists_of_mem_asMembers {j : Json} {l : List (String × α)} {m : String × α}
    (h : j.asMembers decode = .ok l) (hm : m ∈ l) : ∃ item, decode item = .ok m.2 := by
  cases j with
  | object members =>
    obtain ⟨⟨name, item⟩, -, hitem⟩ := Fallible.exists_of_mem_mapM h hm
    obtain ⟨a, ha, rfl⟩ := Fallible.map_eq_ok.1 hitem
    exact ⟨item, ha⟩
  | null | bool | number | string | unpaired | array | cut => exact absurd h Fallible.error_ne_ok

theorem asList_map_iff {encode : α → Json} {l : List α} :
    (Json.array (l.map encode)).asList decode = .ok l ↔ ∀ a ∈ l, decode (encode a) = .ok a := by
  show (l.map encode).mapM decode = _ ↔ _
  rw [Fallible.mapM_map, Fallible.mapM_eq_ok, List.forall₂_same]

theorem asList_map {encode : α → Json} {l : List α} (h : ∀ a ∈ l, decode (encode a) = .ok a) :
    (Json.array (l.map encode)).asList decode = .ok l :=
  asList_map_iff.2 h

theorem asList_of_forall₂ {l : List α} {items : List Json}
    (h : List.Forall₂ (fun a j => decode j = .ok a) l items) :
    (Json.array items).asList decode = .ok l :=
  Fallible.mapM_eq_ok.2 h.flip

theorem asMembers_map (encode : α → Json) {l : List (String × α)}
    (h : ∀ m ∈ l, decode (encode m.2) = .ok m.2) :
    (Json.object (l.map fun (name, a) => (name, encode a))).asMembers decode = .ok l := by
  show (l.map fun (name, a) => (name, encode a)).mapM _ = _
  rw [Fallible.mapM_map, Fallible.mapM_ok (g := id), List.map_id]
  intro m hm
  show (decode (encode m.2)).map (m.1, ·) = _
  rw [h m hm]
  rfl

end Containers

namespace Shape

variable {α : Type} {shape : Shape α}

-- A field that comes for the first time is decoded into the record.
theorem decodeMembers_field {record after : α} {seen : List String} {name : String} {j : Json}
    {members : List (String × Json)} (hfield : name ∈ shape.fields) (hnew : name ∉ seen)
    (hset : shape.set name j record = .ok after) :
    shape.decodeMembers record seen ((name, j) :: members) =
      shape.decodeMembers after (name :: seen) members := by
  have hcontains : shape.fields.contains name = true := by simpa using hfield
  have hfirst : seen.contains name = false := by simpa using hnew
  rw [decodeMembers, hcontains, hfirst, hset]
  rfl

-- A field whose value has a decoder of its own is set once that decoder succeeds.
theorem set_of_decode {β : Type} {name : String} {j : Json} {record : α} {b : β}
    {decode : Json → Except Failure β} {put : β → α} (hdecode : decode j = .ok b)
    (hset : ∀ j, shape.set name j record = (decode j >>= fun b => .ok (put b))) :
    shape.set name j record = .ok (put b) := by
  rw [hset, hdecode, Fallible.ok_bind]

-- Decoding stops at a field that is not set.
theorem decodeMembers_error {record : α} {seen : List String} {name : String} {j : Json}
    {members : List (String × Json)} {e : Failure} (hfield : name ∈ shape.fields)
    (hnew : name ∉ seen) (hset : shape.set name j record = .error e) :
    shape.decodeMembers record seen ((name, j) :: members) = .error e := by
  have hcontains : shape.fields.contains name = true := by simpa using hfield
  have hfirst : seen.contains name = false := by simpa using hnew
  rw [decodeMembers, hcontains, hfirst, hset]
  rfl

theorem set_of_decode_error {β : Type} {name : String} {j : Json} {record : α} {e : Failure}
    {decode : Json → Except Failure β} {put : β → α} (hdecode : decode j = .error e)
    (hset : ∀ j, shape.set name j record = (decode j >>= fun b => .ok (put b))) :
    shape.set name j record = .error e := by
  rw [hset, hdecode]
  rfl

theorem eq_of_decodeMembers_nil {record a : α} {seen : List String}
    (h : shape.decodeMembers record seen [] = .ok a) : record = a := by
  rw [decodeMembers] at h
  split at h
  · exact Except.ok.inj h
  · exact absurd h Fallible.error_ne_ok

/-- The record with a member that may be left out; leaving it out leaves the record as it is. -/
def SetsOptional (shape : Shape α) (name : String) (value : Option Json) (record after : α) :
    Prop :=
  match value with
  | some j => shape.set name j record = .ok after
  | none => after = record

theorem decodeMembers_nil {record : α} {seen : List String}
    (h : ∀ name ∈ shape.required, name ∈ seen) :
    shape.decodeMembers record seen [] = .ok record := by
  rw [decodeMembers, if_pos (by simpa [List.all_eq_true] using h)]

theorem decodeMembers_optional {record after : α} {seen : List String} {name : String}
    {value : Option Json} (members : List (String × Json)) (hfield : name ∈ shape.fields)
    (hnew : name ∉ seen) (hset : shape.SetsOptional name value record after) :
    ∃ added ⊆ [name], shape.decodeMembers record seen (optional name value ++ members) =
      shape.decodeMembers after (added ++ seen) members := by
  cases value with
  | none =>
    obtain rfl : after = record := hset
    exact ⟨[], by simp, rfl⟩
  | some j => exact ⟨[name], by simp, decodeMembers_field hfield hnew hset⟩

-- Two members that may be left out, here `a` and `b`, before others.
theorem decodeMembers_optionals (between : α) {record after : α} {seen : List String}
    {a b : String} {x y : Option Json} (members : List (String × Json))
    (ha : a ∈ shape.fields ∧ a ∉ seen) (hb : b ∈ shape.fields ∧ b ∉ seen) (hne : b ≠ a)
    (hx : shape.SetsOptional a x record between) (hy : shape.SetsOptional b y between after) :
    ∃ added ⊆ [b, a],
      shape.decodeMembers record seen (optional a x ++ optional b y ++ members) =
        shape.decodeMembers after (added ++ seen) members := by
  rw [List.append_assoc]
  obtain ⟨as, has, heq⟩ := decodeMembers_optional (optional b y ++ members) ha.1 ha.2 hx
  -- at most `a` was met in between, so `b` still comes for the first time
  have hnew : b ∉ as ++ seen := by
    rw [List.mem_append]
    rintro (hmem | hmem)
    · exact hne (List.mem_singleton.1 (has hmem))
    · exact hb.2 hmem
  obtain ⟨bs, hbs, heq'⟩ := decodeMembers_optional members hb.1 hnew hy
  refine ⟨bs ++ as, ?_, by rw [heq, heq', List.append_assoc]⟩
  rw [List.append_subset]
  exact ⟨List.Subset.trans hbs (by simp), List.Subset.trans has (by simp)⟩

-- Records that end in two such members.
theorem decodeMembers_last_optionals (between : α) {record after : α} {seen : List String}
    {a b : String} {x y : Option Json} (ha : a ∈ shape.fields ∧ a ∉ seen)
    (hb : b ∈ shape.fields ∧ b ∉ seen) (hne : b ≠ a)
    (hx : shape.SetsOptional a x record between) (hy : shape.SetsOptional b y between after)
    (hseen : ∀ name ∈ shape.required, name ∈ seen) :
    shape.decodeMembers record seen (optional a x ++ optional b y) = .ok after := by
  obtain ⟨added, -, heq⟩ := decodeMembers_optionals between [] ha hb hne hx hy
  rw [List.append_nil] at heq
  rw [heq]
  exact decodeMembers_nil fun name h => by simp [hseen name h]

-- A record that is written as an array is decoded item by item.
theorem decodeItems_field {record after : α} {filled : Nat} {name : String} {names : List String}
    {j : Json} {items : List Json} (hset : shape.set name j record = .ok after) :
    shape.decodeItems record filled (name :: names) (j :: items) =
      shape.decodeItems after (filled + 1) names items := by
  rw [decodeItems, hset]
  rfl

theorem decodeItems_nil {record : α} {filled : Nat} {names : List String}
    (h : shape.arity ≤ filled) : shape.decodeItems record filled names [] = .ok record := by
  rw [decodeItems, if_pos h]

section Invariant

variable {P : α → Prop}

theorem holds_of_decodeMembers
    (hset : ∀ name j record after, P record → shape.set name j record = .ok after → P after)
    {members : List (String × Json)} {record a : α} {seen : List String} (hrecord : P record)
    (h : shape.decodeMembers record seen members = .ok a) : P a := by
  induction members generalizing record seen with
  | nil =>
    obtain rfl := eq_of_decodeMembers_nil h
    exact hrecord
  | cons m members ih =>
    rw [decodeMembers] at h
    split at h
    · split at h
      · exact absurd h Fallible.error_ne_ok
      · obtain ⟨after, hafter, h⟩ := Fallible.bind_eq_ok.1 h
        exact ih (hset _ _ _ _ hrecord hafter) h
    · exact ih hrecord (Fallible.then_eq_ok.1 h).2

theorem holds_of_decodeItems
    (hset : ∀ name j record after, P record → shape.set name j record = .ok after → P after)
    {items : List Json} {names : List String} {record a : α} {filled : Nat} (hrecord : P record)
    (h : shape.decodeItems record filled names items = .ok a) : P a := by
  induction items generalizing record names filled with
  | nil =>
    rw [decodeItems] at h
    split at h
    · obtain rfl := Except.ok.inj h
      exact hrecord
    · exact absurd h Fallible.error_ne_ok
  | cons j items ih =>
    cases names with
    | nil => exact absurd h Fallible.error_ne_ok
    | cons name names =>
      obtain ⟨after, hafter, h⟩ := Fallible.bind_eq_ok.1 h
      exact ih (hset _ _ _ _ hrecord hafter) h

/-- What holds of the record before any field is decoded, and is left by every field, holds of the
decoded record. -/
theorem holds_of_decode (hempty : P shape.empty)
    (hset : ∀ name j record after, P record → shape.set name j record = .ok after → P after)
    {j : Json} {a : α} (h : shape.decode j = .ok a) : P a := by
  cases j with
  | object members => exact holds_of_decodeMembers hset hempty h
  | array items => exact holds_of_decodeItems hset hempty h
  | null | bool | number | string | unpaired | cut => exact absurd h Fallible.error_ne_ok

end Invariant

section Fields

variable {β : Type} {name : String} {decode : Json → Except Failure β} {put : β → α → α}
  {get : α → β}

theorem get_of_decodeMembers
    (hkeep : ∀ other j record after, other ≠ name →
      shape.set other j record = .ok after → get after = get record)
    {members : List (String × Json)} {record a : α} {seen : List String} (hseen : name ∈ seen)
    (h : shape.decodeMembers record seen members = .ok a) : get a = get record := by
  induction members generalizing record seen with
  | nil => rw [eq_of_decodeMembers_nil h]
  | cons m members ih =>
    rw [decodeMembers] at h
    split at h
    · split at h
      case isTrue => exact absurd h Fallible.error_ne_ok
      case isFalse hnew =>
        obtain ⟨after, hafter, h⟩ := Fallible.bind_eq_ok.1 h
        have hne : m.1 ≠ name := by
          rintro rfl
          exact hnew (List.contains_iff_mem.2 hseen)
        rw [ih (List.mem_cons_of_mem _ hseen) h, hkeep _ _ _ _ hne hafter]
    · exact ih hseen (Fallible.then_eq_ok.1 h).2

/-- A field of a decoded record is what its member is decoded as, whatever other members there
are. -/
theorem decode_of_mem (hfield : name ∈ shape.fields)
    (hset : ∀ j record, shape.set name j record = (decode j >>= fun b => .ok (put b record)))
    (hget : ∀ b record, get (put b record) = b)
    (hkeep : ∀ other j record after, other ≠ name →
      shape.set other j record = .ok after → get after = get record)
    {members : List (String × Json)} {record a : α} {seen : List String} {j : Json}
    (h : shape.decodeMembers record seen members = .ok a) (hmem : (name, j) ∈ members) :
    decode j = .ok (get a) := by
  induction members generalizing record seen with
  | nil => exact absurd hmem List.not_mem_nil
  | cons m members ih =>
    rw [decodeMembers] at h
    obtain rfl | hmem := List.mem_cons.1 hmem
    · rw [if_pos (List.contains_iff_mem.2 hfield)] at h
      split at h
      · exact absurd h Fallible.error_ne_ok
      · rw [hset] at h
        obtain ⟨after, hafter, h⟩ := Fallible.bind_eq_ok.1 h
        obtain ⟨b, hb, hafter⟩ := Fallible.bind_eq_ok.1 hafter
        obtain rfl := Except.ok.inj hafter
        rw [get_of_decodeMembers hkeep List.mem_cons_self h, hget, hb]
    · split at h
      · split at h
        · exact absurd h Fallible.error_ne_ok
        · obtain ⟨after, -, h⟩ := Fallible.bind_eq_ok.1 h
          exact ih h hmem
      · exact ih (Fallible.then_eq_ok.1 h).2 hmem

theorem get_of_decodeItems
    (hkeep : ∀ other j record after, other ≠ name →
      shape.set other j record = .ok after → get after = get record)
    {items : List Json} {names : List String} {record a : α} {filled : Nat} (hother : name ∉ names)
    (h : shape.decodeItems record filled names items = .ok a) : get a = get record := by
  induction items generalizing record names filled with
  | nil =>
    rw [decodeItems] at h
    split at h
    · rw [Except.ok.inj h]
    · exact absurd h Fallible.error_ne_ok
  | cons j items ih =>
    cases names with
    | nil => exact absurd h Fallible.error_ne_ok
    | cons other names =>
      obtain ⟨after, hafter, h⟩ := Fallible.bind_eq_ok.1 h
      have hne : other ≠ name := fun heq => hother (heq ▸ List.mem_cons_self)
      rw [ih (fun hmem => hother (List.mem_cons_of_mem _ hmem)) h, hkeep _ _ _ _ hne hafter]

/-- The same of a record that is written as an array. -/
theorem decode_of_mem_zip
    (hset : ∀ j record, shape.set name j record = (decode j >>= fun b => .ok (put b record)))
    (hget : ∀ b record, get (put b record) = b)
    (hkeep : ∀ other j record after, other ≠ name →
      shape.set other j record = .ok after → get after = get record)
    {items : List Json} {names : List String} {record a : α} {filled : Nat} {j : Json}
    (hnodup : names.Nodup) (h : shape.decodeItems record filled names items = .ok a)
    (hmem : (name, j) ∈ names.zip items) : decode j = .ok (get a) := by
  induction items generalizing record names filled with
  | nil => simp at hmem
  | cons item items ih =>
    cases names with
    | nil => simp at hmem
    | cons other names =>
      obtain ⟨hother, hnodup⟩ := List.nodup_cons.1 hnodup
      obtain ⟨after, hafter, h⟩ := Fallible.bind_eq_ok.1 h
      obtain heq | hmem := List.mem_cons.1 hmem
      · obtain ⟨rfl, rfl⟩ := Prod.mk.inj heq
        rw [hset] at hafter
        obtain ⟨b, hb, hafter⟩ := Fallible.bind_eq_ok.1 hafter
        obtain rfl := Except.ok.inj hafter
        rw [get_of_decodeItems hkeep hother h, hget, hb]
      · exact ih hnodup h hmem

end Fields

end Shape

end BenchLedger.Json
