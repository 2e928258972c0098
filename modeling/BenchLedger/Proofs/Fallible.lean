import Mathlib.Data.List.Forall2

/-!
# Computations that may fail

How a computation succeeds or fails when it is one after another, or one for each item of a list.
-/

namespace BenchLedger.Fallible

variable {ε α β : Type}

theorem ok_bind (a : α) (f : α → Except ε β) : (Except.ok a >>= f) = f a := rfl

theorem error_bind (e : ε) (f : α → Except ε β) : (Except.error e >>= f) = .error e := rfl

theorem bind_eq_ok {x : Except ε α} {f : α → Except ε β} {b : β} :
    (x >>= f) = .ok b ↔ ∃ a, x = .ok a ∧ f a = .ok b := by
  cases x with
  | ok a => simp [ok_bind]
  | error e => simp [error_bind]

-- A check without a result, and what is done after it.
theorem then_eq_ok {x : Except ε Unit} {y : Except ε β} {b : β} :
    (x >>= fun _ => y) = .ok b ↔ x = .ok () ∧ y = .ok b := by
  rw [bind_eq_ok]
  exact ⟨fun ⟨_, hx, hy⟩ => ⟨hx, hy⟩, fun ⟨hx, hy⟩ => ⟨(), hx, hy⟩⟩

theorem pure_eq_ok {a b : β} : (pure a : Except ε β) = .ok b ↔ a = b :=
  ⟨Except.ok.inj, congrArg _⟩

theorem error_ne_ok {e : ε} {b : β} : (Except.error e : Except ε β) ≠ .ok b := nofun

theorem exists_error {x : Except ε α} (h : ∀ a, x ≠ .ok a) : ∃ e, x = .error e := by
  cases x with
  | ok a => exact absurd rfl (h a)
  | error e => exact ⟨e, rfl⟩

-- A check that fails with `e` under the condition `c`, and what is done after it.
theorem check_eq_ok {c : Prop} [Decidable c] {e : ε} {f : α → Except ε β} {x : Except ε β} {b : β} :
    (if c then (throw e >>= f) else x) = .ok b ↔ ¬c ∧ x = .ok b := by
  by_cases hc : c
  · rw [if_pos hc]
    exact iff_of_false error_ne_ok fun h => h.1 hc
  · rw [if_neg hc]
    exact (and_iff_right hc).symm

theorem check_ne_error {c : Prop} [Decidable c] {e e' : ε} {f : α → Except ε β} {x : Except ε β}
    (he : e ≠ e') (hx : x ≠ .error e') : (if c then (throw e >>= f) else x) ≠ .error e' := by
  by_cases hc : c
  · rw [if_pos hc]
    exact fun h => he (Except.error.inj h)
  · rwa [if_neg hc]

theorem last_check_eq_ok {c : Prop} [Decidable c] {e : ε} {b : β} :
    (if c then (throw e : Except ε β) else pure b) = .ok b ↔ ¬c := by
  by_cases hc : c
  · rw [if_pos hc]
    exact iff_of_false error_ne_ok fun h => h hc
  · rw [if_neg hc]
    exact iff_of_true rfl hc

theorem mapError_eq_ok {ε' : Type} {x : Except ε α} {f : ε → ε'} {a : α} :
    x.mapError f = .ok a ↔ x = .ok a := by
  cases x with
  | ok a' => simp [Except.mapError]
  | error e => simp [Except.mapError]

theorem map_eq_ok {x : Except ε α} {f : α → β} {b : β} :
    x.map f = .ok b ↔ ∃ a, x = .ok a ∧ f a = b := by
  cases x with
  | ok a => simp [Except.map]
  | error e => simp [Except.map]

theorem map_eq_error {x : Except ε α} {f : α → β} {e : ε} :
    x.map f = .error e ↔ x = .error e := by
  cases x with
  | ok a => simp [Except.map]
  | error e' => simp [Except.map]

theorem forM_eq_ok {l : List α} {f : α → Except ε Unit} :
    l.forM f = .ok () ↔ ∀ a ∈ l, f a = .ok () := by
  induction l with
  | nil => simp [List.forM, pure, Except.pure]
  | cons a l ih =>
    show (f a >>= fun _ => l.forM f) = .ok () ↔ _
    rw [then_eq_ok, List.forall_mem_cons, ih]

theorem forM_congr {l : List α} {f g : α → Except ε Unit} (h : ∀ a ∈ l, f a = g a) :
    l.forM f = l.forM g := by
  induction l with
  | nil => rfl
  | cons a l ih =>
    rw [List.forall_mem_cons] at h
    show (f a >>= fun _ => l.forM f) = (g a >>= fun _ => l.forM g)
    rw [h.1, ih h.2]

-- A list of checks fails as its first check that fails.
theorem exists_of_forM_eq_error {l : List α} {f : α → Except ε Unit} {e : ε}
    (h : l.forM f = .error e) : ∃ before a after, l = before ++ a :: after ∧
      (∀ b ∈ before, f b = .ok ()) ∧ f a = .error e := by
  induction l with
  | nil => exact nomatch h
  | cons a l ih =>
    have h : (f a >>= fun _ => l.forM f) = .error e := h
    cases ha : f a with
    | error e' =>
      rw [ha, error_bind] at h
      exact ⟨[], a, l, rfl, by simp, ha.trans (congrArg _ (Except.error.inj h))⟩
    | ok _ =>
      rw [ha, ok_bind] at h
      obtain ⟨before, b, after, rfl, hbefore, hb⟩ := ih h
      exact ⟨a :: before, b, after, rfl, List.forall_mem_cons.2 ⟨ha, hbefore⟩, hb⟩

-- A list is converted item by item, and as a whole only if every item is.
theorem mapM_eq_ok {l : List α} {f : α → Except ε β} {bs : List β} :
    l.mapM f = .ok bs ↔ List.Forall₂ (fun a b => f a = .ok b) l bs := by
  induction l generalizing bs with
  | nil => cases bs <;> simp [pure, Except.pure]
  | cons a l ih =>
    rw [List.mapM_cons, bind_eq_ok]
    constructor
    · rintro ⟨b, ha, h⟩
      obtain ⟨bs', hl, h⟩ := bind_eq_ok.1 h
      obtain rfl : b :: bs' = bs := Except.ok.inj h
      exact .cons ha (ih.1 hl)
    · rintro (_ | ⟨ha, hl⟩)
      exact ⟨_, ha, bind_eq_ok.2 ⟨_, ih.2 hl, rfl⟩⟩

theorem exists_of_mem_mapM {l : List α} {f : α → Except ε β} {bs : List β} {b : β}
    (h : l.mapM f = .ok bs) (hb : b ∈ bs) : ∃ a ∈ l, f a = .ok b := by
  obtain ⟨i, hi, rfl⟩ := List.mem_iff_getElem.1 hb
  have hall := mapM_eq_ok.1 h
  have hi' : i < l.length := by rwa [hall.length_eq]
  exact ⟨l[i], List.getElem_mem hi', hall.get hi' hi⟩

theorem exists_of_mapM_eq_error {l : List α} {f : α → Except ε β} {e : ε}
    (h : l.mapM f = .error e) : ∃ a ∈ l, f a = .error e := by
  induction l with
  | nil => exact nomatch h
  | cons a l ih =>
    rw [List.mapM_cons] at h
    cases ha : f a with
    | error e' =>
      rw [ha, error_bind] at h
      exact ⟨a, List.mem_cons_self, by rw [ha, Except.error.inj h]⟩
    | ok b =>
      rw [ha, ok_bind] at h
      cases hl : l.mapM f with
      | error e' =>
        rw [hl, error_bind] at h
        obtain ⟨c, hc, hce⟩ := ih (hl.trans (congrArg _ (Except.error.inj h)))
        exact ⟨c, List.mem_cons_of_mem a hc, hce⟩
      | ok bs =>
        rw [hl] at h
        exact nomatch h

theorem mapM_map {γ : Type} (l : List γ) (g : γ → α) (f : α → Except ε β) :
    (l.map g).mapM f = l.mapM fun c => f (g c) := by
  induction l with
  | nil => rfl
  | cons c l ih => rw [List.map_cons, List.mapM_cons, List.mapM_cons, ih]

theorem mapM_ok {l : List α} {f : α → Except ε β} {g : α → β} (h : ∀ a ∈ l, f a = .ok (g a)) :
    l.mapM f = .ok (l.map g) := by
  rw [mapM_eq_ok, List.forall₂_map_right_iff, List.forall₂_same]
  exact h

-- A list fails as its first item that fails.
theorem mapM_eq_error_of_find? {l : List α} {f : α → Except ε β} {fails : α → Bool}
    (hok : ∀ b ∈ l, fails b = false → ∃ c, f b = .ok c) {a : α} {e : ε}
    (ha : l.find? fails = some a) (h : f a = .error e) : l.mapM f = .error e := by
  induction l with
  | nil => contradiction
  | cons b l ih =>
    rw [List.forall_mem_cons] at hok
    rw [List.mapM_cons]
    cases hb : fails b with
    | true =>
      rw [List.find?_cons_of_pos hb] at ha
      obtain rfl := Option.some.inj ha
      rw [h]
      rfl
    | false =>
      rw [List.find?_cons_of_neg (Bool.eq_false_iff.1 hb)] at ha
      obtain ⟨c, hc⟩ := hok.1 hb
      rw [hc, ok_bind, ih hok.2 ha]
      rfl

theorem mapM_eq_error_of_mem {l : List α} {f : α → Except ε β} {a : α} {e : ε} (ha : a ∈ l)
    (h : f a = .error e) : ∃ b ∈ l, ∃ e, f b = .error e ∧ l.mapM f = .error e := by
  induction l with
  | nil => exact absurd ha List.not_mem_nil
  | cons b l ih =>
    rw [List.mapM_cons]
    cases hb : f b with
    | error e => exact ⟨b, List.mem_cons_self, e, hb, rfl⟩
    | ok b' =>
      have htail : a ∈ l := by
        rcases List.mem_cons.1 ha with rfl | ha
        · rw [hb] at h
          contradiction
        · exact ha
      obtain ⟨c, hc, e, hce, hl⟩ := ih htail
      refine ⟨c, List.mem_cons_of_mem b hc, e, hce, ?_⟩
      rw [Fallible.ok_bind, hl]
      rfl

/-- Both computations succeed, with results that are related, or both fail. -/
inductive Together (R : α → β → Prop) : Except ε α → Except ε β → Prop where
  | ok {a : α} {b : β} (h : R a b) : Together R (.ok a) (.ok b)
  | error (e e' : ε) : Together R (.error e) (.error e')

namespace Together

variable {γ δ : Type} {R : α → β → Prop} {S : γ → δ → Prop} {x : Except ε α} {y : Except ε β}

theorem map {f : α → γ} {g : β → δ} (h : Together R x y)
    (hRS : ∀ a b, x = .ok a → R a b → S (f a) (g b)) : Together S (x.map f) (y.map g) := by
  cases h with
  | ok h => exact .ok (hRS _ _ rfl h)
  | error e e' => exact .error e e'

-- What is the same of their results or errors also tells that they succeed together.
theorem of_map_eq {f : α → γ} {g : β → γ} (h : x.map f = y.map g) :
    Together (fun a b => f a = g b) x y := by
  cases x with
  | error e =>
    cases y with
    | error e' => exact .error e e'
    | ok b => exact nomatch h
  | ok a =>
    cases y with
    | error e' => exact nomatch h
    | ok b => exact .ok (Except.ok.inj h)

end Together

end BenchLedger.Fallible
