import BenchLedger.Series
import Mathlib.Data.List.Forall2
import Mathlib.Data.List.Nodup
import Mathlib.Data.Prod.Lex

/-!
# Stable sorting and ascending texts

`StablySorted` says what a stable sort is without saying how it is made.  There is at most one
stably sorted arrangement of a list, the insertion sort of the library produces it, and sorting
by one key and then by another is sorting by both.  `Enumerates` does the same for lists of texts
without repetitions.
-/

namespace BenchLedger

instance : Std.IsLinearOrder Instant where
  le_refl a := Int.le_refl a.ticks
  le_trans a b c := Int.le_trans (a := a.ticks) (b := b.ticks) (c := c.ticks)
  le_antisymm _ _ hab hba := Instant.ticks_inj.1 (Int.le_antisymm hab hba)
  le_total a b := Int.le_total a.ticks b.ticks

namespace Order

variable {α β κ γ : Type} [LE κ] [LE γ]

-- The first elements of two arrangements of one list have the same key.
private theorem key_head_eq [Std.IsLinearOrder κ] {key : α → κ} {a b : α} {s t : List α}
    (hs : (a :: s).Pairwise (key · ≤ key ·)) (ht : (b :: t).Pairwise (key · ≤ key ·))
    (hperm : (a :: s).Perm (b :: t)) : key a = key b := by
  have hab : key a ≤ key b := by
    rcases List.mem_cons.1 (hperm.mem_iff.2 List.mem_cons_self) with rfl | hb
    · exact Std.le_refl _
    · exact (List.pairwise_cons.1 hs).1 b hb
  have hba : key b ≤ key a := by
    rcases List.mem_cons.1 (hperm.mem_iff.1 List.mem_cons_self) with rfl | ha
    · exact Std.le_refl _
    · exact (List.pairwise_cons.1 ht).1 a ha
  exact Std.le_antisymm hab hba

-- In an ascending list those that are not after a given element stand in front.
private theorem exists_split_at [DecidableLE κ] [Std.IsLinearOrder κ] {key : α → κ} {s : List α}
    (hs : s.Pairwise (key · ≤ key ·)) (a : α) :
    ∃ front back, s = front ++ back ∧ (∀ b ∈ front, key b ≤ key a) ∧
      ∀ b ∈ back, ¬key b ≤ key a := by
  induction s with
  | nil => exact ⟨[], [], rfl, by simp, by simp⟩
  | cons b s ih =>
    obtain ⟨hb, hs⟩ := List.pairwise_cons.1 hs
    by_cases hba : key b ≤ key a
    · obtain ⟨front, back, rfl, hfront, hback⟩ := ih hs
      exact ⟨b :: front, back, rfl, List.forall_mem_cons.2 ⟨hba, hfront⟩, hback⟩
    · refine ⟨[], b :: s, rfl, by simp, List.forall_mem_cons.2 ⟨hba, ?_⟩⟩
      exact fun c hc hca => hba (Std.le_trans (hb c hc) hca)

variable [DecidableEq κ] [DecidableEq γ]

/-- `sorted` arranges `l` by ascending keys; where keys are equal the order of `l` stays. -/
structure StablySorted (key : α → κ) (l sorted : List α) : Prop where
  perm : sorted.Perm l
  ascending : sorted.Pairwise (key · ≤ key ·)
  ties : ∀ k, sorted.filter (key · = k) = l.filter (key · = k)

theorem filter_insertBefore [DecidableLE κ] [Std.IsLinearOrder κ] (key : α → κ) (k : κ) (a : α)
    (l : List α) :
    (insertBefore (fun a b => decide (key a ≤ key b)) a l).filter (key · = k) =
      (a :: l).filter (key · = k) := by
  induction l with
  | nil => rfl
  | cons b l ih =>
    rw [insertBefore]
    split
    case isTrue => rfl
    case isFalse hab =>
      rw [List.filter_cons, ih]
      -- `a` moves past `b`, so the two cannot both have the key `k`
      have hne : ¬ (key a = k ∧ key b = k) := by
        rintro ⟨rfl, hb⟩
        rw [hb] at hab
        exact hab (decide_eq_true (Std.le_refl _))
      by_cases ha : key a = k
      · have hb : key b ≠ k := fun hb => hne ⟨ha, hb⟩
        simp [ha, hb]
      · simp [List.filter_cons, ha]

theorem filter_stableSort [DecidableLE κ] [Std.IsLinearOrder κ] (key : α → κ) (k : κ)
    (l : List α) :
    (stableSort (fun a b => decide (key a ≤ key b)) l).filter (key · = k) =
      l.filter (key · = k) := by
  induction l with
  | nil => rfl
  | cons a l ih => rw [stableSort, filter_insertBefore, List.filter_cons, List.filter_cons, ih]

theorem stablySorted_stableSort [DecidableLE κ] [Std.IsLinearOrder κ] (key : α → κ)
    (l : List α) : StablySorted key l (stableSort (fun a b => decide (key a ≤ key b)) l) where
  perm := stableSort_perm _ l
  ascending := by
    let le (a b : α) : Bool := decide (key a ≤ key b)
    have htotal : ∀ a b, le a b = false → le b a = true := fun a b hab =>
      decide_eq_true (Std.le_of_not_ge (of_decide_eq_false hab))
    have htrans : ∀ a b c, le a b = true → le b c = true → le a c = true := fun a b c hab hbc =>
      decide_eq_true (Std.le_trans (of_decide_eq_true hab) (of_decide_eq_true hbc))
    exact (pairwise_stableSort htotal htrans l).imp of_decide_eq_true
  ties k := filter_stableSort key k l

private theorem eq_of_ascending_of_ties [Std.IsLinearOrder κ] {key : α → κ} {s t : List α}
    (hs : s.Pairwise (key · ≤ key ·)) (ht : t.Pairwise (key · ≤ key ·)) (hperm : s.Perm t)
    (hties : ∀ k, s.filter (key · = k) = t.filter (key · = k)) : s = t := by
  induction s generalizing t with
  | nil => exact hperm.nil_eq
  | cons a s ih =>
    cases t with
    | nil => exact hperm.eq_nil
    | cons b t =>
      -- both heads lead the ties of their common key, so they are one element
      have hkey := key_head_eq hs ht hperm
      have hhead := hties (key a)
      simp only [List.filter_cons, hkey, decide_true, if_true, List.cons.injEq] at hhead
      obtain ⟨rfl, -⟩ := hhead
      have htail : s = t := by
        apply ih (List.pairwise_cons.1 hs).2 (List.pairwise_cons.1 ht).2 hperm.cons_inv
        intro k
        have h := hties k
        simp only [List.filter_cons] at h
        split at h
        · exact (List.cons.inj h).2
        · exact h
      rw [htail]

namespace StablySorted

variable {key : α → κ} {l s : List α}

theorem unique [Std.IsLinearOrder κ] {t : List α} (hs : StablySorted key l s)
    (ht : StablySorted key l t) : s = t :=
  eq_of_ascending_of_ties hs.ascending ht.ascending (hs.perm.trans ht.perm.symm)
    fun k => (hs.ties k).trans (ht.ties k).symm

theorem mem_iff (h : StablySorted key l s) {a : α} : a ∈ s ↔ a ∈ l :=
  h.perm.mem_iff

-- Where no key occurs twice the order before sorting leaves no trace.
theorem eq_of_perm [Std.IsLinearOrder κ] {l' t : List α} (hs : StablySorted key l s)
    (ht : StablySorted key l' t) (hperm : l.Perm l') (hnodup : (l.map key).Nodup) : s = t := by
  have hst : s.Perm t := hs.perm.trans (hperm.trans ht.perm.symm)
  refine hst.eq_of_pairwise ?_ hs.ascending ht.ascending
  intro a b ha hb hab hba
  have hb : b ∈ l := hs.mem_iff.1 (hst.mem_iff.2 hb)
  exact List.inj_on_of_nodup_map hnodup (hs.mem_iff.1 ha) hb (Std.le_antisymm hab hba)

-- An element that is added behind all others stands behind those that are not after it.
theorem insert [Std.IsLinearOrder κ] {a : α} {front back : List α}
    (h : StablySorted key l (front ++ back)) (hfront : ∀ b ∈ front, key b ≤ key a)
    (hback : ∀ b ∈ back, ¬key b ≤ key a) : StablySorted key (l ++ [a]) (front ++ a :: back) where
  perm := List.perm_middle.trans ((h.perm.cons a).trans (List.perm_append_singleton a l).symm)
  ascending := by
    obtain ⟨hf, hb, hfb⟩ := List.pairwise_append.1 h.ascending
    refine List.pairwise_append.2 ⟨hf, List.Pairwise.cons ?_ hb, ?_⟩
    · exact fun c hc => Std.le_of_not_ge (hback c hc)
    · intro c hc d hd
      rcases List.mem_cons.1 hd with rfl | hd
      · exact hfront c hc
      · exact hfb c hc d hd
  ties k := by
    have hties : front.filter (key · = k) ++ back.filter (key · = k) = l.filter (key · = k) := by
      rw [← List.filter_append]
      exact h.ties k
    rw [List.filter_append, List.filter_append, ← hties, List.filter_cons]
    by_cases hk : key a = k
    · -- what stands behind the new element has another key
      have hnone : back.filter (key · = k) = [] := by
        rw [List.filter_eq_nil_iff]
        intro b hb hbk
        exact hback b hb (by rw [of_decide_eq_true hbk, hk]; exact Std.le_refl k)
      simp [hnone, hk]
    · simp [hk]

theorem exists_insert [DecidableLE κ] [Std.IsLinearOrder κ] (h : StablySorted key l s) (a : α) :
    ∃ front back, s = front ++ back ∧ (∀ b ∈ front, key b ≤ key a) ∧
      (∀ b ∈ back, ¬key b ≤ key a) ∧ StablySorted key (l ++ [a]) (front ++ a :: back) := by
  obtain ⟨front, back, rfl, hfront, hback⟩ := exists_split_at h.ascending a
  exact ⟨front, back, rfl, hfront, hback, h.insert hfront hback⟩

theorem filter (h : StablySorted key l s) (p : α → Bool) :
    StablySorted key (l.filter p) (s.filter p) where
  perm := h.perm.filter p
  ascending := h.ascending.filter p
  ties k := by
    have hk := congrArg (List.filter p) (h.ties k)
    simpa only [List.filter_filter, Bool.and_comm] using hk

theorem map (h : StablySorted key l s) (f : α → β) {key' : β → κ}
    (hkey : ∀ a ∈ l, key' (f a) = key a) : StablySorted key' (l.map f) (s.map f) where
  perm := h.perm.map f
  ascending := by
    rw [List.pairwise_map]
    refine h.ascending.imp_of_mem fun ha hb hab => ?_
    rwa [hkey _ (h.mem_iff.1 ha), hkey _ (h.mem_iff.1 hb)]
  ties k := by
    have hfilter : ∀ r : List α, (∀ a ∈ r, a ∈ l) →
        (r.map f).filter (key' · = k) = (r.filter (key · = k)).map f := by
      intro r hr
      rw [List.filter_map]
      refine congrArg _ (List.filter_congr fun a ha => ?_)
      show decide (key' (f a) = k) = decide (key a = k)
      rw [hkey a (hr a ha)]
    rw [hfilter s fun a => h.mem_iff.1, hfilter l fun _ => id, h.ties]

/-- Keys that order the elements alike arrange them alike. -/
theorem congr_key [Std.IsLinearOrder κ] [Std.IsLinearOrder γ] (h : StablySorted key l s)
    {key' : α → γ} (hle : ∀ a ∈ l, ∀ b ∈ l, key a ≤ key b ↔ key' a ≤ key' b) :
    StablySorted key' l s where
  perm := h.perm
  ascending := h.ascending.imp_of_mem fun ha hb hab =>
    (hle _ (h.mem_iff.1 ha) _ (h.mem_iff.1 hb)).1 hab
  ties k := by
    have heq : ∀ a ∈ l, ∀ b ∈ l, key a = key b ↔ key' a = key' b := by
      intro a ha b hb
      constructor
      · intro hab
        exact Std.le_antisymm ((hle a ha b hb).1 (hab ▸ Std.le_refl _))
          ((hle b hb a ha).1 (hab ▸ Std.le_refl _))
      · intro hab
        exact Std.le_antisymm ((hle a ha b hb).2 (hab ▸ Std.le_refl _))
          ((hle b hb a ha).2 (hab ▸ Std.le_refl _))
    by_cases hk : ∃ a ∈ l, key' a = k
    · obtain ⟨a, ha, rfl⟩ := hk
      have hfilter : ∀ r : List α, (∀ b ∈ r, b ∈ l) →
          r.filter (key' · = key' a) = r.filter (key · = key a) := fun r hr =>
        List.filter_congr fun b hb => decide_eq_decide.2 (heq b (hr b hb) a ha).symm
      rw [hfilter s fun _ => h.mem_iff.1, hfilter l fun _ => id, h.ties]
    · have hnone : ∀ b ∈ l, ¬key' b = k := fun b hb hbk => hk ⟨b, hb, hbk⟩
      rw [List.filter_eq_nil_iff.2, List.filter_eq_nil_iff.2]
      · simpa using hnone
      · intro b hb
        simpa using hnone b (h.mem_iff.1 hb)

/-- To sort by one key and then by another is to sort by both, the latter first. -/
theorem lex {κ γ : Type} [LinearOrder κ] [LinearOrder γ] {coarse : α → γ} {key : α → κ}
    {l m s : List α} (h : StablySorted coarse l m) (h' : StablySorted key m s) :
    StablySorted (fun a => toLex (key a, coarse a)) l s where
  perm := h'.perm.trans h.perm
  ascending := by
    -- elements with the same first key stand as the first sort left them
    have hties : s.Pairwise fun a b => ∀ k, key a = k → key b = k → coarse a ≤ coarse b := by
      rw [List.pairwise_iff_forall_sublist]
      intro a b hab k
      have hk : (s.filter (key · = k)).Pairwise (coarse · ≤ coarse ·) := by
        rw [h'.ties k]
        exact h.ascending.filter _
      rw [List.pairwise_filter, List.pairwise_iff_forall_sublist] at hk
      simpa using hk hab
    refine (h'.ascending.and hties).imp fun {a b} hab => ?_
    rw [Prod.Lex.toLex_le_toLex]
    rcases hab.1.lt_or_eq with hlt | heq
    · exact .inl hlt
    · exact .inr ⟨heq, hab.2 _ heq rfl⟩
  ties k := by
    obtain ⟨k, rfl⟩ := toLex.surjective k
    have hboth : ∀ r : List α, r.filter (fun a => toLex (key a, coarse a) = toLex k) =
        (r.filter (key · = k.1)).filter (coarse · = k.2) := by
      intro r
      rw [List.filter_filter]
      refine List.filter_congr fun a _ => ?_
      rw [← Bool.decide_and, decide_eq_decide, toLex.injective.eq_iff, Prod.ext_iff, and_comm]
    rw [hboth, hboth, h'.ties, List.filter_filter, List.filter_filter]
    have hswap := congrArg (List.filter (key · = k.1)) (h.ties k.2)
    rw [List.filter_filter, List.filter_filter] at hswap
    simpa only [Bool.and_comm] using hswap

end StablySorted

/-- `l` names each text with the property `p` once, in ascending order. -/
structure Enumerates (p : String → Prop) (l : List String) : Prop where
  ascending : l.Pairwise (· < ·)
  mem_iff : ∀ x, x ∈ l ↔ p x

theorem pairwise_insertDistinct [DecidableEq α] {lt : α → α → Bool}
    (trans : ∀ a b c, lt a b = true → lt b c = true → lt a c = true)
    (connected : ∀ a b, a ≠ b → lt a b = false → lt b a = true) (a : α) {l : List α}
    (h : l.Pairwise (lt · ·)) : (insertDistinct lt a l).Pairwise (lt · ·) := by
  induction l with
  | nil => simp [insertDistinct]
  | cons b l ih =>
    obtain ⟨hb, hl⟩ := List.pairwise_cons.1 h
    rw [insertDistinct]
    split
    case isTrue => exact h
    case isFalse hne =>
      split
      case isTrue hab =>
        refine List.Pairwise.cons ?_ h
        intro c hc
        rcases List.mem_cons.1 hc with rfl | hc
        · exact hab
        · exact trans a b c hab (hb c hc)
      case isFalse hab =>
        have hba : lt b a = true := connected a b hne (by simpa using hab)
        refine List.Pairwise.cons ?_ (ih hl)
        intro c hc
        rcases mem_insertDistinct.1 hc with rfl | hc
        · exact hba
        · exact hb c hc

theorem pairwise_sortDistinct [DecidableEq α] {lt : α → α → Bool}
    (trans : ∀ a b c, lt a b = true → lt b c = true → lt a c = true)
    (connected : ∀ a b, a ≠ b → lt a b = false → lt b a = true) (l : List α) :
    (sortDistinct lt l).Pairwise (lt · ·) := by
  induction l with
  | nil => exact .nil
  | cons a l ih => exact pairwise_insertDistinct trans connected a ih

theorem enumerates_sortTexts (texts : List String) : Enumerates (· ∈ texts) (sortTexts texts) where
  ascending := by
    let lt (a b : String) : Bool := decide (a < b)
    have htrans : ∀ a b c, lt a b = true → lt b c = true → lt a c = true := fun a b c hab hbc =>
      decide_eq_true (Std.lt_trans (of_decide_eq_true hab) (of_decide_eq_true hbc))
    have hconnected : ∀ a b, a ≠ b → lt a b = false → lt b a = true := fun a b hne hab =>
      decide_eq_true (Std.lt_of_le_of_ne (Std.not_lt.1 (of_decide_eq_false hab)) (Ne.symm hne))
    exact (pairwise_sortDistinct htrans hconnected texts).imp of_decide_eq_true
  mem_iff _ := mem_sortDistinct

theorem Enumerates.congr {p q : String → Prop} {l : List String} (h : Enumerates p l)
    (hpq : ∀ x, p x ↔ q x) : Enumerates q l where
  ascending := h.ascending
  mem_iff x := (h.mem_iff x).trans (hpq x)

theorem Enumerates.nodup {p : String → Prop} {l : List String} (h : Enumerates p l) : l.Nodup := by
  apply h.ascending.imp
  rintro a b hab rfl
  exact Std.lt_irrefl hab

theorem Enumerates.unique {p : String → Prop} {l m : List String} (hl : Enumerates p l)
    (hm : Enumerates p m) : l = m := by
  have hperm : l.Perm m := (List.perm_ext_iff_of_nodup hl.nodup hm.nodup).2
    fun x => (hl.mem_iff x).trans (hm.mem_iff x).symm
  exact hperm.eq_of_pairwise (fun a b _ _ hab hba => (Std.not_gt_of_lt hab hba).elim)
    hl.ascending hm.ascending

end Order

end BenchLedger
