import SnapshotSql.StableSort
import Mathlib.Data.List.Basic
/-! # Stable arrangements -/

namespace SnapshotSql.StableSort

variable {α : Type} {before : α → α → Bool}

/-- The relation is a strict order on the elements of a list, up to ties. -/
structure Orders (before : α → α → Bool) (xs : List α) : Prop where
  asymm : ∀ a ∈ xs, ∀ b ∈ xs, before a b = true → before b a = false
  trans : ∀ a ∈ xs, ∀ b ∈ xs, ∀ c ∈ xs, before b a = false → before c b = false →
    before c a = false

instance (before : α → α → Bool) (xs : List α) : Decidable (Orders before xs) :=
  decidable_of_iff
    ((∀ a ∈ xs, ∀ b ∈ xs, before a b = true → before b a = false) ∧
      ∀ a ∈ xs, ∀ b ∈ xs, ∀ c ∈ xs, before b a = false → before c b = false → before c a = false)
    ⟨fun h => ⟨h.1, h.2⟩, fun h => ⟨h.asymm, h.trans⟩⟩

/-- Neither element precedes the other. -/
def tied (before : α → α → Bool) (a b : α) : Bool := !before a b && !before b a

/-- No element precedes an earlier one. -/
def Rises (before : α → α → Bool) (xs : List α) : Prop :=
  xs.Pairwise fun a b => before b a = false

/-- The second list has the elements of the first one, and under an order it rises and keeps ties. -/
structure Arranged (before : α → α → Bool) (xs ys : List α) : Prop where
  perm : ys.Perm xs
  rises : Orders before xs → Rises before ys
  keeps : Orders before xs → ∀ a ∈ xs, ys.filter (tied before a) = xs.filter (tied before a)

/-- What is known of an attempt: its result has a property, and without a result a condition is broken. -/
def Attains {ρ : Type} (property : ρ → Prop) (condition : Prop) : Option ρ → Prop
  | some r => property r
  | none => ¬condition

/-- The attempt arranges a list unless the list is in no order. -/
def Sorts (before : α → α → Bool) (xs : List α) (attempt : Option (List α)) : Prop :=
  Attains (Arranged before xs) (Orders before xs) attempt

namespace Attains

variable {ρ σ : Type} {p p' : ρ → Prop} {q : σ → Prop} {c c' : Prop} {r : Option ρ}

theorem exists_some (h : Attains p c r) (hc : c) : ∃ a, r = some a ∧ p a := by
  cases r with
  | none => exact absurd hc h
  | some a => exact ⟨a, rfl, h⟩

theorem mono (h : Attains p c r) (hp : ∀ a, p a → p' a) (hc : c' → c) : Attains p' c' r := by
  cases r with
  | none => exact fun hc' => h (hc hc')
  | some a => exact hp a h

theorem under (h : Attains p c r) (hc : c' → c) : Attains p c' r := h.mono (fun _ => id) hc

theorem bind {f : ρ → Option σ} (h : Attains p c r) (hf : ∀ a, p a → Attains q c (f a)) :
    Attains q c (r >>= f) := by
  cases r with
  | none => exact h
  | some a => exact hf a h

theorem map {f : ρ → σ} (h : Attains p c r) (hf : ∀ a, p a → q (f a)) : Attains q c (r.map f) := by
  cases r with
  | none => exact h
  | some a => exact hf a h

end Attains

namespace Orders

variable {xs ys : List α} {a b c : α}

/-- A comparison that reverses with its arguments and is transitive on a list orders it. -/
theorem of_compare {cmp : α → α → Ordering} (hswap : ∀ a b, cmp a b = (cmp b a).swap)
    (htrans : ∀ a ∈ xs, ∀ b ∈ xs, ∀ c ∈ xs, cmp a b ≠ .gt → cmp b c ≠ .gt → cmp a c ≠ .gt) :
    Orders (fun a b => cmp a b == .lt) xs where
  asymm a _ b _ hab := by
    rw [beq_iff_eq] at hab
    rw [hswap, hab]
    rfl
  trans a ha b hb c hc hba hcb := by
    have hle : ∀ {u v : α}, (cmp v u == .lt) = false ↔ cmp u v ≠ .gt := by
      intro u v
      rw [hswap u v]
      cases cmp v u <;> simp
    rw [hle] at hba hcb ⊢
    exact htrans a ha b hb c hc hba hcb

theorem mono (h : Orders before xs) (hsub : ys ⊆ xs) : Orders before ys where
  asymm a ha b hb := h.asymm a (hsub ha) b (hsub hb)
  trans a ha b hb c hc := h.trans a (hsub ha) b (hsub hb) c (hsub hc)

theorem left (h : Orders before (xs ++ ys)) : Orders before xs :=
  h.mono (List.subset_append_left xs ys)

theorem right (h : Orders before (xs ++ ys)) : Orders before ys :=
  h.mono (List.subset_append_right xs ys)

theorem irrefl (h : Orders before xs) (ha : a ∈ xs) : before a a = false := by
  cases haa : before a a with
  | false => rfl
  | true => exact haa ▸ h.asymm a ha a ha haa

theorem lt_of_lt_of_le (h : Orders before xs) (ha : a ∈ xs) (hb : b ∈ xs) (hc : c ∈ xs)
    (hab : before a b = true) (hbc : before c b = false) : before a c = true := by
  by_contra hac
  have hca : before a c = false := by simpa using hac
  have := h.trans b hb c hc a ha hbc hca
  rw [hab] at this
  cases this

theorem lt_of_le_of_lt (h : Orders before xs) (ha : a ∈ xs) (hb : b ∈ xs) (hc : c ∈ xs)
    (hab : before b a = false) (hbc : before b c = true) : before a c = true := by
  by_contra hac
  have hca : before a c = false := by simpa using hac
  have := h.trans c hc a ha b hb hca hab
  rw [hbc] at this
  cases this

theorem reverse (h : Orders before xs) : Orders (fun a b => before b a) xs where
  asymm a ha b hb hab := h.asymm b hb a ha hab
  trans a ha b hb c hc hab hbc := h.trans c hc b hb a ha hbc hab

theorem tied_congr_right (h : Orders before xs) (ha : a ∈ xs) (hb : b ∈ xs) (hc : c ∈ xs)
    (hab : tied before a b = true) : before a c = before b c := by
  simp only [tied, Bool.and_eq_true, Bool.not_eq_true'] at hab
  cases hac : before a c with
  | true => exact (h.lt_of_le_of_lt hb ha hc hab.1 hac).symm
  | false =>
    cases hbc : before b c with
    | false => rfl
    | true =>
      rw [h.lt_of_le_of_lt ha hb hc hab.2 hbc] at hac
      cases hac

theorem tied_congr_left (h : Orders before xs) (ha : a ∈ xs) (hb : b ∈ xs) (hc : c ∈ xs)
    (hab : tied before a b = true) : before c a = before c b := by
  refine h.reverse.tied_congr_right ha hb hc ?_
  simpa only [tied, Bool.and_comm] using hab

end Orders

theorem rises_append {xs ys : List α} (hx : Rises before xs) (hy : Rises before ys)
    (h : ∀ a ∈ xs, ∀ b ∈ ys, before b a = false) : Rises before (xs ++ ys) :=
  List.pairwise_append.mpr ⟨hx, hy, h⟩

theorem rises_reverse {xs : List α} : Rises (fun a b => before b a) xs.reverse ↔ Rises before xs :=
  List.pairwise_reverse

namespace Arranged

variable {xs ys zs us vs : List α}

theorem mem_iff (h : Arranged before xs ys) {a : α} : a ∈ ys ↔ a ∈ xs := h.perm.mem_iff

theorem length_eq (h : Arranged before xs ys) : ys.length = xs.length := h.perm.length_eq

theorem refl_of_rises (h : Orders before xs → Rises before xs) : Arranged before xs xs :=
  ⟨List.Perm.refl xs, h, fun _ _ _ => rfl⟩

private theorem head_eq {a b : α} {as bs : List α} (ho : Orders before (a :: as))
    (hperm : (b :: bs).Perm (a :: as)) (hra : Rises before (a :: as))
    (hrb : Rises before (b :: bs))
    (hties : (b :: bs).filter (tied before a) = (a :: as).filter (tied before a)) : b = a := by
  have ha : a ∈ a :: as := List.mem_cons_self
  have hb : b ∈ a :: as := hperm.mem_iff.mp List.mem_cons_self
  have haa : tied before a a = true := by simp [tied, ho.irrefl ha]
  have hba : before b a = false := by
    rcases List.mem_cons.mp hb with rfl | hb'
    · exact ho.irrefl ha
    · exact (List.pairwise_cons.mp hra).1 b hb'
  have hab : before a b = false := by
    rcases List.mem_cons.mp (hperm.mem_iff.mpr ha) with rfl | ha'
    · exact ho.irrefl ha
    · exact (List.pairwise_cons.mp hrb).1 a ha'
  have htied : tied before a b = true := by simp [tied, hab, hba]
  rw [List.filter_cons_of_pos htied, List.filter_cons_of_pos haa] at hties
  exact (List.cons.inj hties).1

private theorem eq_of_rises (ho : Orders before ys) (hy : Rises before ys) (hz : Rises before zs)
    (hperm : zs.Perm ys) (hties : ∀ a ∈ ys, zs.filter (tied before a) = ys.filter (tied before a)) :
    zs = ys := by
  induction ys generalizing zs with
  | nil => exact hperm.eq_nil
  | cons a as ih =>
    cases zs with
    | nil => exact absurd hperm.length_eq (by simp)
    | cons b bs =>
      have hba : b = a := head_eq ho hperm hy hz (hties a List.mem_cons_self)
      subst hba
      have htail : bs = as := by
        refine ih (ho.mono (List.subset_cons_self b as)) (List.pairwise_cons.mp hy).2
          (List.pairwise_cons.mp hz).2 (List.Perm.cons_inv hperm) ?_
        intro c hc
        have hcons := hties c (List.mem_cons_of_mem b hc)
        by_cases hcb : tied before c b = true
        · rw [List.filter_cons_of_pos hcb, List.filter_cons_of_pos hcb] at hcons
          exact (List.cons.inj hcons).2
        · rwa [List.filter_cons_of_neg hcb, List.filter_cons_of_neg hcb] at hcons
      rw [htail]

theorem unique (ho : Orders before xs) (hy : Arranged before xs ys) (hz : Arranged before xs zs) :
    ys = zs := by
  refine eq_of_rises (ho.mono hz.perm.subset) (hz.rises ho) (hy.rises ho)
    (hy.perm.trans hz.perm.symm) ?_
  intro a ha
  have ha' : a ∈ xs := hz.mem_iff.mp ha
  rw [hy.keeps ho a ha', hz.keeps ho a ha']

theorem filter_tied {all : List α} (h : Arranged before xs ys) (ho : Orders before all)
    (hsub : xs ⊆ all) {a : α} (ha : a ∈ all) :
    ys.filter (tied before a) = xs.filter (tied before a) := by
  by_cases hex : ∃ b ∈ xs, tied before a b = true
  · obtain ⟨b, hb, hab⟩ := hex
    have heq : ∀ c ∈ xs, tied before a c = tied before b c := by
      intro c hc
      rw [tied, tied, ho.tied_congr_right ha (hsub hb) (hsub hc) hab,
        ho.tied_congr_left ha (hsub hb) (hsub hc) hab]
    rw [List.filter_congr fun c hc => heq c (h.mem_iff.mp hc), List.filter_congr heq]
    exact h.keeps (ho.mono hsub) b hb
  · have hnone : ∀ c ∈ xs, ¬tied before a c = true := fun c hc htie => hex ⟨c, hc, htie⟩
    rw [List.filter_eq_nil_iff.mpr hnone,
      List.filter_eq_nil_iff.mpr fun c hc => hnone c (h.mem_iff.mp hc)]

/-- Arrangements side by side, if nothing on the right precedes anything on the left. -/
theorem append (hx : Arranged before xs us) (hy : Arranged before ys vs)
    (h : Orders before (xs ++ ys) → ∀ a ∈ xs, ∀ b ∈ ys, before b a = false) :
    Arranged before (xs ++ ys) (us ++ vs) where
  perm := hx.perm.append hy.perm
  rises ho := by
    refine rises_append (hx.rises ho.left) (hy.rises ho.right) ?_
    intro a ha b hb
    exact h ho a (hx.mem_iff.mp ha) b (hy.mem_iff.mp hb)
  keeps ho a ha := by
    rw [List.filter_append, List.filter_append,
      hx.filter_tied ho (List.subset_append_left xs ys) ha,
      hy.filter_tied ho (List.subset_append_right xs ys) ha]

/-- An arrangement of the reverse under the reverse order, read from the back. -/
theorem reverse (h : Arranged (fun a b => before b a) xs.reverse ys) :
    Arranged before xs ys.reverse where
  perm := (List.reverse_perm ys).trans (h.perm.trans (List.reverse_perm xs))
  rises ho := by
    have hr := h.rises (ho.reverse.mono fun a ha => List.mem_reverse.mp ha)
    exact List.pairwise_reverse.mpr hr
  keeps ho a ha := by
    have hk := h.keeps (ho.reverse.mono fun a ha => List.mem_reverse.mp ha) a
      (List.mem_reverse.mpr ha)
    have htied : tied (fun a b => before b a) a = tied before a := by
      funext b
      rw [tied, tied, Bool.and_comm]
    rw [htied, List.filter_reverse] at hk
    rw [List.filter_reverse, hk, List.reverse_reverse]

end Arranged

end SnapshotSql.StableSort
