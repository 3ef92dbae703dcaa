import Mathlib.Data.List.Induction
/-! # Classes of a list -/

namespace SnapshotSql.Classes

variable {α : Type} {alike : α → α → Bool} {xs : List α} {a f x : α}

/-- The elements that no earlier one is like. -/
def firsts (alike : α → α → Bool) (xs : List α) : List α := xs.eraseDupsBy fun x f => alike f x

/-- The elements like `f`. -/
def classOf (alike : α → α → Bool) (xs : List α) (f : α) : List α := xs.filter (alike f)

/-- Being alike is an equivalence on the elements of a list. -/
structure Classifies (alike : α → α → Bool) (xs : List α) : Prop where
  refl : ∀ x ∈ xs, alike x x = true
  symm : ∀ x ∈ xs, ∀ y ∈ xs, alike x y = true → alike y x = true
  trans : ∀ x ∈ xs, ∀ y ∈ xs, ∀ z ∈ xs, alike x y = true → alike y z = true → alike x z = true

theorem Classifies.init (h : Classifies alike (xs ++ [x])) : Classifies alike xs where
  refl y hy := h.refl y (List.mem_append_left [x] hy)
  symm y hy z hz := h.symm y (List.mem_append_left [x] hy) z (List.mem_append_left [x] hz)
  trans y hy z hz w hw := h.trans y (List.mem_append_left [x] hy) z (List.mem_append_left [x] hz) w
    (List.mem_append_left [x] hw)

private theorem loop_snoc (as bs : List α) (x : α) :
    List.eraseDupsBy.loop (fun x f => alike f x) (as ++ [x]) bs =
      if (List.eraseDupsBy.loop (fun x f => alike f x) as bs).any (alike · x) then
        List.eraseDupsBy.loop (fun x f => alike f x) as bs
      else List.eraseDupsBy.loop (fun x f => alike f x) as bs ++ [x] := by
  induction as generalizing bs with
  | nil =>
    simp only [List.nil_append, List.eraseDupsBy.loop, List.any_reverse]
    cases bs.any (alike · x) <;> simp
  | cons a as ih =>
    simp only [List.cons_append, List.eraseDupsBy.loop]
    by_cases hany : bs.any (alike · a) = true
    · simp only [hany]
      exact ih bs
    · simp only [Bool.not_eq_true] at hany
      simp only [hany]
      exact ih (a :: bs)

theorem firsts_snoc (alike : α → α → Bool) (xs : List α) (x : α) :
    firsts alike (xs ++ [x]) =
      if (firsts alike xs).any (alike · x) then firsts alike xs else firsts alike xs ++ [x] :=
  loop_snoc xs [] x

theorem mem_of_mem_firsts (hf : f ∈ firsts alike xs) : f ∈ xs := by
  induction xs using List.reverseRecOn with
  | nil => cases hf
  | append_singleton xs x ih =>
    rw [firsts_snoc] at hf
    split at hf
    · exact List.mem_append_left [x] (ih hf)
    · rcases List.mem_append.mp hf with hf | hf
      · exact List.mem_append_left [x] (ih hf)
      · exact List.mem_append_right xs hf

theorem exists_first (h : Classifies alike xs) (hx : x ∈ xs) :
    ∃ f ∈ firsts alike xs, alike f x = true := by
  induction xs using List.reverseRecOn with
  | nil => cases hx
  | append_singleton xs y ih =>
    rw [firsts_snoc]
    rcases List.mem_append.mp hx with hx' | hx'
    · obtain ⟨f, hf, hfx⟩ := ih h.init hx'
      refine ⟨f, ?_, hfx⟩
      split
      · exact hf
      · exact List.mem_append_left [y] hf
    · cases List.mem_singleton.mp hx'
      split
      · rename_i hany
        simpa using hany
      · exact ⟨x, by simp, h.refl x hx⟩

theorem firsts_apart (alike : α → α → Bool) (xs : List α) :
    (firsts alike xs).Pairwise fun f g => alike f g = false := by
  induction xs using List.reverseRecOn with
  | nil => exact .nil
  | append_singleton xs x ih =>
    rw [firsts_snoc]
    split
    · exact ih
    · rename_i hany
      refine List.pairwise_append.mpr ⟨ih, List.pairwise_singleton _ x, ?_⟩
      intro f hf g hg
      cases List.mem_singleton.mp hg
      simp only [List.any_eq_true, not_exists, not_and, Bool.not_eq_true] at hany
      exact hany f hf

/-- A new last element is like exactly one of the first elements, or like no element at all. -/
theorem firsts_snoc_cases (h : Classifies alike (xs ++ [x])) :
    (∃ front f back, firsts alike xs = front ++ f :: back ∧
      firsts alike (xs ++ [x]) = front ++ f :: back ∧ alike f x = true ∧
      ∀ g ∈ front ++ back, alike g x = false) ∨
    (firsts alike (xs ++ [x]) = firsts alike xs ++ [x] ∧
      (∀ f ∈ firsts alike xs, alike f x = false) ∧ ∀ y ∈ xs, alike x y = false) := by
  have hx : x ∈ xs ++ [x] := List.mem_append_right xs (List.mem_singleton_self x)
  have hmem : ∀ {y}, y ∈ xs → y ∈ xs ++ [x] := List.mem_append_left [x]
  rw [firsts_snoc]
  split
  · rename_i hany
    obtain ⟨f, hf, hfx⟩ := List.any_eq_true.mp hany
    obtain ⟨front, back, hsplit⟩ := List.append_of_mem hf
    refine .inl ⟨front, f, back, hsplit, hsplit, hfx, ?_⟩
    have hxf := h.symm f (hmem (mem_of_mem_firsts hf)) x hx hfx
    have hapart := firsts_apart alike xs
    rw [hsplit, List.pairwise_append, List.pairwise_cons] at hapart
    obtain ⟨_, ⟨hback, _⟩, hfront⟩ := hapart
    intro g hg
    have hgfirst : g ∈ firsts alike xs := by
      rw [hsplit]
      rcases List.mem_append.mp hg with hg | hg <;> simp [hg]
    have hgmem := hmem (mem_of_mem_firsts hgfirst)
    have hfmem := hmem (mem_of_mem_firsts hf)
    by_contra hgx
    have hgf : alike g f = true :=
      h.trans g hgmem x hx f hfmem (by simpa using hgx) hxf
    rcases List.mem_append.mp hg with hg | hg
    · rw [hfront g hg f List.mem_cons_self] at hgf
      cases hgf
    · have hfg := h.symm g hgmem f hfmem hgf
      rw [hback g hg] at hfg
      cases hfg
  · rename_i hany
    simp only [List.any_eq_true, not_exists, not_and, Bool.not_eq_true] at hany
    refine .inr ⟨rfl, hany, ?_⟩
    intro y hy
    by_contra hxy
    obtain ⟨f, hf, hfy⟩ := exists_first h.init hy
    have hyx := h.symm x hx y (hmem hy) (by simpa using hxy)
    have hfx := h.trans f (hmem (mem_of_mem_firsts hf)) y (hmem hy) x hx hfy hyx
    rw [hany f hf] at hfx
    cases hfx

theorem classOf_snoc (alike : α → α → Bool) (xs : List α) (x f : α) :
    classOf alike (xs ++ [x]) f = classOf alike xs f ++ if alike f x then [x] else [] := by
  rw [classOf, classOf, List.filter_append, List.filter_cons]
  rfl

theorem classOf_snoc_of_apart (hx : alike f x = false) :
    classOf alike (xs ++ [x]) f = classOf alike xs f := by
  rw [classOf_snoc, hx]
  simp

theorem classOf_congr (h : Classifies alike xs) (ha : a ∈ xs) (hf : f ∈ xs) (hx : x ∈ xs)
    (hax : alike a x = true) (hfx : alike f x = true) : classOf alike xs a = classOf alike xs f := by
  refine List.filter_congr fun y hy => Bool.eq_iff_iff.mpr ⟨fun hay => ?_, fun hfy => ?_⟩
  · exact h.trans f hf x hx y hy hfx (h.trans x hx a ha y hy (h.symm a ha x hx hax) hay)
  · exact h.trans a ha x hx y hy hax (h.trans x hx f hf y hy (h.symm f hf x hx hfx) hfy)

theorem flatten_classes_perm (h : Classifies alike xs) :
    ((firsts alike xs).map (classOf alike xs)).flatten.Perm xs := by
  induction xs using List.reverseRecOn with
  | nil => exact .nil
  | append_singleton xs x ih =>
    have hsame : ∀ gs : List α, (∀ g ∈ gs, alike g x = false) →
        gs.map (classOf alike (xs ++ [x])) = gs.map (classOf alike xs) := fun gs hgs =>
      List.map_congr_left fun g hg => classOf_snoc_of_apart (hgs g hg)
    have hperm := ih h.init
    rcases firsts_snoc_cases h with ⟨front, f, back, hold, hnew, hfx, hrest⟩ | ⟨hnew, hapart, hx⟩
    · rw [hold] at hperm
      rw [hnew, List.map_append, List.map_cons,
        hsame front fun g hg => hrest g (List.mem_append_left back hg),
        hsame back fun g hg => hrest g (List.mem_append_right front hg), classOf_snoc, hfx]
      simp only [List.map_append, List.map_cons, List.flatten_append, List.flatten_cons,
        if_true] at hperm ⊢
      refine List.Perm.trans ?_ (hperm.append_right [x])
      simp only [List.append_assoc]
      exact (List.perm_append_comm.append_left _).append_left _
    · have halone : classOf alike (xs ++ [x]) x = [x] := by
        have hnone : classOf alike xs x = [] := by simpa [classOf] using hx
        rw [classOf_snoc, hnone, h.refl x (by simp)]
        rfl
      rw [hnew, List.map_append, hsame _ hapart, List.flatten_append]
      simpa [halone] using hperm.append_right [x]

end SnapshotSql.Classes
