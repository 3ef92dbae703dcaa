import SnapshotSql.Proofs.StableSort.Short
/-! # Partitioning arranges -/

namespace SnapshotSql.StableSort

variable {α : Type} {before : α → α → Bool}

private theorem estimateMedian_eq_get (get : Nat → α) (start n : Nat) :
    ∃ i, estimateMedian before get start n = get i := by
  induction n using Nat.strongRecOn generalizing start with
  | ind n ih =>
    have hsample : ∀ j, ∃ i,
        (if 8 ≤ n / 8 then estimateMedian before get j (n / 8) else get j) = get i := by
      intro j
      split
      · exact ih (n / 8) (by omega) j
      · exact ⟨j, rfl⟩
    rw [estimateMedian]
    obtain ⟨i, hi⟩ := hsample start
    obtain ⟨j, hj⟩ := hsample (start + 4 * (n / 8))
    obtain ⟨k, hk⟩ := hsample (start + 7 * (n / 8))
    simp only [hi, hj, hk, median]
    split
    · split
      · exact ⟨j, rfl⟩
      · exact ⟨k, rfl⟩
    · exact ⟨i, rfl⟩

private theorem pivot_mem (x : α) (xs : List α) : pivot before x xs ∈ x :: xs := by
  obtain ⟨i, hi⟩ := @estimateMedian_eq_get α before ((x :: xs).toArray.getD · x) 0
    (x :: xs).toArray.size
  have hpivot : pivot before x xs = (x :: xs).toArray.getD i x := hi
  rw [hpivot, Array.getD_eq_getD_getElem?, List.getElem?_toArray]
  cases hget : (x :: xs)[i]? with
  | none => exact List.mem_cons_self
  | some a => exact List.mem_of_getElem? hget

section

variable {all xs ys : List α}

private theorem filter_and_of_const {p q : α → Bool} {c : Bool} (h : ∀ b ∈ xs, p b = true → q b = c) :
    xs.filter (fun b => p b && q b) = if c then xs.filter p else [] := by
  have hconst : ∀ b ∈ xs, (p b && q b) = (p b && c) := by
    intro b hb
    cases hp : p b with
    | false => rfl
    | true => rw [h b hb hp]
  rw [List.filter_congr hconst]
  cases c <;> simp

private theorem arranged_of_split {p : α → Bool} (ho : Orders before all) (hsub : xs ⊆ all)
    (hp : ∀ a ∈ xs, ∀ b ∈ xs, tied before a b = true → p a = p b)
    (h : Arranged before (xs.filter p ++ xs.filter fun x => !p x) ys) : Arranged before xs ys := by
  have hperm := List.filter_append_perm p xs
  have hosplit : Orders before (xs.filter p ++ xs.filter fun x => !p x) :=
    ho.mono (List.Subset.trans hperm.subset hsub)
  constructor
  case perm => exact h.perm.trans hperm
  case rises => exact fun _ => h.rises hosplit
  case keeps =>
    intro _ a ha
    rw [h.keeps hosplit a (hperm.mem_iff.mpr ha), List.filter_append, List.filter_filter,
      List.filter_filter]
    -- The elements tied with `a` are all on the side of `a`.
    have hside : ∀ b ∈ xs, tied before a b = true → p b = p a := fun b hb hab =>
      (hp a ha b hb hab).symm
    rw [filter_and_of_const hside, filter_and_of_const fun b hb hab => congrArg not (hside b hb hab)]
    cases p a
    · exact List.nil_append _
    · exact List.append_nil _

private theorem arranged_upTo {p : α} (ho : Orders before all) (hsub : xs ⊆ all) (hp : p ∈ all)
    (hge : ∀ x ∈ xs, before x p = false) (h : Arranged before (xs.filter (before p ·)) ys) :
    Arranged before xs (xs.filter (!before p ·) ++ ys) := by
  have hties : ∀ a ∈ xs.filter (!before p ·), ∀ b ∈ xs.filter (!before p ·),
      before b a = false := by
    intro a ha b hb
    obtain ⟨hamem, _⟩ := List.mem_filter.mp ha
    obtain ⟨hbmem, hpb⟩ := List.mem_filter.mp hb
    have hpa : before p a = false := by simpa using (List.mem_filter.mp ha).2
    exact ho.trans a (hsub hamem) p hp b (hsub hbmem) hpa (hge b hbmem)
  have hupTo : Arranged before (xs.filter (!before p ·)) (xs.filter (!before p ·)) :=
    .refl_of_rises fun _ => List.pairwise_of_forall_mem_list fun a ha b hb => hties a ha b hb
  have habove : Arranged before (xs.filter fun x => !!before p x) ys := by
    simpa only [Bool.not_not] using h
  refine arranged_of_split ho hsub ?_ (hupTo.append habove ?_)
  · intro a ha b hb hab
    rw [ho.tied_congr_left (hsub ha) (hsub hb) hp hab]
  · intro _ a ha b hb
    obtain ⟨hamem, hpa⟩ := List.mem_filter.mp ha
    obtain ⟨hbmem, hpb⟩ := List.mem_filter.mp hb
    have hpa' : before p a = false := by simpa using hpa
    have hpb' : before p b = true := by simpa using hpb
    exact ho.asymm a (hsub hamem) b (hsub hbmem)
      (ho.lt_of_le_of_lt (hsub hamem) hp (hsub hbmem) hpa' hpb')

private theorem arranged_low_high {p : α} {zs : List α} (ho : Orders before all) (hsub : xs ⊆ all)
    (hp : p ∈ all) (hlow : Arranged before (xs.filter (before · p)) ys)
    (hhigh : Arranged before (xs.filter (!before · p)) zs) : Arranged before xs (ys ++ zs) := by
  refine arranged_of_split ho hsub ?_ (hlow.append hhigh ?_)
  · intro a ha b hb hab
    exact ho.tied_congr_right (hsub ha) (hsub hb) hp hab
  · intro _ a ha b hb
    obtain ⟨hamem, hap⟩ := List.mem_filter.mp ha
    obtain ⟨hbmem, hbp⟩ := List.mem_filter.mp hb
    have hbp' : before b p = false := by simpa using hbp
    exact ho.asymm a (hsub hamem) b (hsub hbmem)
      (ho.lt_of_lt_of_le (hsub hamem) hp (hsub hbmem) hap hbp')

private theorem part_of_sorts {r : Option (List α)} (hsub : xs ⊆ all) (h : Sorts before xs r) :
    Attains (fun ys => ys.Perm xs ∧ (Orders before all → Arranged before xs ys))
      (Orders before all) r :=
  h.mono (fun _ hys => ⟨hys.perm, fun _ => hys⟩) fun ho => ho.mono hsub

private theorem partitionSort_part {sortRest : List α → Option (List α)}
    (hrest : ∀ xs, Sorts before xs (sortRest xs)) (limit : Nat) (bound : Option α) (hsub : xs ⊆ all)
    (hbound : ∀ b, bound = some b → b ∈ all ∧ ∀ x ∈ xs, before x b = false) :
    Attains (fun ys => ys.Perm xs ∧ (Orders before all → Arranged before xs ys))
      (Orders before all) (partitionSort before sortRest limit bound xs) := by
  have hnil : ∀ ys : List α, ys = [] → ys.Perm ys ∧ (Orders before all → Arranged before ys ys) :=
    fun ys hys => ⟨.refl ys, fun _ => .refl_of_rises fun _ => hys ▸ List.Pairwise.nil⟩
  induction limit generalizing bound xs with
  | zero =>
    cases xs with
    | nil => exact hnil [] rfl
    | cons x xs =>
      rw [partitionSort]
      split
      · exact part_of_sorts hsub (sortShort_sorts (x :: xs))
      · exact part_of_sorts hsub (hrest (x :: xs))
  | succ limit ih =>
    cases xs with
    | nil => exact hnil [] rfl
    | cons x xs =>
      have hp : pivot before x xs ∈ all := hsub (pivot_mem x xs)
      have hfilter : ∀ q : α → Bool, (x :: xs).filter q ⊆ all := fun q =>
        List.Subset.trans (List.filter_subset_self _) hsub
      rw [partitionSort]
      simp only [List.partition_eq_filter_filter]
      split
      · exact part_of_sorts hsub (sortShort_sorts (x :: xs))
      · split
        · rename_i hmet
          refine (ih none (hfilter _) (by simp)).map fun ys hys => ⟨?_, fun ho => ?_⟩
          · exact (hys.1.append_left _).trans (List.filter_append_perm _ _)
          have hge : ∀ y ∈ x :: xs, before y (pivot before x xs) = false := by
            rcases Bool.or_eq_true_iff.mp hmet with hmet | hempty
            · obtain ⟨b, hb, hbp⟩ := (Option.any_eq_true _ _).mp hmet
              obtain ⟨hbmem, hxb⟩ := hbound b hb
              intro y hy
              exact ho.trans _ hp b hbmem y (hsub hy) (by simpa using hbp) (hxb y hy)
            · intro y hy
              have hnone := List.filter_eq_nil_iff.mp (List.isEmpty_iff.mp hempty) y hy
              simpa using hnone
          refine arranged_upTo ho hsub hp hge ?_
          have hnot : (not ∘ fun y => !before (pivot before x xs) y) =
              (before (pivot before x xs) ·) := by
            funext y
            simp
          rw [← hnot]
          exact hys.2 ho
        · refine (ih bound (hfilter _) ?_).bind fun ys hys =>
            (ih _ (hfilter _) ?_).bind fun zs hzs => ⟨?_, fun ho => ?_⟩
          · intro b hb
            obtain ⟨hbmem, hxb⟩ := hbound b hb
            exact ⟨hbmem, fun y hy => hxb y (List.mem_of_mem_filter hy)⟩
          · intro b hb
            cases hb
            exact ⟨hp, fun y hy => by simpa using (List.mem_filter.mp hy).2⟩
          · exact (hys.1.append hzs.1).trans (List.filter_append_perm _ _)
          · exact arranged_low_high ho hsub hp (hys.2 ho) (hzs.2 ho)

end

theorem partitionSort_sorts {sortRest : List α → Option (List α)}
    (hrest : ∀ xs, Sorts before xs (sortRest xs)) (limit : Nat) (xs : List α) :
    Sorts before xs (partitionSort before sortRest limit none xs) :=
  (partitionSort_part hrest limit none (List.Subset.refl xs) (by simp)).mono
    (fun _ hys => ⟨hys.1, fun ho => (hys.2 ho).rises ho, fun ho => (hys.2 ho).keeps ho⟩) id

end SnapshotSql.StableSort
