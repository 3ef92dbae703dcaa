import SnapshotSql.Proofs.StableSort.Run
/-! # Sorting arranges -/

namespace SnapshotSql.StableSort

variable {α : Type} {before : α → α → Bool}

private theorem nil_arranged : Arranged before ([] : List α) [] :=
  .refl_of_rises fun _ => List.Pairwise.nil

private theorem runs_sorted {runs : List (Option (List α))} {parts : List (List α)}
    (h : List.Forall₂ (fun run part => Sorts before part run) runs parts) :
    Attains (fun sorted => List.Forall₂ (fun ys part => Arranged before part ys) sorted parts)
      (Orders before parts.flatten) (runs.mapM id) := by
  induction h with
  | nil => exact List.Forall₂.nil
  | cons hrun _ ih =>
    rw [List.mapM_cons, List.flatten_cons]
    refine (hrun.under Orders.left).bind fun ys hys => ?_
    exact (ih.under Orders.right).bind fun sorted hsorted => .cons hys hsorted

private theorem mergeRuns_sorts (xs : List α) : Sorts before xs (mergeRuns before xs) := by
  cases xs with
  | nil =>
    rw [mergeRuns, cut]
    exact nil_arranged
  | cons x xs =>
    have hcut : ∃ parts, List.Forall₂ (fun run part => Sorts before part run)
        (cut before (goodLength (x :: xs).length) shortLength some (sortShort before)
          (x :: xs).length (x :: xs)) parts ∧ parts.flatten = x :: xs :=
      cut_covers (goodLength_pos (Nat.succ_pos xs.length)) (by decide) (fun _ _ h => h)
        sortShort_sorts _ _
    obtain ⟨parts, hparts, hflat⟩ := hcut
    have hruns := runs_sorted hparts
    rw [mergeRuns]
    rw [hflat] at hruns
    refine hruns.bind fun runs hruns => ?_
    have hmerge : ∀ p q us vs : List α, Arranged before us p → Arranged before vs q →
        Sorts before (us ++ vs) (some (merge before p q)) := fun _ _ _ _ hp hq => merge_arranged hp hq
    have hjoined := joinAll_covers hmerge List.length (x :: xs).length nil_arranged runs parts hruns
    rwa [hflat] at hjoined

private def Part.Covers (before : α → α → Bool) (p : Part α) (xs : List α) : Prop :=
  if p.isSorted then Arranged before xs p.items else p.items = xs

private theorem Part.toSorted_sorts {p : Part α} {xs : List α} (h : p.Covers before xs) :
    Sorts before xs (p.toSorted before) := by
  unfold Part.Covers at h
  unfold Part.toSorted
  split
  · rwa [if_pos ‹_›] at h
  · rw [if_neg ‹_›] at h
    rw [h]
    exact partitionSort_sorts mergeRuns_sorts _ xs

private theorem Part.join_covers (capacity : Nat) {p q : Part α} {xs ys : List α}
    (hp : p.Covers before xs) (hq : q.Covers before ys) :
    Attains (Part.Covers before · (xs ++ ys)) (Orders before (xs ++ ys))
      (Part.join before capacity p q) := by
  unfold Part.join
  split
  · refine ((Part.toSorted_sorts hp).under Orders.left).bind fun us hus => ?_
    refine ((Part.toSorted_sorts hq).under Orders.right).bind fun vs hvs => ?_
    exact merge_arranged hus hvs
  · rename_i hunsorted
    simp only [Bool.or_eq_true, not_or, Bool.not_eq_true] at hunsorted
    simp only [Part.Covers, hunsorted.1.1, hunsorted.1.2, Bool.false_eq_true, if_false] at hp hq
    rw [hp, hq]
    rfl

private theorem mergeParts_sorts (xs : List α) : Sorts before xs (mergeParts before xs) := by
  cases xs with
  | nil =>
    rw [mergeParts, cut]
    exact nil_arranged
  | cons x xs =>
    have hpos := goodLength_pos (Nat.succ_pos xs.length)
    have hsorted : ∀ ys zs : List α, Arranged before ys zs → (Part.ofSorted zs).Covers before ys :=
      fun _ _ h => h
    have hunsorted : ∀ ys : List α, (Part.ofUnsorted ys).Covers before ys := fun _ => rfl
    have hcut : ∃ parts, List.Forall₂ (Part.Covers before)
        (cut before (goodLength (x :: xs).length) (goodLength (x :: xs).length) Part.ofSorted
          Part.ofUnsorted (x :: xs).length (x :: xs)) parts ∧ parts.flatten = x :: xs :=
      cut_covers hpos hpos hsorted hunsorted _ _
    obtain ⟨parts, hparts, hflat⟩ := hcut
    have hjoin : ∀ (p q : Part α) (us vs : List α), p.Covers before us → q.Covers before vs →
        Attains (Part.Covers before · (us ++ vs)) (Orders before (us ++ vs))
          (Part.join before (capacity (x :: xs).length) p q) := fun _ _ _ _ => Part.join_covers _
    have hjoined := joinAll_covers hjoin Part.size (x :: xs).length (hsorted [] [] nil_arranged) _ parts
      hparts
    rw [hflat] at hjoined
    rw [mergeParts]
    exact hjoined.bind fun part hpart => Part.toSorted_sorts hpart

/-- Sorting a list arranges it. Only if the list is in no order there may be no result. -/
theorem sort_sorts (before : α → α → Bool) (xs : List α) : Sorts before xs (sort before xs) := by
  unfold sort
  split
  · exact insertionSort_arranged xs
  · split
    · exact mergeRuns_sorts xs
    · exact mergeParts_sorts xs

theorem sort_arranged {xs ys : List α} (h : sort before xs = some ys) : Arranged before xs ys := by
  have hsorts := sort_sorts before xs
  rwa [h] at hsorts

theorem sort_perm {xs ys : List α} (h : sort before xs = some ys) : ys.Perm xs :=
  (sort_arranged h).perm

/-- Under an order the method does not matter: the result is that of inserting the elements. -/
theorem sort_eq_insertionSort {xs : List α} (ho : Orders before xs) :
    sort before xs = some (insertionSort before xs) := by
  obtain ⟨ys, hsort, harranged⟩ := (sort_sorts before xs).exists_some ho
  rw [hsort, harranged.unique ho (insertionSort_arranged xs)]

end SnapshotSql.StableSort
