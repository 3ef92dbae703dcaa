import SnapshotSql.Proofs.StableSort.Merge
/-! # Short lists are arranged -/

namespace SnapshotSql.StableSort

variable {α : Type} {before : α → α → Bool} {xs ys : List α}

private theorem singleton_arranged (x : α) : Arranged before [x] [x] :=
  .refl_of_rises fun _ => List.pairwise_singleton _ x

private theorem insertLast_eq_merge (x : α) (xs : List α) :
    insertLast before x xs = mergeForward (fun a b => before b a) [x] xs := by
  induction xs with
  | nil => rw [insertLast, mergeForward_nil_right]
  | cons y ys ih => rw [insertLast, mergeForward_cons, mergeForward_nil_left, ih]

private theorem insertLast_arranged (h : Arranged before xs ys.reverse) (x : α) :
    Arranged before (xs ++ [x]) (insertLast before x ys).reverse := by
  have hmerge := mergeBackward_arranged h (singleton_arranged x)
  rw [insertLast_eq_merge]
  simpa only [mergeBackward, mergeForward, List.reverse_reverse, List.reverse_singleton] using hmerge

private theorem insertAll_fold_arranged (h : Arranged before xs ys.reverse) (zs : List α) :
    Arranged before (xs ++ zs)
      (zs.foldl (fun last x => insertLast before x last) ys).reverse := by
  induction zs generalizing xs ys with
  | nil => simpa using h
  | cons z zs ih =>
    rw [List.append_cons]
    exact ih (insertLast_arranged h z)

theorem insertAll_arranged (h : Arranged before xs ys) (zs : List α) :
    Arranged before (xs ++ zs) (insertAll before ys zs) := by
  refine insertAll_fold_arranged ?_ zs
  rwa [List.reverse_reverse]

theorem insertionSort_arranged (xs : List α) : Arranged before xs (insertionSort before xs) := by
  have hnil : Arranged before ([] : List α) [] := .refl_of_rises fun _ => List.Pairwise.nil
  exact insertAll_arranged hnil xs

private theorem sortTwo_arranged (x y : α) :
    Arranged before [x, y] [(sortTwo before x y).1, (sortTwo before x y).2] := by
  have hmerge := mergeForward_arranged (@singleton_arranged α before x) (singleton_arranged y)
  rw [mergeForward_cons, mergeForward_nil_left, mergeForward_nil_right] at hmerge
  unfold sortTwo
  split at hmerge
  · rw [if_pos ‹_›]
    exact hmerge
  · rw [if_neg ‹_›]
    exact hmerge

private def joinPairs (before : α → α → Bool) (a b c d : α) : List α :=
  let (first, last, x, y) := match before c a, before d b with
    | false, false => (a, d, b, c)
    | false, true => (a, b, c, d)
    | true, false => (c, d, a, b)
    | true, true => (c, b, a, d)
  let (second, third) := sortTwo before x y
  [first, second, third, last]

private theorem joinPairs_perm (a b c d : α) : (joinPairs before a b c d).Perm [a, b, c, d] := by
  have hmiddle : ∀ w x y z : α,
      [w, (sortTwo before x y).1, (sortTwo before x y).2, z].Perm [w, x, y, z] := fun w x y z =>
    ((sortTwo_arranged x y).perm.append_right [z]).cons w
  have hlast : [a, c, d, b].Perm [a, b, c, d] := by
    have hcomm : ([c, d] ++ [b]).Perm ([b] ++ [c, d]) := List.perm_append_comm
    exact hcomm.cons a
  have hfirst : [c, a, b, d].Perm [a, b, c, d] := by
    have hcomm : ([c] ++ [a, b]).Perm ([a, b] ++ [c]) := List.perm_append_comm
    exact hcomm.append_right [d]
  unfold joinPairs
  cases before c a <;> cases before d b
  · exact hmiddle a b c d
  · exact (hmiddle a c d b).trans hlast
  · exact (hmiddle c a b d).trans hfirst
  · exact (hmiddle c a d b).trans ((List.Perm.swap a c [d, b]).trans hlast)

private theorem joinPairs_eq_merge {a b c d : α} (ho : Orders before [a, b, c, d])
    (hab : before b a = false) (hcd : before d c = false) :
    joinPairs before a b c d = mergeForward before [a, b] [c, d] := by
  unfold joinPairs
  cases hca : before c a <;> cases hdb : before d b
  · cases hcb : before c b <;>
      simp [mergeForward_cons, mergeForward_nil_left, hca, hdb, hcb, sortTwo]
  · have hcb : before c b = true :=
      ho.lt_of_le_of_lt (by simp) (by simp : d ∈ _) (by simp) hcd hdb
    simp [mergeForward_cons, mergeForward_nil_right, hca, hdb, hcb, hcd, sortTwo]
  · have hda : before d a = false :=
      ho.trans a (by simp) b (by simp) d (by simp) hab hdb
    simp [mergeForward_cons, mergeForward_nil_left, hca, hdb, hda, hab, sortTwo]
  · cases hda : before d a <;>
      simp [mergeForward_cons, mergeForward_nil_right, hca, hdb, hda, sortTwo]

theorem sortFour_arranged (p q r s : α) :
    Arranged before [p, q, r, s] (sortFour before p q r s) := by
  have hpairs : [(sortTwo before p q).1, (sortTwo before p q).2, (sortTwo before r s).1,
      (sortTwo before r s).2].Perm [p, q, r, s] :=
    (sortTwo_arranged p q).perm.append (sortTwo_arranged r s).perm
  have hmerge := mergeForward_arranged (@sortTwo_arranged α before p q)
    (sortTwo_arranged r s)
  have heq : sortFour before p q r s = joinPairs before (sortTwo before p q).1
      (sortTwo before p q).2 (sortTwo before r s).1 (sortTwo before r s).2 := rfl
  rw [heq]
  have hsame : Orders before [p, q, r, s] →
      joinPairs before (sortTwo before p q).1 (sortTwo before p q).2 (sortTwo before r s).1
          (sortTwo before r s).2 =
        mergeForward before [(sortTwo before p q).1, (sortTwo before p q).2]
          [(sortTwo before r s).1, (sortTwo before r s).2] := by
    intro ho
    have hpq := (sortTwo_arranged p q).rises (ho.mono (by simp))
    have hrs := (sortTwo_arranged r s).rises (ho.mono (by simp))
    exact joinPairs_eq_merge (ho.mono hpairs.subset) (by simpa [Rises] using hpq)
      (by simpa [Rises] using hrs)
  constructor
  case perm => exact (joinPairs_perm _ _ _ _).trans hpairs
  case rises =>
    intro ho
    rw [hsame ho]
    exact hmerge.rises ho
  case keeps =>
    intro ho
    rw [hsame ho]
    exact hmerge.keeps ho

private theorem sortFromFour_arranged (xs : List α) : Arranged before xs (sortFromFour before xs) := by
  match xs with
  | p :: q :: r :: s :: rest => exact insertAll_arranged (sortFour_arranged p q r s) rest
  | [] | [_] | [_, _] | [_, _, _] => exact insertionSort_arranged _

theorem sortShort_sorts (xs : List α) : Sorts before xs (sortShort before xs) := by
  have hhalf : ∀ ys, Arranged before ys
      ((if 8 ≤ xs.length then sortFromFour before else insertionSort before) ys) := by
    intro ys
    split
    · exact sortFromFour_arranged ys
    · exact insertionSort_arranged ys
  have hleft := hhalf (xs.take (xs.length / 2))
  have hright := hhalf (xs.drop (xs.length / 2))
  have hl := hleft.length_eq
  have hr := hright.length_eq
  have hboth := mergeFromBothEnds_sorts hleft hright
    (by rw [hl, hr, List.length_take, List.length_drop]; omega)
    (by rw [hl, hr, List.length_take, List.length_drop]; omega)
  rwa [List.take_append_drop] at hboth

end SnapshotSql.StableSort
