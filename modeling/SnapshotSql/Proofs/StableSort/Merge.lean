import SnapshotSql.Proofs.StableSort.Arranged
/-! # Merging arranges -/

namespace SnapshotSql.StableSort

variable {α : Type} {before : α → α → Bool}

/-! ## From the front -/

theorem mergeForward_cons (x y : α) (xs ys : List α) :
    mergeForward before (x :: xs) (y :: ys) =
      if before y x = true then y :: mergeForward before (x :: xs) ys
      else x :: mergeForward before xs (y :: ys) := by
  unfold mergeForward
  rw [List.merge]
  cases before y x <;> rfl

theorem mergeForward_nil_left (ys : List α) : mergeForward before [] ys = ys := by
  simp [mergeForward]

theorem mergeForward_nil_right (xs : List α) : mergeForward before xs [] = xs := by
  simp [mergeForward]

theorem mergeForward_perm (xs ys : List α) : (mergeForward before xs ys).Perm (xs ++ ys) :=
  List.merge_perm_append _

private theorem without_right (y : α) (xs ys : List α) : xs ++ ys ⊆ xs ++ y :: ys :=
  ((List.sublist_cons_self y ys).append_left xs).subset

private theorem rises_mergeForward {xs ys : List α} (ho : Orders before (xs ++ ys))
    (hx : Rises before xs) (hy : Rises before ys) : Rises before (mergeForward before xs ys) := by
  induction xs generalizing ys with
  | nil => rwa [mergeForward_nil_left]
  | cons x xs ihx =>
    induction ys with
    | nil => rwa [mergeForward_nil_right]
    | cons y ys ihy =>
      have hxmem : x ∈ x :: xs ++ y :: ys := by simp
      have hymem : y ∈ x :: xs ++ y :: ys := by simp
      obtain ⟨hxs, hxrest⟩ := List.pairwise_cons.mp hx
      obtain ⟨hys, hyrest⟩ := List.pairwise_cons.mp hy
      rw [mergeForward_cons]
      by_cases hyx : before y x = true
      · rw [if_pos hyx]
        refine List.pairwise_cons.mpr ⟨?_, ihy (ho.mono (without_right y _ ys)) hyrest⟩
        intro a ha
        have ha' : a ∈ x :: xs ++ ys := (mergeForward_perm _ _).mem_iff.mp ha
        have hamem : a ∈ x :: xs ++ y :: ys := without_right y _ ys ha'
        rcases List.mem_append.mp ha' with ha' | ha'
        · have hxa : before a x = false := by
            rcases List.mem_cons.mp ha' with rfl | ha'
            · exact ho.irrefl hxmem
            · exact hxs a ha'
          exact ho.asymm y hymem a hamem (ho.lt_of_lt_of_le hymem hxmem hamem hyx hxa)
        · exact hys a ha'
      · rw [if_neg hyx]
        refine List.pairwise_cons.mpr ⟨?_, ihx (ho.mono (List.subset_cons_self x _)) hxrest hy⟩
        intro a ha
        have ha' : a ∈ xs ++ y :: ys := (mergeForward_perm _ _).mem_iff.mp ha
        have hamem : a ∈ x :: xs ++ y :: ys := List.mem_cons_of_mem x ha'
        have hyx' : before y x = false := by simpa using hyx
        rcases List.mem_append.mp ha' with ha' | ha'
        · exact hxs a ha'
        · rcases List.mem_cons.mp ha' with rfl | ha'
          · exact hyx'
          · exact ho.trans x hxmem y hymem a hamem hyx' (hys a ha')

private theorem filter_eq_nil_of_before {all xs : List α} {x y : α} (ho : Orders before all)
    (hsub : x :: xs ⊆ all) (hy : y ∈ all) (hx : Rises before (x :: xs)) (hyx : before y x = true)
    {a : α} (ha : a ∈ all) (hay : tied before a y = true) :
    (x :: xs).filter (tied before a) = [] := by
  refine List.filter_eq_nil_iff.mpr ?_
  intro z hz haz
  have hxmem : x ∈ all := hsub List.mem_cons_self
  have hzmem : z ∈ all := hsub hz
  have hzx : before z x = false := by
    rcases List.mem_cons.mp hz with rfl | hz
    · exact ho.irrefl hxmem
    · exact (List.pairwise_cons.mp hx).1 z hz
  have hyz : before y z = true := ho.lt_of_lt_of_le hy hxmem hzmem hyx hzx
  have haz' : before a z = false := by
    simp only [tied, Bool.and_eq_true, Bool.not_eq_true'] at haz
    exact haz.1
  rw [← ho.tied_congr_right ha hy hzmem hay, haz'] at hyz
  cases hyz

private theorem filter_mergeForward {all xs ys : List α} (ho : Orders before all)
    (hxsub : xs ⊆ all) (hysub : ys ⊆ all) (hx : Rises before xs) (hy : Rises before ys) {a : α}
    (ha : a ∈ all) :
    (mergeForward before xs ys).filter (tied before a) =
      xs.filter (tied before a) ++ ys.filter (tied before a) := by
  induction xs generalizing ys with
  | nil => rw [mergeForward_nil_left, List.filter_nil, List.nil_append]
  | cons x xs ihx =>
    induction ys with
    | nil => rw [mergeForward_nil_right, List.filter_nil, List.append_nil]
    | cons y ys ihy =>
      obtain ⟨hymem, hyssub⟩ := List.cons_subset.mp hysub
      obtain ⟨hxmem, hxssub⟩ := List.cons_subset.mp hxsub
      rw [mergeForward_cons]
      by_cases hyx : before y x = true
      · have hrest := ihy hyssub (List.pairwise_cons.mp hy).2
        rw [if_pos hyx]
        by_cases hay : tied before a y = true
        · have hnil := filter_eq_nil_of_before ho hxsub hymem hx hyx ha hay
          rw [List.filter_cons_of_pos hay, List.filter_cons_of_pos hay, hrest, hnil,
            List.nil_append, List.nil_append]
        · rw [List.filter_cons_of_neg hay, List.filter_cons_of_neg hay, hrest]
      · have hrest := ihx hxssub hysub (List.pairwise_cons.mp hx).2 hy
        rw [if_neg hyx]
        by_cases hax : tied before a x = true
        · rw [List.filter_cons_of_pos hax, List.filter_cons_of_pos hax, hrest, List.cons_append]
        · rw [List.filter_cons_of_neg hax, List.filter_cons_of_neg hax, hrest]

variable {xs ys us vs : List α}

theorem mergeForward_arranged (hx : Arranged before xs us) (hy : Arranged before ys vs) :
    Arranged before (xs ++ ys) (mergeForward before us vs) := by
  have hperm : (us ++ vs).Perm (xs ++ ys) := hx.perm.append hy.perm
  constructor
  case perm => exact (mergeForward_perm us vs).trans hperm
  case rises =>
    intro ho
    exact rises_mergeForward (ho.mono hperm.subset) (hx.rises ho.left) (hy.rises ho.right)
  case keeps =>
    intro ho a ha
    have husub : us ⊆ xs ++ ys := fun b hb => hperm.subset (List.mem_append_left vs hb)
    have hvsub : vs ⊆ xs ++ ys := fun b hb => hperm.subset (List.mem_append_right us hb)
    rw [filter_mergeForward ho husub hvsub (hx.rises ho.left) (hy.rises ho.right) ha,
      List.filter_append, hx.filter_tied ho (List.subset_append_left xs ys) ha,
      hy.filter_tied ho (List.subset_append_right xs ys) ha]

/-! ## From the back -/

private theorem mergeBackward_eq (xs ys : List α) :
    mergeBackward before xs ys =
      (mergeForward (fun a b => before b a) ys.reverse xs.reverse).reverse := rfl

theorem mergeBackward_perm (xs ys : List α) : (mergeBackward before xs ys).Perm (xs ++ ys) := by
  rw [mergeBackward_eq]
  refine (List.reverse_perm _).trans ((mergeForward_perm _ _).trans ?_)
  rw [← List.reverse_append]
  exact List.reverse_perm _

theorem mergeBackward_arranged (hx : Arranged before xs us) (hy : Arranged before ys vs) :
    Arranged before (xs ++ ys) (mergeBackward before us vs) := by
  have hrev : ∀ {zs ws : List α}, Arranged before zs ws →
      Arranged (fun a b => before b a) zs.reverse ws.reverse := by
    intro zs ws h
    refine Arranged.reverse ?_
    simpa only [List.reverse_reverse] using h
  rw [mergeBackward_eq]
  refine Arranged.reverse ?_
  rw [List.reverse_append]
  exact mergeForward_arranged (hrev hy) (hrev hx)

theorem merge_arranged (hx : Arranged before xs us) (hy : Arranged before ys vs) :
    Arranged before (xs ++ ys) (merge before us vs) := by
  unfold merge
  split
  · exact mergeForward_arranged hx hy
  · exact mergeBackward_arranged hx hy

/-! ## From both ends -/

/-- A merge that has taken the first parts of both lists may go on with the second ones. -/
structure Cuts (before : α → α → Bool) (xs ys us vs : List α) : Prop where
  le : ∀ x ∈ xs, ∀ v ∈ vs, before v x = false
  lt : ∀ y ∈ ys, ∀ u ∈ us, before y u = true

/-- The first elements of a merge are the merge of the first elements of both lists, and under an
order they are cut off where the lists may be cut. -/
private theorem takeMerged_spec (n : Nat) (xs ys : List α) (hx : n ≤ xs.length)
    (hy : n ≤ ys.length) :
    ∃ i ≤ n, takeMerged (fun x y => !before y x) n xs ys =
        (mergeForward before (xs.take i) (ys.take (n - i)), i) ∧
      (Orders before (xs ++ ys) → Rises before xs → Rises before ys →
        Cuts before (xs.take i) (ys.take (n - i)) (xs.drop i) (ys.drop (n - i))) := by
  induction n generalizing xs ys with
  | zero =>
    refine ⟨0, Nat.le_refl 0, by simp [takeMerged, mergeForward], fun _ _ _ => ⟨?_, ?_⟩⟩ <;>
      simp
  | succ n ih =>
    obtain ⟨x, xs, rfl⟩ := List.exists_cons_of_length_pos (Nat.lt_of_lt_of_le (Nat.succ_pos n) hx)
    obtain ⟨y, ys, rfl⟩ := List.exists_cons_of_length_pos (Nat.lt_of_lt_of_le (Nat.succ_pos n) hy)
    have hx' : n ≤ xs.length := Nat.le_of_succ_le_succ hx
    have hy' : n ≤ ys.length := Nat.le_of_succ_le_succ hy
    have hxmem : x ∈ x :: xs ++ y :: ys := by simp
    have hymem : y ∈ x :: xs ++ y :: ys := by simp
    cases hyx : before y x with
    | false =>
      obtain ⟨i, hi, heq, hcut⟩ := ih xs (y :: ys) hx' (Nat.le_succ_of_le hy')
      refine ⟨i + 1, Nat.succ_le_succ hi, ?_, ?_⟩
      · rw [takeMerged, hyx, if_pos Bool.not_false, heq, Nat.add_sub_add_right, List.take_succ_cons]
        cases hn : n - i with
        | zero => simp [mergeForward]
        | succ k => simp [mergeForward_cons, hyx]
      · intro ho hrx hry
        obtain ⟨hxs, hxrest⟩ := List.pairwise_cons.mp hrx
        have hrest := hcut (ho.mono (List.subset_cons_self x _)) hxrest hry
        rw [Nat.add_sub_add_right, List.take_succ_cons, List.drop_succ_cons]
        refine ⟨?_, hrest.lt⟩
        intro a ha v hv
        rcases List.mem_cons.mp ha with rfl | ha
        · have hv' : v ∈ y :: ys := List.mem_of_mem_drop hv
          rcases List.mem_cons.mp hv' with rfl | hvys
          · exact hyx
          · have hvmem : v ∈ a :: xs ++ y :: ys := by simp [hvys]
            exact ho.trans a hxmem y hymem v hvmem hyx ((List.pairwise_cons.mp hry).1 v hvys)
        · exact hrest.le a ha v hv
    | true =>
      obtain ⟨i, hi, heq, hcut⟩ := ih (x :: xs) ys (Nat.le_succ_of_le hx') hy'
      have hsub : n + 1 - i = (n - i) + 1 := by omega
      refine ⟨i, Nat.le_succ_of_le hi, ?_, ?_⟩
      · rw [takeMerged, hyx, if_neg (by simp), heq, hsub, List.take_succ_cons]
        cases i with
        | zero => simp [mergeForward]
        | succ k => simp [mergeForward_cons, hyx]
      · intro ho hrx hry
        obtain ⟨hys, hyrest⟩ := List.pairwise_cons.mp hry
        have hrest := hcut (ho.mono (without_right y _ ys)) hrx hyrest
        rw [hsub, List.take_succ_cons, List.drop_succ_cons]
        refine ⟨hrest.le, ?_⟩
        intro a ha u hu
        rcases List.mem_cons.mp ha with rfl | ha
        · have hu' : u ∈ x :: xs := List.mem_of_mem_drop hu
          rcases List.mem_cons.mp hu' with rfl | huxs
          · exact hyx
          · have humem : u ∈ x :: xs ++ a :: ys := by simp [huxs]
            exact ho.lt_of_lt_of_le hymem hxmem humem hyx ((List.pairwise_cons.mp hrx).1 u huxs)
        · exact hrest.lt a ha u hu

private theorem takeMerged_reverse_spec (n : Nat) (xs ys : List α) (hx : n ≤ xs.length)
    (hy : n ≤ ys.length) :
    ∃ j ≤ n, takeMerged (fun y x => !before y x) n ys.reverse xs.reverse =
        ((mergeBackward before (xs.drop (xs.length - (n - j)))
          (ys.drop (ys.length - j))).reverse, j) ∧
      (Orders before (xs ++ ys) → Rises before xs → Rises before ys →
        Cuts before (xs.take (xs.length - (n - j))) (ys.take (ys.length - j))
          (xs.drop (xs.length - (n - j))) (ys.drop (ys.length - j))) := by
  obtain ⟨j, hj, heq, hcut⟩ := @takeMerged_spec α (fun a b => before b a) n ys.reverse
    xs.reverse (by simpa using hy) (by simpa using hx)
  refine ⟨j, hj, ?_, ?_⟩
  · rw [heq, mergeBackward_eq, List.reverse_reverse, List.take_reverse, List.take_reverse]
  · intro ho hrx hry
    have hrev : Orders (fun a b => before b a) (ys.reverse ++ xs.reverse) := by
      rw [← List.reverse_append]
      exact ho.reverse.mono (List.reverse_perm _).subset
    have hc := hcut hrev (rises_reverse.mpr hry) (rises_reverse.mpr hrx)
    simp only [List.take_reverse, List.drop_reverse] at hc
    refine ⟨?_, ?_⟩
    · intro x hx' v hv
      exact hc.le v (List.mem_reverse.mpr hv) x (List.mem_reverse.mpr hx')
    · intro y hy' u hu
      exact hc.lt u (List.mem_reverse.mpr hu) y (List.mem_reverse.mpr hy')

/-- Elements that all go first may be listed before or after the others, ties being unaffected. -/
private theorem filter_swap {all ps qs : List α} (ho : Orders before all) (hp : ps ⊆ all)
    (hq : qs ⊆ all) (h : ∀ y ∈ ps, ∀ x ∈ qs, before y x = true) {a : α} (ha : a ∈ all) :
    ps.filter (tied before a) ++ qs.filter (tied before a) =
      qs.filter (tied before a) ++ ps.filter (tied before a) := by
  by_cases hex : ∃ y ∈ ps, tied before a y = true
  · obtain ⟨y, hy, hay⟩ := hex
    have hnil : qs.filter (tied before a) = [] := by
      refine List.filter_eq_nil_iff.mpr ?_
      intro x hx hax
      have hyx := h y hy x hx
      rw [← ho.tied_congr_right ha (hp hy) (hq hx) hay] at hyx
      simp [tied, hyx] at hax
    rw [hnil, List.append_nil, List.nil_append]
  · have hnil : ps.filter (tied before a) = [] :=
      List.filter_eq_nil_iff.mpr fun y hy hay => hex ⟨y, hy, hay⟩
    rw [hnil, List.append_nil, List.nil_append]

private theorem take_middle_drop {i k : Nat} (h : i ≤ k) (xs : List α) :
    xs.take i ++ ((xs.take k).drop i ++ xs.drop k) = xs := by
  have htake : (xs.take k).take i = xs.take i := by rw [List.take_take, Nat.min_eq_left h]
  rw [← List.append_assoc, ← htake, List.take_append_drop, List.take_append_drop]

private theorem middle_drop {i k : Nat} (h : i ≤ k) (xs : List α) :
    (xs.take k).drop i ++ xs.drop k = xs.drop i := by
  have hsame : xs.take i ++ ((xs.take k).drop i ++ xs.drop k) = xs.take i ++ xs.drop i := by
    rw [take_middle_drop h, List.take_append_drop]
  exact List.append_cancel_left hsame

private theorem interchange_perm (ps qs rs ts : List α) :
    ((ps ++ qs) ++ (rs ++ ts)).Perm ((ps ++ rs) ++ (qs ++ ts)) := by
  rw [List.append_assoc, List.append_assoc]
  exact (List.perm_append_comm_assoc qs rs ts).append_left ps

private theorem interchange_eq {ps qs rs ts : List α} (h : qs ++ rs = rs ++ qs) :
    (ps ++ qs) ++ (rs ++ ts) = (ps ++ rs) ++ (qs ++ ts) := by
  rw [List.append_assoc, ← List.append_assoc qs, h]
  simp only [List.append_assoc]

private theorem parts_perm {i i' k k' : Nat} (hi : i ≤ i') (hk : k ≤ k') (us vs : List α) :
    ((us.take i ++ vs.take k) ++ (((us.take i').drop i ++ (vs.take k').drop k) ++
      (us.drop i' ++ vs.drop k'))).Perm (us ++ vs) := by
  have hrest := interchange_perm ((us.take i').drop i) ((vs.take k').drop k) (us.drop i')
    (vs.drop k')
  have hall := (hrest.append_left (us.take i ++ vs.take k)).trans (interchange_perm _ _ _ _)
  rwa [take_middle_drop hi, take_middle_drop hk] at hall

private theorem parts_filter {i i' k k' : Nat} (hi : i ≤ i') (hk : k ≤ k')
    (ho : Orders before (us ++ vs))
    (hcut : Cuts before (us.take i) (vs.take k) (us.drop i) (vs.drop k))
    (hcut' : Cuts before (us.take i') (vs.take k') (us.drop i') (vs.drop k')) {a : α}
    (ha : a ∈ us ++ vs) :
    ((us.take i ++ vs.take k) ++ (((us.take i').drop i ++ (vs.take k').drop k) ++
      (us.drop i' ++ vs.drop k'))).filter (tied before a) =
        (us ++ vs).filter (tied before a) := by
  have husub : ∀ n, us.drop n ⊆ us ++ vs := fun n =>
    List.subset_append_of_subset_left vs (List.drop_subset n us)
  have hvsub : ∀ n, vs.take n ⊆ us ++ vs := fun n =>
    List.subset_append_of_subset_right us (List.take_subset n vs)
  have hrest : ∀ b ∈ (vs.take k').drop k, ∀ u ∈ us.drop i', before b u = true :=
    fun b hb => hcut'.lt b (List.mem_of_mem_drop hb)
  have houter := filter_swap ho (hvsub k) (husub i) hcut.lt ha
  have hinner := filter_swap ho (List.Subset.trans (List.drop_subset k _) (hvsub k')) (husub i') hrest
    ha
  have hu : us.filter (tied before a) = (us.take i).filter (tied before a) ++
      (us.drop i).filter (tied before a) := by
    rw [← List.filter_append, List.take_append_drop]
  have hv : vs.filter (tied before a) = (vs.take k).filter (tied before a) ++
      (vs.drop k).filter (tied before a) := by
    rw [← List.filter_append, List.take_append_drop]
  rw [← middle_drop hi us] at houter hu
  rw [← middle_drop hk vs] at hv
  simp only [List.filter_append] at houter hu hv ⊢
  rw [interchange_eq hinner, interchange_eq houter, hu, hv]

private theorem parts_arranged {i i' k k' : Nat} (hi : i ≤ i') (hk : k ≤ k') (ho : Orders before (us ++ vs))
    (hu : Rises before us) (hv : Rises before vs)
    (hmid : ((us.take i').drop i ++ (vs.take k').drop k).length ≤ 1)
    (hcut : Cuts before (us.take i) (vs.take k) (us.drop i) (vs.drop k))
    (hcut' : Cuts before (us.take i') (vs.take k') (us.drop i') (vs.drop k')) :
    Arranged before
      ((us.take i ++ vs.take k) ++ (((us.take i').drop i ++ (vs.take k').drop k) ++
        (us.drop i' ++ vs.drop k')))
      (mergeForward before (us.take i) (vs.take k) ++
        (((us.take i').drop i ++ (vs.take k').drop k) ++
          mergeBackward before (us.drop i') (vs.drop k'))) := by
  have hrises : ∀ {zs : List α} {n : Nat}, Rises before zs →
      Arranged before (zs.take n) (zs.take n) ∧ Arranged before (zs.drop n) (zs.drop n) ∧
        ∀ a ∈ zs.take n, ∀ b ∈ zs.drop n, before b a = false := by
    intro zs n hz
    refine ⟨.refl_of_rises fun _ => hz.sublist (List.take_sublist n zs),
      .refl_of_rises fun _ => hz.sublist (List.drop_sublist n zs), ?_⟩
    rw [← List.take_append_drop n zs] at hz
    exact (List.pairwise_append.mp hz).2.2
  have hmiddle : Arranged before ((us.take i').drop i ++ (vs.take k').drop k)
      ((us.take i').drop i ++ (vs.take k').drop k) := by
    refine .refl_of_rises fun _ => ?_
    match hlist : (us.take i').drop i ++ (vs.take k').drop k with
    | [] => exact List.Pairwise.nil
    | [a] => exact List.pairwise_singleton _ a
    | a :: b :: rest =>
      rw [hlist] at hmid
      simp at hmid
  -- Whatever is left of a cut does not go after anything right of it.
  have hcross : ∀ {n m : Nat}, Cuts before (us.take n) (vs.take m) (us.drop n) (vs.drop m) →
      ∀ a ∈ us.take n ++ vs.take m, ∀ b ∈ us.drop n ++ vs.drop m, before b a = false := by
    intro n m hc a ha b hb
    rcases List.mem_append.mp ha with ha | ha <;> rcases List.mem_append.mp hb with hb | hb
    · exact (hrises hu).2.2 a ha b hb
    · exact hc.le a ha b hb
    · exact ho.asymm a (List.mem_append_right us (List.mem_of_mem_take ha)) b
        (List.mem_append_left vs (List.mem_of_mem_drop hb)) (hc.lt a ha b hb)
    · exact (hrises hv).2.2 a ha b hb
  have hfront := mergeForward_arranged (@hrises us i hu).1 (@hrises vs k hv).1
  have hback := mergeBackward_arranged (@hrises us i' hu).2.1 (@hrises vs k' hv).2.1
  refine hfront.append (hmiddle.append hback fun _ => ?_) fun _ => ?_
  · intro a ha b hb
    refine hcross hcut' a ?_ b hb
    rcases List.mem_append.mp ha with ha | ha
    · exact List.mem_append_left _ (List.mem_of_mem_drop ha)
    · exact List.mem_append_right _ (List.mem_of_mem_drop ha)
  · intro a ha b hb
    refine hcross hcut a ha b ?_
    rw [← middle_drop hi us, ← middle_drop hk vs]
    exact (interchange_perm _ _ _ _).mem_iff.mp hb

/-- Of two places where lists may be cut the one that is further in the whole is further in each. -/
private theorem cuts_ordered {i i' k k' : Nat}
    (hcut : Cuts before (us.take i) (vs.take k) (us.drop i) (vs.drop k))
    (hcut' : Cuts before (us.take i') (vs.take k') (us.drop i') (vs.drop k'))
    (hi : i ≤ us.length) (hk : k ≤ vs.length) (hk' : k' ≤ vs.length) (hi' : i' ≤ us.length)
    (hsum : i + k ≤ i' + k') : i ≤ i' ∧ k ≤ k' := by
  have htake : ∀ {zs : List α} {m n : Nat} (hm : m < zs.length), m < n → zs[m] ∈ zs.take n :=
    fun hm hmn => List.mem_take_iff_getElem.mpr ⟨_, by omega, rfl⟩
  have hdrop : ∀ {zs : List α} {m : Nat} (hm : m < zs.length), zs[m] ∈ zs.drop m :=
    fun hm => List.mem_drop_iff_getElem.mpr ⟨0, by omega, rfl⟩
  constructor
  · by_contra hlt
    have hu : i' < us.length := by omega
    have hv : k < vs.length := by omega
    have hafter := hcut.le us[i'] (htake hu (by omega)) vs[k] (hdrop hv)
    rw [hcut'.lt vs[k] (htake hv (by omega)) us[i'] (hdrop hu)] at hafter
    cases hafter
  · by_contra hlt
    have hu : i < us.length := by omega
    have hv : k' < vs.length := by omega
    have hafter := hcut'.le us[i] (htake hu (by omega)) vs[k'] (hdrop hv)
    rw [hcut.lt vs[k'] (htake hv (by omega)) us[i] (hdrop hu)] at hafter
    cases hafter

/-- Merging from both ends arranges, if neither list ends before half of the result. -/
theorem mergeFromBothEnds_sorts (hx : Arranged before xs us) (hy : Arranged before ys vs)
    (hus : (us.length + vs.length) / 2 ≤ us.length)
    (hvs : (us.length + vs.length) / 2 ≤ vs.length) :
    Sorts before (xs ++ ys) (mergeFromBothEnds before us vs) := by
  obtain ⟨i, hi, hfront, hcut⟩ :=
    @takeMerged_spec α before ((us.length + vs.length) / 2) us vs hus hvs
  obtain ⟨j, hj, hback, hcut'⟩ :=
    @takeMerged_reverse_spec α before ((us.length + vs.length) / 2) us vs hus hvs
  have hfrontlen := (@mergeForward_perm α before (us.take i)
    (vs.take ((us.length + vs.length) / 2 - i))).length_eq
  have hbacklen := (@mergeForward_perm α (fun a b => before b a)
    (vs.drop (vs.length - j)).reverse
    (us.drop (us.length - ((us.length + vs.length) / 2 - j))).reverse).length_eq
  have hperm : (us ++ vs).Perm (xs ++ ys) := hx.perm.append hy.perm
  unfold mergeFromBothEnds
  simp only [hfront, hback, List.reverse_reverse]
  simp only [mergeBackward_eq, List.length_append, List.length_reverse, List.length_take,
    List.length_drop] at hfrontlen hbacklen ⊢
  split
  · rename_i hlen
    have hii : i ≤ us.length - ((us.length + vs.length) / 2 - j) := by omega
    have hkk : (us.length + vs.length) / 2 - i ≤ vs.length - j := by omega
    rw [← mergeBackward_eq, List.append_assoc]
    constructor
    case perm =>
      refine List.Perm.trans ?_ ((parts_perm hii hkk us vs).trans hperm)
      exact (mergeForward_perm _ _).append ((mergeBackward_perm _ _).append_left _)
    all_goals
      intro ho
      have hous := ho.mono hperm.subset
      have hcuts := hcut hous (hx.rises ho.left) (hy.rises ho.right)
      have hcuts' := hcut' hous (hx.rises ho.left) (hy.rises ho.right)
      have hparts := parts_arranged hii hkk hous (hx.rises ho.left) (hy.rises ho.right)
        (by simp only [List.length_append, List.length_drop, List.length_take]; omega) hcuts hcuts'
      have hoparts := hous.mono (parts_perm hii hkk us vs).subset
    case rises => exact hparts.rises hoparts
    case keeps =>
      intro a ha
      have ha' := hperm.mem_iff.mpr ha
      rw [hparts.keeps hoparts a ((parts_perm hii hkk us vs).mem_iff.mpr ha'),
        parts_filter hii hkk hous hcuts hcuts' ha', List.filter_append, List.filter_append,
        hx.filter_tied ho (List.subset_append_left xs ys) ha,
        hy.filter_tied ho (List.subset_append_right xs ys) ha]
  · -- Under an order the two ends meet.
    rename_i hlen
    intro ho
    have hous := ho.mono hperm.subset
    obtain ⟨hii, hkk⟩ := cuts_ordered (hcut hous (hx.rises ho.left) (hy.rises ho.right))
      (hcut' hous (hx.rises ho.left) (hy.rises ho.right)) (by omega) (by omega) (by omega) (by omega)
      (by omega)
    omega

end SnapshotSql.StableSort
