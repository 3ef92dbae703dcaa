import SnapshotSql.Proofs.StableSort.Partition
import Mathlib.Data.List.Chain
import Mathlib.Data.List.Forall2
/-! # Cutting into runs and joining them -/

namespace SnapshotSql.StableSort

variable {α ρ : Type} {before : α → α → Bool} {xs : List α}

/-! ## Stretches -/

private theorem stretch_spec (related : α → α → Bool) (last : α) (count : Nat) (xs : List α) :
    ∃ k, stretch related last count xs = count + k ∧
      (last :: xs.take k).IsChain fun a b => related b a = true := by
  induction xs generalizing last count with
  | nil => exact ⟨0, rfl, List.isChain_singleton _⟩
  | cons x xs ih =>
    cases h : related x last with
    | false => exact ⟨0, by simp [stretch, h], List.isChain_singleton _⟩
    | true =>
      obtain ⟨k, hk, hchain⟩ := ih x (count + 1)
      refine ⟨k + 1, by rw [stretch, if_pos h, hk]; omega, ?_⟩
      rw [List.take_succ_cons]
      exact List.IsChain.cons_cons h hchain

private theorem leadingStretch_spec (xs : List α) :
    (xs.take (leadingStretch before xs).1).IsChain fun a b =>
      before b a = (leadingStretch before xs).2 := by
  match xs with
  | [] => exact List.IsChain.nil
  | [x] => exact List.isChain_singleton x
  | x :: y :: rest =>
    obtain ⟨k, hk, hchain⟩ :=
      stretch_spec (fun new last => before new last == before y x) y 2 rest
    rw [leadingStretch, hk, Nat.add_comm 2 k, List.take_succ_cons, List.take_succ_cons]
    refine List.IsChain.cons_cons rfl ?_
    simpa only [beq_iff_eq] using hchain

private theorem rises_of_chain (ho : Orders before xs)
    (h : xs.IsChain fun a b => before b a = false) : Rises before xs := by
  induction xs with
  | nil => exact List.Pairwise.nil
  | cons x xs ih =>
    have hrest := ih (ho.mono (List.subset_cons_self x xs)) h.tail
    refine List.pairwise_cons.mpr ⟨?_, hrest⟩
    intro a ha
    cases xs with
    | nil => cases ha
    | cons y ys =>
      have hyx : before y x = false := (List.isChain_cons_cons.mp h).1
      rcases List.mem_cons.mp ha with rfl | ha'
      · exact hyx
      · exact ho.trans x (by simp) y (by simp) a (by simp [ha']) hyx
          ((List.pairwise_cons.mp hrest).1 a ha')

private theorem falls_of_chain (ho : Orders before xs)
    (h : xs.IsChain fun a b => before b a = true) : xs.Pairwise fun a b => before b a = true := by
  induction xs with
  | nil => exact List.Pairwise.nil
  | cons x xs ih =>
    have hrest := ih (ho.mono (List.subset_cons_self x xs)) h.tail
    refine List.pairwise_cons.mpr ⟨?_, hrest⟩
    intro a ha
    cases xs with
    | nil => cases ha
    | cons y ys =>
      have hyx : before y x = true := (List.isChain_cons_cons.mp h).1
      rcases List.mem_cons.mp ha with rfl | ha'
      · exact hyx
      · have hay := (List.pairwise_cons.mp hrest).1 a ha'
        exact ho.lt_of_lt_of_le (by simp [ha']) (by simp) (by simp) hay
          (ho.asymm y (by simp) x (by simp) hyx)

/-- In a stretch that strictly falls no two elements are tied, so that it may be reversed. -/
private theorem reverse_arranged (h : xs.IsChain fun a b => before b a = true) :
    Arranged before xs xs.reverse where
  perm := List.reverse_perm xs
  rises ho := by
    refine List.pairwise_reverse.mpr (List.Pairwise.imp_of_mem ?_ (falls_of_chain ho h))
    intro a b ha hb hba
    exact ho.asymm b hb a ha hba
  keeps ho a ha := by
    have hfalls := (falls_of_chain ho h).filter (tied before a)
    rw [List.filter_reverse]
    match hlist : xs.filter (tied before a) with
    | [] => rfl
    | [b] => rfl
    | b :: c :: rest =>
      rw [hlist] at hfalls
      have hcb : before c b = true := (List.pairwise_cons.mp hfalls).1 c List.mem_cons_self
      have hb : b ∈ xs.filter (tied before a) := by simp [hlist]
      have hc : c ∈ xs.filter (tied before a) := by simp [hlist]
      obtain ⟨hbmem, hab⟩ := List.mem_filter.mp hb
      obtain ⟨hcmem, hac⟩ := List.mem_filter.mp hc
      rw [← ho.tied_congr_right ha hcmem hbmem hac] at hcb
      simp [tied, hcb] at hab

private theorem run_arranged (xs : List α) :
    Arranged before (xs.take (leadingStretch before xs).1)
      (if (leadingStretch before xs).2 then (xs.take (leadingStretch before xs).1).reverse
        else xs.take (leadingStretch before xs).1) := by
  have hchain := @leadingStretch_spec α before xs
  cases hfalls : (leadingStretch before xs).2 with
  | true =>
    rw [hfalls] at hchain
    exact reverse_arranged hchain
  | false =>
    rw [hfalls] at hchain
    exact .refl_of_rises fun ho => rises_of_chain ho hchain

/-! ## Cutting -/

theorem cut_covers {good chunk : Nat} {ofSorted ofChunk : List α → ρ} {covers : ρ → List α → Prop}
    (hgood : 0 < good) (hchunk : 0 < chunk)
    (hsorted : ∀ xs ys, Arranged before xs ys → covers (ofSorted ys) xs)
    (hrest : ∀ xs, covers (ofChunk xs) xs) (n : Nat) (xs : List α) :
    ∃ parts, List.Forall₂ covers (cut before good chunk ofSorted ofChunk n xs) parts ∧
      parts.flatten = xs := by
  induction hlen : xs.length using Nat.strongRecOn generalizing n xs with
  | ind m ih =>
    cases xs with
    | nil => exact ⟨[], by rw [cut]; exact List.Forall₂.nil, rfl⟩
    | cons x xs =>
      have hshorter : ∀ i, (xs.drop i).length < m := by
        intro i
        rw [List.length_cons] at hlen
        rw [List.length_drop]
        omega
      have hsplit : ∀ i, 0 < i → (x :: xs).take i ++ xs.drop (i - 1) = x :: xs := by
        intro i hi
        obtain ⟨k, rfl⟩ := Nat.exists_eq_add_of_lt hi
        simp
      have hchunked : ∃ parts, List.Forall₂ covers
          (ofChunk ((x :: xs).take chunk) ::
            cut before good chunk ofSorted ofChunk (n - chunk) (xs.drop (chunk - 1))) parts ∧
          parts.flatten = x :: xs := by
        obtain ⟨parts, hparts, hflat⟩ := ih _ (hshorter (chunk - 1)) (n - chunk) _ rfl
        refine ⟨_, List.Forall₂.cons (hrest _) hparts, ?_⟩
        rw [List.flatten_cons, hflat, hsplit chunk hchunk]
      rw [cut]
      by_cases hn : good ≤ n
      · simp only [if_pos hn]
        split
        · rename_i hcount
          obtain ⟨parts, hparts, hflat⟩ := ih _
            (hshorter ((leadingStretch before (x :: xs)).1 - 1))
            (n - (leadingStretch before (x :: xs)).1) _ rfl
          refine ⟨_, List.Forall₂.cons (hsorted _ _ (run_arranged (x :: xs))) hparts, ?_⟩
          rw [List.flatten_cons, hflat, hsplit _ (Nat.lt_of_lt_of_le hgood hcount)]
        · exact hchunked
      · simp only [if_neg hn, if_neg (Nat.not_le_of_lt hgood)]
        exact hchunked

theorem goodLength_pos {n : Nat} (h : 0 < n) : 0 < goodLength n := by
  unfold goodLength
  split
  · omega
  · rename_i hlarge
    have hlog : 1 ≤ n.log2 := (Nat.le_log2 (by omega)).mpr (by omega)
    have hshift : 2 ^ 1 ≤ 2 ^ ((1 + n.log2) / 2) := Nat.pow_le_pow_right (by omega) (by omega)
    rw [rootEstimate, Nat.one_shiftLeft]
    exact Nat.div_pos (Nat.le_trans hshift (Nat.le_add_right _ _)) (by decide)

/-! ## Joining -/

section

variable {join : ρ → ρ → Option ρ} {covers : ρ → List α → Prop}

def WaitingCover (covers : ρ → List α → Prop) : List (Waiting ρ) → List α → Prop
  | [], xs => xs = []
  | w :: waiting, xs => ∃ us vs, xs = us ++ vs ∧ WaitingCover covers waiting us ∧ covers w.run vs

variable (hjoin : ∀ p q xs ys, covers p xs → covers q ys →
  Attains (covers · (xs ++ ys)) (Orders before (xs ++ ys)) (join p q))

include hjoin

private theorem joinDeeper_covers (depth : Nat) (waiting : List (Waiting ρ)) (run : ρ)
    (xs ys : List α) (hw : WaitingCover covers waiting xs) (hr : covers run ys) :
    Attains (fun out => ∃ us vs, us ++ vs = xs ++ ys ∧ WaitingCover covers out.1 us ∧
      covers out.2 vs) (Orders before (xs ++ ys)) (joinDeeper join depth waiting run) := by
  induction waiting generalizing run xs ys with
  | nil => exact ⟨xs, ys, rfl, hw, hr⟩
  | cons w waiting ih =>
    rw [joinDeeper]
    split
    · obtain ⟨us, vs, rfl, hus, hvs⟩ := hw
      rw [List.append_assoc]
      have hjoined := (hjoin w.run run vs ys hvs hr).under
        fun ho : Orders before (us ++ (vs ++ ys)) => ho.right
      exact hjoined.bind fun joined hcovers => ih joined us (vs ++ ys) hus hcovers
    · exact ⟨xs, ys, rfl, hw, hr⟩

omit hjoin in
private theorem joinDeeper_zero {waiting : List (Waiting ρ)} {run : ρ} {out : List (Waiting ρ) × ρ}
    (h : joinDeeper join 0 waiting run = some out) : out.1 = [] := by
  induction waiting generalizing run with
  | nil =>
    cases h
    rfl
  | cons w waiting ih =>
    rw [joinDeeper, if_pos (Nat.zero_le _)] at h
    obtain ⟨joined, _, h⟩ := Option.bind_eq_some_iff.mp h
    exact ih h

private theorem joinFrom_covers (size : ρ → Nat) (n position : Nat) (waiting : List (Waiting ρ))
    (last : ρ) (runs : List ρ) (xs ys : List α) (parts : List (List α))
    (hw : WaitingCover covers waiting xs) (hl : covers last ys)
    (hruns : List.Forall₂ covers runs parts) :
    Attains (covers · (xs ++ ys ++ parts.flatten)) (Orders before (xs ++ ys ++ parts.flatten))
      (joinFrom join size n position waiting last runs) := by
  induction hruns generalizing position waiting last xs ys with
  | nil =>
    have hdeeper := joinDeeper_covers hjoin 0 waiting last xs ys hw hl
    rw [joinFrom, List.flatten_nil, List.append_nil]
    cases hout : joinDeeper join 0 waiting last with
    | none => rwa [hout] at hdeeper
    | some out =>
      rw [hout] at hdeeper
      obtain ⟨us, vs, heq, hus, hvs⟩ := hdeeper
      rw [joinDeeper_zero hout] at hus
      rw [← heq, show us = [] from hus]
      exact hvs
  | @cons run part runs parts hrun _ ih =>
    have hdeeper := joinDeeper_covers hjoin
      (jointDepth n (position - size last) position (position + size run)) waiting last xs ys hw hl
    rw [joinFrom, List.flatten_cons, ← List.append_assoc]
    refine (hdeeper.under (Orders.left ∘ Orders.left)).bind fun out hout => ?_
    obtain ⟨us, vs, heq, hus, hvs⟩ := hout
    rw [← heq]
    exact ih _ _ run (us ++ vs) part ⟨us, vs, rfl, hus, hvs⟩ hrun

/-- Joining runs that stand for the parts of a list gives one that stands for all of it. -/
theorem joinAll_covers (size : ρ → Nat) (n : Nat) {empty : ρ} (hempty : covers empty [])
    (runs : List ρ) (parts : List (List α)) (hruns : List.Forall₂ covers runs parts) :
    Attains (covers · parts.flatten) (Orders before parts.flatten)
      (joinAll join size n empty runs) := by
  cases hruns with
  | nil => exact hempty
  | cons hrun hrest =>
    rw [joinAll, List.flatten_cons, ← List.nil_append (_ ++ _), ← List.append_assoc]
    exact joinFrom_covers hjoin size n _ [] _ _ [] _ _ rfl hrun hrest

end

end SnapshotSql.StableSort
