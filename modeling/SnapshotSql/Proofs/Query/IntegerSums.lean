import SnapshotSql.Proofs.Query.Gathered
import Mathlib.Algebra.BigOperators.Group.List.Basic
import Mathlib.Algebra.Group.Int.Defs
import Mathlib.Data.List.Infix
/-! # Sums of integers -/

namespace SnapshotSql

namespace Integer

def Fits (n : Int) : Prop := least ≤ n ∧ n ≤ greatest

instance (n : Int) : Decidable (Fits n) := inferInstanceAs (Decidable (_ ∧ _))

def total (ns : List Int64) : Int := (ns.map Int64.toInt).sum

def Addable (ns : List Int64) : Prop := ∀ front ∈ ns.inits, Fits (total front)

instance (ns : List Int64) : Decidable (Addable ns) := inferInstanceAs (Decidable (∀ _ ∈ _, _))

/-- The sum of the first integers fits, and with one more it does not. This is how adding them fails. -/
def Overflows (ns : List Int64) (e : ExecError) : Prop :=
  ∃ front n back, ns = front ++ n :: back ∧ Addable front ∧ ¬Fits (total front + n.toInt) ∧
    e = .overflow (.binary .add (Int64.ofInt (total front)) n)

variable {ns ms : List Int64} {n : Int64} {m : Int}

theorem total_snoc (ns : List Int64) (n : Int64) : total (ns ++ [n]) = total ns + n.toInt := by
  simp [total]

theorem total_perm (h : ns.Perm ms) : total ns = total ms := (h.map Int64.toInt).sum_eq

theorem addable_nil : Addable [] := by decide

theorem addable_snoc : Addable (ns ++ [n]) ↔ Addable ns ∧ Fits (total ns + n.toInt) := by
  rw [← total_snoc]
  simp [Addable, List.inits_append, or_imp, forall_and]

theorem Addable.fits (h : Addable ns) : Fits (total ns) :=
  h ns ((List.mem_inits _ _).mpr (List.prefix_refl ns))

theorem toInt_ofInt (h : Fits m) : (Int64.ofInt m).toInt = m := by
  rw [Int64.toInt_ofInt_of_le]
  · exact h.1
  · have := h.2
    simp only [greatest] at this
    omega

theorem add?_ofInt (h : Fits m) (n : Int64) : add? (Int64.ofInt m) n =
    if Fits (m + n.toInt) then some (Int64.ofInt (m + n.toInt)) else none := by
  rw [add?, toInt_ofInt h, ofInt?]
  rfl

theorem fits_toInt (n : Int64) : Fits n.toInt := ⟨n.le_toInt, n.toInt_le⟩

end Integer

open Integer (total Addable Fits Overflows)

namespace Value

def ofTotal (ns : List Int64) : Value := if ns.isEmpty then .null else .integer (Int64.ofInt (total ns))

/-- What adding integers one after the other comes to: the exact sum if no sum on the way leaves 64 bits,
which is NULL if there are no integers, and otherwise a failure where the sum leaves 64 bits for the first
time. -/
inductive Adds (ns : List Int64) : Except ExecError Value → Prop
  | added (h : Addable ns) : Adds ns (.ok (ofTotal ns))
  | overflow {e : ExecError} (h : Overflows ns e) : Adds ns (.error e)

theorem ofTotal_snoc (ns : List Int64) (n : Int64) :
    ofTotal (ns ++ [n]) = .integer (Int64.ofInt (total ns + n.toInt)) := by
  rw [ofTotal, Integer.total_snoc]
  simp

theorem plus?_ofTotal {ns : List Int64} (h : Fits (total ns)) (hne : ns ≠ []) (n : Int64) :
    plus? (ofTotal ns) (.integer n) =
      if Fits (total ns + n.toInt) then some (ofTotal (ns ++ [n])) else none := by
  rw [ofTotal, if_neg (by simpa using hne), plus?, Integer.add?_ofInt h, ofTotal_snoc]
  split <;> rfl

theorem sum?_integers (ns : List Int64) :
    sum? (ns.map integer) = if Addable ns then some (ofTotal ns) else none := by
  induction ns using List.reverseRecOn with
  | nil => rfl
  | append_singleton ns n ih =>
    rw [List.map_append, List.map_singleton]
    by_cases hnil : ns = []
    · subst hnil
      have hn : Addable ([] ++ [n]) := by
        rw [Integer.addable_snoc]
        exact ⟨Integer.addable_nil, by simpa [total] using Integer.fits_toInt n⟩
      rw [if_pos hn, ofTotal_snoc]
      simp [sum?, dataType, DataType.isNumeric, total]
    · rw [sum?_snoc (by simpa using hnil), ih]
      by_cases hns : Addable ns
      · simp only [Integer.addable_snoc, hns, true_and, if_true, Option.bind_some,
          plus?_ofTotal hns.fits hnil]
      · rw [if_neg hns, if_neg fun h => hns (Integer.addable_snoc.mp h).1]
        rfl

def integers (vs : List Value) : List Int64 := vs.filterMap fun
  | .integer n => some n
  | _ => none

theorem map_integers {vs : List Value} (h : ∀ v ∈ vs, ∃ n, v = .integer n) :
    (integers vs).map .integer = vs := by
  induction vs with
  | nil => rfl
  | cons v vs ih =>
    obtain ⟨⟨n, rfl⟩, hvs⟩ := List.forall_mem_cons.mp h
    exact congrArg (integer n :: ·) (ih hvs)

end Value

namespace AggregateCall

variable {call : AggregateCall} {members others rows : List Operator.Listed} {r : Operator.Listed}

def TakesIntegers (call : AggregateCall) (rows : List Operator.Listed) : Prop :=
  ∃ e, call.arg = some e ∧ ∀ r ∈ rows, r.1.eval e = .ok .null ∨ ∃ n, r.1.eval e = .ok (.integer n)

def SumsIntegers (call : AggregateCall) (rows : List Operator.Listed) : Prop :=
  call.fn = .sum ∧ call.TakesIntegers rows

def addends (call : AggregateCall) (members : List Operator.Listed) : List Int64 :=
  Value.integers (call.values members)

theorem values_append (call : AggregateCall) (members others : List Operator.Listed) :
    call.values (members ++ others) = call.values members ++ call.values others := by
  unfold values
  cases call.arg with
  | none => rfl
  | some e => simp [Operator.column]

theorem addends_append (call : AggregateCall) (members others : List Operator.Listed) :
    call.addends (members ++ others) = call.addends members ++ call.addends others := by
  rw [addends, values_append, Value.integers, List.filterMap_append]
  rfl

theorem addends_nil (call : AggregateCall) : call.addends [] = [] := by
  rw [addends, values_nil]
  rfl

namespace TakesIntegers

theorem mono (h : call.TakesIntegers rows) (hsub : members ⊆ rows) : call.TakesIntegers members := by
  obtain ⟨e, harg, hrows⟩ := h
  exact ⟨e, harg, fun r hr => hrows r (hsub hr)⟩

theorem values_eq (h : call.TakesIntegers members) :
    call.values members = (call.addends members).map .integer := by
  obtain ⟨e, harg, hrows⟩ := h
  refine (Value.map_integers fun v hv => ?_).symm
  rw [values, harg] at hv
  obtain ⟨hv, hnull⟩ := List.mem_filter.mp hv
  obtain ⟨r, hr, hv⟩ := List.mem_filterMap.mp hv
  rcases hrows r hr with heval | ⟨n, heval⟩
  · cases (toOption_eq_some.mp hv).symm.trans heval
    cases hnull
  · exact ⟨n, Except.ok.inj ((toOption_eq_some.mp hv).symm.trans heval)⟩

theorem sum?_values (h : call.TakesIntegers members) : Value.sum? (call.values members) =
    if Addable (call.addends members) then some (.ofTotal (call.addends members)) else none := by
  rw [h.values_eq, Value.sum?_integers]

theorem unmixed (h : call.TakesIntegers members) : Value.Unmixed (call.values members) := by
  rw [h.values_eq]
  intro _ x _ hx
  obtain ⟨n, _, hn⟩ := List.mem_map.mp hx
  cases hn

theorem computable (h : call.TakesIntegers members)
    (haddable : call.fn = .sum ∨ call.fn = .avg → Addable (call.addends members)) :
    call.Computable members := by
  refine ⟨?_, fun hfn => ?_, fun _ => h.unmixed⟩
  · obtain ⟨e, harg, hrows⟩ := h
    intro e' he' r hr
    cases harg.symm.trans he'
    rcases hrows r hr with heval | ⟨n, heval⟩
    · exact ⟨_, heval⟩
    · exact ⟨_, heval⟩
  · rw [h.sum?_values, if_pos (haddable hfn)]
    rfl

theorem addends_single (h : call.TakesIntegers [r]) :
    call.addends [r] = [] ∨
      ∃ n, call.addends [r] = [n] ∧ call.input r.1 = .ok (some (.integer n)) := by
  obtain ⟨e, harg, hrows⟩ := h
  have hone : ∀ v, r.1.eval e = .ok v → call.values [r] = if v.isNull then [] else [v] := by
    intro v hv
    rw [← List.nil_append [r], values_snoc harg hv, values_nil]
    rfl
  rcases hrows r List.mem_cons_self with heval | ⟨n, heval⟩
  · left
    rw [addends, hone _ heval]
    rfl
  · refine .inr ⟨n, ?_, ?_⟩
    · rw [addends, hone _ heval]
      rfl
    · rw [input, harg]
      simp only [heval, Except.map]

theorem feed_overflow (h : call.TakesIntegers members) (hfn : call.fn = .sum ∨ call.fn = .avg)
    (hmembers : Addable (call.addends members)) {n : Int64}
    (hfits : ¬Fits (total (call.addends members) + n.toInt)) :
    (call.stateOn members).feed (some (.integer n)) =
      .error (.overflow (.binary .add (Int64.ofInt (total (call.addends members))) n)) := by
  have hne : call.addends members ≠ [] := by
    intro hnil
    rw [hnil] at hfits
    exact hfits (by simpa [total] using Integer.fits_toInt n)
  have hrunning : Value.running (call.values members) =
      some (.integer (Int64.ofInt (total (call.addends members)))) := by
    have hvalues : call.values members ≠ [] := by
      intro hnil
      rw [addends, hnil] at hne
      exact hne rfl
    rw [Value.running, if_neg (by simpa using hvalues), h.sum?_values, if_pos hmembers, Value.ofTotal,
      if_neg (by simpa using hne)]
  have hplus : Accumulator.plus (.integer (Int64.ofInt (total (call.addends members)))) (.integer n) =
      .error (.overflow (.binary .add (Int64.ofInt (total (call.addends members))) n)) := by
    have hadd := Integer.add?_ofInt hmembers.fits n
    rw [if_neg hfits] at hadd
    simp only [Accumulator.plus, Accumulator.numeric, bind, Except.bind, hadd]
    rfl
  rcases hfn with hfn | hfn
  all_goals
    simp only [Accumulator.feed, Value.isNull, Bool.false_eq_true, if_false, Accumulator.add, stateOn,
      hfn, hrunning, hplus]
    rfl

theorem run_overflow (h : call.TakesIntegers members) (hfn : call.fn = .sum ∨ call.fn = .avg)
    (hnot : ¬Addable (call.addends members)) :
    ∃ e, Overflows (call.addends members) e ∧ call.run members = .error e := by
  induction members using List.reverseRecOn with
  | nil =>
    rw [addends_nil] at hnot
    exact absurd Integer.addable_nil hnot
  | append_singleton members r ih =>
    have hinit := h.mono (List.subset_append_left members [r])
    rw [addends_append] at hnot ⊢
    by_cases hmembers : Addable (call.addends members)
    · -- The sum has been fine so far, so it is the last row that is refused.
      rcases (h.mono (List.subset_append_right members [r])).addends_single with hnone | ⟨n, hn, hinput⟩
      · rw [hnone, List.append_nil] at hnot
        exact absurd hmembers hnot
      · rw [hn] at hnot ⊢
        have hfits : ¬Fits (total (call.addends members) + n.toInt) := fun hfits =>
          hnot (Integer.addable_snoc.mpr ⟨hmembers, hfits⟩)
        refine ⟨_, ⟨_, n, [], rfl, hmembers, hfits, rfl⟩, ?_⟩
        rw [run_snoc, run_of_computable (hinit.computable fun _ => hmembers), hinput]
        exact hinit.feed_overflow hfn hmembers hfits
    · obtain ⟨e, ⟨front, n, back, hsplit, hrest⟩, hrun⟩ := ih hinit hmembers
      refine ⟨e, ⟨front, n, back ++ call.addends [r], ?_, hrest⟩, run_append_of_error hrun [r]⟩
      rw [hsplit, List.append_assoc, List.cons_append]

end TakesIntegers

theorem adds_outcome (h : call.SumsIntegers members) :
    Value.Adds (call.addends members) (call.outcome members) := by
  obtain ⟨hfn, htakes⟩ := h
  by_cases haddable : Addable (call.addends members)
  · have hcell : call.cell members = .ofTotal (call.addends members) := by
      rw [cell, hfn, htakes.sum?_values, if_pos haddable]
      rfl
    rw [outcome_of_computable (htakes.computable fun _ => haddable), hcell]
    exact .added haddable
  · obtain ⟨e, hoverflows, hrun⟩ := htakes.run_overflow (.inl hfn) haddable
    rw [outcome, hrun]
    exact .overflow hoverflows

end AggregateCall

end SnapshotSql
