import SnapshotSql.Operator.Gathering
import SnapshotSql.Proofs.Evaluation
import SnapshotSql.Proofs.Query.Drained
import SnapshotSql.Proofs.StableSort.Arranged
import SnapshotSql.Proofs.Value.Order
/-! # What aggregate calls compute -/

namespace SnapshotSql

namespace StableSort

variable {α : Type} {before : α → α → Bool} {xs : List α} {x : α}

def foremost (before : α → α → Bool) (xs : List α) : Option α :=
  xs.find? fun x => xs.all fun y => !before y x

private theorem foremost_eq_some {b : α} (h : foremost before xs = some b) :
    (∀ y ∈ xs, before y b = false) ∧
      ∃ front back, xs = front ++ b :: back ∧ ∀ a ∈ front, ∃ y ∈ xs, before y a = true := by
  obtain ⟨hb, front, back, hxs, hfront⟩ := List.find?_eq_some_iff_append.mp h
  refine ⟨by simpa using hb, front, back, hxs, fun a ha => ?_⟩
  simpa using hfront a ha

private theorem foremost_snoc_of_some {b : α} (ho : Orders before (xs ++ [x]))
    (h : foremost before xs = some b) :
    foremost before (xs ++ [x]) = some (if before x b then x else b) := by
  obtain ⟨hleast, front, back, hxs, hfront⟩ := foremost_eq_some h
  have hmem : ∀ {a}, a ∈ xs → a ∈ xs ++ [x] := List.mem_append_left [x]
  have hx : x ∈ xs ++ [x] := List.mem_append_right xs (List.mem_singleton_self x)
  have hb : b ∈ xs := hxs ▸ List.mem_append_right front List.mem_cons_self
  have hself : before x x = false := ho.irrefl hx
  unfold foremost
  cases hxb : before x b with
  | true =>
    have hlater : ∀ a ∈ xs, before x a = true := fun a ha =>
      ho.lt_of_lt_of_le hx (hmem hb) (hmem ha) hxb (hleast a ha)
    have hnone : xs.find? (fun a => (xs ++ [x]).all fun y => !before y a) = none := by
      rw [List.find?_eq_none]
      intro a ha
      simp [hlater a ha]
    have hfirst : ∀ y ∈ xs, before y x = false := fun y hy => ho.asymm x hx y (hmem hy) (hlater y hy)
    rw [List.find?_append, hnone]
    simpa [hself] using hfirst
  | false =>
    refine List.find?_eq_some_iff_append.mpr ⟨?_, front, back ++ [x], by simp [hxs], ?_⟩
    · simpa [hxb] using hleast
    · intro a ha
      obtain ⟨y, hy, hya⟩ := hfront a ha
      simp only [Bool.not_eq_true', List.all_eq_false]
      exact ⟨y, hmem hy, by simp [hya]⟩

theorem foremost_snoc (ho : Orders before (xs ++ [x])) :
    foremost before (xs ++ [x]) =
      some ((foremost before xs).elim x fun b => if before x b then x else b) := by
  -- Whether an earlier foremost element exists is settled by the same statement for fewer elements.
  induction xs using List.reverseRecOn generalizing x with
  | nil =>
    have hself : before x x = false := ho.irrefl (by simp)
    simp [foremost, hself]
  | append_singleton xs y ih =>
    have hsome := ih (ho.mono (List.subset_append_left _ _))
    rw [foremost_snoc_of_some ho hsome, hsome, Option.elim_some]

end StableSort

namespace Value

/-- The sum of two numbers: exact for integers, and in doubles for all others. -/
def plus? : Value → Value → Option Value
  | integer a, integer b => (Integer.add? a b).map integer
  | a, b => do
    let x ← a.asDouble?
    let y ← b.asDouble?
    pure (float (x.add y))

/-- The sum of numbers from left to right, if all of them are numbers and no integer sum on the way
overflows. There is no sum of no numbers but NULL. -/
def sum? : List Value → Option Value
  | [] => some null
  | v :: vs => if v.dataType.isNumeric then vs.foldlM plus? v else none

def running (vs : List Value) : Option Value := if vs.isEmpty then none else sum? vs

/-- The first value that no other one beats, where `wanted` tells how a value compares with one that
it beats. -/
def extreme (wanted : Ordering) (vs : List Value) : Option Value :=
  vs.find? fun v => vs.all fun w => w.totalCompare v != wanted

variable {a b v s : Value} {vs : List Value} {wanted : Ordering}

theorem plus_of_plus? (h : plus? a b = some s) : Accumulator.plus a b = .ok s := by
  cases b with
  | integer n =>
    cases a with
    | integer m =>
      obtain ⟨k, hk, rfl⟩ := Option.map_eq_some_iff.mp h
      simp only [Accumulator.plus, Accumulator.numeric, bind, Except.bind, hk]
      rfl
    | float x =>
      cases h
      rfl
    | null | boolean | text => cases h
  | float y =>
    cases a with
    | integer | float =>
      cases h
      rfl
    | null | boolean | text => cases h
  | null | boolean | text => cases a <;> cases h

theorem sum?_snoc (h : vs ≠ []) (v : Value) : sum? (vs ++ [v]) = (sum? vs).bind fun s => plus? s v := by
  cases vs with
  | nil => exact absurd rfl h
  | cons w vs =>
    rw [List.cons_append, sum?, sum?]
    split
    · rw [List.foldlM_append]
      cases vs.foldlM plus? w with
      | none => rfl
      | some s => simp
    · rfl

theorem isSome_sum?_of_snoc (h : (sum? (vs ++ [v])).isSome) : (sum? vs).isSome := by
  cases vs with
  | nil => rfl
  | cons w vs =>
    rw [sum?_snoc (List.cons_ne_nil w vs)] at h
    cases hs : sum? (w :: vs) with
    | none => simp [hs] at h
    | some s => rfl

theorem plus_running (h : (sum? (vs ++ [v])).isSome) :
    (match running vs with
      | none => Accumulator.numeric v
      | some sum => Accumulator.plus sum v) = .ok ((sum? (vs ++ [v])).getD null) := by
  cases vs with
  | nil => cases v <;> first | rfl | cases h
  | cons w vs =>
    obtain ⟨s, hs⟩ := Option.isSome_iff_exists.mp (isSome_sum?_of_snoc h)
    obtain ⟨total, htotal⟩ := Option.isSome_iff_exists.mp h
    have hrunning : running (w :: vs) = some s := hs
    have hplus : plus? s v = some total := by
      rwa [sum?_snoc (List.cons_ne_nil w vs), hs, Option.bind_some] at htotal
    rw [hrunning, htotal, Option.getD_some]
    exact plus_of_plus? hplus

/-- The values of a column without integers beside doubles are ordered upwards and downwards. -/
theorem orders_of_unmixed (h : Unmixed vs) (hwanted : wanted = .lt ∨ wanted = .gt) :
    StableSort.Orders (fun w v => w.totalCompare v == wanted) vs := by
  have hup : StableSort.Orders (fun w v : Value => w.totalCompare v == .lt) vs :=
    .of_compare totalCompare_swap fun _ ha _ hb _ _ => totalCompare_trans (h.not_blurs ha hb)
  rcases hwanted with rfl | rfl
  · exact hup
  · have hswap : (fun w v : Value => w.totalCompare v == .gt) = fun w v => v.totalCompare w == .lt := by
      funext w v
      rw [totalCompare_swap w v]
      cases v.totalCompare w <;> rfl
    rw [hswap]
    exact hup.reverse

theorem extreme_snoc (h : Unmixed (vs ++ [v])) (hwanted : wanted = .lt ∨ wanted = .gt) :
    extreme wanted (vs ++ [v]) =
      if Accumulator.improves wanted v (extreme wanted vs) then some v else extreme wanted vs := by
  have hsnoc := StableSort.foremost_snoc (orders_of_unmixed h hwanted)
  have hextreme : ∀ us, extreme wanted us =
      StableSort.foremost (fun w v => w.totalCompare v == wanted) us := fun _ => rfl
  rw [hextreme, hextreme, hsnoc]
  cases StableSort.foremost (fun w v => w.totalCompare v == wanted) vs with
  | none => rfl
  | some b => exact apply_ite some _ _ _

end Value

namespace AggregateCall

variable (call : AggregateCall) (members : List Operator.Listed)

/-- The values that a call takes in: those of its argument that are not NULL. -/
def values : List Value :=
  match call.arg with
  | none => []
  | some e => (Operator.column e members).filter (!·.isNull)

/-- What a call takes in from a row: the value of its argument, or nothing if it counts rows. -/
def input (view : RowView) : Except ExecError (Option Value) :=
  match call.arg with
  | none => .ok none
  | some e => (view.eval e).map some

def number : Nat :=
  match call.arg with
  | none => members.length
  | some _ => (call.values members).length

def cell : Value :=
  match call.fn with
  | .count => .integer (Int64.ofNat (call.number members))
  | .sum => (Value.sum? (call.values members)).getD .null
  | .avg =>
    match (Value.sum? (call.values members)).bind (·.asDouble?) with
    | some sum => .float (sum.div (.ofInt (call.values members).length))
    | none => .null
  | .min => (Value.extreme .lt (call.values members)).getD .null
  | .max => (Value.extreme .gt (call.values members)).getD .null

/-- The call can be computed: its argument has a value on every row, sums are defined, and no integer
is compared with a double. -/
structure Computable : Prop where
  evaluates : ∀ e, call.arg = some e → ∀ r ∈ members, ∃ v, r.1.eval e = .ok v
  sums : call.fn = .sum ∨ call.fn = .avg → (Value.sum? (call.values members)).isSome
  compares : call.fn = .min ∨ call.fn = .max → Value.Unmixed (call.values members)

def stateOn : Accumulator where
  fn := call.fn
  count := call.number members
  sum :=
    match call.fn with
    | .sum | .avg => Value.running (call.values members)
    | _ => none
  best :=
    match call.fn with
    | .min => Value.extreme .lt (call.values members)
    | .max => Value.extreme .gt (call.values members)
    | _ => none

variable {call members} {r : Operator.Listed} {e : Expr} {v : Value}

theorem values_nil (call : AggregateCall) : call.values [] = [] := by
  unfold values
  cases call.arg <;> rfl

theorem computable_nil : call.Computable [] :=
  ⟨nofun, fun _ => by rw [values_nil]; rfl, fun _ => by rw [values_nil]; exact nofun⟩

theorem stateOn_nil : call.stateOn [] = { fn := call.fn } := by
  have hvalues := call.values_nil
  have hnumber : call.number [] = 0 := by
    unfold number
    cases call.arg with
    | none => rfl
    | some e => rw [hvalues]; rfl
  rw [stateOn, hvalues, hnumber]
  cases call.fn <;> rfl

theorem result_stateOn : (call.stateOn members).result = call.cell members := by
  -- Before there is a number the running sum is missing, and the sum is NULL.
  have hempty : ∀ {vs : List Value}, (Value.running vs).getD .null = (Value.sum? vs).getD .null := by
    intro vs
    cases vs <;> rfl
  have hdouble : ∀ {vs : List Value},
      (Value.running vs).bind (·.asDouble?) = (Value.sum? vs).bind (·.asDouble?) := by
    intro vs
    cases vs <;> rfl
  unfold Accumulator.result cell
  cases hfn : call.fn with
  | count => simp only [stateOn, hfn]
  | sum => simp only [stateOn, hfn, hempty]
  | avg =>
    simp only [stateOn, hfn, hdouble]
    cases hsum : (Value.sum? (call.values members)).bind (·.asDouble?) with
    | none => rfl
    | some x =>
      have hne : call.values members ≠ [] := by
        intro hnil
        rw [hnil] at hsum
        cases hsum
      have hnumber : call.number members = (call.values members).length := by
        unfold number
        cases harg : call.arg with
        | none => exact absurd (by rw [values, harg]) hne
        | some e => rfl
      have hpos : (call.values members).length ≠ 0 := fun hlen => hne (List.length_eq_zero_iff.mp hlen)
      simp only [hnumber, if_neg hpos]
  | min => simp only [stateOn, hfn]
  | max => simp only [stateOn, hfn]

/-! ## One row more -/

theorem values_snoc (harg : call.arg = some e) (hv : r.1.eval e = .ok v) :
    call.values (members ++ [r]) = call.values members ++ if v.isNull then [] else [v] := by
  have hcolumn : Operator.column e [r] = [v] := by
    simp [Operator.column, toOption_eq_some.mpr hv]
  rw [values, values, harg]
  simp only [Operator.column, List.filterMap_append, List.filter_append] at hcolumn ⊢
  rw [hcolumn]
  cases hnull : v.isNull <;> simp [hnull]

theorem stateOn_congr (hvalues : call.values (members ++ [r]) = call.values members)
    {n : Nat} (hnumber : call.number (members ++ [r]) = n) :
    call.stateOn (members ++ [r]) = { call.stateOn members with count := n } := by
  simp only [stateOn, hvalues, hnumber]

/-- What can be computed on some rows can be computed on the rows before the last one. -/
theorem Computable.init (h : call.Computable (members ++ [r])) : call.Computable members := by
  have hevaluates : ∀ e, call.arg = some e → ∀ r ∈ members, ∃ v, r.1.eval e = .ok v :=
    fun e he r' hr' => h.evaluates e he r' (List.mem_append_left [r] hr')
  have hvalues : call.values (members ++ [r]) = call.values members ∨
      ∃ v, call.values (members ++ [r]) = call.values members ++ [v] := by
    cases harg : call.arg with
    | none =>
      left
      rw [values, values, harg]
    | some e =>
      obtain ⟨v, hv⟩ := h.evaluates e harg r (by simp)
      rw [values_snoc harg hv]
      cases v.isNull
      · exact .inr ⟨v, rfl⟩
      · exact .inl (List.append_nil _)
  rcases hvalues with hsame | ⟨v, hsnoc⟩
  · exact ⟨hevaluates, hsame ▸ h.sums, hsame ▸ h.compares⟩
  · refine ⟨hevaluates, fun hfn => ?_, fun hfn => ?_⟩
    · exact Value.isSome_sum?_of_snoc (hsnoc ▸ h.sums hfn)
    · exact (hsnoc ▸ h.compares hfn : Value.Unmixed (call.values members ++ [v])).mono
        (List.subset_append_left _ _)

private theorem add_stateOn (h : call.Computable (members ++ [r]))
    (hvalues : call.values (members ++ [r]) = call.values members ++ [v])
    (hnumber : call.number (members ++ [r]) = call.number members + 1) :
    (call.stateOn members).add v = .ok (call.stateOn (members ++ [r])) := by
  have hsums := h.sums
  have hcompares := h.compares
  rw [hvalues] at hsums hcompares
  have hrunning : ∀ {vs : List Value}, (Value.sum? (vs ++ [v])).isSome →
      Value.running (vs ++ [v]) = some ((Value.sum? (vs ++ [v])).getD .null) := by
    intro vs hsome
    obtain ⟨s, hs⟩ := Option.isSome_iff_exists.mp hsome
    simp [Value.running, hs]
  unfold Accumulator.add
  cases hfn : call.fn with
  | count => simp only [stateOn, hfn, hnumber]
  | sum | avg =>
    have hsome := hsums (by simp [hfn])
    have hplus := Value.plus_running hsome
    simp only [stateOn, hfn, hvalues, hnumber, hrunning hsome]
    cases hrun : Value.running (call.values members) with
    | none | some =>
      simp only [hrun] at hplus ⊢
      rw [hplus]
      rfl
  | min =>
    have hsnoc := Value.extreme_snoc (hcompares (by simp [hfn])) (.inl rfl)
    simp only [stateOn, hfn, hvalues, hnumber, hsnoc]
    split <;> rfl
  | max =>
    have hsnoc := Value.extreme_snoc (hcompares (by simp [hfn])) (.inr rfl)
    simp only [stateOn, hfn, hvalues, hnumber, hsnoc]
    split <;> rfl

theorem feed_stateOn (h : call.Computable (members ++ [r])) :
    ∃ taken, call.input r.1 = .ok taken ∧
      (call.stateOn members).feed taken = .ok (call.stateOn (members ++ [r])) := by
  unfold input
  cases harg : call.arg with
  | none =>
    have hvalues : call.values (members ++ [r]) = call.values members := by
      rw [values, values, harg]
    have hnumber : call.number (members ++ [r]) = call.number members + 1 := by
      simp only [number, harg, List.length_append, List.length_singleton]
    refine ⟨none, rfl, ?_⟩
    rw [stateOn_congr hvalues hnumber]
    rfl
  | some e =>
    obtain ⟨v, hv⟩ := h.evaluates e harg r (by simp)
    have hvalues : call.values (members ++ [r]) = call.values members ++ _ := values_snoc harg hv
    have hlength : ∀ ms, call.number ms = (call.values ms).length := by
      intro ms
      simp only [number, harg]
    refine ⟨some v, by simp only [hv, Except.map], ?_⟩
    cases hnull : v.isNull with
    | true =>
      simp only [Accumulator.feed, hnull, if_true, List.append_nil] at hvalues ⊢
      rw [stateOn_congr hvalues (hlength _), hvalues, ← hlength]
      rfl
    | false =>
      simp only [Accumulator.feed, hnull, Bool.false_eq_true, if_false] at hvalues ⊢
      refine add_stateOn h hvalues ?_
      rw [hlength, hlength, hvalues, List.length_append, List.length_singleton]

end AggregateCall

end SnapshotSql
