import SnapshotSql.Proofs.Query.Grouped
import SnapshotSql.Proofs.Query.IntegerSums
/-! # Rows aggregated in another order -/

namespace SnapshotSql

open Classes (Classifies classOf firsts)
open Integer (Addable Fits Overflows total)

namespace Value

variable {a b : Value} {vs ws : List Value} {wanted : Ordering}

/-- Values that are equal in the total order are the same, unless one is an integer and one a double. -/
theorem eq_of_totalCompare (h : Unmixed [a, b]) (heq : a.totalCompare b = .eq) : a = b := by
  have hkind : a.kindRank = b.kindRank :=
    Nat.le_antisymm (kindRank_le (by simp [heq])) (kindRank_le (by simp [totalCompare_eq_symm heq]))
  cases a with
  | null => cases b <;> first | rfl | cases hkind
  | boolean x =>
    obtain ⟨y, rfl⟩ := boolean_of_kindRank hkind.symm
    exact congrArg boolean (compare_eq_iff_eq.mp heq)
  | integer m =>
    cases b with
    | integer n => exact congrArg integer (Int64.toInt_inj.mp (compare_eq_iff_eq.mp heq))
    | float y => exact absurd (by simp) (h m y (by simp))
    | null | boolean | text => cases hkind
  | float x =>
    cases b with
    | integer n => exact absurd (by simp) (h n x (by simp))
    | float y => exact congrArg float (Double.totalRank_injective (compare_eq_iff_eq.mp heq))
    | null | boolean | text => cases hkind
  | text s =>
    obtain ⟨s', rfl⟩ := text_of_kindRank hkind.symm
    exact congrArg text (Std.LawfulEqOrd.eq_of_compare heq)

theorem extreme_eq_some_iff (h : Unmixed vs) (hwanted : wanted = .lt ∨ wanted = .gt) :
    extreme wanted vs = some a ↔ a ∈ vs ∧ ∀ b ∈ vs, b.totalCompare a ≠ wanted := by
  have hbest : ∀ {c}, extreme wanted vs = some c → c ∈ vs ∧ ∀ b ∈ vs, b.totalCompare c ≠ wanted := by
    intro c hc
    exact ⟨List.mem_of_find?_eq_some hc, by simpa using List.find?_some hc⟩
  refine ⟨hbest, fun ⟨ha, hleast⟩ => ?_⟩
  obtain ⟨c, hc⟩ : ∃ c, extreme wanted vs = some c :=
    Option.isSome_iff_exists.mp (List.find?_isSome.mpr ⟨a, ha, by simpa using hleast⟩)
  obtain ⟨hmem, hcleast⟩ := hbest hc
  have hca := hleast c hmem
  have hac := hcleast a ha
  rw [totalCompare_swap] at hac
  have heq : c.totalCompare a = .eq := by
    rcases hwanted with rfl | rfl <;> cases ho : c.totalCompare a <;> simp_all
  rw [hc, eq_of_totalCompare (h.mono (by simp [hmem, ha])) heq]

theorem extreme_perm (h : Unmixed vs) (hwanted : wanted = .lt ∨ wanted = .gt) (hperm : vs.Perm ws) :
    extreme wanted vs = extreme wanted ws := by
  refine Option.ext fun a => ?_
  rw [extreme_eq_some_iff h hwanted, extreme_eq_some_iff (h.mono hperm.symm.subset) hwanted,
    hperm.mem_iff]
  simp only [hperm.mem_iff]

theorem ofTotal_perm {ns ms : List Int64} (h : ns.Perm ms) : ofTotal ns = ofTotal ms := by
  rw [ofTotal, ofTotal, Integer.total_perm h, h.isEmpty_eq]

/-- In any two orders in which integers can be added, they come to the same. Whether they can depends on the
order, unless their sum does not fit: then they cannot in any. -/
theorem Adds.perm {ns ms : List Int64} {x y : Except ExecError Value} (hperm : ns.Perm ms)
    (hx : Adds ns x) (hy : Adds ms y) :
    (∀ v w, x = .ok v → y = .ok w → v = w) ∧
      (¬Fits (total ns) →
        ∃ e e', Overflows ns e ∧ x = .error e ∧ Overflows ms e' ∧ y = .error e') := by
  cases hx with
  | added hns =>
    refine ⟨fun v w hv hw => ?_, fun hnot => absurd hns.fits hnot⟩
    cases hv
    cases hy with
    | added => exact (ofTotal_perm hperm).trans (Except.ok.inj hw)
    | overflow => cases hw
  | @overflow e hns =>
    refine ⟨nofun, fun hnot => ?_⟩
    cases hy with
    | added hms => exact absurd hms.fits (Integer.total_perm hperm ▸ hnot)
    | @overflow e' hms => exact ⟨e, e', hns, rfl, hms, rfl⟩

end Value

namespace AggregateCall

variable {call : AggregateCall} {members others : List Operator.Listed} {v w : Value}

def inputs (call : AggregateCall) (members : List Operator.Listed) :
    List (Except ExecError (Option Value)) :=
  members.map fun r => call.input r.1

/-- What the call comes to does not depend on the order of the rows: it counts, takes in integers, or looks
for an extreme of values of one kind. -/
def Orderless (call : AggregateCall) (members : List Operator.Listed) : Prop :=
  call.fn = .count ∨ call.TakesIntegers members ∨
    (call.fn = .min ∨ call.fn = .max) ∧ Value.Unmixed (call.values members)

theorem values_eq_inputs (call : AggregateCall) (members : List Operator.Listed) : call.values members =
    ((call.inputs members).filterMap fun i => i.toOption.join).filter (!·.isNull) := by
  unfold values inputs input Operator.column
  rw [List.filterMap_map]
  cases call.arg with
  | none => simp [Except.toOption]
  | some e =>
    refine congrArg (List.filter fun v : Value => !v.isNull) (List.filterMap_congr fun r _ => ?_)
    simp only [Function.comp_apply]
    cases r.1.eval e <;> rfl

section

variable (hperm : (call.inputs members).Perm (call.inputs others))

include hperm

theorem values_perm : (call.values members).Perm (call.values others) := by
  rw [values_eq_inputs, values_eq_inputs]
  exact (hperm.filterMap _).filter _

theorem addends_perm : (call.addends members).Perm (call.addends others) :=
  (values_perm hperm).filterMap _

theorem number_perm : call.number members = call.number others := by
  unfold number
  cases call.arg with
  | none => simpa [inputs] using hperm.length_eq
  | some e => exact (values_perm hperm).length_eq

theorem TakesIntegers.perm (h : call.TakesIntegers members) : call.TakesIntegers others := by
  obtain ⟨e, harg, hmembers⟩ := h
  refine ⟨e, harg, fun r hr => ?_⟩
  have hinput : call.input r.1 ∈ call.inputs members :=
    hperm.mem_iff.mpr (List.mem_map_of_mem hr)
  obtain ⟨r', hr', heq⟩ := List.mem_map.mp hinput
  have heval : r'.1.eval e = r.1.eval e := by
    rw [input, input, harg] at heq
    cases hv : r'.1.eval e <;> cases hw : r.1.eval e <;> simp_all [Except.map]
  rw [← heval]
  exact hmembers r' hr'

theorem Orderless.perm (h : call.Orderless members) : call.Orderless others := by
  rcases h with hcount | hintegers | ⟨hextreme, hunmixed⟩
  · exact .inl hcount
  · exact .inr (.inl (hintegers.perm hperm))
  · exact .inr (.inr ⟨hextreme, hunmixed.mono (values_perm hperm).symm.subset⟩)

end

theorem Orderless.computable (h : call.Orderless members) (hv : call.outcome members = .ok v) :
    call.Computable members := by
  obtain ⟨a, hrun, -⟩ := map_eq_ok.mp hv
  rcases h with hcount | hintegers | ⟨hextreme, hunmixed⟩
  · exact ⟨evaluates_of_run hrun, by simp [hcount], by simp [hcount]⟩
  · refine hintegers.computable fun hfn => ?_
    by_contra hnot
    obtain ⟨e, -, herror⟩ := hintegers.run_overflow hfn hnot
    cases hrun.symm.trans herror
  · refine ⟨evaluates_of_run hrun, ?_, fun _ => hunmixed⟩
    rcases hextreme with hfn | hfn <;> simp [hfn]

/-- In any order in which such a call comes to a value, it comes to the same one. -/
theorem Orderless.outcome_eq (h : call.Orderless members)
    (hperm : (call.inputs members).Perm (call.inputs others)) (hv : call.outcome members = .ok v)
    (hw : call.outcome others = .ok w) : v = w := by
  have hmembers := h.computable hv
  have hothers := (h.perm hperm).computable hw
  rw [outcome_of_computable hmembers] at hv
  rw [outcome_of_computable hothers] at hw
  cases hv
  cases hw
  have hvalues := values_perm hperm
  have hsum : call.fn = .sum ∨ call.fn = .avg →
      Value.sum? (call.values members) = Value.sum? (call.values others) := by
    intro hfn
    have hintegers : call.TakesIntegers members := by
      rcases h with hcount | hintegers | ⟨hextreme, -⟩
      · rcases hfn with hfn | hfn <;> cases hcount.symm.trans hfn
      · exact hintegers
      · rcases hfn with hfn | hfn <;> rcases hextreme with h | h <;> cases h.symm.trans hfn
    have hfront : Addable (call.addends members) := by
      by_contra hnot
      have hsome := hmembers.sums hfn
      simp [hintegers.sum?_values, hnot] at hsome
    have hback : Addable (call.addends others) := by
      by_contra hnot
      have hsome := hothers.sums hfn
      simp [(hintegers.perm hperm).sum?_values, hnot] at hsome
    rw [hintegers.sum?_values, (hintegers.perm hperm).sum?_values, if_pos hfront, if_pos hback,
      Value.ofTotal_perm (addends_perm hperm)]
  unfold cell
  cases hfn : call.fn with
  | count => simp only [number_perm hperm]
  | sum => simp only [hsum (.inl hfn)]
  | avg => simp only [hsum (.inr hfn), hvalues.length_eq]
  | min => simp only [Value.extreme_perm (hmembers.compares (.inl hfn)) (.inl rfl) hvalues]
  | max => simp only [Value.extreme_perm (hmembers.compares (.inr hfn)) (.inr rfl) hvalues]

end AggregateCall

namespace Group

/-- What an aggregation reads of a row: its key, what the calls take in, and whether it is contested. -/
structure Reading where
  key : Except ExecError (List Value)
  inputs : List (Except ExecError (Option Value))
  contested : Bool

def read (groupBy : List Expr) (calls : List AggregateCall) (r : Operator.Listed) : Reading where
  key := r.1.evalAll groupBy
  inputs := calls.map fun call => call.input r.1
  contested := r.2 = .contested

/-- An aggregation reads the same in both lists of rows, up to the order. -/
def Rearranged (groupBy : List Expr) (calls : List AggregateCall) (rows rows' : List Operator.Listed) :
    Prop :=
  (rows.map (read groupBy calls)).Perm (rows'.map (read groupBy calls))

variable {groupBy : List Expr} {calls : List AggregateCall} {rows rows' members others : List Operator.Listed}
  {r r' : Operator.Listed} {p : Part} {key : List Value}

def Reading.keyValues (x : Reading) : List Value := x.key.toOption.getD []

def withKey (groupBy : List Expr) (rows : List Operator.Listed) (key : List Value) : List Operator.Listed :=
  rows.filter fun r => sameKey key (keyOf groupBy r)

theorem map_read_withKey (rows : List Operator.Listed) (key : List Value) :
    (withKey groupBy rows key).map (read groupBy calls) =
      (rows.map (read groupBy calls)).filter fun x => sameKey key x.keyValues := by
  rw [List.filter_map]
  rfl

theorem rearranged_withKey (h : Rearranged groupBy calls rows rows') (key : List Value) :
    Rearranged groupBy calls (withKey groupBy rows key) (withKey groupBy rows' key) := by
  rw [Rearranged, map_read_withKey, map_read_withKey]
  exact List.Perm.filter _ h

theorem inputs_perm (h : Rearranged groupBy calls rows rows') {call : AggregateCall} (hcall : call ∈ calls) :
    (call.inputs rows).Perm (call.inputs rows') := by
  obtain ⟨i, hi⟩ := List.mem_iff_getElem?.mp hcall
  have hread : ∀ rows, call.inputs rows =
      (rows.map (read groupBy calls)).map fun x => x.inputs[i]?.getD (.ok none) := by
    intro rows
    rw [List.map_map]
    refine List.map_congr_left fun r _ => ?_
    simp only [Function.comp_apply, read, List.getElem?_map, hi, Option.map_some, Option.getD_some]
  rw [hread, hread]
  exact List.Perm.map _ h

theorem contested_perm (h : Rearranged groupBy calls rows rows') :
    rows.any (·.2 = .contested) = rows'.any (·.2 = .contested) := by
  have hread : ∀ rows : List Operator.Listed, rows.any (·.2 = .contested) =
      (rows.map (read groupBy calls)).any (·.contested) := fun rows => by
    rw [List.any_map]
    rfl
  rw [hread, hread]
  exact List.Perm.any_eq h

theorem Rearranged.symm (h : Rearranged groupBy calls rows rows') : Rearranged groupBy calls rows' rows :=
  List.Perm.symm h

theorem Rearranged.exists_read (h : Rearranged groupBy calls rows rows') (hr : r ∈ rows) :
    ∃ r' ∈ rows', read groupBy calls r' = read groupBy calls r :=
  List.mem_map.mp (List.Perm.mem_iff h |>.mp (List.mem_map_of_mem hr))

theorem keyOf_of_read (h : read groupBy calls r' = read groupBy calls r) :
    keyOf groupBy r' = keyOf groupBy r := congrArg Reading.keyValues h

theorem Rearranged.classifies (h : Rearranged groupBy calls rows rows')
    (hclasses : Classifies (alike groupBy) rows) : Classifies (alike groupBy) rows' where
  refl r _ := sameKey_refl _
  symm a _ b _ hab := sameKey_symm hab
  trans a ha b hb c hc hab hbc := by
    obtain ⟨a', ha', hreada⟩ := h.symm.exists_read ha
    obtain ⟨b', hb', hreadb⟩ := h.symm.exists_read hb
    obtain ⟨c', hc', hreadc⟩ := h.symm.exists_read hc
    unfold alike at hab hbc ⊢
    rw [← keyOf_of_read hreada, ← keyOf_of_read hreadb] at hab
    rw [← keyOf_of_read hreadb, ← keyOf_of_read hreadc] at hbc
    rw [← keyOf_of_read hreada, ← keyOf_of_read hreadc]
    exact hclasses.trans a' ha' b' hb' c' hc' hab hbc

theorem members_eq_withKey (h : Classifies (alike groupBy) rows) (hp : p ∈ parts groupBy rows) :
    p.members = withKey groupBy rows p.key := by
  rw [parts_eq_classes h] at hp
  obtain ⟨f, -, rfl⟩ := List.mem_map.mp hp
  rfl

theorem exists_part_rearranged (h : Rearranged groupBy calls rows rows')
    (hclasses : Classifies (alike groupBy) rows) (hp : p ∈ parts groupBy rows) :
    ∃ p' ∈ parts groupBy rows', sameKey p.key p'.key = true ∧
      Rearranged groupBy calls p.members p'.members := by
  have hclasses' := h.classifies hclasses
  obtain ⟨f, hf, hkey⟩ := exists_key hp
  obtain ⟨f', hf', hread⟩ := h.exists_read hf
  obtain ⟨p', hp', hmem⟩ : ∃ p' ∈ parts groupBy rows', f' ∈ p'.members := exists_part hf'
  obtain ⟨g', hg', hkey'⟩ := exists_key hp'
  have hgf : alike groupBy g' f' = true := by
    rw [alike, ← hkey']
    exact sameKey_of_mem_members p' hp' f' hmem
  refine ⟨p', hp', ?_, ?_⟩
  · rw [hkey, hkey', ← keyOf_of_read hread]
    exact sameKey_symm hgf
  · have hclass : classOf (alike groupBy) rows' g' = classOf (alike groupBy) rows' f' :=
      Classes.classOf_congr hclasses' hg' hf' hf' hgf (sameKey_refl _)
    have hmembers : p'.members = withKey groupBy rows' p.key := by
      rw [members_eq_withKey hclasses' hp', hkey, hkey', ← keyOf_of_read hread]
      exact hclass
    rw [members_eq_withKey hclasses hp, hmembers]
    exact rearranged_withKey h p.key

/-! ## Exact keys -/

/-- Rows with equal keys have the same key. -/
def ExactKeys (groupBy : List Expr) (rows : List Operator.Listed) : Prop :=
  ∀ a ∈ rows, ∀ b ∈ rows, alike groupBy a b = true → keyOf groupBy a = keyOf groupBy b

namespace ExactKeys

theorem classifies (h : ExactKeys groupBy rows) : Classifies (alike groupBy) rows where
  refl r _ := sameKey_refl _
  symm a _ b _ hab := sameKey_symm hab
  trans a ha b hb c _ hab hbc := by
    rw [alike, h a ha b hb hab]
    exact hbc

theorem rearranged (h : ExactKeys groupBy rows) (hrows : Rearranged groupBy calls rows rows') :
    ExactKeys groupBy rows' := by
  intro a ha b hb hab
  obtain ⟨a', ha', hreada⟩ := hrows.symm.exists_read ha
  obtain ⟨b', hb', hreadb⟩ := hrows.symm.exists_read hb
  rw [alike, ← keyOf_of_read hreada, ← keyOf_of_read hreadb] at hab
  rw [← keyOf_of_read hreada, ← keyOf_of_read hreadb]
  exact h a' ha' b' hb' hab

theorem mem_keys (h : ExactKeys groupBy rows) :
    key ∈ (parts groupBy rows).map (·.key) ↔ ∃ r ∈ rows, keyOf groupBy r = key := by
  constructor
  · intro hkey
    obtain ⟨p, hp, rfl⟩ := List.mem_map.mp hkey
    obtain ⟨r, hr, hkey⟩ := exists_key hp
    exact ⟨r, hr, hkey.symm⟩
  · rintro ⟨r, hr, rfl⟩
    obtain ⟨p, hp, hmem⟩ : ∃ p ∈ parts groupBy rows, r ∈ p.members := exists_part hr
    obtain ⟨f, hf, hkey⟩ := exists_key hp
    have hfr : alike groupBy f r = true := by
      rw [alike, ← hkey]
      exact sameKey_of_mem_members p hp r hmem
    exact List.mem_map.mpr ⟨p, hp, hkey.trans (h f hf r hr hfr)⟩

theorem nodup_keys (h : ExactKeys groupBy rows) : ((parts groupBy rows).map (·.key)).Nodup := by
  rw [parts_eq_classes h.classifies, List.map_map]
  refine List.pairwise_map.mpr ((Classes.firsts_apart (alike groupBy) rows).imp fun hapart hkey => ?_)
  have hkey : keyOf groupBy _ = keyOf groupBy _ := hkey
  rw [alike, hkey, sameKey_refl] at hapart
  cases hapart

theorem keys_perm (h : ExactKeys groupBy rows) (hrows : Rearranged groupBy calls rows rows') :
    ((parts groupBy rows).map (·.key)).Perm ((parts groupBy rows').map (·.key)) := by
  have h' := h.rearranged hrows
  refine (List.perm_ext_iff_of_nodup h.nodup_keys h'.nodup_keys).mpr fun key => ?_
  rw [h.mem_keys, h'.mem_keys]
  constructor
  · rintro ⟨r, hr, rfl⟩
    obtain ⟨r', hr', hread⟩ := hrows.exists_read hr
    exact ⟨r', hr', keyOf_of_read hread⟩
  · rintro ⟨r, hr, rfl⟩
    obtain ⟨r', hr', hread⟩ := hrows.symm.exists_read hr
    exact ⟨r', hr', keyOf_of_read hread⟩

theorem parts_eq (h : ExactKeys groupBy rows) : parts groupBy rows =
    ((parts groupBy rows).map (·.key)).map fun key => ⟨key, withKey groupBy rows key⟩ := by
  rw [List.map_map]
  refine (List.map_id _).symm.trans (List.map_congr_left fun p hp => ?_)
  rw [Function.comp_apply, ← members_eq_withKey h.classifies hp]
  rfl

end ExactKeys

/-- Where calls do not depend on the order, parts with the same rows have one output. -/
theorem output_rearranged {out out' : Row × Step} (hcalls : ∀ call ∈ calls, call.Orderless members)
    (h : Rearranged groupBy calls members others)
    (hout : Part.output groupBy calls ⟨key, members⟩ = .ok out)
    (hout' : Part.output groupBy calls ⟨key, others⟩ = .ok out') : out = out' := by
  obtain ⟨cells, hcells, hout⟩ := bind_eq_ok.mp hout
  obtain ⟨cells', hcells', hout'⟩ := bind_eq_ok.mp hout'
  cases hout
  cases hout'
  have hsame : calls.mapM (·.outcome members) = calls.mapM (·.outcome others) := by
    refine mapM_congr fun call hcall => ?_
    obtain ⟨v, -, hv⟩ := mem_image_of_mapM hcells hcall
    obtain ⟨w, -, hw⟩ := mem_image_of_mapM hcells' hcall
    rw [hv, hw, (hcalls call hcall).outcome_eq (inputs_perm h hcall) hv hw]
  cases (hcells.symm.trans hsame).trans hcells'
  rw [contested_perm h]

/-- An aggregation whose calls do not depend on the order yields the same rows in any order in which it comes
to its end, but not in the same order. -/
theorem gathered_perm (h : Rearranged groupBy calls rows rows') (hkeys : ExactKeys groupBy rows)
    (hcalls : ∀ p ∈ parts groupBy rows, ∀ call ∈ calls, call.Orderless p.members)
    {outs outs' : List (Row × Step)} (houts : gathered groupBy calls rows = .ok outs)
    (houts' : gathered groupBy calls rows' = .ok outs') : outs.Perm outs' := by
  have hempty : rows.isEmpty = rows'.isEmpty := by
    simpa only [List.isEmpty_map] using List.Perm.isEmpty_eq h
  rw [gathered, wholeParts] at houts houts'
  rw [← hempty] at houts'
  split at houts
  case isTrue hnone =>
    rw [if_pos hnone] at houts'
    cases houts.symm.trans houts'
    exact .refl outs
  case isFalse hsome =>
    rw [if_neg hsome] at houts'
    have hkeys' := hkeys.rearranged h
    have houtput : ∀ key ∈ (parts groupBy rows').map (·.key),
        (Part.output groupBy calls ⟨key, withKey groupBy rows' key⟩).toOption =
          (Part.output groupBy calls ⟨key, withKey groupBy rows key⟩).toOption := by
      intro key hkey
      have hpart : ⟨key, withKey groupBy rows key⟩ ∈ parts groupBy rows := by
        rw [hkeys.parts_eq]
        exact List.mem_map_of_mem ((hkeys.keys_perm h).mem_iff.mpr hkey)
      have hpart' : ⟨key, withKey groupBy rows' key⟩ ∈ parts groupBy rows' := by
        rw [hkeys'.parts_eq]
        exact List.mem_map_of_mem hkey
      obtain ⟨out, -, hout⟩ := mem_image_of_mapM houts hpart
      obtain ⟨out', -, hout'⟩ := mem_image_of_mapM houts' hpart'
      have hsame : out = out' := output_rearranged (hcalls _ hpart) (rearranged_withKey h key) hout hout'
      rw [hout, hout', hsame]
    have hrows : ∀ {rows outs}, ExactKeys groupBy rows →
        (parts groupBy rows).mapM (Part.output groupBy calls) = .ok outs →
        outs = ((parts groupBy rows).map (·.key)).filterMap fun key =>
          (Part.output groupBy calls ⟨key, withKey groupBy rows key⟩).toOption := by
      intro rows outs hkeys houts
      rw [filterMap_of_mapM houts]
      conv_lhs => rw [hkeys.parts_eq]
      rw [List.filterMap_map]
      rfl
    rw [hrows hkeys houts, hrows hkeys' houts', List.filterMap_congr houtput]
    exact (hkeys.keys_perm h).filterMap _

end Group

end SnapshotSql
