import SnapshotSql.Proofs.Query.Accumulated
/-! # Rows gathered under keys -/

namespace SnapshotSql

namespace AggregateCall

variable {call : AggregateCall} {members others : List Operator.Listed} {r : Operator.Listed}
  {e : ExecError} {a : Accumulator}

/-- The state of a call that takes in some rows. -/
def run (call : AggregateCall) (members : List Operator.Listed) : Except ExecError Accumulator :=
  members.foldlM (fun a r => do a.feed (← call.input r.1)) { fn := call.fn }

def outcome (call : AggregateCall) (members : List Operator.Listed) : Except ExecError Value :=
  (call.run members).map (·.result)

theorem run_snoc (call : AggregateCall) (members : List Operator.Listed) (r : Operator.Listed) :
    call.run (members ++ [r]) = (do
      let a ← call.run members
      let taken ← call.input r.1
      a.feed taken) := by
  rw [run, List.foldlM_append, ← run]
  exact bind_congr fun a => by rw [List.foldlM_cons]; exact bind_pure _

theorem run_append_of_error (h : call.run members = .error e) (others : List Operator.Listed) :
    call.run (members ++ others) = .error e := by
  rw [run, List.foldlM_append, ← run, h]
  rfl

theorem run_of_computable (h : call.Computable members) : call.run members = .ok (call.stateOn members) := by
  induction members using List.reverseRecOn with
  | nil => rw [stateOn_nil]; rfl
  | append_singleton members r ih =>
    obtain ⟨taken, htaken, hfeed⟩ := feed_stateOn h
    rw [run_snoc, ih h.init, htaken]
    exact hfeed

theorem outcome_of_computable (h : call.Computable members) :
    call.outcome members = .ok (call.cell members) := by
  rw [outcome, run_of_computable h, Except.map, result_stateOn]

theorem evaluates_of_run (h : call.run members = .ok a) :
    ∀ arg, call.arg = some arg → ∀ r ∈ members, ∃ v, r.1.eval arg = .ok v := by
  intro arg harg
  induction members using List.reverseRecOn generalizing a with
  | nil => exact nofun
  | append_singleton members r ih =>
    rw [run_snoc] at h
    obtain ⟨a', hrun, h⟩ := bind_eq_ok.mp h
    obtain ⟨taken, htaken, -⟩ := bind_eq_ok.mp h
    rw [input, harg] at htaken
    obtain ⟨v, hv, -⟩ := map_eq_ok.mp htaken
    intro r' hr'
    rcases List.mem_append.mp hr' with hr' | hr'
    · exact ih hrun r' hr'
    · cases List.mem_singleton.mp hr'
      exact ⟨v, hv⟩

end AggregateCall

namespace Group

def keyOf (groupBy : List Expr) (r : Operator.Listed) : List Value :=
  (r.1.evalAll groupBy).toOption.getD []

structure Part where
  key : List Value
  members : List Operator.Listed

/-- A row joins the first part whose key equals its own, or begins a new part. -/
def assign (groupBy : List Expr) : List Part → Operator.Listed → List Part
  | [], r => [⟨keyOf groupBy r, [r]⟩]
  | p :: ps, r =>
    if sameKey p.key (keyOf groupBy r) then { p with members := p.members ++ [r] } :: ps
    else p :: assign groupBy ps r

/-- The parts into which rows fall as they come. -/
def parts (groupBy : List Expr) (rows : List Operator.Listed) : List Part :=
  rows.foldl (assign groupBy) []

/-- The parts that groups are made of. Without keys there is one even if there are no rows. -/
def wholeParts (groupBy : List Expr) (rows : List Operator.Listed) : List Part :=
  if rows.isEmpty && groupBy.isEmpty then [⟨[], []⟩] else parts groupBy rows

namespace Part

def group (calls : List AggregateCall) (p : Part) : Except ExecError Group := do
  let accumulators ← calls.mapM (·.run p.members)
  pure { key := p.key, accumulators, contested := p.members.any (·.2 = .contested) }

/-- The row for a part: its key, then what the calls come to. It is contested if a row of the part is. -/
def output (groupBy : List Expr) (calls : List AggregateCall) (p : Part) : Except ExecError (Row × Step) := do
  let cells ← calls.mapM (·.outcome p.members)
  pure ({ names := cellNames groupBy calls, values := p.key ++ cells },
    if p.members.any (·.2 = .contested) then .contested else .row)

end Part

def gathered (groupBy : List Expr) (calls : List AggregateCall) (rows : List Operator.Listed) :
    Except ExecError (List (Row × Step)) :=
  (wholeParts groupBy rows).mapM (Part.output groupBy calls)

variable {groupBy : List Expr} {calls : List AggregateCall} {rows : List Operator.Listed}
  {r : Operator.Listed} {xs ys : List Value} {p : Part} {ps : List Part} {g : Group}

theorem sameKey_refl (xs : List Value) : sameKey xs xs = true := by
  induction xs with
  | nil => rfl
  | cons x xs ih => simp [sameKey, Value.totalCompare_self, ih]

theorem sameKey_symm (h : sameKey xs ys = true) : sameKey ys xs = true := by
  induction xs generalizing ys with
  | nil => cases ys <;> simp_all [sameKey]
  | cons x xs ih =>
    cases ys with
    | nil => cases h
    | cons y ys =>
      simp only [sameKey, Bool.and_eq_true, beq_iff_eq] at h ⊢
      exact ⟨Value.totalCompare_eq_symm h.1, ih h.2⟩

theorem evalAll_keyOf (h : ∀ e ∈ groupBy, ∃ v, r.1.eval e = .ok v) :
    r.1.evalAll groupBy = .ok (keyOf groupBy r) := by
  obtain ⟨values, hvalues⟩ := mapM_total h
  have hkey : r.1.evalAll groupBy = .ok values := hvalues
  rw [keyOf, hkey]
  rfl

/-! ## Parts -/

/-- The part that a row joins stands behind parts of other keys. It is an old one, or one without rows. -/
theorem assign_split (groupBy : List Expr) (ps : List Part) (r : Operator.Listed) :
    ∃ front p back, assign groupBy ps r = front ++ { p with members := p.members ++ [r] } :: back ∧
      sameKey p.key (keyOf groupBy r) = true ∧
      (∀ q ∈ front, sameKey q.key (keyOf groupBy r) = false) ∧
      (ps = front ++ p :: back ∨ ps = front ∧ p = ⟨keyOf groupBy r, []⟩ ∧ back = []) := by
  induction ps with
  | nil => exact ⟨[], ⟨keyOf groupBy r, []⟩, [], rfl, sameKey_refl _, nofun, .inr ⟨rfl, rfl, rfl⟩⟩
  | cons q ps ih =>
    rw [assign]
    split
    case isTrue hq => exact ⟨[], q, ps, rfl, hq, nofun, .inl rfl⟩
    case isFalse hq =>
      obtain ⟨front, p, back, hassign, hp, hfront, hps⟩ := ih
      refine ⟨q :: front, p, back, by rw [hassign, List.cons_append], hp,
        List.forall_mem_cons.mpr ⟨by simpa using hq, hfront⟩, ?_⟩
      rcases hps with rfl | ⟨rfl, hnew⟩
      · exact .inl rfl
      · exact .inr ⟨rfl, hnew⟩

theorem parts_snoc (groupBy : List Expr) (rows : List Operator.Listed) (r : Operator.Listed) :
    parts groupBy (rows ++ [r]) = assign groupBy (parts groupBy rows) r := by
  rw [parts, List.foldl_append]
  rfl

theorem exists_part_snoc (hp : p ∈ parts groupBy rows) (r : Operator.Listed) :
    ∃ more, ⟨p.key, p.members ++ more⟩ ∈ parts groupBy (rows ++ [r]) := by
  obtain ⟨front, q, back, hassign, -, -, hps⟩ := assign_split groupBy (parts groupBy rows) r
  rw [parts_snoc, hassign]
  rcases hps with hold | ⟨hnew, -⟩
  · rw [hold] at hp
    rcases List.mem_append.mp hp with hp | hp
    · exact ⟨[], by simp [hp]⟩
    rcases List.mem_cons.mp hp with rfl | hp
    · exact ⟨[r], by simp⟩
    · exact ⟨[], by simp [hp]⟩
  · rw [hnew] at hp
    exact ⟨[], by simp [hp]⟩

/-- What holds of a part without rows and is kept when one joins it holds of all parts. -/
theorem forall_parts {P : Part → Prop} (hnew : ∀ r ∈ rows, P ⟨keyOf groupBy r, []⟩)
    (hjoin : ∀ p, P p → ∀ r ∈ rows, sameKey p.key (keyOf groupBy r) = true →
      P { p with members := p.members ++ [r] }) : ∀ p ∈ parts groupBy rows, P p := by
  induction rows using List.reverseRecOn with
  | nil => exact nofun
  | append_singleton rows r ih =>
    have hold := ih (fun r' hr' => hnew r' (List.mem_append_left [r] hr'))
      fun p hp r' hr' => hjoin p hp r' (List.mem_append_left [r] hr')
    have hr : r ∈ rows ++ [r] := List.mem_append_right rows (List.mem_singleton_self r)
    obtain ⟨front, q, back, hassign, hq, -, hps⟩ := assign_split groupBy (parts groupBy rows) r
    rw [parts_snoc, hassign]
    have hjoined : P q → P { q with members := q.members ++ [r] } := fun hq' => hjoin q hq' r hr hq
    rcases hps with hparts | ⟨hfront, rfl, rfl⟩
    · rw [hparts, List.forall_mem_append, List.forall_mem_cons] at hold
      exact List.forall_mem_append.mpr ⟨hold.1,
        List.forall_mem_cons.mpr ⟨hjoined hold.2.1, hold.2.2⟩⟩
    · exact List.forall_mem_append.mpr ⟨hfront ▸ hold,
        List.forall_mem_cons.mpr ⟨hjoined (hnew r hr), nofun⟩⟩

theorem members_subset : ∀ p ∈ parts groupBy rows, p.members ⊆ rows :=
  forall_parts (P := fun p => p.members ⊆ rows) (fun _ _ => List.nil_subset _) fun _ hp _ hr _ =>
    List.append_subset.mpr ⟨hp, by simpa using hr⟩

theorem sameKey_of_mem_members :
    ∀ p ∈ parts groupBy rows, ∀ r ∈ p.members, sameKey p.key (keyOf groupBy r) = true :=
  forall_parts (P := fun p => ∀ r ∈ p.members, sameKey p.key (keyOf groupBy r) = true)
    (fun _ _ => nofun) fun _ hp _ _ hr => List.forall_mem_append.mpr ⟨hp, by simpa using hr⟩

theorem exists_key (hp : p ∈ parts groupBy rows) : ∃ r ∈ rows, p.key = keyOf groupBy r :=
  forall_parts (P := fun p => ∃ r ∈ rows, p.key = keyOf groupBy r) (fun r hr => ⟨r, hr, rfl⟩)
    (fun _ hp _ _ _ => hp) p hp

theorem exists_part (hr : r ∈ rows) : ∃ p ∈ parts groupBy rows, r ∈ p.members := by
  induction rows using List.reverseRecOn with
  | nil => cases hr
  | append_singleton rows r' ih =>
    rcases List.mem_append.mp hr with hr | hr
    · obtain ⟨p, hp, hmem⟩ := ih hr
      obtain ⟨more, hmore⟩ := exists_part_snoc hp r'
      exact ⟨_, hmore, List.mem_append_left more hmem⟩
    · cases List.mem_singleton.mp hr
      obtain ⟨front, p, back, hassign, -⟩ := assign_split groupBy (parts groupBy rows) r
      rw [parts_snoc, hassign]
      exact ⟨_, List.mem_append_right front List.mem_cons_self, by simp⟩

theorem parts_eq_nil : parts groupBy rows = [] ↔ rows = [] := by
  constructor
  · intro hparts
    by_contra hrows
    obtain ⟨r, hr⟩ := List.exists_mem_of_ne_nil rows hrows
    obtain ⟨p, hp, -⟩ : ∃ p ∈ parts groupBy rows, r ∈ p.members := exists_part hr
    rw [hparts] at hp
    cases hp
  · rintro rfl
    rfl

theorem mem_wholeParts (hp : p ∈ parts groupBy rows) : p ∈ wholeParts groupBy rows := by
  rw [wholeParts, if_neg]
  · exact hp
  · intro hnone
    simp only [Bool.and_eq_true, List.isEmpty_iff] at hnone
    rw [hnone.1] at hp
    cases hp

/-! ## One row more -/

private theorem feedAll_cons (view : RowView) (a : Accumulator) (as : List Accumulator)
    (call : AggregateCall) (calls : List AggregateCall) :
    feedAll view (a :: as) (call :: calls) = (do
      let taken ← call.input view
      let a ← a.feed taken
      let as ← feedAll view as calls
      pure (a :: as)) := by
  rw [feedAll, AggregateCall.input]
  cases call.arg <;> rfl

private theorem feedAll_run {members : List Operator.Listed} {as : List Accumulator}
    (h : calls.mapM (·.run members) = .ok as) (r : Operator.Listed) :
    feedAll r.1 as calls = calls.mapM (·.run (members ++ [r])) := by
  induction calls generalizing as with
  | nil =>
    cases h
    rfl
  | cons call calls ih =>
    obtain ⟨a, rest, ha, hrest, rfl⟩ := mapM_eq_ok_cons h
    rw [feedAll_cons, List.mapM_cons, ih hrest, AggregateCall.run_snoc, ha]
    simp only [bind, Except.bind]
    cases call.input r.1 <;> rfl

/-- One row more moves the group of a part on to that of the part with the row. -/
theorem feed_group (h : p.group calls = .ok g) (r : Operator.Listed) :
    g.feed calls r.1 r.2 = Part.group calls { p with members := p.members ++ [r] } := by
  obtain ⟨as, has, h⟩ := bind_eq_ok.mp h
  cases h
  rw [feed, feedAll_run has r, Part.group]
  simp only [List.any_append, List.any_cons, List.any_nil, Bool.or_false]

theorem group_nil (key : List Value) : Part.group calls ⟨key, []⟩ = .ok (create calls key) := by
  have hruns : calls.mapM (·.run []) = .ok (calls.map fun call => ({ fn := call.fn } : Accumulator)) :=
    List.mapM_pure
  rw [Part.group, hruns]
  rfl

section

variable {view : RowView} {step : Step} {front back gs : List Group} {key : List Value}

private theorem feedGroups_old (hkey : view.evalAll groupBy = .ok key)
    (hfront : ∀ p ∈ front, sameKey p.key key = false) (hg : sameKey g.key key = true) :
    feedGroups groupBy calls (front ++ g :: back).toArray view step =
      (g.feed calls view step).map fun g' => (front ++ g' :: back).toArray := by
  have hfind : (front ++ g :: back).findIdx? (fun p => sameKey p.key key) = some front.length := by
    have hnone : front.findIdx? (fun p => sameKey p.key key) = none :=
      List.findIdx?_eq_none_iff.mpr hfront
    simp [List.findIdx?_append, hnone, List.findIdx?_cons, hg]
  rw [feedGroups, hkey]
  simp only [bind, Except.bind, List.findIdx?_toArray, hfind, List.getElem?_toArray,
    List.getElem?_append_right (Nat.le_refl _), Nat.sub_self, List.getElem?_cons_zero,
    Option.getD_some]
  cases g.feed calls view step with
  | error e => rfl
  | ok g' =>
    simp only [List.setIfInBounds_toArray, List.set_append_right _ _ (Nat.le_refl _), Nat.sub_self,
      List.set_cons_zero]
    rfl

private theorem feedGroups_new (hkey : view.evalAll groupBy = .ok key)
    (hall : ∀ p ∈ gs, sameKey p.key key = false) :
    feedGroups groupBy calls gs.toArray view step =
      ((create calls key).feed calls view step).map fun g' => (gs ++ [g']).toArray := by
  have hfind : gs.findIdx? (fun p => sameKey p.key key) = none := List.findIdx?_eq_none_iff.mpr hall
  rw [feedGroups, hkey]
  simp only [bind, Except.bind, List.findIdx?_toArray, hfind]
  cases (create calls key).feed calls view step with
  | error e => rfl
  | ok g' =>
    simp only [List.push_toArray]
    rfl

end

private theorem sameKey_of_apart {gs : List Group} (hgs : ps.mapM (Part.group calls) = .ok gs)
    {key : List Value} (h : ∀ p ∈ ps, sameKey p.key key = false) : ∀ g ∈ gs, sameKey g.key key = false := by
  intro g hg
  obtain ⟨p, hp, hgroup⟩ := mem_of_mapM hgs hg
  obtain ⟨as, -, hgroup⟩ := bind_eq_ok.mp hgroup
  cases hgroup
  exact h p hp

private theorem feedGroups_split {front back : List Part} {gs : List Group}
    (hkey : r.1.evalAll groupBy = .ok (keyOf groupBy r))
    (hp : sameKey p.key (keyOf groupBy r) = true)
    (hfront : ∀ q ∈ front, sameKey q.key (keyOf groupBy r) = false)
    (hps : ps = front ++ p :: back ∨ ps = front ∧ p = ⟨keyOf groupBy r, []⟩ ∧ back = [])
    (hgs : ps.mapM (Part.group calls) = .ok gs) :
    ∃ before after, front.mapM (Part.group calls) = .ok before ∧
      back.mapM (Part.group calls) = .ok after ∧
      feedGroups groupBy calls gs.toArray r.1 r.2 =
        (Part.group calls { p with members := p.members ++ [r] }).map fun g =>
          (before ++ g :: after).toArray := by
  rcases hps with rfl | ⟨rfl, rfl, rfl⟩
  · rw [List.mapM_append] at hgs
    obtain ⟨before, hbefore, hgs⟩ := bind_eq_ok.mp hgs
    obtain ⟨rest, hrest, hgs⟩ := bind_eq_ok.mp hgs
    cases hgs
    obtain ⟨g, after, hg, hafter, rfl⟩ := mapM_eq_ok_cons hrest
    have hgkey : sameKey g.key (keyOf groupBy r) = true := by
      obtain ⟨as, -, hgroup⟩ := bind_eq_ok.mp hg
      cases hgroup
      exact hp
    refine ⟨before, after, hbefore, hafter, ?_⟩
    rw [← feed_group hg]
    exact feedGroups_old hkey (sameKey_of_apart hbefore hfront) hgkey
  · refine ⟨gs, [], hgs, rfl, ?_⟩
    rw [← feed_group (group_nil _)]
    exact feedGroups_new hkey (sameKey_of_apart hgs hfront)

/-! ## All rows -/

theorem exists_run_error {e : ExecError} (h : p.group calls = .error e) :
    ∃ call ∈ calls, call.run p.members = .error e := by
  rw [Part.group] at h
  cases hruns : calls.mapM (·.run p.members) with
  | error e' =>
    rw [hruns] at h
    cases h
    exact mapM_error hruns
  | ok as =>
    rw [hruns] at h
    cases h

/-- The groups of all rows are those of the parts. Taking in the rows fails if a key or a call does. -/
theorem foldlM_feedGroups (groupBy : List Expr) (calls : List AggregateCall)
    (rows : List Operator.Listed) :
    (∃ gs, (∀ r ∈ rows, r.1.evalAll groupBy = .ok (keyOf groupBy r)) ∧
      (parts groupBy rows).mapM (Part.group calls) = .ok gs ∧
      rows.foldlM (fun groups r => feedGroups groupBy calls groups r.1 r.2) #[] = .ok gs.toArray) ∨
    ∃ e, ((∃ r ∈ rows, r.1.evalAll groupBy = .error e) ∨
        ∃ p ∈ parts groupBy rows, ∃ call ∈ calls, call.run p.members = .error e) ∧
      rows.foldlM (fun groups r => feedGroups groupBy calls groups r.1 r.2) #[] = .error e := by
  induction rows using List.reverseRecOn with
  | nil => exact .inl ⟨[], nofun, rfl, rfl⟩
  | append_singleton rows r ih =>
    rw [List.foldlM_append]
    rcases ih with ⟨gs, hkeys, hgs, hfold⟩ | ⟨e, hfails, hfold⟩
    · rw [hfold]
      simp only [bind, Except.bind, List.foldlM_cons, List.foldlM_nil]
      cases hkey : r.1.evalAll groupBy with
      | error e =>
        right
        refine ⟨e, .inl ⟨r, by simp, hkey⟩, ?_⟩
        rw [feedGroups, hkey]
        rfl
      | ok key =>
        have hkey : r.1.evalAll groupBy = .ok (keyOf groupBy r) := by
          rw [keyOf, hkey]
          rfl
        obtain ⟨front, p, back, hassign, hp, hfront, hps⟩ := assign_split groupBy (parts groupBy rows) r
        obtain ⟨before, after, hbefore, hafter, hfeed⟩ := feedGroups_split hkey hp hfront hps hgs
        rw [hfeed, parts_snoc, hassign]
        cases hgroup : Part.group calls { p with members := p.members ++ [r] } with
        | error e =>
          right
          refine ⟨e, .inr ⟨_, List.mem_append_right front List.mem_cons_self, exists_run_error hgroup⟩, rfl⟩
        | ok g =>
          left
          refine ⟨before ++ g :: after, ?_, ?_, rfl⟩
          · exact List.forall_mem_append.mpr ⟨hkeys, by simpa using hkey⟩
          · rw [List.mapM_append, hbefore, List.mapM_cons, hgroup, hafter]
            rfl
    · right
      rw [hfold]
      refine ⟨e, ?_, rfl⟩
      rcases hfails with ⟨r', hr', hkey⟩ | ⟨p, hp, call, hcall, hrun⟩
      · exact .inl ⟨r', List.mem_append_left [r] hr', hkey⟩
      · obtain ⟨more, hmore⟩ := exists_part_snoc hp r
        exact .inr ⟨_, hmore, call, hcall, AggregateCall.run_append_of_error hrun more⟩

/-! ## The output -/

theorem output_eq (groupBy : List Expr) (calls : List AggregateCall) (p : Part) :
    p.output groupBy calls = (p.group calls).map (output (cellNames groupBy calls)) := by
  have hcells : calls.mapM (·.outcome p.members) = Except.map _ (calls.mapM (·.run p.members)) :=
    mapM_map (AggregateCall.run · p.members) Accumulator.result calls
  rw [Part.output, Part.group, hcells]
  cases calls.mapM (AggregateCall.run · p.members) <;> rfl

theorem outputs_eq {gs : List Group} (h : (parts groupBy rows).mapM (Part.group calls) = .ok gs) :
    gathered groupBy calls rows = .ok (outputs groupBy calls gs.toArray).toList := by
  have houtputs : ∀ (ps : List Part) (gs : List Group), ps.mapM (Part.group calls) = .ok gs →
      ps.mapM (Part.output groupBy calls) = .ok (gs.map (output (cellNames groupBy calls))) := by
    intro ps
    induction ps with
    | nil =>
      rintro gs ⟨⟩
      rfl
    | cons p ps ih =>
      intro gs h
      obtain ⟨g, rest, hg, hrest, rfl⟩ := mapM_eq_ok_cons h
      rw [List.mapM_cons, output_eq, hg, ih rest hrest]
      rfl
  have hempty : gs.isEmpty = rows.isEmpty := by
    have hnone : parts groupBy rows = [] ↔ rows = [] := parts_eq_nil
    rw [Bool.eq_iff_iff, List.isEmpty_iff, List.isEmpty_iff, ← hnone, ← List.length_eq_zero_iff,
      length_of_mapM h, List.length_eq_zero_iff]
  unfold gathered wholeParts outputs
  rw [List.isEmpty_toArray, hempty]
  split
  · have hnone : [⟨[], []⟩].mapM (Part.group calls) = .ok [create calls []] := by
      rw [List.mapM_cons, group_nil]
      rfl
    rw [houtputs _ _ hnone]
    simp
  · rw [houtputs _ gs h]
    simp

/-- Where the rows for all groups come out, every call has come to a value on every part. -/
theorem outcome_of_gathered {outs : List (Row × Step)} (h : gathered groupBy calls rows = .ok outs)
    (hp : p ∈ wholeParts groupBy rows) {call : AggregateCall} (hcall : call ∈ calls) :
    ∃ v, call.outcome p.members = .ok v := by
  obtain ⟨out, -, hout⟩ := mem_image_of_mapM h hp
  obtain ⟨cells, hcells, -⟩ := bind_eq_ok.mp hout
  obtain ⟨v, -, hv⟩ := mem_image_of_mapM hcells hcall
  exact ⟨v, hv⟩

theorem length_gathered {outs : List (Row × Step)}
    (hkeys : ∀ r ∈ rows, r.1.evalAll groupBy = .ok (keyOf groupBy r))
    (h : gathered groupBy calls rows = .ok outs) :
    ∀ r ∈ outs, r.1.names.length = r.1.values.length ∧ r.2 ≠ .done := by
  intro out hout
  obtain ⟨p, hp, hout⟩ := mem_of_mapM h hout
  obtain ⟨cells, hcells, hout⟩ := bind_eq_ok.mp hout
  cases hout
  have hkey : p.key.length = groupBy.length := by
    rw [wholeParts] at hp
    split at hp
    case isTrue hnone =>
      simp only [Bool.and_eq_true, List.isEmpty_iff] at hnone
      cases List.mem_singleton.mp hp
      rw [hnone.2]
      rfl
    case isFalse =>
      obtain ⟨r, hr, hkey⟩ := exists_key hp
      rw [hkey]
      exact length_of_mapM (hkeys r hr)
  refine ⟨by simp [cellNames, hkey, length_of_mapM hcells], ?_⟩
  dsimp only
  split <;> simp

end Group

namespace Operator

variable {groupBy : List Expr} {calls : List AggregateCall} {input input' : Operator}
  {buffer : Buffer} {t : TxHandle} {db db' : Database} {rows : List Listed} {n : Nat}

/-- An aggregation yields the rows for all groups if every key has a value and every call comes to one.
Otherwise it fails as a key or a call does. -/
theorem executes_gathered (hn : n + 1 = (aggregate groupBy calls input buffer).steps db.catalog)
    (h : Drains n t input db rows input' db') :
    (∃ outs, (∀ r ∈ rows, r.1.evalAll groupBy = .ok (Group.keyOf groupBy r)) ∧
      Group.gathered groupBy calls rows = .ok outs ∧
      (aggregate groupBy calls input buffer).Executes t db (outs.map fun r => (r.2, .ok r.1)) (.ok ())) ∨
    ∃ e, ((∃ r ∈ rows, r.1.evalAll groupBy = .error e) ∨
        ∃ p ∈ Group.wholeParts groupBy rows, ∃ call ∈ calls, call.outcome p.members = .error e) ∧
      (aggregate groupBy calls input buffer).Executes t db [] (.error e) := by
  rcases Group.foldlM_feedGroups groupBy calls rows with ⟨gs, hkeys, hgs, hfold⟩ | ⟨e, hfails, hfold⟩
  · left
    have hopen : (aggregate groupBy calls input buffer).openUnder t db =
        .ok () (aggregate groupBy calls input'
          { rows := Group.outputs groupBy calls gs.toArray }) db' := by
      rw [openUnder, ← hn, openIn]
      exact afterReading_ok h hfold _ _
    have hnext : ∀ b db, (aggregate groupBy calls input' b).next .empty db =
        replay b (aggregate groupBy calls input') db :=
      fun b db => next_of_nextIn fun n => by rw [nextIn]
    have hgathered := Group.outputs_eq hgs
    have hanswers := answers_replay hnext (fun _ => rfl) (Group.length_gathered hkeys hgathered)
      { rows := Group.outputs groupBy calls gs.toArray } rfl db'
    rw [List.drop_zero] at hanswers
    exact ⟨_, hkeys, hgathered, .opened hopen hanswers⟩
  · right
    obtain ⟨mid, between, hrun⟩ := afterReading_error h hfold
      (fun input => aggregate groupBy calls input buffer) fun groups input =>
        .ok () (aggregate groupBy calls input { rows := Group.outputs groupBy calls groups })
    have hopen : (aggregate groupBy calls input buffer).openUnder t db = .fail e mid between := by
      rw [openUnder, ← hn, openIn]
      exact hrun
    refine ⟨e, hfails.imp_right ?_, .refused hopen⟩
    rintro ⟨p, hp, call, hcall, hrun⟩
    exact ⟨p, Group.mem_wholeParts hp, call, hcall, by rw [AggregateCall.outcome, hrun, Except.map]⟩

theorem executes_of_gathered (hn : n + 1 = (aggregate groupBy calls input buffer).steps db.catalog)
    (h : Drains n t input db rows input' db')
    (hkeys : ∀ r ∈ rows, r.1.evalAll groupBy = .ok (Group.keyOf groupBy r))
    {outs : List (Row × Step)} (houts : Group.gathered groupBy calls rows = .ok outs) :
    (aggregate groupBy calls input buffer).Executes t db (outs.map fun r => (r.2, .ok r.1)) (.ok ()) := by
  rcases executes_gathered hn h with ⟨outs', -, houts', hexecutes⟩ | ⟨e, hfails, -⟩
  · cases houts.symm.trans houts'
    exact hexecutes
  · rcases hfails with ⟨r, hr, hkey⟩ | ⟨p, hp, call, hcall, houtcome⟩
    · cases (hkeys r hr).symm.trans hkey
    · obtain ⟨v, hv⟩ := Group.outcome_of_gathered houts hp hcall
      cases hv.symm.trans houtcome

end Operator

end SnapshotSql
