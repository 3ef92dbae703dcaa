import SnapshotSql.Proofs.Query.Shown
/-! # Groups row by row -/

namespace SnapshotSql

namespace Group

def takeAll (r : Row) : List Accumulator → List AggregateCall → Except ExecError (List Accumulator)
  | a :: as, call :: calls => do
    let a ← call.take a r
    let as ← takeAll r as calls
    pure (a :: as)
  | _, _ => .ok []

def take (calls : List AggregateCall) (g : Group) (r : Row) : Except ExecError Group := do
  let accumulators ← takeAll r g.accumulators calls
  pure { g with accumulators }

def takeFirst (calls : List AggregateCall) (key : List Value) (r : Row) :
    List Group → Except ExecError (List Group)
  | [] => do
    let g ← (create calls key).take calls r
    pure [g]
  | g :: gs =>
    if sameKey g.key key then do
      let g ← g.take calls r
      pure (g :: gs)
    else do
      let gs ← takeFirst calls key r gs
      pure (g :: gs)

variable {calls : List AggregateCall} {v : RowView} {r : Row} {key : List Value}

private theorem feedAll_eq (hv : v.copy = .ok r) (as : List Accumulator) :
    feedAll v as calls = takeAll r as calls := by
  induction as generalizing calls with
  | nil => rfl
  | cons a as ih =>
    cases calls with
    | nil => rfl
    | cons call calls =>
      rw [feedAll, takeAll, AggregateCall.take, ih]
      cases call.arg with
      | none => rfl
      | some arg =>
        simp only [RowView.eval_of_copy hv]
        cases r.eval arg <;> rfl

private theorem feed_eq (hv : v.copy = .ok r) (g : Group) : g.feed calls v .row = g.take calls r := by
  rw [feed, take, feedAll_eq hv]
  simp

private theorem takeFirst_eq (gs : List Group) :
    (match gs.findIdx? fun g => sameKey g.key key with
      | some i => do
        let g ← (gs[i]?.getD (create calls key)).take calls r
        pure (gs.set i g)
      | none => do
        let g ← (create calls key).take calls r
        pure (gs ++ [g])) = takeFirst calls key r gs := by
  induction gs with
  | nil => rfl
  | cons g gs ih =>
    rw [List.findIdx?_cons, takeFirst]
    cases hsame : sameKey g.key key with
    | true => rfl
    | false =>
      rw [if_neg (by simp), if_neg (by simp), ← ih]
      cases gs.findIdx? fun g => sameKey g.key key with
      | none =>
        simp only [Option.map_none]
        cases (create calls key).take calls r <;> rfl
      | some i =>
        simp only [Option.map_some, List.getElem?_cons_succ, List.set_cons_succ]
        cases (gs[i]?.getD (create calls key)).take calls r <;> rfl

private theorem feedGroups_eq {groupBy : List Expr} (hv : v.copy = .ok r)
    (groups : Array Group) :
    feedGroups groupBy calls groups v .row = (do
      let key ← r.evalAll groupBy
      let gs ← takeFirst calls key r groups.toList
      pure gs.toArray) := by
  rw [feedGroups, RowView.evalAll_of_copy hv]
  cases r.evalAll groupBy with
  | error e => rfl
  | ok key =>
    obtain ⟨gs⟩ := groups
    simp only [bind, Except.bind, ← takeFirst_eq, List.findIdx?_toArray, feed_eq hv]
    cases gs.findIdx? fun g => sameKey g.key key with
    | none =>
      simp only
      cases (create calls key).take calls r with
      | error e => rfl
      | ok g =>
        simp only [List.push_toArray]
        rfl
    | some i =>
      simp only [List.getElem?_toArray]
      cases (gs[i]?.getD (create calls key)).take calls r with
      | error e => rfl
      | ok g =>
        simp only [List.setIfInBounds_toArray]
        rfl

/-! ## Whole groups -/

theorem take_key {g g' : Group} (h : g.take calls r = .ok g') : g'.key = g.key := by
  obtain ⟨as, _, h⟩ := bind_eq_ok.mp h
  cases h
  rfl

/-- What groups become when rows are left to be taken in: each takes those of its key that no earlier
group takes, and the others make new groups. -/
private def absorb (calls : List AggregateCall) :
    List Group → List (List Value × Row) → Except ExecError (List Group)
  | [], rows => (Row.groups rows).mapM fun (key, members) =>
    members.foldlM (take calls) (create calls key)
  | g :: gs, rows => do
    let g' ← ((rows.filter fun row => sameKey g.key row.1).map (·.2)).foldlM (take calls) g
    let gs ← absorb calls gs (rows.filter fun row => !sameKey g.key row.1)
    pure (g' :: gs)

private theorem absorb_nil (gs : List Group) : absorb calls gs [] = .ok gs := by
  induction gs with
  | nil =>
    rw [absorb, Row.groups]
    rfl
  | cons g gs ih => simp [absorb, ih, bind, Except.bind, pure, Except.pure]

private theorem absorb_cons {gs out : List Group} {rows : List (List Value × Row)}
    (h : absorb calls gs ((key, r) :: rows) = .ok out) :
    ∃ gs', takeFirst calls key r gs = .ok gs' ∧ absorb calls gs' rows = .ok out := by
  induction gs generalizing rows out with
  | nil =>
    rw [absorb, Row.groups] at h
    obtain ⟨g, rest, hg, hrest, rfl⟩ := mapM_eq_ok_cons h
    simp only [List.foldlM_cons] at hg
    obtain ⟨g', hg', hg⟩ := bind_eq_ok.mp hg
    have hkey : g'.key = key := take_key hg'
    refine ⟨[g'], ?_, ?_⟩
    · rw [takeFirst, hg']
      rfl
    · rw [absorb, hkey, hg, absorb, hrest]
      rfl
  | cons g gs ih =>
    rw [absorb] at h
    obtain ⟨g', hg', h⟩ := bind_eq_ok.mp h
    obtain ⟨rest, hrest, h⟩ := bind_eq_ok.mp h
    cases h
    cases hsame : sameKey g.key key with
    | true =>
      simp only [List.filter_cons, hsame, if_true, List.map_cons, List.foldlM_cons] at hg'
      simp only [List.filter_cons, hsame, Bool.not_true, Bool.false_eq_true, if_false] at hrest
      obtain ⟨g'', hg'', hg'⟩ := bind_eq_ok.mp hg'
      refine ⟨g'' :: gs, ?_, ?_⟩
      · rw [takeFirst, if_pos hsame, hg'']
        rfl
      · rw [absorb, take_key hg'', hg', hrest]
        rfl
    | false =>
      simp only [List.filter_cons, hsame, Bool.false_eq_true, if_false] at hg'
      simp only [List.filter_cons, hsame, Bool.not_false, if_true] at hrest
      obtain ⟨gs', hgs', hrest⟩ := ih hrest
      refine ⟨g :: gs', ?_, ?_⟩
      · rw [takeFirst, if_neg (by simp [hsame]), hgs']
        rfl
      · rw [absorb, hg', hrest]
        rfl

/-- Taking rows in one after the other fills every group with the rows of its key. -/
theorem foldlM_takeFirst {gs out : List Group} {rows : List (List Value × Row)}
    (h : absorb calls gs rows = .ok out) :
    rows.foldlM (fun gs (row : List Value × Row) => takeFirst calls row.1 row.2 gs) gs = .ok out := by
  induction rows generalizing gs with
  | nil => exact (absorb_nil gs).symm.trans h
  | cons row rows ih =>
    obtain ⟨gs', hgs', h⟩ := absorb_cons h
    rw [List.foldlM_cons, hgs']
    exact ih h

/-! ## Call by call -/

private def overAll (members : List Row) :
    List Accumulator → List AggregateCall → Except ExecError (List Accumulator)
  | a :: as, call :: calls => do
    let a ← members.foldlM call.take a
    let as ← overAll members as calls
    pure (a :: as)
  | _, _ => .ok []

private theorem overAll_nil {as : List Accumulator} (h : as.length = calls.length) :
    overAll [] as calls = .ok as := by
  induction as generalizing calls with
  | nil => rfl
  | cons a as ih =>
    cases calls with
    | nil => cases h
    | cons call calls =>
      have hrest : overAll [] as calls = .ok as := ih (Nat.succ.inj h)
      rw [overAll, hrest]
      rfl

private theorem overAll_cons {members : List Row} {as as' : List Accumulator}
    (h : overAll (r :: members) as calls = .ok as') :
    ∃ mid, takeAll r as calls = .ok mid ∧ overAll members mid calls = .ok as' := by
  induction as generalizing calls as' with
  | nil => exact ⟨[], rfl, h⟩
  | cons a as ih =>
    cases calls with
    | nil => exact ⟨[], rfl, h⟩
    | cons call calls =>
      rw [overAll] at h
      obtain ⟨a', ha', h⟩ := bind_eq_ok.mp h
      obtain ⟨rest, hrest, h⟩ := bind_eq_ok.mp h
      cases h
      rw [List.foldlM_cons] at ha'
      obtain ⟨first, hfirst, ha'⟩ := bind_eq_ok.mp ha'
      obtain ⟨mid, hmid, hover⟩ := ih hrest
      refine ⟨first :: mid, ?_, ?_⟩
      · rw [takeAll, hfirst, hmid]
        rfl
      · rw [overAll, ha', hover]
        rfl

private theorem length_takeAll {as as' : List Accumulator} (hlen : as.length = calls.length)
    (h : takeAll r as calls = .ok as') : as'.length = calls.length := by
  induction as generalizing calls as' with
  | nil =>
    cases h
    exact hlen
  | cons a as ih =>
    cases calls with
    | nil => cases hlen
    | cons call calls =>
      rw [takeAll] at h
      obtain ⟨a', _, h⟩ := bind_eq_ok.mp h
      obtain ⟨rest, hrest, h⟩ := bind_eq_ok.mp h
      cases h
      rw [List.length_cons, List.length_cons, ih (Nat.succ.inj hlen) hrest]

private theorem foldlM_take {members : List Row} {as as' : List Accumulator} {contested : Bool}
    (hlen : as.length = calls.length) (h : overAll members as calls = .ok as') :
    members.foldlM (take calls) ⟨key, as, contested⟩ = .ok ⟨key, as', contested⟩ := by
  induction members generalizing as with
  | nil =>
    cases (overAll_nil hlen).symm.trans h
    rfl
  | cons r members ih =>
    obtain ⟨mid, hmid, h⟩ := overAll_cons h
    have htake : take calls ⟨key, as, contested⟩ r = .ok ⟨key, mid, contested⟩ := by
      rw [take, hmid]
      rfl
    rw [List.foldlM_cons, htake]
    exact ih (length_takeAll hlen hmid) h

/-- The results for a group's rows are those of its calls, each taken for itself. -/
theorem foldlM_create (key : List Value) {members : List Row} {values : List Value}
    (h : calls.mapM (·.resultOn members) = .ok values) :
    ∃ g, members.foldlM (take calls) (create calls key) = .ok g ∧ g.key = key ∧
      g.contested = false ∧ g.accumulators.map (·.result) = values := by
  have hover : ∃ as, overAll members (calls.map fun call => { fn := call.fn }) calls = .ok as ∧
      as.map (·.result) = values := by
    induction calls generalizing values with
    | nil =>
      cases h
      exact ⟨[], rfl, rfl⟩
    | cons call calls ih =>
      obtain ⟨x, rest, hx, hrest, rfl⟩ := mapM_eq_ok_cons h
      obtain ⟨a, ha, hx⟩ := bind_eq_ok.mp hx
      obtain ⟨as, has, hresults⟩ := ih hrest
      cases hx
      refine ⟨a :: as, ?_, by rw [List.map_cons, hresults]⟩
      rw [List.map_cons, overAll, ha, has]
      rfl
  obtain ⟨as, has, hresults⟩ := hover
  exact ⟨⟨key, as, false⟩, foldlM_take (List.length_map _) has, rfl, rfl, hresults⟩

/-! ## The output -/

variable {groupBy : List Expr} {s : Stream} {rs : List Row} {keyed : List (List Value × Row)}

private theorem fold_feedGroups {gs : List Group} (h : s.Shows rs)
    (hkeyed : rs.mapM (Row.withKey groupBy) = .ok keyed)
    (hgs : absorb calls [] keyed = .ok gs) :
    s.fold (feedGroups groupBy calls) #[] = .ok gs.toArray := by
  have hrows : ∀ (front : List Group) out,
      keyed.foldlM (fun gs (row : List Value × Row) => takeFirst calls row.1 row.2 gs) front =
        .ok out →
      (rs.foldlM (fun (groups : Array Group) r => do
        let key ← r.evalAll groupBy
        let gs ← takeFirst calls key r groups.toList
        pure gs.toArray) front.toArray : Except ExecError (Array Group)) = .ok out.toArray := by
    clear h hgs
    induction rs generalizing keyed with
    | nil =>
      intro front out hout
      cases hkeyed
      cases hout
      rfl
    | cons r rs ih =>
      intro front out hout
      obtain ⟨row, rest, hrow, hrest, rfl⟩ := mapM_eq_ok_cons hkeyed
      obtain ⟨key, hkey, hrow⟩ := bind_eq_ok.mp hrow
      cases hrow
      rw [List.foldlM_cons] at hout
      obtain ⟨gs', hgs', hout⟩ := bind_eq_ok.mp hout
      rw [List.foldlM_cons, hkey]
      simp only [bind, Except.bind, hgs']
      exact ih hrest gs' out hout
  rw [Stream.fold_of_shows (fun groups v r hv => feedGroups_eq hv groups) h]
  exact hrows [] gs (foldlM_takeFirst hgs)

private theorem key_of_mem_groups {key : List Value} {members : List Row}
    (h : (key, members) ∈ Row.groups keyed) : ∃ r, (key, r) ∈ keyed := by
  induction hlen : keyed.length using Nat.strongRecOn generalizing keyed with
  | ind n ih =>
    cases keyed with
    | nil => simp [Row.groups] at h
    | cons row rows =>
      rw [Row.groups] at h
      rcases List.mem_cons.mp h with h | h
      · cases h
        exact ⟨row.2, List.mem_cons_self⟩
      · have hless := List.length_filter_le (fun other => !sameKey row.1 other.1) rows
        obtain ⟨r, hr⟩ := ih _ (by rw [← hlen, List.length_cons]; omega) h rfl
        exact ⟨r, List.mem_cons_of_mem row (List.mem_filter.mp hr).1⟩

private theorem output_of_rows {groups : List (List Value × List Row)} {out : List Row}
    (h : groups.mapM (Row.ofGroup groupBy calls) = .ok out) :
    ∃ gs, (groups.mapM fun (group : List Value × List Row) =>
        group.2.foldlM (take calls) (create calls group.1)) = .ok gs ∧
      gs.map (output (cellNames groupBy calls)) = out.map fun r => (r, .row) := by
  induction groups generalizing out with
  | nil =>
    cases h
    exact ⟨[], rfl, rfl⟩
  | cons group groups ih =>
    obtain ⟨r, rest, hr, hrest, rfl⟩ := mapM_eq_ok_cons h
    obtain ⟨values, hvalues, hr⟩ := bind_eq_ok.mp hr
    obtain ⟨g, hg, hkey, hcontested, hresults⟩ := foldlM_create group.1 hvalues
    obtain ⟨gs, hgs, hout⟩ := ih hrest
    cases hr
    refine ⟨g :: gs, ?_, ?_⟩
    · rw [List.mapM_cons, hg, hgs]
      rfl
    · rw [List.map_cons, List.map_cons, hout, output, hkey, hcontested, hresults]
      rfl

private theorem length_ofGroup {group : List Value × List Row} {r : Row}
    (hkey : group.1.length = groupBy.length) (h : Row.ofGroup groupBy calls group = .ok r) :
    r.names.length = r.values.length := by
  obtain ⟨values, hvalues, h⟩ := bind_eq_ok.mp h
  cases h
  simp only [cellNames, List.length_append, List.length_map, hkey, length_of_mapM hvalues]

private theorem length_of_keyed {key : List Value} (hkeyed : rs.mapM (Row.withKey groupBy) = .ok keyed)
    (h : (key, r) ∈ keyed) : key.length = groupBy.length := by
  induction rs generalizing keyed with
  | nil =>
    cases hkeyed
    cases h
  | cons r' rs ih =>
    obtain ⟨row, rest, hrow, hrest, rfl⟩ := mapM_eq_ok_cons hkeyed
    obtain ⟨key', hkey', hrow⟩ := bind_eq_ok.mp hrow
    cases hrow
    rcases List.mem_cons.mp h with h | h
    · cases h
      exact length_of_mapM hkey'
    · exact ih hrest h

private theorem length_of_groups {out : List Row} (hkeyed : rs.mapM (Row.withKey groupBy) = .ok keyed)
    (hout : (Row.allGroups groupBy keyed).mapM (Row.ofGroup groupBy calls) = .ok out) :
    ∀ r ∈ out, r.names.length = r.values.length := by
  intro r hr
  obtain ⟨group, hgroup, hof⟩ := mem_of_mapM hout hr
  refine length_ofGroup ?_ hof
  unfold Row.allGroups at hgroup
  split at hgroup
  · rename_i hempty
    cases List.mem_singleton.mp hgroup
    simp only [Bool.and_eq_true, List.isEmpty_iff] at hempty
    rw [hempty.2]
    rfl
  · obtain ⟨r', hr'⟩ := key_of_mem_groups hgroup
    exact length_of_keyed hkeyed hr'

theorem shows_outputs {out : List Row} (h : s.Shows rs)
    (hkeyed : rs.mapM (Row.withKey groupBy) = .ok keyed)
    (hout : (Row.allGroups groupBy keyed).mapM (Row.ofGroup groupBy calls) = .ok out) :
    ∃ groups, s.fold (feedGroups groupBy calls) #[] = .ok groups ∧
      (Stream.replay (outputs groupBy calls groups).toList).Shows out := by
  have hlengths := length_of_groups hkeyed hout
  have hshows := Stream.shows_replay hlengths
  obtain ⟨gs, hgs, hrows⟩ := output_of_rows hout
  unfold Row.allGroups at hgs
  split at hgs
  · -- There are neither rows nor keys, and the single group takes in nothing.
    rename_i hempty
    simp only [Bool.and_eq_true, List.isEmpty_iff] at hempty
    obtain ⟨rfl, rfl⟩ := hempty
    cases hgs
    refine ⟨#[], fold_feedGroups h hkeyed (absorb_nil []), ?_⟩
    rw [← hrows] at hshows
    simpa [outputs] using hshows
  · rename_i hempty
    refine ⟨gs.toArray, fold_feedGroups h hkeyed hgs, ?_⟩
    have hnonempty : (gs.toArray.isEmpty && groupBy.isEmpty) = false := by
      cases keyed with
      | nil =>
        cases groupBy with
        | nil => exact absurd rfl hempty
        | cons key groupBy => simp
      | cons row rest =>
        rw [Row.groups] at hgs
        obtain ⟨g, gs', _, _, rfl⟩ := mapM_eq_ok_cons hgs
        rfl
    have hlist : (outputs groupBy calls gs.toArray).toList =
        gs.map (output (cellNames groupBy calls)) := by
      rw [outputs, hnonempty]
      simp
    rw [hlist, hrows]
    exact hshows

end Group

end SnapshotSql
