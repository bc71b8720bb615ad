import QueryParity.Proofs.Dataset.CrossJoin
import QueryParity.Proofs.Query
import QueryParity.Proofs.Session.Queries

/-!
# A filter is a part of the projection

A projection gives the value of a tree on every row, with the keys of the rows in their order. A
filter by the same tree evaluates it on the same rows, also on those that it drops. So it faults as
the projection does, and otherwise it gives the results of the projection that are true.
-/

namespace QueryParity

open Outcome

namespace Dataset

variable {d : Dataset} {e : Expr} {rows : List Row} {results : List ResultRow}

/-- Over a tree whose values are booleans, a filter gives the true results of the projection, or its
fault. -/
theorem queryRows_filter_eq (h : ∀ r ∈ rows, ∀ v, e.evaluate r.values = .ok v → v.type = .bool) :
    queryRows ⟨e, .filter⟩ rows =
      (queryRows ⟨e, .project⟩ rows).map (List.filter fun result => result.value = .bool true) := by
  induction rows with
  | nil => rfl
  | cons r rows ih =>
    rw [List.forall_mem_cons] at h
    rw [queryRows, queryRows, ih h.2]
    cases hv : e.evaluate r.values with
    | error fault => rfl
    | ok v =>
      have hproject : QueryShape.project.keeps v = .ok true := rfl
      simp only [ok_bind, keeps_filter (h.1 v hv), hproject, if_true]
      cases queryRows ⟨e, .project⟩ rows with
      | error fault => rfl
      | ok results => simp only [Except.map, ok_bind, List.filter_cons]

/-- The keys of a projection are those of the rows. -/
theorem keys_of_queryRows_project (h : queryRows ⟨e, .project⟩ rows = .ok results) :
    results.map ResultRow.key = rows.map Row.key := by
  have hone := forall₂_of_queryRows_project h
  clear h
  induction hone with
  | nil => rfl
  | cons hresult _ ih => rw [List.map_cons, List.map_cons, hresult.1, ih]

/-- What holds of the value of the tree on every row, under the key of the row, holds of every
result of the projection. -/
theorem forall_mem_of_queryRows_project {P : ResultRow → Prop}
    (h : queryRows ⟨e, .project⟩ rows = .ok results)
    (hrows : ∀ r ∈ rows, ∀ v, e.evaluate r.values = .ok v → P ⟨r.key, v⟩) :
    ∀ result ∈ results, P result := by
  have hone := forall₂_of_queryRows_project h
  clear h
  induction hone with
  | nil => exact fun _ hmem => absurd hmem List.not_mem_nil
  | @cons r result rows results hresult _ ih =>
    rw [List.forall_mem_cons] at hrows ⊢
    refine ⟨?_, ih hrows.2⟩
    have hfirst := hrows.1 result.value hresult.2
    rwa [← hresult.1] at hfirst

/-- A key of a combination holds numbers below the number of combinations. -/
theorem lt_length_of_mem_combinations {tables : List (List Value)} {r : Row}
    (hr : r ∈ combinations tables) {id : Nat} (hid : id ∈ r.key) :
    id < (combinations tables).length := by
  induction tables generalizing r with
  | nil =>
    obtain rfl := List.mem_singleton.mp hr
    exact absurd hid List.not_mem_nil
  | cons table tables ih =>
    obtain ⟨⟨v, i⟩, hentity, hr⟩ := List.mem_flatMap.mp hr
    obtain ⟨rest, hrest, rfl⟩ := List.mem_map.mp hr
    have hi : i < table.length :=
      (List.getElem?_eq_some_iff.mp (List.mem_zipIdx_iff_getElem?.mp hentity)).1
    have hrows : 0 < (combinations tables).length := List.length_pos_of_mem hrest
    rw [length_combinations, List.map_cons, List.prod_cons, ← length_combinations]
    obtain rfl | hid := List.mem_cons.mp hid
    · exact Nat.lt_of_lt_of_le hi (Nat.le_mul_of_pos_right _ hrows)
    · exact Nat.lt_of_lt_of_le (ih hrest hid) (Nat.le_mul_of_pos_left _ (Nat.zero_lt_of_lt hi))

/-- The keys of a dataset hold numbers below the number of its rows. -/
theorem Built.lt_length_of_mem_key (hd : d.Built) {r : Row} (hr : r ∈ d.rows) {id : Nat}
    (hid : id ∈ r.key) : id < d.rows.length := by
  cases hd with
  | ofRows h =>
    have hkey : r.key ∈ d.rows.map Row.key := List.mem_map_of_mem hr
    rw [keys_of_ofRows h] at hkey
    obtain ⟨i, hi, hkey⟩ := List.mem_map.mp hkey
    rw [← hkey, List.mem_singleton] at hid
    rw [hid]
    exact List.mem_range.mp hi
  | crossJoin h =>
    rw [eq_of_crossJoin h] at hr ⊢
    exact lt_length_of_mem_combinations hr hid

/-- The ways to answer queries over a dataset: by interpreting their trees, or in a session that the
dataset was loaded into, whatever it has been asked before. -/
inductive Answers (d : Dataset) : (Query → Except Fault (List ResultRow)) → Prop where
  /-- By interpreting. -/
  | interpreter : Answers d d.query
  /-- In a session. -/
  | session {s : Session} (earlier : List Query) : Session.load d = .ok s →
      Answers d fun query => ((s.runAll earlier).1.run query).value.2

/-- Queries over the schema are answered alike. -/
theorem Answers.eq_query {ask : Query → Except Fault (List ResultRow)} (h : d.Answers ask)
    (hd : d.Built) {query : Query} (hfits : query.tree.Fits d.schema) :
    ask query = d.query query := by
  cases h with
  | interpreter => rfl
  | @session s earlier hload =>
    obtain ⟨s', hload', hs, -⟩ := Session.exists_load hd.conforms
    obtain rfl : s = s' := Except.ok.inj (hload.symm.trans hload')
    exact (hs.runAll earlier).run_eq_query hfits

/-- A filter by a tree of boolean type gives the true results of the projection of the tree, in the
same order, and it faults exactly if the projection does, with the same fault. The projection has
one result per row, which is true, false or null, under the key of the row. The keys ascend, and
their numbers fit into 32 bits if that of the rows does. This holds of the interpreter and of a
session, whatever it was asked before. -/
theorem filter_keeps_true_results (d : Dataset) (hd : d.Built)
    (hrows : d.rows.length < UInt32.size) (ask : Query → Except Fault (List ResultRow))
    (hask : d.Answers ask) (e : Expr) (htype : e.infer = .ok .bool) (hfits : e.Fits d.schema) :
    (∀ results, ask ⟨e, .project⟩ = .ok results →
      List.Forall₂ (fun r result => result.key = r.key ∧ e.evaluate r.values = .ok result.value)
        d.rows results ∧
      (results.Pairwise fun result later => result.key < later.key) ∧
      (∀ result ∈ results, (∀ id ∈ result.key, id < UInt32.size) ∧
        result.value ∈ [.bool true, .bool false, .null .bool]) ∧
      ask ⟨e, .filter⟩ = .ok (results.filter fun result => result.value = .bool true)) ∧
    ∀ fault, ask ⟨e, .filter⟩ = .error fault ↔ ask ⟨e, .project⟩ = .error fault := by
  have hbool : ∀ r ∈ d.rows, ∀ v, e.evaluate r.values = .ok v → v.type = .bool := by
    intro r hr v hv
    have hrow : e.FieldsMatch (r.values.map Value.type) := by
      rw [hd.conforms r hr]
      exact hfits.fieldsMatch
    exact Expr.type_of_evaluate htype hrow hv
  have hfilter : ask ⟨e, .filter⟩ = (ask ⟨e, .project⟩).map
      (List.filter fun result => result.value = .bool true) := by
    rw [hask.eq_query hd hfits, hask.eq_query hd hfits]
    exact queryRows_filter_eq hbool
  refine ⟨fun results hresults => ?_, fun fault => ?_⟩
  · rw [hfilter, hresults]
    rw [hask.eq_query hd hfits] at hresults
    have hkeys := keys_of_queryRows_project hresults
    refine ⟨forall₂_of_queryRows_project hresults, ?_, ?_, rfl⟩
    · rw [← List.pairwise_map, hkeys, List.pairwise_map]
      exact hd.ascending
    · refine forall_mem_of_queryRows_project hresults fun r hr v hv => ⟨fun id hid => ?_, ?_⟩
      · exact Nat.lt_trans (hd.lt_length_of_mem_key hr hid) hrows
      · exact mem_truthValues (hbool r hr v hv)
  · rw [hfilter]
    cases ask ⟨e, .project⟩ with
    | error other => rfl
    | ok results => exact ⟨nofun, nofun⟩

/-- In a session that has met a fault before, the negation of a column is true, null and false on
the rows, and the filter keeps the first of them. Six divided by a column faults on the second row,
for the filter as for the projection, although the first row is kept. -/
theorem filter_keeps_true_results_after_fault :
    let d : Dataset :=
      ⟨[.bool], [⟨[0], [.bool false]⟩, ⟨[1], [.null .bool]⟩, ⟨[2], [.bool true]⟩]⟩
    let d' : Dataset := ⟨[.int], [⟨[0], [.int 2]⟩, ⟨[1], [.int 0]⟩]⟩
    let e : Expr := .not (.field 0 .bool)
    let e' : Expr := .equal (.divide (.intLit 6) (.field 0 .int)) (.intLit 3)
    (∃ s, Session.load d = .ok s ∧
      let later := (s.runAll [⟨.divide (.intLit 6) (.intLit 0), .project⟩]).1
      (later.run ⟨e, .project⟩).value.2 =
        .ok [⟨[0], .bool true⟩, ⟨[1], .null .bool⟩, ⟨[2], .bool false⟩] ∧
      (later.run ⟨e, .filter⟩).value.2 = .ok [⟨[0], .bool true⟩]) ∧
    d'.query ⟨e', .filter⟩ = .error .divideByZero := by
  intro d d' e e'
  have hrows : Dataset.ofRows [.bool] [[.bool false], [.null .bool], [.bool true]] = .ok d := rfl
  have hrows' : Dataset.ofRows [.int] [[.int 2], [.int 0]] = .ok d' := rfl
  have hd : d.Built := .ofRows hrows
  have hd' : d'.Built := .ofRows hrows'
  have hfits : e.Fits d.schema := by decide
  have hfits' : e'.Fits d'.schema := by decide
  obtain ⟨s, hload, -⟩ := Session.exists_load hd.conforms
  have hask := Answers.session [⟨.divide (.intLit 6) (.intLit 0), .project⟩] hload
  have hproject : d.query ⟨e, .project⟩ =
      .ok [⟨[0], .bool true⟩, ⟨[1], .null .bool⟩, ⟨[2], .bool false⟩] := rfl
  rw [← hask.eq_query hd hfits] at hproject
  obtain ⟨hresults, -⟩ := filter_keeps_true_results d hd (by decide) _ hask e rfl hfits
  obtain ⟨-, hfault⟩ :=
    filter_keeps_true_results d' hd' (by decide) _ .interpreter e' rfl hfits'
  exact ⟨⟨s, hload, hproject, (hresults _ hproject).2.2.2⟩, (hfault _).mpr rfl⟩

end Dataset

end QueryParity
