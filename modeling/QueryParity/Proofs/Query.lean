import Mathlib.Data.List.Forall2
import QueryParity.Proofs.Expr.Typing
import QueryParity.Query

/-!
# Results of interpreted queries

The result of a query depends on its tree only by what the tree evaluates to on the rows. A query
that faults has met a fault of its tree on some row, since a filter over a tree of boolean type
faults nowhere else. A projection that does not fault has one result per row.
-/

namespace QueryParity.Dataset

open Outcome

variable {d : Dataset} {shape : QueryShape}

/-- Trees that evaluate alike on every row have the same result. -/
theorem query_congr {e e' : Expr}
    (h : ∀ r ∈ d.rows, e.evaluate r.values = e'.evaluate r.values) :
    d.query ⟨e, shape⟩ = d.query ⟨e', shape⟩ := by
  rw [query, query]
  generalize d.rows = rows at h
  induction rows with
  | nil => rfl
  | cons r rows ih =>
    rw [List.forall_mem_cons] at h
    rw [queryRows, queryRows, h.1, ih h.2]

/-- A value of boolean type is true, false or null. -/
theorem mem_truthValues {v : Value} (h : v.type = .bool) :
    v ∈ [.bool true, .bool false, .null .bool] := by
  cases v with
  | bool b => cases b <;> decide
  | null t =>
    obtain rfl : t = .bool := h
    decide
  | _ => cases h

/-- A value of boolean type is kept by a filter exactly if it is true. -/
theorem keeps_filter {v : Value} (h : v.type = .bool) :
    QueryShape.filter.keeps v = .ok (v = .bool true) := by
  have hv := mem_truthValues h
  simp only [List.mem_cons, List.not_mem_nil, or_false] at hv
  obtain rfl | rfl | rfl := hv <;> rfl

/-- A value of boolean type is kept or dropped by a filter, and every value by a projection. -/
theorem exists_keeps {v : Value} (h : shape = .filter → v.type = .bool) :
    ∃ kept, shape.keeps v = .ok kept := by
  cases shape with
  | project => exact ⟨true, rfl⟩
  | filter => exact ⟨_, keeps_filter (h rfl)⟩

/-- A query faults as its tree does on some row, if the tree has a type, which is boolean for a
filter. -/
theorem exists_evaluate_of_query {query : Query} {t : ValueType} {fault : Fault}
    (hd : d.Conforms) (ht : query.tree.infer = .ok t) (hfields : query.tree.FieldsMatch d.schema)
    (hshape : query.shape = .filter → t = .bool) (h : d.query query = .error fault) :
    ∃ r ∈ d.rows, query.tree.evaluate r.values = .error fault := by
  rw [Dataset.query] at h
  unfold Conforms at hd
  generalize d.rows = rows at hd h
  induction rows with
  | nil => cases h
  | cons r rows ih =>
    rw [List.forall_mem_cons] at hd
    have hrow : query.tree.FieldsMatch (r.values.map Value.type) := by rwa [hd.1]
    rw [queryRows] at h
    obtain hv | ⟨v, hv, h⟩ := bind_eq_error_iff.mp h
    · exact ⟨r, List.mem_cons_self, hv⟩
    · have hvtype := Expr.type_of_evaluate ht hrow hv
      obtain ⟨kept, hkept⟩ := exists_keeps fun hs => hvtype.trans (hshape hs)
      rw [hkept, ok_bind] at h
      obtain hrest | ⟨rest, -, h⟩ := bind_eq_error_iff.mp h
      · obtain ⟨r', hr', hfault⟩ := ih hd.2 hrest
        exact ⟨r', List.mem_cons_of_mem _ hr', hfault⟩
      · cases h

/-- The fault of a query is one that its tree may raise on some row, if the tree has a type, which
is boolean for a filter. -/
theorem exists_possibleFault_of_query {query : Query} {t : ValueType} {fault : Fault}
    (hd : d.Conforms) (ht : query.tree.infer = .ok t) (hfields : query.tree.FieldsMatch d.schema)
    (hshape : query.shape = .filter → t = .bool) (h : d.query query = .error fault) :
    ∃ r ∈ d.rows, Expr.PossibleFault r.values query.tree fault := by
  obtain ⟨r, hr, hfault⟩ := exists_evaluate_of_query hd ht hfields hshape h
  have hrow : query.tree.FieldsMatch (r.values.map Value.type) := by rwa [hd r hr]
  have hdelivers := Expr.delivers_evaluate ht hrow
  rw [hfault] at hdelivers
  exact ⟨r, hr, hdelivers⟩

/-- A projection that does not fault gives the value of the tree on each row, under the key of the
row. -/
theorem forall₂_of_queryRows_project {e : Expr} {rows : List Row} {results : List ResultRow}
    (h : queryRows ⟨e, .project⟩ rows = .ok results) :
    List.Forall₂ (fun r result => result.key = r.key ∧ e.evaluate r.values = .ok result.value)
      rows results := by
  induction rows generalizing results with
  | nil =>
    cases h
    exact .nil
  | cons r rows ih =>
    obtain ⟨v, hv, h⟩ := bind_eq_ok_iff.mp h
    obtain ⟨kept, hkept, h⟩ := bind_eq_ok_iff.mp h
    obtain ⟨rest, hrest, h⟩ := bind_eq_ok_iff.mp h
    cases hkept
    cases h
    exact .cons ⟨rfl, hv⟩ (ih hrest)

/-- A projection that does not fault has one result per row. -/
theorem length_of_query_project {e : Expr} {results : List ResultRow}
    (h : d.query ⟨e, .project⟩ = .ok results) : results.length = d.rows.length :=
  (forall₂_of_queryRows_project h).length_eq.symm

end QueryParity.Dataset
