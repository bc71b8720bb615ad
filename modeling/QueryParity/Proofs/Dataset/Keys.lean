import QueryParity.Proofs.Dataset

/-!
# Rows stand in the order of their keys

The rows of a dataset are numbered, or they are combinations with the last entity varying fastest.
Either way every key is greater than the ones before it, so that no two rows share a key.
-/

namespace QueryParity.Dataset

/-- Every key is greater than the keys before it. -/
def Ascending (rows : List Row) : Prop := rows.Pairwise fun r r' => r.key < r'.key

/-- The keys of checked rows are their numbers. -/
theorem keys_of_ofRows {schema : List ValueType} {rows : List (List Value)} {d : Dataset}
    (h : ofRows schema rows = .ok d) :
    d.rows.map Row.key = (List.range d.rows.length).map fun i => [i] := by
  obtain ⟨-, rfl⟩ := ofRows_eq_ok_iff.mp h
  rw [List.length_map, List.length_zipIdx, List.range_eq_range', ← List.zipIdx_map_snd 0 rows,
    List.map_map, List.map_map]
  rfl

/-- Combinations are in ascending order, since the first entity varies last. -/
theorem ascending_combinations (tables : List (List Value)) : Ascending (combinations tables) := by
  induction tables with
  | nil => exact List.pairwise_singleton _ _
  | cons table tables ih =>
    rw [Ascending, combinations, List.pairwise_flatMap]
    constructor
    · rintro ⟨v, i⟩ -
      exact List.pairwise_map.mpr (ih.imp fun hlt => List.cons_lt_cons_iff.mpr (.inr ⟨rfl, hlt⟩))
    · have hnumbers : (table.zipIdx.map Prod.snd).Pairwise (· < ·) := by
        rw [List.zipIdx_map_snd]
        exact List.pairwise_lt_range' 1
      refine (List.pairwise_map.mp hnumbers).imp ?_
      intro p q hlt x hx y hy
      obtain ⟨r, -, rfl⟩ := List.mem_map.mp hx
      obtain ⟨r', -, rfl⟩ := List.mem_map.mp hy
      exact List.cons_lt_cons_iff.mpr (.inl hlt)

/-- The rows of a dataset are in ascending order. -/
theorem Built.ascending {d : Dataset} (h : Built d) : Ascending d.rows := by
  cases h with
  | ofRows h =>
    rw [Ascending, ← List.pairwise_map, keys_of_ofRows h, List.pairwise_map]
    exact List.pairwise_lt_range.imp fun hlt => List.cons_lt_cons_iff.mpr (.inl hlt)
  | crossJoin h =>
    rw [eq_of_crossJoin h]
    exact ascending_combinations _

/-- Rows in ascending order are told apart by their keys. -/
theorem Ascending.eq_of_key_eq {rows : List Row} (h : Ascending rows) {r r' : Row} (hr : r ∈ rows)
    (hr' : r' ∈ rows) (hkey : r.key = r'.key) : r = r' := by
  induction rows with
  | nil => cases hr
  | cons first rows ih =>
    obtain ⟨hfirst, hrest⟩ := List.pairwise_cons.mp h
    obtain hr | hr := List.mem_cons.mp hr <;> obtain hr' | hr' := List.mem_cons.mp hr'
    · rw [hr, hr']
    · have hlt := hfirst r' hr'
      rw [← hr, hkey] at hlt
      exact absurd hlt (List.lt_irrefl _)
    · have hlt := hfirst r hr
      rw [← hr', hkey] at hlt
      exact absurd hlt (List.lt_irrefl _)
    · exact ih hrest hr hr'

end QueryParity.Dataset
