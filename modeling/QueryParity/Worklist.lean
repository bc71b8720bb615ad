/-!
# Work that is split up

A worker takes a piece of work from a heap and puts back smaller pieces, as many as it likes; it
may also throw pieces away. However it goes about it, the heap is empty after finitely many steps.
No number bounds the steps beforehand, since one step may add any number of pieces. Pieces are known
by their sizes, and their order does not matter.
-/

namespace QueryParity.Worklist

/-- Pieces may have been dropped, and pieces smaller than `size` may have been added. -/
def Trades (size : Nat) (before later : List Nat) : Prop :=
  ∃ kept dropped added, before.Perm (kept ++ dropped) ∧ later.Perm (kept ++ added) ∧
    ∀ n ∈ added, n < size

namespace Trades

variable {size : Nat} {before later : List Nat}

/-- Nothing has been dropped or added. -/
theorem refl (pieces : List Nat) : Trades size pieces pieces :=
  ⟨pieces, [], [], by rw [List.append_nil], by rw [List.append_nil], by simp⟩

/-- Everything has been dropped. -/
theorem nil (before : List Nat) : Trades size before [] :=
  ⟨[], before, [], .refl _, .refl _, by simp⟩

/-- One more piece has been added. -/
theorem add {n : Nat} {more : List Nat} (h : Trades size before later) (hn : n < size)
    (hmore : more.Perm (n :: later)) : Trades size before more := by
  obtain ⟨kept, dropped, added, hbefore, hlater, hlt⟩ := h
  refine ⟨kept, dropped, n :: added, hbefore, ?_, List.forall_mem_cons.mpr ⟨hn, hlt⟩⟩
  exact hmore.trans ((hlater.cons n).trans List.perm_middle.symm)

end Trades

/-- What a step may make of the pieces: it takes one and trades the others. -/
def Step (before later : List Nat) : Prop :=
  ∃ piece rest, before.Perm (piece :: rest) ∧ Trades piece rest later

/-- No sequence of steps from these pieces goes on forever. -/
abbrev Ends (pieces : List Nat) : Prop := Acc (fun later before => Step before later) pieces

namespace Ends

variable {xs ys : List Nat}

theorem perm (h : Ends xs) (hperm : xs.Perm ys) : Ends ys :=
  ⟨_, fun _ ⟨piece, rest, hys, htrades⟩ => h.inv ⟨piece, rest, hperm.trans hys, htrades⟩⟩

/-- Less work ends if more does: whatever is done to it can be done beside another piece. -/
theorem of_cons {n : Nat} (h : Ends (n :: xs)) : Ends xs := by
  generalize hys : n :: xs = ys at h
  induction h generalizing xs with
  | intro ys _ ih =>
    subst hys
    refine ⟨_, fun later ⟨piece, rest, hxs, htrades⟩ => ?_⟩
    obtain ⟨kept, dropped, added, hrest, hlater, hlt⟩ := htrades
    refine ih (n :: later) ⟨piece, n :: rest, ?_, ?_⟩ rfl
    · exact (hxs.cons n).trans (.swap _ _ _)
    · exact ⟨n :: kept, dropped, added, hrest.cons n, hlater.cons n, hlt⟩

theorem of_append (h : Ends (xs ++ ys)) : Ends xs := by
  induction ys generalizing xs with
  | nil => rwa [List.append_nil] at h
  | cons y ys ih => exact (ih (h.perm List.perm_middle)).of_cons

/-- More pieces do no harm if none of them does by itself. -/
theorem append (h : Ends xs) (hone : ∀ n ∈ ys, ∀ zs, Ends zs → Ends (n :: zs)) :
    Ends (xs ++ ys) := by
  induction ys generalizing xs with
  | nil => rwa [List.append_nil]
  | cons y ys ih =>
    rw [List.forall_mem_cons] at hone
    exact (ih (hone.1 xs h) hone.2).perm List.perm_middle.symm

/-- One more piece does no harm. If a step takes it, what the step adds is smaller; if a step takes
another piece, the new one stands beside work that has gone on, or it is dropped. -/
theorem cons (n : Nat) (h : Ends xs) : Ends (n :: xs) := by
  induction n using Nat.strongRecOn generalizing xs with
  | ind n ihn =>
    induction h with
    | intro xs hxs ihxs =>
      refine ⟨_, fun later ⟨piece, rest, hbefore, htrades⟩ => ?_⟩
      obtain ⟨kept, dropped, added, hrest, hlater, hlt⟩ := htrades
      by_cases hn : n = piece
      · subst hn
        have hkept : Ends kept := of_append (perm ⟨_, hxs⟩ (hbefore.cons_inv.trans hrest))
        exact (hkept.append fun m hm zs hz => ihn m (hlt m hm) hz).perm hlater.symm
      have hmem : n ∈ rest :=
        (List.mem_cons.mp (hbefore.mem_iff.mp List.mem_cons_self)).resolve_left hn
      have hothers : xs.Perm (piece :: rest.erase n) := by
        refine List.Perm.cons_inv (hbefore.trans ?_ : (n :: xs).Perm (n :: _))
        exact ((List.perm_cons_erase hmem).cons piece).trans (.swap _ _ _)
      obtain hkept | hdropped := List.mem_append.mp (hrest.mem_iff.mp hmem)
      · have hperm := List.perm_cons_erase hkept
        have herase : (rest.erase n).Perm (kept.erase n ++ dropped) :=
          ((List.perm_cons_erase hmem).symm.trans (hrest.trans (hperm.append_right _))).cons_inv
        have hnext := ihxs _ ⟨piece, _, hothers, kept.erase n, dropped, added, herase, .refl _, hlt⟩
        exact hnext.perm ((hperm.append_right added).symm.trans hlater.symm)
      · have hperm := (List.perm_cons_erase hdropped).append_left kept
        have herase : (rest.erase n).Perm (kept ++ dropped.erase n) :=
          ((List.perm_cons_erase hmem).symm.trans
            (hrest.trans (hperm.trans List.perm_middle))).cons_inv
        exact hxs _ ⟨piece, _, hothers, kept, dropped.erase n, added, herase, hlater, hlt⟩

end Ends

/-- Whatever the pieces are, work on them ends. -/
theorem wellFounded : WellFounded fun later before => Step before later := by
  refine ⟨fun pieces => ?_⟩
  induction pieces with
  | nil => exact ⟨_, fun _ ⟨_, _, hnil, _⟩ => absurd hnil (List.not_perm_nil_cons _ _)⟩
  | cons n pieces ih => exact Ends.cons n ih

end QueryParity.Worklist
