import QueryParity.Layout.Render

/-!
# What a layout leaves unchanged

A layout chooses the line breaks of a document and nothing else: whatever groups are laid out flat,
and so at every width, the text of a document is made of its pieces of text, in their order and each
as it is, and of blanks in the places of the breaks.
-/

namespace QueryParity.Doc

variable {σ : Type}

/-- What a break is laid out as: a space, or a line feed with the indentation of the next line. -/
def IsBreak (cs : List Char) : Prop := cs ≠ [] ∧ ∀ c ∈ cs, c = ' ' ∨ c = '\n'

/-- The characters of a document in some layout. -/
def ShownAs : Doc σ → List Char → Prop
  | .empty, cs => cs = []
  | .text _ s, cs => cs = s.toList
  | .line, cs => IsBreak cs
  | .append a b, cs => ∃ as bs, a.ShownAs as ∧ b.ShownAs bs ∧ cs = as ++ bs
  | .group d, cs => d.ShownAs cs
  | .nest _ d, cs => d.ShownAs cs

/-- The characters of the pending documents in some layout. -/
def AllShownAs : List (Pending σ) → List Char → Prop
  | [], cs => cs = []
  | p :: ps, cs => ∃ as bs, p.doc.ShownAs as ∧ AllShownAs ps bs ∧ cs = as ++ bs

/-- The characters of laid out pieces. -/
def chars (pieces : List (Piece σ)) : List Char := pieces.flatMap fun piece => piece.toString.toList

/-- A space is a break. -/
theorem isBreak_space : IsBreak " ".toList := by simp [IsBreak]

/-- A line feed with an indentation is a break. -/
theorem isBreak_newlineText (indent : Nat) : IsBreak (newlineText indent).toList := by
  rw [newlineText, String.toList_ofList]
  refine ⟨nofun, fun c hc => ?_⟩
  obtain rfl | hc := List.mem_cons.mp hc
  · exact .inr rfl
  · exact .inl (List.eq_of_mem_replicate hc)

/-- The pieces of the pending documents are these documents in some layout. -/
theorem allShownAs_layout (flat : Choice σ) (pending : List (Pending σ)) (column : Nat) :
    AllShownAs pending (chars (layout flat pending column)) := by
  fun_induction layout flat pending column with
  | case1 => rfl
  | case2 column indent mode rest ih => exact ⟨[], _, rfl, ih, rfl⟩
  | case3 column indent mode rest style s ih => exact ⟨_, _, rfl, ih, rfl⟩
  | case4 column indent rest ih => exact ⟨_, _, isBreak_space, ih, rfl⟩
  | case5 column indent rest next ih => exact ⟨_, _, isBreak_newlineText next, ih, rfl⟩
  | case6 column indent mode rest a b ih =>
    obtain ⟨as, _, ha, ⟨bs, cs, hb, hrest, rfl⟩, hcs⟩ := ih
    exact ⟨as ++ bs, cs, ⟨as, bs, ha, hb, rfl⟩, hrest, by rw [hcs, List.append_assoc]⟩
  | case7 column indent mode rest d inner ih => exact ih
  | case8 column indent mode rest more d ih => exact ih

/-- The text of a document is made of the characters of its pieces. -/
theorem toList_prettyBy (flat : Choice σ) (d : Doc σ) :
    (d.prettyBy flat).toList = chars (layout flat [⟨0, .broken, d⟩] 0) := by
  rw [prettyBy, String.toList_join, List.flatMap_map, chars, render]

/-- By every choice of flat groups, the text of a document is the document in some layout. -/
theorem shownAs_prettyBy (flat : Choice σ) (d : Doc σ) : d.ShownAs (d.prettyBy flat).toList := by
  obtain ⟨cs, _, hd, rfl, htext⟩ := allShownAs_layout flat [⟨0, .broken, d⟩] 0
  rwa [toList_prettyBy, htext, List.append_nil]

end QueryParity.Doc
