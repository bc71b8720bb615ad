import QueryParity.Proofs.Layout

/-!
# Different layouts of one document

Joining the lines of a layout undoes its breaks: where no text of a document breaks a line and none
that follows a break begins with a space, what is left is the text of the document with a space for
every break, whatever groups were laid out flat. Where every break is in a group, this is also the
layout at every width that the text does not pass.
-/

namespace QueryParity.Doc

variable {σ : Type}

/-- The characters of a document with a space for every break. -/
def flatText : Doc σ → List Char
  | .empty => []
  | .text _ s => s.toList
  | .line => [' ']
  | .append a b => a.flatText ++ b.flatText
  | .group d => d.flatText
  | .nest _ d => d.flatText

/-- The columns that a document takes with a space for every break. -/
def flatWidth : Doc σ → Nat
  | .empty => 0
  | .text _ s => displayWidth s
  | .line => 1
  | .append a b => a.flatWidth + b.flatWidth
  | .group d => d.flatWidth
  | .nest _ d => d.flatWidth

/-- Every text of a document has a property. -/
def EveryText (p : String → Prop) : Doc σ → Prop
  | .text _ s => p s
  | .append a b => a.EveryText p ∧ b.EveryText p
  | .group d => d.EveryText p
  | .nest _ d => d.EveryText p
  | _ => True

/-- No break of a document that stands before some characters is followed by a space. -/
def Tidy : Doc σ → List Char → Prop
  | .line, next => next.head? ≠ some ' '
  | .append a b, next => a.Tidy (b.flatText ++ next) ∧ b.Tidy next
  | .group d, next => d.Tidy next
  | .nest _ d, next => d.Tidy next
  | _, _ => True

/-- Every break of a document is in a group. -/
def Grouped : Doc σ → Prop
  | .line => False
  | .append a b => a.Grouped ∧ b.Grouped
  | .nest _ d => d.Grouped
  | _ => True

/-- The characters of pending documents with a space for every break. -/
def allFlatText (pending : List (Pending σ)) : List Char := pending.flatMap (·.doc.flatText)

/-- The columns that pending documents take with a space for every break. -/
def allFlatWidth : List (Pending σ) → Nat
  | [] => 0
  | p :: ps => p.doc.flatWidth + allFlatWidth ps

/-- No break of the pending documents is followed by a space. -/
def AllTidy : List (Pending σ) → Prop
  | [] => True
  | p :: ps => p.doc.Tidy (allFlatText ps) ∧ AllTidy ps

/-- A text with every line feed and the spaces behind it replaced by a space; `broken` tells whether
a line feed and only spaces stand before it. -/
def joinLines (broken : Bool) : List Char → List Char
  | [] => []
  | c :: cs =>
    if c = '\n' then ' ' :: joinLines true cs
    else if broken ∧ c = ' ' then joinLines true cs
    else c :: joinLines false cs

section Texts

/-- A weaker property holds of every text too. -/
theorem EveryText.mono {p q : String → Prop} {d : Doc σ} (h : d.EveryText p)
    (hpq : ∀ s, p s → q s) : d.EveryText q := by
  induction d with
  | empty | line => trivial
  | text style s => exact hpq s h
  | append a b iha ihb => exact ⟨iha h.1, ihb h.2⟩
  | group d ih | nest indent d ih => exact ih h

/-- With a space for every break, a character that is in no text is not in the document. -/
theorem notMem_flatText {c : Char} (hc : c ≠ ' ') {d : Doc σ}
    (h : d.EveryText fun s => c ∉ s.toList) : c ∉ d.flatText := by
  induction d with
  | empty => exact List.not_mem_nil
  | text style s => exact h
  | line => exact mt List.mem_singleton.mp hc
  | append a b iha ihb =>
    rw [flatText, List.mem_append, not_or]
    exact ⟨iha h.1, ihb h.2⟩
  | group d ih | nest indent d ih => exact ih h

/-- The text of a piece has a property. -/
def Piece.Carries (p : String → Prop) : Piece σ → Prop
  | .text _ s => p s
  | .newline _ => True

/-- Laid out documents are made of their texts, of spaces and of line feeds. -/
theorem carries_layout {p : String → Prop} (hspace : p " ") (flat : Choice σ)
    (pending : List (Pending σ)) (column : Nat)
    (htexts : ∀ next ∈ pending, next.doc.EveryText p) :
    ∀ piece ∈ layout flat pending column, piece.Carries p := by
  fun_induction layout flat pending column with
  | case1 => exact List.forall_mem_nil _
  | case2 column indent mode rest ih =>
    rw [List.forall_mem_cons] at htexts
    exact ih htexts.2
  | case3 column indent mode rest style s ih =>
    rw [List.forall_mem_cons] at htexts ⊢
    exact ⟨htexts.1, ih htexts.2⟩
  | case4 column indent rest ih =>
    rw [List.forall_mem_cons] at htexts ⊢
    exact ⟨hspace, ih htexts.2⟩
  | case5 column indent rest next ih =>
    rw [List.forall_mem_cons] at htexts ⊢
    exact ⟨trivial, ih htexts.2⟩
  | case6 column indent mode rest a b ih =>
    rw [List.forall_mem_cons] at htexts
    obtain ⟨⟨ha, hb⟩, hrest⟩ := htexts
    exact ih (List.forall_mem_cons.mpr ⟨ha, List.forall_mem_cons.mpr ⟨hb, hrest⟩⟩)
  | case7 column indent mode rest d inner ih =>
    rw [List.forall_mem_cons] at htexts
    exact ih (List.forall_mem_cons.mpr htexts)
  | case8 column indent mode rest more d ih =>
    rw [List.forall_mem_cons] at htexts
    exact ih (List.forall_mem_cons.mpr htexts)

end Texts

section Joining

/-- A text without line feeds stays as it is. -/
theorem joinLines_append {cs : List Char} (h : '\n' ∉ cs) (rest : List Char) :
    joinLines false (cs ++ rest) = cs ++ joinLines false rest := by
  induction cs with
  | nil => rfl
  | cons c cs ih =>
    obtain ⟨hc, hcs⟩ := not_or.mp (mt List.mem_cons.mpr h)
    rw [List.cons_append, joinLines, if_neg (Ne.symm hc)]
    simp [ih hcs]

/-- The spaces behind a line feed go. -/
theorem joinLines_replicate (n : Nat) (rest : List Char) :
    joinLines true (List.replicate n ' ' ++ rest) = joinLines true rest := by
  induction n with
  | zero => rfl
  | succ n ih =>
    rw [List.replicate_succ, List.cons_append, joinLines]
    simpa using ih

/-- Behind a line feed, what does not begin with a space is joined as elsewhere. -/
theorem joinLines_of_head? {cs : List Char} (h : (joinLines false cs).head? ≠ some ' ') :
    joinLines true cs = joinLines false cs := by
  cases cs with
  | nil => rfl
  | cons c cs =>
    by_cases hspace : c = ' '
    · subst hspace
      exact absurd rfl h
    · simp [joinLines, hspace]

/-- A line feed with an indentation becomes a space. -/
theorem joinLines_newlineText {cs : List Char} (h : (joinLines false cs).head? ≠ some ' ')
    (indent : Nat) :
    joinLines false ((newlineText indent).toList ++ cs) = ' ' :: joinLines false cs := by
  rw [newlineText, String.toList_ofList, List.cons_append, joinLines, if_pos rfl,
    joinLines_replicate, joinLines_of_head? h]

/-- By every choice of flat groups, joining the lines of pending documents leaves a space for every
break. -/
theorem joinLines_layout (flat : Choice σ) (pending : List (Pending σ)) (column : Nat)
    (htexts : ∀ p ∈ pending, p.doc.EveryText fun s => '\n' ∉ s.toList) (htidy : AllTidy pending) :
    joinLines false (chars (layout flat pending column)) = allFlatText pending := by
  fun_induction layout flat pending column with
  | case1 => rfl
  | case2 column indent mode rest ih =>
    rw [List.forall_mem_cons] at htexts
    exact ih htexts.2 htidy.2
  | case3 column indent mode rest style s ih =>
    rw [List.forall_mem_cons] at htexts
    exact (joinLines_append htexts.1 _).trans (congrArg _ (ih htexts.2 htidy.2))
  | case4 column indent rest ih =>
    rw [List.forall_mem_cons] at htexts
    have hspace : '\n' ∉ " ".toList := by decide
    exact (joinLines_append hspace _).trans (congrArg _ (ih htexts.2 htidy.2))
  | case5 column indent rest next ih =>
    rw [List.forall_mem_cons] at htexts
    have hrest := ih htexts.2 htidy.2
    have hhead : (joinLines false (chars (layout flat rest next))).head? ≠ some ' ' :=
      hrest ▸ htidy.1
    exact (joinLines_newlineText hhead next).trans (congrArg (' ' :: ·) hrest)
  | case6 column indent mode rest a b ih =>
    rw [List.forall_mem_cons] at htexts
    obtain ⟨⟨hl, hr⟩, hrest⟩ := htexts
    obtain ⟨⟨htl, htr⟩, htrest⟩ := htidy
    rw [ih (List.forall_mem_cons.mpr ⟨hl, List.forall_mem_cons.mpr ⟨hr, hrest⟩⟩) ⟨htl, htr, htrest⟩]
    exact (List.append_assoc a.flatText b.flatText (allFlatText rest)).symm
  | case7 column indent mode rest d inner ih =>
    rw [List.forall_mem_cons] at htexts
    exact ih (List.forall_mem_cons.mpr htexts) htidy
  | case8 column indent mode rest more d ih =>
    rw [List.forall_mem_cons] at htexts
    exact ih (List.forall_mem_cons.mpr htexts) htidy

/-- By every choice of flat groups, joining the lines of a document leaves a space for every
break. -/
theorem joinLines_prettyBy {d : Doc σ} (htexts : d.EveryText fun s => '\n' ∉ s.toList)
    (htidy : d.Tidy []) (flat : Choice σ) :
    joinLines false (d.prettyBy flat).toList = d.flatText := by
  rw [toList_prettyBy, joinLines_layout flat _ 0 (List.forall_mem_singleton.mpr htexts)
    ⟨htidy, trivial⟩]
  exact List.append_nil _

end Joining

section Unbounded

variable {width column : Nat}

/-- A document whose text does not pass the width ends in time. -/
theorem flatEnd_eq {d : Doc σ} (h : column + d.flatWidth ≤ width) :
    flatEnd width d column = some (column + d.flatWidth) := by
  induction d generalizing column with
  | empty => rfl
  | text style s => exact if_pos h
  | line => exact if_pos h
  | append a b iha ihb =>
    rw [flatWidth] at h
    rw [flatEnd, iha (by omega), Option.bind_some, ihb (by omega), flatWidth, Nat.add_assoc]
  | group d ih => exact ih h
  | nest indent d ih => exact ih h

/-- A document whose text does not pass the width does not overflow it, wherever its lines end. -/
theorem brokenReach_cases {d : Doc σ} (h : column + d.flatWidth ≤ width) :
    brokenReach width d column = .lineEnd ∨
      brokenReach width d column = .column (column + d.flatWidth) := by
  induction d generalizing column with
  | empty => exact .inr rfl
  | text style s => exact .inr (if_pos h)
  | line => exact .inl rfl
  | append a b iha ihb =>
    rw [flatWidth] at h
    have hle : column + a.flatWidth ≤ width := by omega
    rw [brokenReach]
    obtain ha | ha := iha hle
    · rw [ha]
      exact .inl rfl
    · rw [ha, Reach.andThen, flatWidth, ← Nat.add_assoc]
      exact ihb (by omega)
  | group d ih => exact ih h
  | nest indent d ih => exact ih h

/-- Pending documents whose text does not pass the width fit. -/
theorem restFits_eq_true {pending : List (Pending σ)} (h : column + allFlatWidth pending ≤ width) :
    restFits width pending column = true := by
  induction pending generalizing column with
  | nil => rfl
  | cons p pending ih =>
    rw [allFlatWidth] at h
    have hle : column + p.doc.flatWidth ≤ width := by omega
    rw [restFits]
    obtain hp | hp := brokenReach_cases hle
    · rw [hp]
    · rw [hp]
      exact ih (by omega)

/-- A group fits if neither its text nor what follows passes the width. -/
theorem groupFits_eq_true {d : Doc σ} {rest : List (Pending σ)}
    (h : column + d.flatWidth + allFlatWidth rest ≤ width) :
    groupFits width d rest column = true := by
  rw [groupFits, flatEnd_eq (by omega)]
  exact restFits_eq_true h

/-- Pending documents whose text does not pass the width are laid out with a space for every break,
if the breaks that are not in a group are. -/
theorem chars_layout_eq (pending : List (Pending σ)) (column : Nat)
    (hflat : ∀ p ∈ pending, p.mode = .flat ∨ p.doc.Grouped)
    (h : column + allFlatWidth pending ≤ width) :
    chars (layout (groupFits width) pending column) = allFlatText pending := by
  fun_induction layout (groupFits width) pending column with
  | case1 => rfl
  | case2 column indent mode rest ih =>
    rw [List.forall_mem_cons] at hflat
    rw [allFlatWidth, flatWidth] at h
    exact ih hflat.2 (by omega)
  | case3 column indent mode rest style s ih =>
    rw [List.forall_mem_cons] at hflat
    rw [allFlatWidth, flatWidth] at h
    exact congrArg _ (ih hflat.2 (by omega))
  | case4 column indent rest ih =>
    rw [List.forall_mem_cons] at hflat
    rw [allFlatWidth, flatWidth] at h
    exact congrArg (" ".toList ++ ·) (ih hflat.2 (by omega))
  | case5 column indent rest next ih =>
    rw [List.forall_mem_cons] at hflat
    obtain hmode | hgrouped := hflat.1
    · cases hmode
    · exact hgrouped.elim
  | case6 column indent mode rest a b ih =>
    rw [List.forall_mem_cons] at hflat
    rw [allFlatWidth, flatWidth] at h
    rw [ih ?_ (by simp only [allFlatWidth]; omega)]
    · exact (List.append_assoc a.flatText b.flatText (allFlatText rest)).symm
    · rw [List.forall_mem_cons, List.forall_mem_cons]
      exact ⟨hflat.1.imp_right And.left, hflat.1.imp_right And.right, hflat.2⟩
  | case7 column indent mode rest d inner ih =>
    rw [List.forall_mem_cons] at hflat
    rw [allFlatWidth, flatWidth] at h
    have hinner : inner = .flat := by
      subst inner
      cases mode with
      | flat => rfl
      | broken => exact if_pos (groupFits_eq_true (by omega))
    exact ih (List.forall_mem_cons.mpr ⟨.inl hinner, hflat.2⟩) h
  | case8 column indent mode rest more d ih =>
    rw [List.forall_mem_cons] at hflat
    exact ih (List.forall_mem_cons.mpr hflat) h

/-- A group that is not chosen to be flat is laid out with its breaks. -/
theorem layout_group_broken {flat : Choice σ} {indent : Nat} {d : Doc σ} {rest : List (Pending σ)}
    (h : flat d rest column = false) :
    layout flat (⟨indent, .broken, .group d⟩ :: rest) column =
      layout flat (⟨indent, .broken, d⟩ :: rest) column := by
  rw [layout]
  simp only [h, Bool.false_eq_true, if_false]

/-- At a width that its text does not pass, a document is laid out on one line. -/
theorem toList_pretty_eq {d : Doc σ} (hgrouped : d.Grouped) (h : d.flatWidth ≤ width) :
    (d.pretty width).toList = d.flatText := by
  rw [pretty, toList_prettyBy, chars_layout_eq _ _ (List.forall_mem_singleton.mpr (.inr hgrouped))]
  · exact List.append_nil _
  · simpa [allFlatWidth] using h

end Unbounded

end QueryParity.Doc
