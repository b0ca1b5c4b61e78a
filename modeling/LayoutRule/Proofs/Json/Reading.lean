import LayoutRule.Proofs.Json.Pieces
import Mathlib.Data.List.Nodup

/-! # Values read back

While a value is read, its container waits at the top of the stack, and behind the value the reader is where it
would be if the value had been one scalar. So a pretty text is read back to the value that it was made of, and no two
values have one. -/

namespace LayoutRule.Json

open Progress

/-- A new name comes at the end. -/
theorem putField_of_notMem {key : String} {value : Json} {fields : List (String × Json)}
    (h : key ∉ fields.map Prod.fst) : putField key value fields = fields ++ [(key, value)] := by
  induction fields with
  | nil => rfl
  | cons f fields ih =>
      obtain ⟨k, v⟩ := f
      obtain ⟨hne, hrest⟩ := not_or.mp (List.mem_cons.not.mp h)
      simp only [putField]
      rw [if_neg (Ne.symm hne), ih hrest, List.cons_append]

/-! ### Runs of the reader -/

/-- Takes pieces one by one. -/
def run? (limit : ℕ) (state : Progress) (ps : List Piece) : Option Progress := ps.foldlM (step? limit) state

theorem run?_cons {limit : ℕ} {state next : Progress} {p : Piece} (h : step? limit state p = some next)
    (ps : List Piece) : run? limit state (p :: ps) = run? limit next ps := by
  rw [run?, List.foldlM_cons, h]
  rfl

/-- The pieces of a value take the reader to where the value is given to the container that waits for it. -/
def Gives (limit : ℕ) (stack : List Frame) (j : Json) : Prop :=
  ∀ ps, run? limit (.value stack) (spelled j ++ ps) = run? limit (give j stack) ps

/-- The first piece of a value closes no array. -/
theorem exists_spelled (j : Json) : ∃ p ps, spelled j = p :: ps ∧ p ≠ .closeArray := by
  cases j with
  | array js => cases js <;> exact ⟨.openArray, _, rfl, nofun⟩
  | object fs => rcases fs with _ | ⟨⟨k, j⟩, fs⟩ <;> exact ⟨.openObject, _, rfl, nofun⟩
  | _ => exact ⟨_, [], rfl, nofun⟩

/-- The first item of an array is read like any other. -/
theorem run?_firstItem (limit : ℕ) (stack : List Frame) (j : Json) (ps : List Piece) :
    run? limit (.firstItem stack) (spelled j ++ ps) = run? limit (.value (.array [] :: stack)) (spelled j ++ ps) := by
  obtain ⟨p, qs, hp, hclose⟩ := exists_spelled j
  have hstep : step? limit (.firstItem stack) p = step? limit (.value (.array [] :: stack)) p := by
    cases p <;> first | rfl | exact absurd rfl hclose
  rw [hp, List.cons_append, run?, run?, List.foldlM_cons, List.foldlM_cons, hstep]

section Containers

variable {limit : ℕ} {stack : List Frame}

/-- The later items of an array come behind those already read, which are kept last first. -/
theorem run?_spelledItems {js : List Json} (hitems : ∀ j ∈ js, ∀ frame, Gives limit (frame :: stack) j)
    (items : List Json) (ps : List Piece) : run? limit (.afterItem items stack) (spelledItems js ++ ps) =
      run? limit (give (.array (items.reverse ++ js)) stack) ps := by
  induction js generalizing items with
  | nil =>
      rw [spelledItems, List.singleton_append, run?_cons rfl, List.append_nil]
  | cons j js ih =>
      obtain ⟨hj, hjs⟩ := List.forall_mem_cons.mp hitems
      rw [spelledItems, List.cons_append, run?_cons rfl, List.append_assoc, hj, give, ih hjs, List.reverse_cons,
        List.append_assoc, List.singleton_append]

/-- A field, from its name on, comes behind those already read. -/
theorem run?_spelledField {fields : List (String × Json)} {key : String} {j : Json}
    (hj : ∀ frame, Gives limit (frame :: stack) j) (hkey : key ∉ fields.map Prod.fst) (ps : List Piece) :
    run? limit (.colon fields key stack) (.colon :: (spelled j ++ ps)) =
      run? limit (.afterField (fields ++ [(key, j)]) stack) ps := by
  rw [run?_cons rfl, hj, give, putField_of_notMem hkey]

theorem run?_spelledFields {fs : List (String × Json)} (hfields : ∀ f ∈ fs, ∀ frame, Gives limit (frame :: stack) f.2)
    {fields : List (String × Json)} (hnames : ((fields ++ fs).map Prod.fst).Nodup) (ps : List Piece) :
    run? limit (.afterField fields stack) (spelledFields fs ++ ps) =
      run? limit (give (.object (fields ++ fs)) stack) ps := by
  induction fs generalizing fields with
  | nil =>
      rw [spelledFields, List.singleton_append, run?_cons rfl, List.append_nil]
  | cons f fs ih =>
      obtain ⟨key, j⟩ := f
      obtain ⟨hj, hfs⟩ := List.forall_mem_cons.mp hfields
      have hkey : key ∉ fields.map Prod.fst := by
        rw [List.map_append, List.map_cons] at hnames
        exact fun hmem => List.disjoint_of_nodup_append hnames hmem List.mem_cons_self
      have hsplit : fields ++ (key, j) :: fs = (fields ++ [(key, j)]) ++ fs := by simp
      rw [spelledFields, List.cons_append, run?_cons rfl, List.cons_append, run?_cons rfl, List.cons_append,
        List.append_assoc, run?_spelledField hj hkey, ih hfs (hsplit ▸ hnames), hsplit]

end Containers

theorem Plain.gives {P : ℤ → Prop} {n : ℕ} {j : Json} (h : Plain P n j) {limit : ℕ} {stack : List Frame}
    (hlimit : stack.length + n ≤ limit) : Gives limit stack j := by
  induction h generalizing stack with
  | string s => exact fun ps => run?_cons rfl ps
  | integer hi => exact fun ps => run?_cons rfl ps
  | @array n js hitems ih =>
      intro ps
      have hopen : step? limit (.value stack) .openArray = some (.firstItem stack) := if_pos (by omega)
      have hinside (frame : Frame) : (frame :: stack).length + n ≤ limit := by
        rw [List.length_cons]
        omega
      cases js with
      | nil => rw [spelled, List.cons_append, run?_cons hopen, List.singleton_append, run?_cons rfl]
      | cons j js =>
          obtain ⟨hj, hjs⟩ := List.forall_mem_cons.mp ih
          rw [spelled, List.cons_append, run?_cons hopen, List.append_assoc, run?_firstItem, hj (hinside _), give,
            run?_spelledItems fun j hj frame => hjs j hj (hinside frame)]
          rfl
  | @object n fs hnames hfields ih =>
      intro ps
      have hopen : step? limit (.value stack) .openObject = some (.firstField stack) := if_pos (by omega)
      have hinside (frame : Frame) : (frame :: stack).length + n ≤ limit := by
        rw [List.length_cons]
        omega
      cases fs with
      | nil => rw [spelled, List.cons_append, run?_cons hopen, List.singleton_append, run?_cons rfl]
      | cons f fs =>
          obtain ⟨key, j⟩ := f
          obtain ⟨hj, hfs⟩ := List.forall_mem_cons.mp ih
          rw [spelled, List.cons_append, run?_cons hopen, List.cons_append, run?_cons rfl, List.cons_append,
            List.append_assoc, run?_spelledField (fun frame => hj (hinside frame)) (by simp),
            run?_spelledFields (fun f hf frame => hfs f hf (hinside frame)) hnames]
          rfl

/-! ### Pretty texts -/

variable {P Q : ℤ → Prop} {m n limit : ℕ} {i j : Json}

theorem Plain.ofPieces?_spelled (h : Plain P n j) (hlimit : n ≤ limit) : ofPieces? limit (spelled j) = some j := by
  have hgives : Gives limit [] j := h.gives (by simpa using hlimit)
  have hrun := hgives []
  rw [List.append_nil, run?] at hrun
  rw [ofPieces?, hrun]
  rfl

theorem Plain.cut_prettyText (h : Plain P n j) : Cut j.prettyText.toList (spelled j) := by
  have hcut := h.prettyCuts 0 [] [] (by simp [EndsNumber]) .nil
  simpa [prettyText] using hcut

section Integers

variable {k : ℤ}

theorem of_mem_spelledItems {js : List Json} (hitems : ∀ j ∈ js, .scalar (.integer k) ∈ spelled j → P k)
    (h : .scalar (.integer k) ∈ spelledItems js) : P k := by
  induction js with
  | nil => simp [spelledItems] at h
  | cons j js ih =>
      obtain ⟨hj, hjs⟩ := List.forall_mem_cons.mp hitems
      simp only [spelledItems, List.mem_cons, reduceCtorEq, List.mem_append, false_or] at h
      exact h.elim hj (ih hjs)

theorem of_mem_spelledFields {fs : List (String × Json)}
    (hfields : ∀ f ∈ fs, .scalar (.integer k) ∈ spelled f.2 → P k)
    (h : .scalar (.integer k) ∈ spelledFields fs) : P k := by
  induction fs with
  | nil => simp [spelledFields] at h
  | cons f fs ih =>
      obtain ⟨hf, hfs⟩ := List.forall_mem_cons.mp hfields
      simp only [spelledFields, List.mem_cons, reduceCtorEq, Piece.scalar.injEq, List.mem_append, false_or] at h
      exact h.elim hf (ih hfs)

/-- Every integer among the pieces of a value is in the value. -/
theorem Plain.of_mem_spelled (h : Plain P n j) (hk : .scalar (.integer k) ∈ spelled j) : P k := by
  induction h with
  | string s => simp [spelled] at hk
  | integer hi =>
      simp only [spelled, List.mem_singleton, Piece.scalar.injEq, Json.integer.injEq] at hk
      exact hk ▸ hi
  | @array n js hitems ih =>
      cases js with
      | nil => simp [spelled] at hk
      | cons j js =>
          simp only [spelled, List.mem_cons, reduceCtorEq, List.mem_append, false_or] at hk
          obtain ⟨hj, hjs⟩ := List.forall_mem_cons.mp ih
          exact hk.elim hj (of_mem_spelledItems hjs)
  | @object n fs hnames hfields ih =>
      cases fs with
      | nil => simp [spelled] at hk
      | cons f fs =>
          simp only [spelled, List.mem_cons, reduceCtorEq, Piece.scalar.injEq, List.mem_append, false_or] at hk
          obtain ⟨hf, hfs⟩ := List.forall_mem_cons.mp ih
          exact hk.elim hf (of_mem_spelledFields hfs)

end Integers

/-- Values with one pretty text are equal. -/
theorem Plain.prettyText_injective (h : Plain P n j) (h' : Plain Q m i) (heq : j.prettyText = i.prettyText) :
    j = i := by
  have hpieces := (heq ▸ h.cut_prettyText).unique h'.cut_prettyText
  have hread := h.ofPieces?_spelled (Nat.le_add_right n m)
  rw [hpieces, h'.ofPieces?_spelled (Nat.le_add_left m n)] at hread
  exact (Option.some.inj hread).symm

/-- A value is read back from its pretty text, if its integers are of at most 64 bits. -/
theorem Plain.readWithin?_prettyText (h : Plain Fits n j) (hlimit : n ≤ limit) :
    readWithin? limit j.prettyText = some j := by
  have hpieces := h.cut_prettyText.pieces?_eq fun _ hk => h.of_mem_spelled hk
  rw [readWithin?, hpieces]
  exact h.ofPieces?_spelled hlimit

end LayoutRule.Json
