import LayoutRule.Proofs.Json.Scalars

/-! # Texts cut into pieces

A text can be cut into pieces in one way only, and the reader cuts it so. The pretty text of a value is cut into the
pieces that spell the value. -/

namespace LayoutRule.Json

/-! ### Texts of pieces -/

/-- The pieces that have one text each. -/
def fixedTexts : List (Piece × List Char) :=
  [(.openArray, ['[']), (.closeArray, [']']), (.openObject, ['\x7b']), (.closeObject, ['\x7d']), (.comma, [',']),
    (.colon, [':']), (.scalar .null, ['n', 'u', 'l', 'l']), (.scalar (.bool true), ['t', 'r', 'u', 'e']),
    (.scalar (.bool false), ['f', 'a', 'l', 's', 'e'])]

/-- The texts of pieces, doubles left out. -/
inductive Written : Piece → List Char → Prop where
  | fixed {p w} (h : (p, w) ∈ fixedTexts) : Written p w
  | string (s : String) : Written (.scalar (.string s)) (stringText s)
  | integer (n : ℤ) : Written (.scalar (.integer n)) (integerText n)

/-- A number does not go on with what stands here. -/
def EndsNumber (cs : List Char) : Prop := ∀ c ∈ cs.head?, isNumberChar c = false

/-- A text that is pieces one behind the other, with spaces between them. -/
inductive Cut : List Char → List Piece → Prop where
  | nil : Cut [] []
  | space {c cs ps} (hc : isSpace c = true) (h : Cut cs ps) : Cut (c :: cs) ps
  | piece {p w cs ps} (hp : Written p w) (hend : ∀ n, p = .scalar (.integer n) → EndsNumber cs) (h : Cut cs ps) :
      Cut (w ++ cs) (p :: ps)

/-- The integers among the pieces are of at most 64 bits. -/
def AllFit (ps : List Piece) : Prop := ∀ n, .scalar (.integer n) ∈ ps → Fits n

/-! ### Texts told apart -/

/-- Texts are different whose first characters differ in a property. -/
theorem cons_ne_cons_of_lead {p : Char → Bool} {c d : Char} {cs ds : List Char} (hc : p c = true) (hd : p d = false) :
    c :: cs ≠ d :: ds := by
  intro heq
  rw [(List.cons.inj heq).1, hd] at hc
  cases hc

theorem lead_fixed {p : Piece} {w : List Char} (h : (p, w) ∈ fixedTexts) :
    ∃ c v, w = c :: v ∧ (c == '"') = false ∧ Text.isNumeral c = false ∧ isSpace c = false := by
  have hall : ∀ a ∈ fixedTexts, a.2 ≠ [] ∧
      ∀ c ∈ a.2.head?, (c == '"') = false ∧ Text.isNumeral c = false ∧ isSpace c = false := by
    simp [fixedTexts, Text.isNumeral, isSpace]
  obtain ⟨hne, hfirst⟩ := hall _ h
  obtain ⟨c, v, rfl⟩ := List.exists_cons_of_ne_nil hne
  exact ⟨c, v, rfl, hfirst c rfl⟩

theorem lead_integer (n : ℤ) : ∃ c v, integerText n = c :: v ∧ Text.isNumeral c = true := by
  obtain ⟨c, v, hcv⟩ := List.exists_cons_of_ne_nil (Text.toString_ne_nil n)
  exact ⟨c, v, hcv, Text.isNumeral_of_mem_toString c (hcv ▸ List.mem_cons_self)⟩

namespace Written

variable {p q : Piece} {w v cs ds : List Char}

/-- A piece begins with no space. -/
theorem lead (h : Written p w) : ∃ c v, w = c :: v ∧ isSpace c = false := by
  cases h with
  | fixed h =>
      obtain ⟨c, v, hw, -, -, hspace⟩ := lead_fixed h
      exact ⟨c, v, hw, hspace⟩
  | string s => exact ⟨'"', _, rfl, rfl⟩
  | integer n =>
      obtain ⟨c, v, hw, hc⟩ := lead_integer n
      refine ⟨c, v, hw, Bool.eq_false_iff.mpr fun hspace => ?_⟩
      simp only [isSpace, Bool.or_eq_true, decide_eq_true_eq] at hspace
      rcases hspace with ((rfl | rfl) | rfl) | rfl <;> cases hc

theorem fixed_injective (h : (p, w) ∈ fixedTexts) (h' : (q, v) ∈ fixedTexts) (heq : w ++ cs = v ++ ds) :
    p = q ∧ cs = ds := by
  -- the first characters of the fixed texts are all different
  have hhead : ∀ a ∈ fixedTexts, ∀ b ∈ fixedTexts, a.2.head? = b.2.head? → a = b := by decide
  obtain ⟨c, w', rfl, -⟩ := lead_fixed h
  obtain ⟨d, v', rfl, -⟩ := lead_fixed h'
  have hcd := (List.cons.inj heq).1
  obtain ⟨rfl, hwv⟩ := Prod.mk.inj (hhead _ h _ h' (congrArg some hcd))
  rw [hwv] at heq
  exact ⟨rfl, List.append_cancel_left heq⟩

/-- A piece and what stands behind it can be told from the text that they make. -/
theorem append_injective (h : Written p w) (h' : Written q v) (hend : ∀ n, p = .scalar (.integer n) → EndsNumber cs)
    (hend' : ∀ n, q = .scalar (.integer n) → EndsNumber ds) (heq : w ++ cs = v ++ ds) : p = q ∧ cs = ds := by
  cases h with
  | fixed h =>
      obtain ⟨c, w', hw, hquote, hnumeral, -⟩ := lead_fixed h
      cases h' with
      | fixed h' => exact fixed_injective h h' heq
      | string s =>
          rw [hw] at heq
          exact absurd heq.symm (cons_ne_cons_of_lead (p := (· == '"')) rfl hquote)
      | integer n =>
          obtain ⟨d, v', hv, hd⟩ := lead_integer n
          rw [hw, hv] at heq
          exact absurd heq.symm (cons_ne_cons_of_lead hd hnumeral)
  | string s =>
      cases h' with
      | fixed h' =>
          obtain ⟨d, v', hv, hquote, -, -⟩ := lead_fixed h'
          rw [hv] at heq
          exact absurd heq (cons_ne_cons_of_lead (p := (· == '"')) rfl hquote)
      | string t =>
          have hread := congrArg (fun text => string? text.tail) heq
          simp only [string?_stringText, Option.some.injEq, Prod.mk.injEq] at hread
          exact ⟨by rw [hread.1], hread.2⟩
      | integer n =>
          obtain ⟨d, v', hv, hd⟩ := lead_integer n
          rw [hv] at heq
          exact absurd heq.symm (cons_ne_cons_of_lead hd rfl)
  | integer n =>
      obtain ⟨c, w', hw, hc⟩ := lead_integer n
      cases h' with
      | fixed h' =>
          obtain ⟨d, v', hv, -, hnumeral, -⟩ := lead_fixed h'
          rw [hw, hv] at heq
          exact absurd heq (cons_ne_cons_of_lead hc hnumeral)
      | string s =>
          rw [hw] at heq
          exact absurd heq (cons_ne_cons_of_lead hc rfl)
      | integer m =>
          have hnumeral {cs : List Char} (h : EndsNumber cs) : ∀ c ∈ cs.head?, Text.isNumeral c = false := by
            intro c hc
            have hc := h c hc
            simp only [isNumberChar, Bool.or_eq_false_iff] at hc
            exact hc.1.1.1
          obtain ⟨rfl, hrest⟩ := Text.toString_append_injective (hnumeral (hend n rfl)) (hnumeral (hend' m rfl)) heq
          exact ⟨rfl, hrest⟩

theorem append_ne_nil (h : Written p w) : w ++ cs ≠ [] := by
  obtain ⟨c, v, rfl, -⟩ := h.lead
  exact List.cons_ne_nil _ _

theorem append_ne_space (h : Written p w) {c : Char} (hc : isSpace c = true) : w ++ cs ≠ c :: ds := by
  obtain ⟨d, v, rfl, hd⟩ := h.lead
  exact (cons_ne_cons_of_lead hc hd).symm

end Written

namespace Cut

variable {cs : List Char} {ps qs : List Piece}

theorem length_le (h : Cut cs ps) : ps.length ≤ cs.length := by
  induction h with
  | nil => exact le_rfl
  | space hc h ih => exact Nat.le_succ_of_le ih
  | piece hp hend h ih =>
      obtain ⟨c, v, rfl, -⟩ := hp.lead
      simp only [List.length_cons, List.length_append]
      omega

/-- A text is cut in one way only. -/
theorem unique (h : Cut cs ps) (h' : Cut cs qs) : ps = qs := by
  induction h generalizing qs with
  | nil =>
      generalize hcs : ([] : List Char) = cs at h'
      cases h' with
      | nil => rfl
      | space hc h' => cases hcs
      | piece hp hend h' => exact absurd hcs.symm hp.append_ne_nil
  | @space c cs ps hc h ih =>
      generalize hcs : c :: cs = cs at h'
      cases h' with
      | nil => cases hcs
      | space hc' h' =>
          obtain ⟨rfl, rfl⟩ := List.cons.inj hcs
          exact ih h'
      | piece hp hend h' => exact absurd hcs.symm (hp.append_ne_space hc)
  | @piece p w cs ps hp hend h ih =>
      generalize hcs : w ++ cs = cs at h'
      cases h' with
      | nil => exact absurd hcs hp.append_ne_nil
      | space hc h' => exact absurd hcs (hp.append_ne_space hc)
      | piece hp' hend' h' =>
          obtain ⟨rfl, rfl⟩ := hp.append_injective hp' hend hend' hcs
          rw [ih h']

end Cut

/-! ### Reading pieces -/

theorem piece?_of_isNumeral {c : Char} {cs : List Char} (hc : Text.isNumeral c = true) :
    piece? (c :: cs) = (number? (c :: cs)).map fun (j, rest) => (.scalar j, rest) := by
  unfold piece?
  split
  case h_11 => cases number? (c :: cs) <;> rfl
  all_goals
    rename_i heq
    obtain ⟨rfl, -⟩ := List.cons.inj heq
    cases hc

/-- The reader reads a piece off the front of a text. -/
theorem Written.piece?_append {p : Piece} {w cs : List Char} (h : Written p w)
    (hend : ∀ n, p = .scalar (.integer n) → EndsNumber cs) (hfits : ∀ n, p = .scalar (.integer n) → Fits n) :
    piece? (w ++ cs) = some (p, cs) := by
  cases h with
  | fixed h =>
      have hall : ∀ a ∈ fixedTexts, piece? (a.2 ++ cs) = some (a.1, cs) := by simp [fixedTexts, piece?]
      exact hall _ h
  | string s =>
      have hstring := string?_stringText s cs
      rw [stringText, List.cons_append, List.tail_cons] at hstring
      rw [stringText, List.cons_append, piece?, hstring]
      rfl
  | integer n =>
      obtain ⟨c, w', hw, hc⟩ := lead_integer n
      have hnumber := number?_integerText (hend n rfl) (hfits n rfl)
      rw [hw, List.cons_append] at hnumber ⊢
      rw [piece?_of_isNumeral hc, hnumber]
      rfl

theorem piecesWithin_space {c : Char} (hc : isSpace c = true) (fuel : ℕ) (cs : List Char) :
    piecesWithin fuel (c :: cs) = piecesWithin fuel cs := by
  cases fuel with
  | zero => simp [piecesWithin, hc]
  | succ fuel => simp [piecesWithin, hc]

theorem Cut.piecesWithin_eq {cs : List Char} {ps : List Piece} (h : Cut cs ps) (hfits : AllFit ps) {fuel : ℕ}
    (hfuel : ps.length ≤ fuel) : piecesWithin fuel cs = some ps := by
  induction h generalizing fuel with
  | nil => cases fuel <;> rfl
  | space hc h ih => rw [piecesWithin_space hc, ih hfits hfuel]
  | @piece p w cs ps hp hend h ih =>
      obtain ⟨fuel, rfl⟩ : ∃ k, fuel = k + 1 := Nat.exists_eq_succ_of_ne_zero (Nat.ne_zero_of_lt hfuel)
      have hrest := ih (fun n hn => hfits n (List.mem_cons_of_mem p hn)) (Nat.le_of_succ_le_succ hfuel)
      have hpiece := hp.piece?_append hend fun n hn => hfits n (hn ▸ List.mem_cons_self)
      obtain ⟨c, v, rfl, hc⟩ := hp.lead
      rw [List.cons_append] at hpiece ⊢
      simp [piecesWithin, hc, hpiece, hrest]

/-- The reader cuts a text into its pieces, if its integers are of at most 64 bits. -/
theorem Cut.pieces?_eq {cs : List Char} {ps : List Piece} (h : Cut cs ps) (hfits : AllFit ps) :
    pieces? cs = some ps := h.piecesWithin_eq hfits h.length_le

/-! ### Pieces of values -/

mutual

/-- The pieces that spell a value. -/
def spelled : Json → List Piece
  | .array [] => [.openArray, .closeArray]
  | .array (j :: js) => .openArray :: (spelled j ++ spelledItems js)
  | .object [] => [.openObject, .closeObject]
  | .object ((k, j) :: fs) => .openObject :: .scalar (.string k) :: .colon :: (spelled j ++ spelledFields fs)
  | j => [.scalar j]

/-- The later items, each behind a comma, and the closing bracket. -/
def spelledItems : List Json → List Piece
  | [] => [.closeArray]
  | j :: js => .comma :: (spelled j ++ spelledItems js)

/-- The later fields, each behind a comma, and the closing brace. -/
def spelledFields : List (String × Json) → List Piece
  | [] => [.closeObject]
  | (k, j) :: fs => .comma :: .scalar (.string k) :: .colon :: (spelled j ++ spelledFields fs)

end

/-- A value with at most `n` containers around any part of it. There is no double in it, the fields of each object
have different names, and its integers have a property. -/
inductive Plain (P : ℤ → Prop) : ℕ → Json → Prop where
  | string {n} (s : String) : Plain P n (.string s)
  | integer {n i} (hi : P i) : Plain P n (.integer i)
  | array {n js} (hitems : ∀ j ∈ js, Plain P n j) : Plain P (n + 1) (.array js)
  | object {n fs} (hnames : (fs.map Prod.fst).Nodup) (hfields : ∀ f ∈ fs, Plain P n f.2) : Plain P (n + 1) (.object fs)

namespace Plain

variable {P : ℤ → Prop} {m n : ℕ} {j : Json}

theorem mono (h : Plain P n j) (hnm : n ≤ m) : Plain P m j := by
  induction h generalizing m with
  | string s => exact .string s
  | integer hi => exact .integer hi
  | array hitems ih =>
      obtain ⟨k, rfl⟩ := Nat.exists_eq_succ_of_ne_zero (Nat.ne_zero_of_lt hnm)
      exact .array fun j hj => ih j hj (Nat.le_of_succ_le_succ hnm)
  | object hnames hfields ih =>
      obtain ⟨k, rfl⟩ := Nat.exists_eq_succ_of_ne_zero (Nat.ne_zero_of_lt hnm)
      exact .object hnames fun f hf => ih f hf (Nat.le_of_succ_le_succ hnm)

end Plain

/-! ### Pieces of pretty texts -/

/-- The pretty text of a value is cut into its pieces, whatever stands behind it, but for what a number goes on
with. -/
def PrettyCuts (j : Json) : Prop :=
  ∀ depth rest ps, EndsNumber rest → Cut rest ps → Cut (pretty depth j ++ rest) (spelled j ++ ps)

section Pretty

variable {rest : List Char} {ps : List Piece}

theorem Cut.fixed {p : Piece} {w : List Char} (hp : (p, w) ∈ fixedTexts) (h : Cut rest ps) :
    Cut (w ++ rest) (p :: ps) := by
  refine .piece (.fixed hp) ?_ h
  rintro n rfl
  exact absurd hp (by simp [fixedTexts])

theorem Cut.string (s : String) (h : Cut rest ps) : Cut (stringText s ++ rest) (.scalar (.string s) :: ps) :=
  .piece (.string s) (by simp) h

theorem Cut.newLine {depth : ℕ} (h : Cut rest ps) : Cut (newLine depth ++ rest) ps := by
  have hblanks (k : ℕ) : Cut (List.replicate k ' ' ++ rest) ps := by
    induction k with
    | zero => exact h
    | succ k ih => exact .space rfl ih
  exact .space rfl (hblanks _)

theorem endsNumber_prettyItems (depth : ℕ) (js : List Json) : EndsNumber (prettyItems depth js ++ rest) := by
  cases js <;> simp [EndsNumber, prettyItems, Json.newLine, isNumberChar, Text.isNumeral]

theorem endsNumber_prettyFields (depth : ℕ) (fs : List (String × Json)) : EndsNumber (prettyFields depth fs ++ rest) := by
  cases fs <;> simp [EndsNumber, prettyFields, Json.newLine, isNumberChar, Text.isNumeral]

theorem cut_prettyItems {depth : ℕ} {js : List Json} (hitems : ∀ j ∈ js, PrettyCuts j) (h : Cut rest ps) :
    Cut (prettyItems depth js ++ rest) (spelledItems js ++ ps) := by
  induction js with
  | nil =>
      have hclose : Cut ([']'] ++ rest) (.closeArray :: ps) := h.fixed (by decide)
      simpa [prettyItems, spelledItems] using hclose.newLine
  | cons j js ih =>
      obtain ⟨hj, hjs⟩ := List.forall_mem_cons.mp hitems
      have hitem := hj (depth + 1) _ _ (endsNumber_prettyItems depth js) (ih hjs)
      have hcomma : Cut ([','] ++ (Json.newLine (depth + 1) ++ _)) (.comma :: _) := hitem.newLine.fixed (by decide)
      simpa [prettyItems, spelledItems] using hcomma

/-- A name, its colon and its value. -/
theorem cut_prettyField (depth : ℕ) (k : String) {j : Json} (hj : PrettyCuts j) (hend : EndsNumber rest)
    (h : Cut rest ps) : Cut (Json.newLine depth ++ (stringText k ++ ([':', ' '] ++ (pretty depth j ++ rest))))
      (.scalar (.string k) :: .colon :: (spelled j ++ ps)) := by
  have hcolon : Cut ([':'] ++ ' ' :: (pretty depth j ++ rest)) (.colon :: _) :=
    (Cut.space rfl (hj depth _ _ hend h)).fixed (by decide)
  exact (hcolon.string k).newLine

theorem cut_prettyFields {depth : ℕ} {fs : List (String × Json)} (hfields : ∀ f ∈ fs, PrettyCuts f.2) (h : Cut rest ps) :
    Cut (prettyFields depth fs ++ rest) (spelledFields fs ++ ps) := by
  induction fs with
  | nil =>
      have hclose : Cut (['\x7d'] ++ rest) (.closeObject :: ps) := h.fixed (by decide)
      simpa [prettyFields, spelledFields] using hclose.newLine
  | cons f fs ih =>
      obtain ⟨k, j⟩ := f
      obtain ⟨hj, hfs⟩ := List.forall_mem_cons.mp hfields
      have hfield := cut_prettyField (depth + 1) k hj (endsNumber_prettyFields depth fs) (ih hfs)
      have hcomma : Cut ([','] ++ _) (.comma :: _) := hfield.fixed (by decide)
      simpa [prettyFields, spelledFields] using hcomma

end Pretty

theorem Plain.prettyCuts {P : ℤ → Prop} {n : ℕ} {j : Json} (h : Plain P n j) : PrettyCuts j := by
  induction h with
  | string s =>
      intro depth rest ps _ hrest
      simpa [pretty, spelled] using hrest.string s
  | @integer n i hi =>
      intro depth rest ps hend hrest
      simpa [pretty, spelled] using Cut.piece (.integer i) (fun _ _ => hend) hrest
  | @array n js hitems ih =>
      intro depth rest ps _ hrest
      cases js with
      | nil =>
          have hclose : Cut ([']'] ++ rest) (.closeArray :: ps) := hrest.fixed (by decide)
          have hopen : Cut (['['] ++ _) (.openArray :: _) := hclose.fixed (by decide)
          simpa [pretty, spelled] using hopen
      | cons j js =>
          obtain ⟨hj, hjs⟩ := List.forall_mem_cons.mp ih
          have hitem := hj (depth + 1) _ _ (endsNumber_prettyItems depth js) (cut_prettyItems hjs hrest)
          have hopen : Cut (['['] ++ (newLine (depth + 1) ++ _)) (.openArray :: _) := hitem.newLine.fixed (by decide)
          simpa [pretty, spelled] using hopen
  | @object n fs hnames hfields ih =>
      intro depth rest ps _ hrest
      cases fs with
      | nil =>
          have hclose : Cut (['\x7d'] ++ rest) (.closeObject :: ps) := hrest.fixed (by decide)
          have hopen : Cut (['\x7b'] ++ _) (.openObject :: _) := hclose.fixed (by decide)
          simpa [pretty, spelled] using hopen
      | cons f fs =>
          obtain ⟨k, j⟩ := f
          obtain ⟨hj, hfs⟩ := List.forall_mem_cons.mp ih
          have hfield := cut_prettyField (depth + 1) k hj (endsNumber_prettyFields depth fs)
            (cut_prettyFields hfs hrest)
          have hopen : Cut (['\x7b'] ++ _) (.openObject :: _) := hfield.fixed (by decide)
          simpa [pretty, spelled] using hopen

end LayoutRule.Json
