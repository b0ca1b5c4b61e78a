import LayoutRule.Proofs.Tree.Grammar

/-! # The block grammar as ordered choice

The grammar can be tried on a token list from the left: an alternative is tried where the one before it does
not fit, and a repetition goes on as long as it can. Nothing taken by an alternative that fits is tried in
another way later. Wherever a token does not fit, the place is noted, also if another alternative fits. -/

namespace LayoutRule

/-- What comes of trying a rule: its value with the tokens behind, unless it does not fit, and for each token
that did not fit the tokens that were left. -/
structure Attempt (α : Type) where
  result : Option (α × List Token)
  misses : List (List Token)

/-- A way to take tokens from the front of a list. -/
def Rule (α : Type) : Type := List Token → Attempt α

/-- The miss at which the fewest tokens are left. -/
structure Furthest (misses : List (List Token)) (far : List Token) : Prop where
  mem : far ∈ misses
  isSuffix : ∀ miss ∈ misses, far <:+ miss

/-- How a list begins: with a line, with the marker of a block, or with neither. -/
inductive Front : List Token → Prop where
  | line (l : Grammar.Line) (ts : List Token) : l.EndsBefore ts → Front (l.spelled ++ ts)
  | opening (t : Token) (ts : List Token) : t.kind = .blockOpen → Front (t :: ts)
  | other {ts : List Token} : (∀ t ∈ ts.head?, t.kind.isOrdinary = false ∧ t.kind ≠ .blockOpen) → Front ts

theorem kind_head_cases (ts : List Token) (kind : TokenKind) :
    (∃ t us, ts = t :: us ∧ t.kind = kind) ∨ ∀ t ∈ ts.head?, t.kind ≠ kind := by
  cases ts with
  | nil => exact Or.inr (by simp)
  | cons t ts =>
      by_cases ht : t.kind = kind
      · exact Or.inl ⟨t, ts, rfl, ht⟩
      · exact Or.inr (by simpa using ht)

theorem eq_false_of_mem_head_dropWhile {p : Token → Bool} {ts : List Token} :
    ∀ t ∈ (ts.dropWhile p).head?, p t = false := by
  intro t ht
  simpa [Option.mem_def.mp ht] using List.head?_dropWhile_not p ts

/-- The line at the front of a list: all tokens that can stand in it, and all line breaks behind them. -/
private theorem exists_line {t : Token} (ht : t.kind.isOrdinary = true) (ts : List Token) :
    ∃ (l : Grammar.Line) (us : List Token), t :: ts = l.spelled ++ us ∧ l.EndsBefore us := by
  let behind := (t :: ts).dropWhile (·.kind.isOrdinary)
  let l : Grammar.Line :=
    { tokens := (t :: ts).takeWhile (·.kind.isOrdinary)
      breaks := behind.takeWhile (·.kind = .lineBreak)
      tokens_ne_nil := by simp [ht]
      isOrdinary := fun u hu => by simpa using List.mem_takeWhile_imp hu
      isLineBreak := fun u hu => by simpa using List.mem_takeWhile_imp hu }
  refine ⟨l, behind.dropWhile (·.kind = .lineBreak), ?_, fun u hu => ⟨?_, ?_⟩⟩
  · rw [Grammar.Line.spelled, List.append_assoc, List.takeWhile_append_dropWhile,
      List.takeWhile_append_dropWhile]
  · simpa using eq_false_of_mem_head_dropWhile u hu
  · intro hbreaks
    have hbehind : behind.dropWhile (·.kind = .lineBreak) = behind := by
      have hall := List.takeWhile_append_dropWhile (p := (·.kind = .lineBreak)) (l := behind)
      rwa [show behind.takeWhile (·.kind = .lineBreak) = [] from hbreaks] at hall
    rw [hbehind] at hu
    simp [eq_false_of_mem_head_dropWhile u hu]

theorem Front.of (ts : List Token) : Front ts := by
  cases ts with
  | nil => exact .other (by simp)
  | cons t ts =>
      by_cases ht : t.kind.isOrdinary = true
      · obtain ⟨l, us, hts, hl⟩ := exists_line ht ts
        exact hts ▸ .line l us hl
      · by_cases hopen : t.kind = .blockOpen
        · exact .opening t ts hopen
        · exact .other (by simpa using ⟨Bool.eq_false_iff.mpr ht, hopen⟩)

namespace Furthest

variable {misses more : List (List Token)} {far : List Token}

theorem cons (h : Furthest misses far) {miss : List Token} (hmiss : far <:+ miss) :
    Furthest (miss :: misses) far :=
  ⟨List.mem_cons_of_mem _ h.mem, List.forall_mem_cons.mpr ⟨hmiss, h.isSuffix⟩⟩

theorem append_right (h : Furthest misses far) (hmore : ∀ miss ∈ more, far <:+ miss) :
    Furthest (misses ++ more) far :=
  ⟨List.mem_append_left _ h.mem, List.forall_mem_append.mpr ⟨h.isSuffix, hmore⟩⟩

theorem append_left (h : Furthest misses far) (hmore : ∀ miss ∈ more, far <:+ miss) :
    Furthest (more ++ misses) far :=
  ⟨List.mem_append_right _ h.mem, List.forall_mem_append.mpr ⟨hmore, h.isSuffix⟩⟩

/-- A last miss behind all others is the furthest. -/
theorem append_singleton (h : Furthest misses far) {miss : List Token} (hmiss : miss <:+ far) :
    Furthest (misses ++ [miss]) miss :=
  ⟨by simp, List.forall_mem_append.mpr ⟨fun other hother => hmiss.trans (h.isSuffix other hother), by simp⟩⟩

end Furthest

namespace Rule

variable {α β : Type}

instance : Monad Rule where
  pure x := fun ts => ⟨some (x, ts), []⟩
  bind a b := fun ts =>
    match (a ts).result with
    | none => ⟨none, (a ts).misses⟩
    | some (x, us) => ⟨(b x us).result, (a ts).misses ++ (b x us).misses⟩

def fail : Rule α := fun _ => ⟨none, []⟩

/-- A token of a kind that fits. -/
def token (fits : TokenKind → Bool) : Rule Token
  | t :: ts => if fits t.kind then ⟨some (t, ts), []⟩ else ⟨none, [t :: ts]⟩
  | [] => ⟨none, [[]]⟩

/-- The end of the list. -/
def atEnd : Rule Unit
  | [] => ⟨some ((), []), []⟩
  | t :: ts => ⟨none, [t :: ts]⟩

/-- The second rule, where the first does not fit. -/
def orElse (a b : Rule α) : Rule α := fun ts =>
  match (a ts).result with
  | some found => ⟨some found, (a ts).misses⟩
  | none => ⟨(b ts).result, (a ts).misses ++ (b ts).misses⟩

def optional (a : Rule α) : Rule (Option α) := orElse (some <$> a) (pure none)

/-- A rule as often as it fits and takes something. -/
def many (a : Rule α) (ts : List Token) : Attempt (List α) :=
  match (a ts).result with
  | none => ⟨some ([], ts), (a ts).misses⟩
  | some (x, us) =>
      if us.length < ts.length then
        let later := many a us
        ⟨later.result.map fun (xs, vs) => (x :: xs, vs), (a ts).misses ++ later.misses⟩
      else ⟨some ([x], us), (a ts).misses⟩
termination_by ts.length

def manyOne (a : Rule α) : Rule (List α) := do
  let first ← a
  let more ← many a
  return first :: more

/-- A rule that refers to itself, as deep as `depth`. -/
def deepen (f : Rule α → Rule α) : ℕ → Rule α
  | 0 => fail
  | depth + 1 => f (deepen f depth)

/-- A rule that refers to itself behind at least one token: no list can hold it deeper than it is long. -/
def recursive (f : Rule α → Rule α) : Rule α := fun ts => deepen f (ts.length + 1) ts

/-! ### The rules of the grammar -/

/-- `BlockOpen node* BlockDedent` -/
def block (node : Rule Node) : Rule (List Node) := do
  let _ ← token (· = .blockOpen)
  let children ← many node
  let _ ← token (· = .blockDedent)
  return children

/-- `ordinary+ LineBreak* block?` -/
def statement (node : Rule Node) : Rule Node := do
  let tokens ← manyOne (token TokenKind.isOrdinary)
  let _ ← many (token (· = .lineBreak))
  let body ← optional (block node)
  return .statement tokens (body.getD [])

/-- `statement | block` -/
def statementOrBlock (node : Rule Node) : Rule Node :=
  orElse (statement node) (Node.block <$> block node)

def node : Rule Node := recursive statementOrBlock

/-- `LineBreak* node* EndOfInput`, and nothing behind. -/
def program : Rule (List Node) := do
  let _ ← many (token (· = .lineBreak))
  let nodes ← many node
  let _ ← token (· = .endOfInput)
  atEnd
  return nodes

/-! ### Trying a rule -/

theorem bind_eq_of_some {a : Rule α} {ts us : List Token} {x : α} {misses : List (List Token)}
    (h : a ts = ⟨some (x, us), misses⟩) (b : α → Rule β) :
    (a >>= b) ts = ⟨(b x us).result, misses ++ (b x us).misses⟩ := by
  simp only [bind, h]

theorem bind_eq_of_none {a : Rule α} {ts : List Token} {misses : List (List Token)}
    (h : a ts = ⟨none, misses⟩) (b : α → Rule β) : (a >>= b) ts = ⟨none, misses⟩ := by
  simp only [bind, h]

@[simp] theorem pure_apply (x : α) (ts : List Token) : (pure x : Rule α) ts = ⟨some (x, ts), []⟩ := rfl

theorem map_apply (f : α → β) (a : Rule α) (ts : List Token) :
    (f <$> a) ts = ⟨(a ts).result.map fun (x, us) => (f x, us), (a ts).misses⟩ := by
  have hmap : f <$> a = a >>= fun x => pure (f x) := rfl
  rw [hmap]
  cases h : a ts with
  | mk result misses =>
      cases result with
      | none => rw [bind_eq_of_none h, Option.map_none]
      | some found =>
          obtain ⟨x, us⟩ := found
          simp [bind_eq_of_some h]

theorem token_cons_of_pos {fits : TokenKind → Bool} {t : Token} (h : fits t.kind = true) (ts : List Token) :
    token fits (t :: ts) = ⟨some (t, ts), []⟩ := by
  simp [token, h]

theorem token_of_head {fits : TokenKind → Bool} {ts : List Token} (h : ∀ t ∈ ts.head?, fits t.kind = false) :
    token fits ts = ⟨none, [ts]⟩ := by
  cases ts with
  | nil => rfl
  | cons t ts => simp [token, h t (by simp)]

/-- A repetition of tokens goes on up to the first that does not fit. -/
theorem many_token {fits : TokenKind → Bool} {front ts : List Token}
    (hfront : ∀ t ∈ front, fits t.kind = true)
    (hts : ∀ t ∈ ts.head?, fits t.kind = false) :
    many (token fits) (front ++ ts) = ⟨some (front, ts), [ts]⟩ := by
  induction front with
  | nil => rw [List.nil_append, many, token_of_head hts]
  | cons t front ih =>
      have hrest := ih fun u hu => hfront u (List.mem_cons_of_mem t hu)
      rw [List.cons_append, many, token_cons_of_pos (hfront t (by simp))]
      simp [hrest]

theorem many_eq_of_none {a : Rule α} {ts : List Token} {misses : List (List Token)}
    (h : a ts = ⟨none, misses⟩) : many a ts = ⟨some ([], ts), misses⟩ := by
  rw [many, h]

theorem many_eq_of_some {a : Rule α} {ts us vs : List Token} {x : α} {xs : List α}
    {misses misses' : List (List Token)} (h : a ts = ⟨some (x, us), misses⟩) (hless : us.length < ts.length)
    (hmany : many a us = ⟨some (xs, vs), misses'⟩) :
    many a ts = ⟨some (x :: xs, vs), misses ++ misses'⟩ := by
  rw [many, h]
  simp [hless, hmany]

/-! ### The parts of a node -/

theorem block_of_head {ts : List Token} (h : ∀ t ∈ ts.head?, t.kind ≠ .blockOpen) (node : Rule Node) :
    block node ts = ⟨none, [ts]⟩ :=
  bind_eq_of_none (token_of_head fun t ht => by simp [h t ht]) _

theorem block_of_closing {opening closing : Token} {ts us : List Token} {node : Rule Node} {nodes : List Node}
    {misses : List (List Token)} (hopen : opening.kind = .blockOpen) (hclose : closing.kind = .blockDedent)
    (hnodes : many node ts = ⟨some (nodes, closing :: us), misses⟩) :
    block node (opening :: ts) = ⟨some (nodes, us), misses⟩ := by
  rw [block, bind_eq_of_some (token_cons_of_pos (by simp [hopen]) ts), bind_eq_of_some hnodes,
    bind_eq_of_some (token_cons_of_pos (by simp [hclose]) us)]
  simp

theorem block_of_not_closing {opening : Token} {ts us : List Token} {node : Rule Node} {nodes : List Node}
    {misses : List (List Token)} (hopen : opening.kind = .blockOpen)
    (hnodes : many node ts = ⟨some (nodes, us), misses⟩) (hus : ∀ t ∈ us.head?, t.kind ≠ .blockDedent) :
    block node (opening :: ts) = ⟨none, misses ++ [us]⟩ := by
  rw [block, bind_eq_of_some (token_cons_of_pos (by simp [hopen]) ts), bind_eq_of_some hnodes,
    bind_eq_of_none (token_of_head fun t ht => by simp [hus t ht])]
  simp

theorem statement_of_head {ts : List Token} (h : ∀ t ∈ ts.head?, t.kind.isOrdinary = false)
    (node : Rule Node) :
    statement node ts = ⟨none, [ts]⟩ :=
  bind_eq_of_none (bind_eq_of_none (token_of_head h) _) _

/-- A rule that need not fit leaves the list as it is where it does not. -/
theorem optional_apply (a : Rule α) (ts : List Token) :
    optional a ts =
      ⟨some (((a ts).result.map fun (x, us) => (some x, us)).getD (none, ts)), (a ts).misses⟩ := by
  cases h : (a ts).result <;> simp [optional, orElse, map_apply, h]

theorem orElse_of_none {a b : Rule α} {ts : List Token} {misses : List (List Token)}
    (h : a ts = ⟨none, misses⟩) : orElse a b ts = ⟨(b ts).result, misses ++ (b ts).misses⟩ := by
  simp [orElse, h]

theorem orElse_of_some {a b : Rule α} {ts : List Token} {found : α × List Token} {misses : List (List Token)}
    (h : a ts = ⟨some found, misses⟩) : orElse a b ts = ⟨some found, misses⟩ := by
  simp [orElse, h]

section Line

open Grammar

variable {l : Line} {ts : List Token}

private theorem manyOne_line (hl : l.EndsBefore ts) :
    manyOne (token TokenKind.isOrdinary) (l.spelled ++ ts) =
      ⟨some (l.tokens, l.breaks ++ ts), [l.breaks ++ ts]⟩ := by
  obtain ⟨t, front, htokens⟩ := List.exists_cons_of_ne_nil l.tokens_ne_nil
  have hordinary : ∀ u ∈ t :: front, u.kind.isOrdinary = true := htokens ▸ l.isOrdinary
  obtain ⟨ht, hfront⟩ := List.forall_mem_cons.mp hordinary
  have hbehind := many_token hfront fun u hu => Bool.eq_false_iff.mpr (hl.not_isOrdinary u hu)
  rw [manyOne, Line.spelled, htokens, List.append_assoc, List.cons_append,
    bind_eq_of_some (token_cons_of_pos ht _), bind_eq_of_some hbehind]
  simp

/-- A line takes the block behind it, if there is one that fits. -/
theorem statement_line (hl : l.EndsBefore ts) (node : Rule Node) :
    statement node (l.spelled ++ ts) =
      ⟨some (((block node ts).result.map fun (body, us) => (.statement l.tokens body, us)).getD
        (.statement l.tokens [], ts)), (l.breaks ++ ts) :: ts :: (block node ts).misses⟩ := by
  have hbreaks : many (token (· = .lineBreak)) (l.breaks ++ ts) = ⟨some (l.breaks, ts), [ts]⟩ :=
    many_token (fun t ht => by simp [l.isLineBreak t ht]) fun t ht => by simp [(hl t ht).1]
  rw [statement, bind_eq_of_some (manyOne_line hl), bind_eq_of_some hbreaks,
    bind_eq_of_some (optional_apply (block node) ts)]
  cases (block node ts).result <;> simp

end Line

/-! ### Nodes hold nodes -/

theorem many_congr {a b : Rule α} {ts : List Token} (h : ∀ us, us.length ≤ ts.length → a us = b us) :
    many a ts = many b ts := by
  fun_induction many a ts with
  | case1 ts hnone => rw [many, ← h ts le_rfl, hnone]
  | case2 ts x us hsome hless later ih =>
      have hlater := ih fun vs hvs => h vs (hvs.trans hless.le)
      rw [many, ← h ts le_rfl, hsome]
      simp [hless, later, hlater]
  | case3 ts x us hsome hless =>
      rw [many, ← h ts le_rfl, hsome]
      simp [hless]

theorem block_congr {a b : Rule Node} {ts : List Token} (h : ∀ us, us.length < ts.length → a us = b us) :
    block a ts = block b ts := by
  cases ts with
  | nil => rw [block_of_head (by simp), block_of_head (by simp)]
  | cons t us =>
      by_cases ht : t.kind = .blockOpen
      · have hmany : many a us = many b us := many_congr fun vs hvs => h vs (Nat.lt_succ_of_le hvs)
        have htoken : token (· = .blockOpen) (t :: us) = ⟨some (t, us), []⟩ :=
          token_cons_of_pos (by simp [ht]) us
        rw [block, block, bind_eq_of_some htoken, bind_eq_of_some htoken]
        simp only [bind, hmany]
      · rw [block_of_head (by simpa using ht), block_of_head (by simpa using ht)]

theorem statementOrBlock_congr {a b : Rule Node} {ts : List Token}
    (h : ∀ us, us.length < ts.length → a us = b us) : statementOrBlock a ts = statementOrBlock b ts := by
  have hblock := block_congr h
  have hstatement : statement a ts = statement b ts := by
    cases Front.of ts with
    | line l us hl =>
        have hbehind : block a us = block b us := block_congr fun vs hvs => h vs (by simp; omega)
        rw [statement_line hl, statement_line hl, hbehind]
    | opening t us ht =>
        have hhead : ∀ u ∈ (t :: us).head?, u.kind.isOrdinary = false := by simp [ht, TokenKind.isOrdinary]
        rw [statement_of_head hhead, statement_of_head hhead]
    | other hhead =>
        have hhead : ∀ t ∈ ts.head?, t.kind.isOrdinary = false := fun t ht => (hhead t ht).1
        rw [statement_of_head hhead, statement_of_head hhead]
  simp only [statementOrBlock, orElse, map_apply, hstatement, hblock]

theorem deepen_eq {depth depth' : ℕ} {ts : List Token} (h : ts.length < depth) (h' : ts.length < depth') :
    deepen statementOrBlock depth ts = deepen statementOrBlock depth' ts := by
  induction depth generalizing depth' ts with
  | zero => simp at h
  | succ depth ih =>
      cases depth' with
      | zero => simp at h'
      | succ depth' =>
          exact statementOrBlock_congr fun us hus => ih (by omega) (by omega)

/-- A node is a statement or a block of nodes. -/
theorem node_eq : node = statementOrBlock node := by
  funext ts
  exact statementOrBlock_congr fun us hus => deepen_eq hus (Nat.lt_succ_self _)

/-- Where a line begins, a node is the statement of the line. -/
theorem node_line {l : Grammar.Line} {ts : List Token} (hl : l.EndsBefore ts) :
    node (l.spelled ++ ts) =
      ⟨some (((block node ts).result.map fun (body, us) => (.statement l.tokens body, us)).getD
        (.statement l.tokens [], ts)), (l.breaks ++ ts) :: ts :: (block node ts).misses⟩ := by
  have hnode : node (l.spelled ++ ts) = statementOrBlock node (l.spelled ++ ts) := congrFun node_eq _
  exact hnode.trans (orElse_of_some (statement_line hl node))

/-- Where no line begins, a node is a block by itself. -/
theorem node_of_head {ts : List Token} (h : ∀ t ∈ ts.head?, t.kind.isOrdinary = false) :
    node ts =
      ⟨(block node ts).result.map fun (nodes, us) => (.block nodes, us), ts :: (block node ts).misses⟩ := by
  have hnode : node ts = statementOrBlock node ts := congrFun node_eq ts
  rw [hnode, statementOrBlock, orElse_of_none (statement_of_head h node), map_apply]
  rfl

/-! ### The parts of a program -/

section Program

variable {breaks ts rest : List Token} {nodes : List Node} {misses : List (List Token)}

private theorem many_breaks (hbreaks : ∀ t ∈ breaks, t.kind = .lineBreak)
    (hts : ∀ t ∈ ts.head?, t.kind ≠ .lineBreak) :
    many (token (· = .lineBreak)) (breaks ++ ts) = ⟨some (breaks, ts), [ts]⟩ :=
  many_token (by simpa using hbreaks) (by simpa using hts)

theorem program_of_end {t : Token} (hbreaks : ∀ t ∈ breaks, t.kind = .lineBreak)
    (hts : ∀ t ∈ ts.head?, t.kind ≠ .lineBreak) (hnodes : many node ts = ⟨some (nodes, t :: rest), misses⟩)
    (ht : t.kind = .endOfInput) :
    program (breaks ++ ts) =
      ⟨if rest = [] then some (nodes, []) else none, ts :: (misses ++ if rest = [] then [] else [rest])⟩ := by
  rw [program, bind_eq_of_some (many_breaks hbreaks hts), bind_eq_of_some hnodes,
    bind_eq_of_some (token_cons_of_pos (by simp [ht]) rest)]
  cases rest with
  | nil => rw [bind_eq_of_some rfl]; simp
  | cons u us => rw [bind_eq_of_none rfl]; simp

theorem program_of_head (hbreaks : ∀ t ∈ breaks, t.kind = .lineBreak)
    (hts : ∀ t ∈ ts.head?, t.kind ≠ .lineBreak) (hnodes : many node ts = ⟨some (nodes, rest), misses⟩)
    (hrest : ∀ t ∈ rest.head?, t.kind ≠ .endOfInput) :
    program (breaks ++ ts) = ⟨none, ts :: (misses ++ [rest])⟩ := by
  rw [program, bind_eq_of_some (many_breaks hbreaks hts), bind_eq_of_some hnodes,
    bind_eq_of_none (token_of_head fun t ht => by simp [hrest t ht])]
  simp

end Program

end Rule

end LayoutRule
