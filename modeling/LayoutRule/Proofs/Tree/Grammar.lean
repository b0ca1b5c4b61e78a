import LayoutRule.Tree.Node
import Mathlib.Data.List.TakeWhile

/-! # The block grammar

The token lists that spell a forest are those derived by

    program   := LineBreak* node* EndOfInput
    node      := statement | block
    statement := ordinary+ LineBreak* block?
    block     := BlockOpen node* BlockDedent

A list can have many derivations: a line can be cut into several statements, and a block behind a line can
stand by itself. In a greedy derivation no line is cut and no such block is left to itself; every list that
has a derivation has exactly one greedy derivation. -/

namespace LayoutRule.Grammar

/-- `ordinary+ LineBreak*`: the tokens of a line and the line breaks behind it. -/
@[ext]
structure Line where
  tokens : List Token
  breaks : List Token
  tokens_ne_nil : tokens ≠ []
  isOrdinary : ∀ t ∈ tokens, t.kind.isOrdinary = true
  isLineBreak : ∀ t ∈ breaks, t.kind = .lineBreak

/-- The markers around a block. -/
@[ext]
structure Fence where
  opening : Token
  closing : Token
  opens : opening.kind = .blockOpen
  closes : closing.kind = .blockDedent

/-- The derivations of `node*`. A first node is a statement without a block, a statement with a block, or a
block by itself. -/
inductive Nodes where
  | nil
  | bare (line : Line) (rest : Nodes)
  | headed (line : Line) (fence : Fence) (body rest : Nodes)
  | block (fence : Fence) (children rest : Nodes)

/-- The derivations of `program`. -/
@[ext]
structure Program where
  breaks : List Token
  nodes : Nodes
  final : Token
  isLineBreak : ∀ t ∈ breaks, t.kind = .lineBreak
  ends : final.kind = .endOfInput

/-! ### What a derivation spells and means -/

def Line.spelled (l : Line) : List Token := l.tokens ++ l.breaks

namespace Nodes

/-- The tokens that are derived. -/
def spelled : Nodes → List Token
  | nil => []
  | bare l rest => l.spelled ++ rest.spelled
  | headed l f body rest => l.spelled ++ f.opening :: (body.spelled ++ f.closing :: rest.spelled)
  | block f children rest => f.opening :: (children.spelled ++ f.closing :: rest.spelled)

/-- The nodes that are derived. A statement without a block has the same node as one with an empty block. -/
def forest : Nodes → List Node
  | nil => []
  | bare l rest => .statement l.tokens [] :: rest.forest
  | headed l _ body rest => .statement l.tokens body.forest :: rest.forest
  | block _ children rest => .block children.forest :: rest.forest

/-- The lines of the statements, from the top down. -/
def lines : Nodes → List (List Token)
  | nil => []
  | bare l rest => l.tokens :: rest.lines
  | headed l _ body rest => l.tokens :: (body.lines ++ rest.lines)
  | block _ children rest => children.lines ++ rest.lines

/-- The first node is a statement. -/
def BeginsLine : Nodes → Prop
  | bare _ _ | headed _ _ _ _ => True
  | nil | block _ _ _ => False

/-- The first node is a block by itself. -/
def BeginsBlock : Nodes → Prop
  | block _ _ _ => True
  | nil | bare _ _ | headed _ _ _ _ => False

/-- No line goes on as the line of a second statement, and no block stands by itself behind a line that
could take it. -/
def Greedy : Nodes → Prop
  | nil => True
  | bare l rest => (l.breaks = [] → ¬rest.BeginsLine) ∧ ¬rest.BeginsBlock ∧ rest.Greedy
  | headed _ _ body rest => body.Greedy ∧ rest.Greedy
  | block _ children rest => children.Greedy ∧ rest.Greedy

end Nodes

namespace Program

def spelled (p : Program) : List Token := p.breaks ++ (p.nodes.spelled ++ [p.final])

def forest (p : Program) : List Node := p.nodes.forest

def Greedy (p : Program) : Prop := p.nodes.Greedy

end Program

/-! ### Settling a derivation -/

/-- A line that goes on as the line `m`. -/
def Line.join (l m : Line) : Line where
  tokens := l.tokens ++ m.tokens
  breaks := m.breaks
  tokens_ne_nil := by simp [l.tokens_ne_nil]
  isOrdinary := by
    intro t ht
    rcases List.mem_append.mp ht with ht | ht
    · exact l.isOrdinary t ht
    · exact m.isOrdinary t ht
  isLineBreak := m.isLineBreak

theorem Line.spelled_join {l : Line} (h : l.breaks = []) (m : Line) :
    (l.join m).spelled = l.spelled ++ m.spelled := by
  simp [spelled, join, h]

namespace Nodes

/-- A line in front of a derivation runs into its first line, unless it breaks before, and takes its first
block. -/
def addLine (l : Line) : Nodes → Nodes
  | nil => bare l nil
  | bare m rest => if l.breaks = [] then bare (l.join m) rest else bare l (bare m rest)
  | headed m f body rest =>
      if l.breaks = [] then headed (l.join m) f body rest else bare l (headed m f body rest)
  | block f children rest => headed l f children rest

/-- The greedy derivation of the same tokens. -/
def settle : Nodes → Nodes
  | nil => nil
  | bare l rest => addLine l rest.settle
  | headed l f body rest => headed l f body.settle rest.settle
  | block f children rest => block f children.settle rest.settle

theorem spelled_addLine (l : Line) (d : Nodes) : (addLine l d).spelled = l.spelled ++ d.spelled := by
  cases d with
  | nil => rfl
  | block f children rest => rfl
  | bare m rest =>
      by_cases h : l.breaks = []
      · simp [addLine, h, spelled, Line.spelled_join h]
      · simp [addLine, h, spelled]
  | headed m f body rest =>
      by_cases h : l.breaks = []
      · simp [addLine, h, spelled, Line.spelled_join h]
      · simp [addLine, h, spelled]

theorem Greedy.addLine {d : Nodes} (h : d.Greedy) (l : Line) : (addLine l d).Greedy := by
  cases d with
  | nil => simp [Nodes.addLine, Greedy, BeginsLine, BeginsBlock]
  | block f children rest => exact h
  | bare m rest =>
      by_cases hl : l.breaks = []
      · rw [Nodes.addLine, if_pos hl]
        exact h
      · rw [Nodes.addLine, if_neg hl]
        exact ⟨fun hnone => absurd hnone hl, id, h⟩
  | headed m f body rest =>
      by_cases hl : l.breaks = []
      · rw [Nodes.addLine, if_pos hl]
        exact h
      · rw [Nodes.addLine, if_neg hl]
        exact ⟨fun hnone => absurd hnone hl, id, h⟩

theorem spelled_settle (d : Nodes) : d.settle.spelled = d.spelled := by
  induction d with
  | nil => rfl
  | bare l rest ih => rw [settle, spelled_addLine, ih, spelled]
  | headed l f body rest ihb ih => simp [settle, spelled, ihb, ih]
  | block f children rest ihc ih => simp [settle, spelled, ihc, ih]

theorem greedy_settle (d : Nodes) : d.settle.Greedy := by
  induction d with
  | nil => trivial
  | bare l rest ih => exact ih.addLine l
  | headed l f body rest ihb ih => exact ⟨ihb, ih⟩
  | block f children rest ihc ih => exact ⟨ihc, ih⟩

end Nodes

/-- Whatever has a derivation has a greedy one. -/
theorem Program.exists_greedy (p : Program) : ∃ q : Program, q.Greedy ∧ q.spelled = p.spelled :=
  ⟨{ p with nodes := p.nodes.settle }, p.nodes.greedy_settle, by simp [spelled, p.nodes.spelled_settle]⟩

/-! ### A list has one greedy derivation -/

/-- A run of tokens with a property, up to the first token without it, can be taken off in one way. -/
private theorem eq_of_append {p : Token → Prop} {as bs ts us : List Token} (h : as ++ ts = bs ++ us)
    (has : ∀ a ∈ as, p a) (hbs : ∀ b ∈ bs, p b) (hts : ∀ t ∈ ts.head?, ¬p t)
    (hus : ∀ u ∈ us.head?, ¬p u) : as = bs ∧ ts = us := by
  induction as generalizing bs with
  | nil =>
      cases bs with
      | nil => exact ⟨rfl, h⟩
      | cons b bs =>
          have hhead : b ∈ ts.head? := by rw [← List.nil_append ts, h]; rfl
          exact absurd (hbs b (by simp)) (hts b hhead)
  | cons a as ih =>
      cases bs with
      | nil =>
          have hhead : a ∈ us.head? := by rw [← List.nil_append us, ← h]; rfl
          exact absurd (has a (by simp)) (hus a hhead)
      | cons b bs =>
          obtain ⟨rfl, hrest⟩ := List.cons.inj h
          have hbs' : ∀ x ∈ bs, p x := fun x hx => hbs x (List.mem_cons_of_mem _ hx)
          obtain ⟨rfl, rfl⟩ := ih hrest (fun x hx => has x (List.mem_cons_of_mem _ hx)) hbs'
          exact ⟨rfl, rfl⟩

/-- What can stand behind a line in a greedy derivation. -/
def Line.EndsBefore (l : Line) (ts : List Token) : Prop :=
  ∀ t ∈ ts.head?, t.kind ≠ .lineBreak ∧ (l.breaks = [] → t.kind.isOrdinary ≠ true)

theorem Line.EndsBefore.not_isOrdinary {l : Line} {ts : List Token} (h : l.EndsBefore ts) :
    ∀ t ∈ (l.breaks ++ ts).head?, ¬t.kind.isOrdinary = true := by
  intro t ht
  cases hbreaks : l.breaks with
  | nil => exact (h t (by simpa [hbreaks] using ht)).2 hbreaks
  | cons b bs =>
      have hb := l.isLineBreak b (by simp [hbreaks])
      obtain rfl : b = t := by simpa [hbreaks] using ht
      simp [hb, TokenKind.isOrdinary]

theorem Line.eq_of_append {l m : Line} {ts us : List Token} (h : l.spelled ++ ts = m.spelled ++ us)
    (hts : l.EndsBefore ts) (hus : m.EndsBefore us) : l = m ∧ ts = us := by
  simp only [spelled, List.append_assoc] at h
  obtain ⟨htokens, h⟩ :=
    Grammar.eq_of_append h l.isOrdinary m.isOrdinary hts.not_isOrdinary hus.not_isOrdinary
  obtain ⟨hbreaks, h⟩ := Grammar.eq_of_append h l.isLineBreak m.isLineBreak
    (fun t ht => (hts t ht).1) fun t ht => (hus t ht).1
  exact ⟨Line.ext htokens hbreaks, h⟩

/-- The tokens behind a list of nodes: what comes first closes the block, or ends the input. -/
def Closes (ts : List Token) : Prop :=
  ∀ t ∈ ts.head?, t.kind = .blockDedent ∨ t.kind = .endOfInput

theorem Fence.closes_cons (f : Fence) (ts : List Token) : Closes (f.closing :: ts) := by
  simp [Closes, f.closes]

theorem Line.endsBefore_fence (l : Line) (f : Fence) (ts : List Token) :
    l.EndsBefore (f.opening :: ts) := by
  simp [EndsBefore, f.opens, TokenKind.isOrdinary]

theorem Line.exists_head (l : Line) (ts : List Token) :
    ∃ t, (l.spelled ++ ts).head? = some t ∧ t.kind.isOrdinary = true := by
  cases htokens : l.tokens with
  | nil => exact absurd htokens l.tokens_ne_nil
  | cons t _ => exact ⟨t, by simp [spelled, htokens], l.isOrdinary t (by simp [htokens])⟩

private theorem kind_ne_of_isOrdinary {k : TokenKind} (h : k.isOrdinary = true) :
    k ≠ .lineBreak ∧ k ≠ .blockOpen := by
  constructor <;> rintro rfl <;> simp [TokenKind.isOrdinary] at h

namespace Nodes

/-- The kind of the first token tells what the first node is. -/
theorem head_spelled (d : Nodes) {ts : List Token} (hts : Closes ts) :
    ∀ t ∈ (d.spelled ++ ts).head?,
      (t.kind.isOrdinary = true ↔ d.BeginsLine) ∧ (t.kind = .blockOpen ↔ d.BeginsBlock) ∧
        t.kind ≠ .lineBreak := by
  intro t ht
  have ofLine (l : Line) (us : List Token) (h : t ∈ (l.spelled ++ us).head?) :
      t.kind.isOrdinary = true ∧ t.kind ≠ .blockOpen ∧ t.kind ≠ .lineBreak := by
    obtain ⟨u, hu, hk⟩ := l.exists_head us
    obtain rfl : u = t := by simpa [hu] using h
    exact ⟨hk, (kind_ne_of_isOrdinary hk).2, (kind_ne_of_isOrdinary hk).1⟩
  cases d with
  | nil => rcases hts t ht with hk | hk <;> simp [hk, TokenKind.isOrdinary, BeginsLine, BeginsBlock]
  | block f children rest =>
      obtain rfl : f.opening = t := by simpa [spelled] using ht
      simp [f.opens, TokenKind.isOrdinary, BeginsLine, BeginsBlock]
  | bare l rest =>
      obtain ⟨hk, hopen, hbreak⟩ := ofLine l (rest.spelled ++ ts) (by simpa [spelled] using ht)
      simp [hk, hopen, hbreak, BeginsLine, BeginsBlock]
  | headed l f body rest =>
      obtain ⟨hk, hopen, hbreak⟩ := ofLine l (f.opening :: (body.spelled ++ f.closing :: rest.spelled) ++ ts)
        (by simpa [spelled] using ht)
      simp [hk, hopen, hbreak, BeginsLine, BeginsBlock]

private theorem spelled_ne_nil {d : Nodes} (h : d.BeginsLine ∨ d.BeginsBlock) : d.spelled ≠ [] := by
  cases d with
  | nil => simp [BeginsLine, BeginsBlock] at h
  | bare l rest => simp [spelled, Line.spelled, l.tokens_ne_nil]
  | headed l f body rest => simp [spelled]
  | block f children rest => simp [spelled]

/-- Derivations of the same tokens begin alike. -/
private theorem begins_iff {d e : Nodes} {ts us : List Token} (hts : Closes ts) (hus : Closes us)
    (h : d.spelled ++ ts = e.spelled ++ us) :
    (d.BeginsLine ↔ e.BeginsLine) ∧ (d.BeginsBlock ↔ e.BeginsBlock) := by
  cases hhead : (d.spelled ++ ts).head? with
  | some t =>
      obtain ⟨hline, hblock, -⟩ := d.head_spelled hts t hhead
      obtain ⟨hline', hblock', -⟩ := e.head_spelled hus t (h ▸ hhead)
      exact ⟨hline.symm.trans hline', hblock.symm.trans hblock'⟩
  | none =>
      have hempty := List.head?_eq_none_iff.mp hhead
      have hd : ¬(d.BeginsLine ∨ d.BeginsBlock) := by
        intro hbegins
        exact spelled_ne_nil hbegins (List.append_eq_nil_iff.mp hempty).1
      have he : ¬(e.BeginsLine ∨ e.BeginsBlock) := by
        intro hbegins
        exact spelled_ne_nil hbegins (List.append_eq_nil_iff.mp (h ▸ hempty)).1
      rw [not_or] at hd he
      exact ⟨iff_of_false hd.1 he.1, iff_of_false hd.2 he.2⟩

theorem Greedy.endsBefore {l : Line} {rest : Nodes} (h : (bare l rest).Greedy) {ts : List Token}
    (hts : Closes ts) : l.EndsBefore (rest.spelled ++ ts) := by
  intro t ht
  obtain ⟨hline, -, hbreak⟩ := rest.head_spelled hts t ht
  exact ⟨hbreak, fun hnone hk => h.1 hnone (hline.mp hk)⟩

/-- Behind a line without a block no block opens. -/
private theorem Greedy.not_fence {l : Line} {rest : Nodes} (h : (bare l rest).Greedy) {ts us : List Token}
    (hts : Closes ts) (f : Fence) : rest.spelled ++ ts ≠ f.opening :: us := by
  intro heq
  obtain ⟨-, hblock, -⟩ := rest.head_spelled hts f.opening (by simp [heq])
  exact h.2.1 (hblock.mp f.opens)

/-- No other greedy derivation spells the same tokens, up to where a block closes. -/
def Alone (d : Nodes) : Prop :=
  ∀ ⦃e : Nodes⦄, e.Greedy → ∀ ⦃ts us : List Token⦄, Closes ts → Closes us →
    d.spelled ++ ts = e.spelled ++ us → d = e ∧ ts = us

/-- A block is compared up to its closing marker, and what is behind it up to the same end. -/
private theorem Alone.block {f g : Fence} {inner inner' rest rest' : Nodes} (hinner : inner.Alone)
    (hrest : rest.Alone) (hi : inner'.Greedy) (hr : rest'.Greedy) {ts us : List Token} (hts : Closes ts)
    (hus : Closes us)
    (h : f.opening :: (inner.spelled ++ f.closing :: (rest.spelled ++ ts)) =
      g.opening :: (inner'.spelled ++ g.closing :: (rest'.spelled ++ us))) :
    f = g ∧ inner = inner' ∧ rest = rest' ∧ ts = us := by
  obtain ⟨hopening, hinside⟩ := List.cons.inj h
  obtain ⟨rfl, hbehind⟩ := hinner hi (f.closes_cons _) (g.closes_cons _) hinside
  obtain ⟨hclosing, hbehind⟩ := List.cons.inj hbehind
  obtain ⟨rfl, rfl⟩ := hrest hr hts hus hbehind
  exact ⟨Fence.ext hopening hclosing, rfl, rfl, rfl⟩

theorem Greedy.alone {d : Nodes} (hd : d.Greedy) : d.Alone := by
  induction d with
  | nil =>
      intro e he ts us hts hus h
      have hbegins := begins_iff hts hus h
      cases e with
      | nil => exact ⟨rfl, h⟩
      | bare | headed | block => simp [BeginsLine, BeginsBlock] at hbegins
  | bare l rest ih =>
      intro e he ts us hts hus h
      have hbegins := begins_iff hts hus h
      cases e with
      | nil | block => simp [BeginsLine, BeginsBlock] at hbegins
      | bare m rest' =>
          simp only [spelled, List.append_assoc] at h
          obtain ⟨rfl, hbehind⟩ := Line.eq_of_append h (hd.endsBefore hts) (he.endsBefore hus)
          obtain ⟨rfl, rfl⟩ := ih hd.2.2 he.2.2 hts hus hbehind
          exact ⟨rfl, rfl⟩
      | headed m f body rest' =>
          simp only [spelled, List.append_assoc, List.cons_append] at h
          obtain ⟨rfl, hbehind⟩ := Line.eq_of_append h (hd.endsBefore hts) (m.endsBefore_fence f _)
          exact absurd hbehind (hd.not_fence hts f)
  | headed l f body rest ihb ih =>
      intro e he ts us hts hus h
      have hbegins := begins_iff hts hus h
      cases e with
      | nil | block => simp [BeginsLine, BeginsBlock] at hbegins
      | bare m rest' =>
          simp only [spelled, List.append_assoc, List.cons_append] at h
          obtain ⟨rfl, hbehind⟩ := Line.eq_of_append h (l.endsBefore_fence f _) (he.endsBefore hus)
          exact absurd hbehind.symm (he.not_fence hus f)
      | headed m g body' rest' =>
          simp only [spelled, List.append_assoc, List.cons_append] at h
          obtain ⟨rfl, hblock⟩ := Line.eq_of_append h (l.endsBefore_fence f _) (m.endsBefore_fence g _)
          obtain ⟨rfl, rfl, rfl, rfl⟩ := (ihb hd.1).block (ih hd.2) he.1 he.2 hts hus hblock
          exact ⟨rfl, rfl⟩
  | block f children rest ihc ih =>
      intro e he ts us hts hus h
      have hbegins := begins_iff hts hus h
      cases e with
      | nil | bare | headed => simp [BeginsLine, BeginsBlock] at hbegins
      | block g children' rest' =>
          simp only [spelled, List.append_assoc, List.cons_append] at h
          obtain ⟨rfl, rfl, rfl, rfl⟩ := (ihc hd.1).block (ih hd.2) he.1 he.2 hts hus h
          exact ⟨rfl, rfl⟩

end Nodes

/-- A list has no more than one greedy derivation. -/
theorem Program.Greedy.eq {p q : Program} (hp : p.Greedy) (hq : q.Greedy) (h : p.spelled = q.spelled) :
    p = q := by
  have closes (r : Program) : Closes [r.final] := by simp [Closes, r.ends]
  have notBreak (r : Program) : ∀ t ∈ (r.nodes.spelled ++ [r.final]).head?, t.kind ≠ .lineBreak :=
    fun t ht => (r.nodes.head_spelled (closes r) t ht).2.2
  obtain ⟨hbreaks, hrest⟩ :=
    eq_of_append h p.isLineBreak q.isLineBreak (notBreak p) (notBreak q)
  obtain ⟨hnodes, hfinal⟩ := Nodes.Greedy.alone hp hq (closes p) (closes q) hrest
  exact Program.ext hbreaks hnodes (List.cons.inj hfinal).1

/-! ### Lines as runs -/

/-- The maximal runs of ordinary tokens in a list. -/
def ordinaryRuns (ts : List Token) : List (List Token) :=
  (ts.splitOnP (!·.kind.isOrdinary)).filter (!·.isEmpty)

theorem ordinaryRuns_cons {t : Token} (ht : t.kind.isOrdinary = false) (ts : List Token) :
    ordinaryRuns (t :: ts) = ordinaryRuns ts := by
  simp [ordinaryRuns, List.splitOnP_cons_eq_if_modifyHead, ht]

theorem ordinaryRuns_breaks {breaks : List Token} (h : ∀ t ∈ breaks, t.kind = .lineBreak)
    (ts : List Token) : ordinaryRuns (breaks ++ ts) = ordinaryRuns ts := by
  induction breaks with
  | nil => rfl
  | cons t breaks ih =>
      have ht : t.kind.isOrdinary = false := by simp [h t (by simp), TokenKind.isOrdinary]
      rw [List.cons_append, ordinaryRuns_cons ht, ih fun u hu => h u (by simp [hu])]

/-- A line is one run. -/
theorem Line.ordinaryRuns_append (l : Line) {t : Token} {ts : List Token} (h : l.EndsBefore (t :: ts)) :
    ordinaryRuns (l.spelled ++ t :: ts) = l.tokens :: ordinaryRuns (t :: ts) := by
  have hrun {sep : Token} (hsep : sep.kind.isOrdinary = false) (us : List Token) :
      ordinaryRuns (l.tokens ++ sep :: us) = l.tokens :: ordinaryRuns us := by
    have htokens : ∀ u ∈ l.tokens, (!u.kind.isOrdinary) = false := fun u hu => by
      simp [l.isOrdinary u hu]
    have hsplit := List.splitOnP_append_cons_of_forall_mem htokens sep (by simp [hsep]) us
    simp [ordinaryRuns, hsplit, l.tokens_ne_nil]
  cases hbreaks : l.breaks with
  | nil =>
      have ht : t.kind.isOrdinary = false := by simpa using (h t (by simp)).2 hbreaks
      rw [spelled, hbreaks, List.append_nil, hrun ht, ordinaryRuns_cons ht]
  | cons b bs =>
      have hb : ∀ u ∈ b :: bs, u.kind = .lineBreak := hbreaks ▸ l.isLineBreak
      have hsep : b.kind.isOrdinary = false := by simp [hb b (by simp), TokenKind.isOrdinary]
      rw [spelled, hbreaks, List.append_assoc, List.cons_append, hrun hsep,
        ordinaryRuns_breaks fun u hu => hb u (by simp [hu])]

theorem Fence.ordinaryRuns_opening (f : Fence) (ts : List Token) :
    ordinaryRuns (f.opening :: ts) = ordinaryRuns ts :=
  ordinaryRuns_cons (by simp [f.opens, TokenKind.isOrdinary]) ts

theorem Fence.ordinaryRuns_closing (f : Fence) (ts : List Token) :
    ordinaryRuns (f.closing :: ts) = ordinaryRuns ts :=
  ordinaryRuns_cons (by simp [f.closes, TokenKind.isOrdinary]) ts

/-- In a greedy derivation the lines are the maximal runs of ordinary tokens. -/
theorem Nodes.Greedy.lines_eq {d : Nodes} (hd : d.Greedy) {t : Token} {ts : List Token}
    (hclose : Closes (t :: ts)) : ordinaryRuns (d.spelled ++ t :: ts) = d.lines ++ ordinaryRuns (t :: ts) := by
  induction d generalizing t ts with
  | nil => rfl
  | bare l rest ih =>
      have hends := hd.endsBefore hclose
      cases hbehind : rest.spelled ++ t :: ts with
      | nil => simp at hbehind
      | cons u us =>
          rw [spelled, List.append_assoc, hbehind, l.ordinaryRuns_append (hbehind ▸ hends), ← hbehind,
            ih hd.2.2 hclose, lines, List.cons_append]
  | headed l f body rest ihb ih =>
      simp only [spelled, List.append_assoc, List.cons_append]
      rw [l.ordinaryRuns_append (l.endsBefore_fence f _), f.ordinaryRuns_opening,
        ihb hd.1 (f.closes_cons _), f.ordinaryRuns_closing, ih hd.2 hclose]
      simp [lines]
  | block f children rest ihc ih =>
      simp only [spelled, List.append_assoc, List.cons_append]
      rw [f.ordinaryRuns_opening, ihc hd.1 (f.closes_cons _), f.ordinaryRuns_closing, ih hd.2 hclose]
      simp [lines]

theorem Program.Greedy.lines_eq {p : Program} (hp : p.Greedy) : p.nodes.lines = ordinaryRuns p.spelled := by
  have hfinal : Closes [p.final] := by simp [Closes, p.ends]
  have hnone : ordinaryRuns [p.final] = [] := by
    rw [ordinaryRuns_cons (by simp [p.ends, TokenKind.isOrdinary])]
    rfl
  rw [spelled, ordinaryRuns_breaks p.isLineBreak, Nodes.Greedy.lines_eq hp hfinal, hnone, List.append_nil]

end LayoutRule.Grammar
