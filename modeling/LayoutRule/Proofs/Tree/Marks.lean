import LayoutRule.Proofs.Tree.Walk
import LayoutRule.Tree.Outline

/-! # Marks

A mark is the depth of a node with the tokens of its line, and a forest is laid out by its marks from the
top down. While an outline is read, line breaks and the markers that close blocks leave the marks as they
are; a line, or a block by itself, adds one. -/

namespace LayoutRule

namespace Node

@[simp] theorem tokens?_statement (tokens : List Token) (body : List Node) :
    (statement tokens body).tokens? = some tokens := rfl

@[simp] theorem children_statement (tokens : List Token) (body : List Node) :
    (statement tokens body).children = body := rfl

/-- The nodes of a forest from the top down, each with its depth and the tokens of a statement. -/
def marks (depth : ℕ) : List Node → List (ℕ × Option (List Token))
  | [] => []
  | .statement tokens body :: ns => (depth, some tokens) :: marks (depth + 1) body ++ marks depth ns
  | .block children :: ns => (depth, none) :: marks (depth + 1) children ++ marks depth ns

@[simp] theorem marks_nil (depth : ℕ) : marks depth [] = [] := by simp [marks]

@[simp] theorem marks_cons (depth : ℕ) (n : Node) (ns : List Node) :
    marks depth (n :: ns) = (depth, n.tokens?) :: marks (depth + 1) n.children ++ marks depth ns := by
  cases n <;> simp [marks, tokens?, children]

@[simp] theorem marks_append (depth : ℕ) (ms ns : List Node) :
    marks depth (ms ++ ns) = marks depth ms ++ marks depth ns := by
  induction ms with
  | nil => simp
  | cons m ms ih => simp [ih]

/-- Depths are lengths of addresses. -/
theorem map_walkList (a : List ℕ) (i : ℕ) (ns : List Node) :
    (walkList a i ns).map (fun p => (p.1.length, p.2.tokens?)) = marks (a.length + 1) ns := by
  induction ns using forest_induction generalizing a i with
  | nil => simp [walkList]
  | cons n ns ihn ihns =>
      rw [walkList_cons, List.map_append, List.map_cons, ihn, ihns]
      simp

theorem map_walkForest (forest : List Node) :
    (walkForest forest).map (fun p => (p.1.length, p.2.tokens?)) = marks 1 forest :=
  map_walkList [] 0 forest

/-- The node that a mark stands for. -/
theorem visit_of_mark {forest : List Node} {k depth : ℕ} {tokens : Option (List Token)}
    (h : (marks 1 forest)[k]? = some (depth, tokens)) :
    ∃ n, (walkForest forest)[k]? = some (addressAt forest k, n) ∧
      (addressAt forest k).length = depth ∧ n.tokens? = tokens := by
  rw [← map_walkForest, List.getElem?_map] at h
  obtain ⟨⟨a, n⟩, hvisit, hmark⟩ := Option.map_eq_some_iff.mp h
  obtain ⟨hdepth, htokens⟩ := Prod.mk.inj hmark
  have haddress : addressAt forest k = a := by simp [addressAt, hvisit]
  exact ⟨n, haddress ▸ hvisit, haddress ▸ hdepth, htokens⟩

end Node

namespace Outline

open Node

/-- From one place in an outline to another, all of the tokens `ts` are taken. -/
inductive Takes : Outline → List Token → Outline → Prop where
  | nil {o} : Takes o [] o
  | cons {o t next ts o'} : o.step? t = some next → Takes next ts o' → Takes o (t :: ts) o'

namespace Takes

theorem append {o o' o'' : Outline} {ts us : List Token} (h : Takes o ts o') (h' : Takes o' us o'') :
    Takes o (ts ++ us) o'' := by
  induction h with
  | nil => exact h'
  | cons hstep _ ih => exact .cons hstep (ih h')

theorem run {o o' : Outline} {ts : List Token} (h : Takes o ts o') (last : Option Token) (us : List Token) :
    ∃ last', o.run last (ts ++ us) = o'.run last' us := by
  induction h generalizing last with
  | nil => exact ⟨last, rfl⟩
  | @cons o t next ts o' hstep _ ih =>
      obtain ⟨last', hrest⟩ := ih (some t)
      exact ⟨last', by rw [List.cons_append, Outline.run, hstep]; exact hrest⟩

end Takes

/-! ### Marks of an outline -/

/-- The marks of the open nodes and of all that stands before them. -/
def openMarks : List OpenNode → List (ℕ × Option (List Token))
  | [] => []
  | ⟨before, header⟩ :: outer =>
      openMarks outer ++ Node.marks (outer.length + 1) before.reverse ++
        [(outer.length + 1, (nodeOf header []).tokens?)]

/-- The marks of what has been read. -/
def marks (o : Outline) : List (ℕ × Option (List Token)) :=
  openMarks o.enclosing ++ Node.marks (o.enclosing.length + 1) o.settled.reverse

@[simp] theorem children_nodeOf (header : List Token) (ns : List Node) :
    (nodeOf header ns).children = ns := by
  cases header <;> rfl

/-- Whether a node is a statement hangs on the line above its block alone. -/
theorem tokens?_nodeOf (header : List Token) (ns : List Node) :
    (nodeOf header ns).tokens? = if header = [] then none else some header := by
  cases header <;> rfl

/-! ### Lines -/

theorem step?_of_isOrdinary (o : Outline) {t : Token} (h : t.kind.isOrdinary = true) :
    o.step? t = o.takeOrdinary t := by
  unfold step?
  split <;> simp_all [TokenKind.isOrdinary]

/-- Whether a line can begin. -/
def BeginsLine (o : Outline) : Prop := o.place ≠ .finished ∧ ∀ tokens, o.place ≠ .inLine tokens

private theorem takes_inLine (tokens : List Token) (siblings : List Node) (enclosing : List OpenNode)
    {rest : List Token} (h : ∀ t ∈ rest, t.kind.isOrdinary = true) :
    Takes ⟨.inLine tokens, siblings, enclosing⟩ rest
      ⟨.inLine (rest.reverse ++ tokens), siblings, enclosing⟩ := by
  induction rest generalizing tokens with
  | nil => exact .nil
  | cons t rest ih =>
      refine .cons (step?_of_isOrdinary _ (h t (by simp))) ?_
      simpa using ih (t :: tokens) fun u hu => h u (by simp [hu])

theorem takes_line {o : Outline} (ho : o.BeginsLine) {first : Token} {rest : List Token}
    (h : ∀ t ∈ first :: rest, t.kind.isOrdinary = true) :
    Takes o (first :: rest) ⟨.inLine (first :: rest).reverse, o.settled, o.enclosing⟩ := by
  have hfirst : o.step? first = some ⟨.inLine [first], o.settled, o.enclosing⟩ := by
    rw [step?_of_isOrdinary o (h first (by simp)), takeOrdinary]
    split
    · exact absurd ‹_› (ho.2 _)
    · exact absurd ‹_› ho.1
    · rfl
  refine .cons hfirst ?_
  simpa using takes_inLine [first] o.settled o.enclosing fun t ht => h t (by simp [ht])

theorem marks_line (o : Outline) (tokens : List Token) :
    marks ⟨.inLine tokens.reverse, o.settled, o.enclosing⟩ =
      o.marks ++ [(o.enclosing.length + 1, some tokens)] := by
  have hsettled : settled ⟨.inLine tokens.reverse, o.settled, o.enclosing⟩ =
      .statement tokens [] :: o.settled := by simp [settled]
  simp [marks, hsettled]

/-! ### Blocks -/

theorem openBlock_eq {o : Outline} (h : o.place ≠ .finished) :
    o.openBlock = some ⟨.ready, [], ⟨o.siblings, o.header⟩ :: o.enclosing⟩ := by
  simp only [openBlock]

/-- A block that opens by itself adds its mark. -/
theorem marks_openBlock_of_leading {o : Outline} (h : o.place = .leading) :
    marks ⟨.ready, [], ⟨o.siblings, o.header⟩ :: o.enclosing⟩ =
      o.marks ++ [(o.enclosing.length + 1, none)] := by
  simp [marks, settled, header, h, openMarks, tokens?_nodeOf]

/-- A block that opens under a line changes no mark. -/
theorem marks_openBlock_of_behindLine {o : Outline} {tokens : List Token} (hne : tokens ≠ [])
    (h : o.place = .behindLine tokens) :
    marks ⟨.ready, [], ⟨o.siblings, o.header⟩ :: o.enclosing⟩ = o.marks := by
  simp [marks, settled, header, h, openMarks, tokens?_nodeOf, hne]

/-- Closing a block changes no mark. -/
theorem closeBlock_eq {o : Outline} {node : OpenNode} {outer : List OpenNode}
    (hplace : o.place ≠ .finished) (h : o.enclosing = node :: outer) :
    ∃ siblings, o.closeBlock = some ⟨.ready, siblings, outer⟩ ∧
      marks ⟨.ready, siblings, outer⟩ = o.marks := by
  refine ⟨nodeOf node.header o.settled.reverse :: node.before, ?_, ?_⟩
  · simp only [closeBlock, h]
  · have hsettled : settled ⟨.ready, nodeOf node.header o.settled.reverse :: node.before, outer⟩ =
        nodeOf node.header o.settled.reverse :: node.before := rfl
    simp [marks, hsettled, h, openMarks, tokens?_nodeOf]

end Outline

end LayoutRule
