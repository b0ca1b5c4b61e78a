import LayoutRule.Proofs.Tree.Grammar
import LayoutRule.Proofs.Tree.Marks

/-! # Outlines and the block grammar

A token list has an outline exactly if the block grammar derives it. The forest is that of its greedy
derivation: a line is never cut in two, and a block belongs to the line before it. -/

namespace LayoutRule

open Node

namespace Outline

/-! ### What a step can do -/

/-- From one place in an outline to the next, by the kind of the token that is taken. -/
inductive Move (o : Outline) (t : Token) : Outline → Prop where
  | ordinary (hk : t.kind.isOrdinary = true) (tokens : List Token) (siblings : List Node) :
      Move o t ⟨.inLine tokens, siblings, o.enclosing⟩
  | lineBreak (hk : t.kind = .lineBreak) (hready : o.place ≠ .ready) {place : Place}
      (hplace : place ≠ .finished) : Move o t { o with place := place }
  | blockOpen (hk : t.kind = .blockOpen) : Move o t ⟨.ready, [], ⟨o.siblings, o.header⟩ :: o.enclosing⟩
  | blockDedent (hk : t.kind = .blockDedent) {node : OpenNode} {outer : List OpenNode}
      (h : o.enclosing = node :: outer) :
      Move o t ⟨.ready, nodeOf node.header o.settled.reverse :: node.before, outer⟩
  | endOfInput (hk : t.kind = .endOfInput) (h : o.enclosing = []) : Move o t ⟨.finished, o.settled, []⟩

theorem step?_of_finished {o : Outline} (h : o.place = .finished) (t : Token) : o.step? t = none := by
  simp only [step?, takeOrdinary, takeLineBreak, openBlock, closeBlock, finish, h]
  split <;> rfl

theorem move_of_step? {o next : Outline} {t : Token} (h : o.step? t = some next) : Move o t next := by
  have hplace : o.place ≠ .finished := by
    intro hfinished
    simp [step?_of_finished hfinished] at h
  cases hk : t.kind with
  | lineBreak =>
      simp only [step?, hk, takeLineBreak] at h
      split at h
      · obtain rfl := Option.some.inj h
        exact .lineBreak hk (by simp_all) hplace
      · obtain rfl := Option.some.inj h
        exact .lineBreak hk (by simp_all) (by simp)
      · obtain rfl := Option.some.inj h
        exact .lineBreak hk (by simp_all) (by simp)
      · simp at h
      · simp at h
  | blockOpen =>
      simp only [step?, hk, openBlock_eq hplace] at h
      obtain rfl := Option.some.inj h
      exact .blockOpen hk
  | blockDedent =>
      simp only [step?, hk, closeBlock] at h
      split at h
      · exact absurd ‹_› hplace
      · simp at h
      · obtain rfl := Option.some.inj h
        exact .blockDedent hk ‹_›
  | endOfInput =>
      simp only [step?, hk, finish] at h
      split at h
      · exact absurd ‹_› hplace
      · obtain rfl := Option.some.inj h
        exact .endOfInput hk ‹_›
      · simp at h
  | keyword | name | number | string | operator | delimiter =>
      have hordinary : t.kind.isOrdinary = true := by simp [hk, TokenKind.isOrdinary]
      rw [step?_of_isOrdinary o hordinary, takeOrdinary] at h
      split at h
      · obtain rfl := Option.some.inj h
        exact .ordinary hordinary _ _
      · simp at h
      · obtain rfl := Option.some.inj h
        exact .ordinary hordinary _ _

/-! ### Outlines are derived -/

/-- The tokens that are left when `n` blocks are open, from where the innermost block closes. -/
inductive Remainder : ℕ → List Token → Prop where
  | final {t} : t.kind = .endOfInput → Remainder 0 [t]
  | close {n t ts} (nodes : Grammar.Nodes) : t.kind = .blockDedent → Remainder n ts →
      Remainder (n + 1) (t :: (nodes.spelled ++ ts))

/-- The tokens that an outline takes to its end are line breaks, where these can stand, and nodes up to where
the innermost block closes. -/
theorem exists_nodes_of_run {o : Outline} {last : Option Token} {ts : List Token} {forest : List Node}
    (ho : o.place ≠ .finished) (h : o.run last ts = .ok forest) :
    ∃ (breaks : List Token) (nodes : Grammar.Nodes) (behind : List Token),
      ts = breaks ++ (nodes.spelled ++ behind) ∧ (∀ t ∈ breaks, t.kind = .lineBreak) ∧
        (o.place = .ready → breaks = []) ∧ Remainder o.enclosing.length behind := by
  induction ts generalizing o last with
  | nil => cases hplace : o.place <;> simp_all [run]
  | cons t ts ih =>
      cases hstep : o.step? t with
      | none => simp [run, hstep] at h
      | some next =>
          have hnext : next.run (some t) ts = .ok forest := by simpa [run, hstep] using h
          cases move_of_step? hstep with
          | ordinary hk tokens siblings =>
              obtain ⟨breaks, nodes, behind, rfl, hbreaks, -, hbehind⟩ := ih (by simp) hnext
              let line : Grammar.Line :=
                ⟨[t], breaks, by simp, by simpa using hk, hbreaks⟩
              exact ⟨[], .bare line nodes, behind,
                by simp [Grammar.Nodes.spelled, Grammar.Line.spelled, line], by simp, by simp, hbehind⟩
          | lineBreak hk hready hplace =>
              obtain ⟨breaks, nodes, behind, rfl, hbreaks, -, hbehind⟩ := ih hplace hnext
              exact ⟨t :: breaks, nodes, behind, rfl, by simpa [hk] using hbreaks,
                fun hplace => absurd hplace hready, hbehind⟩
          | blockOpen hk =>
              obtain ⟨breaks, nodes, behind, rfl, -, hready, hbehind⟩ := ih (by simp) hnext
              obtain rfl := hready rfl
              cases hbehind with
              | @close _ closing behind rest hclosing hbehind =>
                  exact ⟨[], .block ⟨t, closing, hk, hclosing⟩ nodes rest, behind,
                    by simp [Grammar.Nodes.spelled], by simp, by simp, hbehind⟩
          | blockDedent hk henclosing =>
              obtain ⟨breaks, nodes, behind, rfl, -, hready, hbehind⟩ := ih (by simp) hnext
              obtain rfl := hready rfl
              refine ⟨[], .nil, _, rfl, by simp, by simp, ?_⟩
              rw [henclosing]
              exact .close nodes hk hbehind
          | endOfInput hk henclosing =>
              cases ts with
              | cons u us => simp [run, step?_of_finished] at hnext
              | nil =>
                  refine ⟨[], .nil, _, rfl, by simp, by simp, ?_⟩
                  rw [henclosing]
                  exact .final hk

end Outline

/-- What has an outline has a derivation. -/
theorem exists_program_of_outline {tokens : List Token} {forest : List Node}
    (h : outline tokens = .ok forest) : ∃ p : Grammar.Program, p.spelled = tokens := by
  obtain ⟨breaks, nodes, behind, rfl, hbreaks, -, hbehind⟩ :=
    Outline.exists_nodes_of_run (o := .start) (by simp [Outline.start]) h
  cases hbehind with
  | final hk => exact ⟨⟨breaks, nodes, _, hbreaks, hk⟩, rfl⟩

/-! ### The outline of a greedy derivation -/

namespace Outline

open Grammar

/-- A place at which the first node of a derivation can begin and is not drawn into what stands before. -/
def Admits (o : Outline) (d : Nodes) : Prop :=
  o.place ≠ .finished ∧ (d.BeginsLine → ∀ tokens, o.place ≠ .inLine tokens) ∧
    (d.BeginsBlock → o.header = [] ∧ o.settled = o.siblings)

@[simp] theorem settled_ready (siblings : List Node) (enclosing : List OpenNode) :
    settled ⟨.ready, siblings, enclosing⟩ = siblings := rfl

theorem admits_ready (siblings : List Node) (enclosing : List OpenNode) (d : Nodes) :
    Admits ⟨.ready, siblings, enclosing⟩ d := by
  simp [Admits, header]

/-- The outline behind a line and its line breaks. -/
def behind (o : Outline) (l : Line) : Outline :=
  ⟨if l.breaks = [] then .inLine l.tokens.reverse else .behindLine l.tokens.reverse, o.settled, o.enclosing⟩

@[simp] theorem siblings_behind (o : Outline) (l : Line) : (o.behind l).siblings = o.settled := rfl

@[simp] theorem enclosing_behind (o : Outline) (l : Line) : (o.behind l).enclosing = o.enclosing := rfl

theorem place_behind_ne_finished (o : Outline) (l : Line) : (o.behind l).place ≠ .finished := by
  unfold behind
  split <;> simp

@[simp] theorem header_behind (o : Outline) (l : Line) : (o.behind l).header = l.tokens := by
  by_cases h : l.breaks = [] <;> simp [behind, header, h]

@[simp] theorem settled_behind (o : Outline) (l : Line) :
    (o.behind l).settled = .statement l.tokens [] :: o.settled := by
  by_cases h : l.breaks = [] <;> simp [behind, settled, h]

private theorem takes_breaks {o : Outline} {tokens breaks : List Token}
    (hplace : o.place = .inLine tokens ∨ o.place = .behindLine tokens)
    (h : ∀ t ∈ breaks, t.kind = .lineBreak) :
    Takes o breaks (if breaks = [] then o else { o with place := .behindLine tokens }) := by
  induction breaks generalizing o with
  | nil => exact .nil
  | cons t breaks ih =>
      have hstep : o.step? t = some { o with place := .behindLine tokens } := by
        rcases hplace with hplace | hplace <;> simp [step?, h t (by simp), takeLineBreak, hplace]
      have hrest := ih (o := { o with place := .behindLine tokens }) (Or.inr rfl)
        fun u hu => h u (by simp [hu])
      simpa using Takes.cons hstep hrest

/-- A line is taken together with its line breaks. -/
theorem takes_spelled_line {o : Outline} (ho : o.BeginsLine) (l : Line) : Takes o l.spelled (o.behind l) := by
  cases htokens : l.tokens with
  | nil => exact absurd htokens l.tokens_ne_nil
  | cons t ts =>
      have hordinary : ∀ u ∈ t :: ts, u.kind.isOrdinary = true := htokens ▸ l.isOrdinary
      have hline := takes_line ho hordinary
      have hbreaks := hline.append (takes_breaks (Or.inl rfl) l.isLineBreak)
      rw [Line.spelled, htokens]
      convert hbreaks using 1
      by_cases h : l.breaks = [] <;> simp [behind, h, htokens]

theorem nodeOf_line (l : Line) (nodes : List Node) : nodeOf l.tokens nodes = .statement l.tokens nodes := by
  cases htokens : l.tokens with
  | nil => exact absurd htokens l.tokens_ne_nil
  | cons => rfl

/-- From wherever the derivation can begin, its tokens are taken and its nodes added. -/
def Follows (d : Nodes) : Prop :=
  ∀ ⦃o : Outline⦄, o.Admits d → ∃ o', Takes o d.spelled o' ∧ o'.place ≠ .finished ∧
    o'.settled = d.forest.reverse ++ o.settled ∧ o'.enclosing = o.enclosing

/-- A block is taken under the line before it, or by itself. -/
theorem takes_block {o o' : Outline} (ho : o.place ≠ .finished) {opening closing : Token}
    (hopen : opening.kind = .blockOpen) (hclose : closing.kind = .blockDedent) {ts : List Token}
    (htakes : Takes ⟨.ready, [], ⟨o.siblings, o.header⟩ :: o.enclosing⟩ ts o') {nodes : List Node}
    (hsettled : o'.settled = nodes.reverse) (henclosing : o'.enclosing = ⟨o.siblings, o.header⟩ :: o.enclosing)
    (hplace : o'.place ≠ .finished) :
    Takes o (opening :: (ts ++ [closing])) ⟨.ready, nodeOf o.header nodes :: o.siblings, o.enclosing⟩ := by
  have hopening : o.step? opening = some ⟨.ready, [], ⟨o.siblings, o.header⟩ :: o.enclosing⟩ := by
    simp [step?, hopen, openBlock_eq ho]
  have hclosing : o'.step? closing = some ⟨.ready, nodeOf o.header nodes :: o.siblings, o.enclosing⟩ := by
    simp only [step?, hclose, closeBlock, henclosing, hsettled, List.reverse_reverse]
  exact .cons hopening (htakes.append (.cons hclosing .nil))

private theorem Follows.takes_fence {inner : Nodes} (h : Follows inner) {o : Outline}
    (ho : o.place ≠ .finished) (f : Fence) :
    Takes o (f.opening :: (inner.spelled ++ [f.closing]))
      ⟨.ready, nodeOf o.header inner.forest :: o.siblings, o.enclosing⟩ := by
  obtain ⟨o', htakes, hplace, hsettled, henclosing⟩ :=
    h (admits_ready [] (⟨o.siblings, o.header⟩ :: o.enclosing) inner)
  exact takes_block ho f.opens f.closes htakes (by simpa using hsettled) henclosing hplace

theorem follows_of_greedy {d : Nodes} (hd : d.Greedy) : Follows d := by
  induction d with
  | nil => exact fun o ho => ⟨o, .nil, ho.1, rfl, rfl⟩
  | bare l rest ih =>
      intro o ho
      have hline := takes_spelled_line ⟨ho.1, ho.2.1 trivial⟩ l
      have hrest : (o.behind l).Admits rest := by
        refine ⟨o.place_behind_ne_finished l, ?_, fun hblock => absurd hblock hd.2.1⟩
        intro hbegins tokens
        have hbreaks : l.breaks ≠ [] := fun hnone => hd.1 hnone hbegins
        simp [behind, hbreaks]
      obtain ⟨o', htakes, hplace, hsettled, henclosing⟩ := ih hd.2.2 hrest
      exact ⟨o', hline.append htakes, hplace, by simp [hsettled, Nodes.forest], henclosing⟩
  | headed l f body rest ihb ih =>
      intro o ho
      have hline := takes_spelled_line ⟨ho.1, ho.2.1 trivial⟩ l
      have hblock := (ihb hd.1).takes_fence (o.place_behind_ne_finished l) f
      obtain ⟨o', htakes, hplace, hsettled, henclosing⟩ := ih hd.2 (admits_ready _ _ rest)
      refine ⟨o', ?_, hplace, ?_, henclosing⟩
      · have hall := hline.append (hblock.append htakes)
        simpa [Nodes.spelled] using hall
      · simp [hsettled, Nodes.forest, nodeOf_line]
  | block f children rest ihc ih =>
      intro o ho
      obtain ⟨hheader, hsiblings⟩ := ho.2.2 trivial
      have hblock := (ihc hd.1).takes_fence ho.1 f
      obtain ⟨o', htakes, hplace, hsettled, henclosing⟩ := ih hd.2 (admits_ready _ _ rest)
      refine ⟨o', ?_, hplace, ?_, henclosing⟩
      · have hall := hblock.append htakes
        simpa [Nodes.spelled] using hall
      · simp [hsettled, Nodes.forest, hsiblings, hheader, nodeOf]

/-- At the end of the input outside every block the nodes read so far are the forest. -/
theorem run_final {o : Outline} (ho : o.place ≠ .finished) (henclosing : o.enclosing = []) {t : Token}
    (hk : t.kind = .endOfInput) (last : Option Token) : o.run last [t] = .ok o.settled.reverse := by
  have hstep : o.step? t = some ⟨.finished, o.settled, []⟩ := by
    simp only [step?, hk, finish, henclosing]
  simp [run, hstep]

theorem takes_leading {breaks : List Token} (h : ∀ t ∈ breaks, t.kind = .lineBreak) :
    Takes start breaks start := by
  induction breaks with
  | nil => exact .nil
  | cons t breaks ih =>
      have hstep : start.step? t = some start := by simp [step?, h t (by simp), takeLineBreak, start]
      exact .cons hstep (ih fun u hu => h u (by simp [hu]))

end Outline

open Outline in
/-- The outline of a greedy derivation is its forest. -/
theorem outline_spelled {p : Grammar.Program} (hp : p.Greedy) : outline p.spelled = .ok p.forest := by
  have hstart : start.Admits p.nodes := by simp [Admits, start, header, settled]
  obtain ⟨o, hnodes, hplace, hsettled, henclosing⟩ := follows_of_greedy hp hstart
  obtain ⟨last, hrun⟩ := ((takes_leading p.isLineBreak).append hnodes).run none [p.final]
  rw [List.append_assoc, run_final hplace henclosing p.ends last, hsettled] at hrun
  rw [outline, Grammar.Program.spelled, hrun]
  simp [Grammar.Program.forest, start, settled]

/-! ### The lines of a forest -/

@[simp] theorem Node.children_block (children : List Node) : (block children).children = children := rfl

/-- The statements of a derivation have its lines. -/
theorem Grammar.Nodes.statements_forest (d : Grammar.Nodes) :
    (statements d.forest).map Prod.snd = d.lines := by
  have hwalk (a : List ℕ) (i : ℕ) :
      (walkList a i d.forest).filterMap (fun p => p.2.tokens?) = d.lines := by
    induction d generalizing a i with
    | nil => rfl
    | bare l rest ih => simp [forest, walkList_cons, lines, ih, walkList]
    | headed l f body rest ihb ih => simp [forest, walkList_cons, lines, ihb, ih]
    | block f children rest ihc ih =>
        rw [forest, walkList_cons, List.cons_append, List.filterMap_cons_none rfl, List.filterMap_append,
          children_block, ihc, ih, lines]
  rw [← hwalk [] 0, statements, List.map_filterMap, walkForest]
  congr 1
  funext p
  simp [Option.map_map, Function.comp_def]

end LayoutRule
