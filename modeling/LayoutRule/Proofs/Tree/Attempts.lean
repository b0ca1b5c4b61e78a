import LayoutRule.Proofs.Tree.Choice
import LayoutRule.Proofs.Tree.Recognition

/-! # Outlines follow the ordered choice

An outline never goes back, and yet it takes the same nodes as the rules of the grammar, tried in their order.
Where a block breaks off inside, the rules drop it and try it again by itself, where it breaks off at the same
token: the furthest miss is the place at which the outline breaks off. -/

namespace LayoutRule

namespace Outline

/-- The outline takes the tokens in front of `far` and cannot go on from there. -/
def BreaksOff (o : Outline) (ts far : List Token) : Prop :=
  ∃ before o', ts = before ++ far ∧ Takes o before o' ∧ (∀ t ∈ far.head?, o'.step? t = none) ∧
    (far = [] → o'.place ≠ .finished)

theorem Takes.breaksOff {o o' : Outline} {before ts far : List Token} (h : Takes o before o')
    (hbreaks : o'.BreaksOff ts far) : o.BreaksOff (before ++ ts) far := by
  obtain ⟨later, o'', rfl, htakes, hrest⟩ := hbreaks
  exact ⟨before ++ later, o'', (List.append_assoc _ _ _).symm, h.append htakes, hrest⟩

/-- The error in front of `far`: the token that cannot be taken, or the place of the last token of all. -/
def errorAt (last : Option Token) : List Token → OutlineError
  | t :: _ => .unexpectedToken t
  | [] => last.elim (.unexpectedEnd 1 0) fun t => .unexpectedEnd t.line t.column

theorem BreaksOff.run {o : Outline} {ts far : List Token} (h : o.BreaksOff ts far) (last : Option Token) :
    o.run last ts = .error (errorAt (ts.getLast? <|> last) far) := by
  obtain ⟨before, o', rfl, htakes, hnone, hplace⟩ := h
  induction htakes generalizing last with
  | nil =>
      cases far with
      | nil => simp [Outline.run, hplace, errorAt]
      | cons t far => simp [Outline.run, hnone t (by simp), errorAt]
  | @cons o t next ts o' hstep _ ih =>
      have hrun : o.run last (t :: ts ++ far) = next.run (some t) (ts ++ far) := by simp [Outline.run, hstep]
      rw [hrun, ih (some t) hnone hplace]
      cases far with
      | nil => cases ts <;> simp [List.getLast?_cons, errorAt]
      | cons => rfl

/-- A place at which the list begins with a node of its own. -/
structure Fresh (o : Outline) (ts : List Token) : Prop where
  place_ne : o.place ≠ .finished
  line : ∀ t ∈ ts.head?, t.kind.isOrdinary = true → ∀ tokens, o.place ≠ .inLine tokens
  block : ∀ t ∈ ts.head?, t.kind = .blockOpen → o.header = [] ∧ o.settled = o.siblings

theorem fresh_ready (siblings : List Node) (enclosing : List OpenNode) (ts : List Token) :
    Fresh ⟨.ready, siblings, enclosing⟩ ts where
  place_ne := by simp
  line := by simp
  block := by simp [header]

theorem fresh_behind (o : Outline) {l : Grammar.Line} {ts : List Token} (hl : l.EndsBefore ts)
    (hopen : ∀ t ∈ ts.head?, t.kind ≠ .blockOpen) : (o.behind l).Fresh ts where
  place_ne := o.place_behind_ne_finished l
  line := by
    intro t ht hk tokens
    have hbreaks : l.breaks ≠ [] := fun hnone => (hl t ht).2 hnone hk
    simp [behind, hbreaks]
  block := fun t ht hk => absurd hk (hopen t ht)

end Outline

open Node Outline

/-! ### Blocks -/

/-- What the nodes of a block come to, beside the outlines that can begin with them. -/
inductive NodesFollow (ts : List Token) : Attempt (List Node) → Prop where
  | complete {nodes before rest misses} (hts : ts = before ++ rest)
      (hrest : ∀ t ∈ rest.head?, t.kind.isOrdinary = false ∧ t.kind ≠ .blockOpen)
      (hfar : Furthest misses rest)
      (htakes : ∀ o : Outline, o.Fresh ts → ∃ o', Takes o before o' ∧ o'.place ≠ .finished ∧
        o'.settled = nodes.reverse ++ o.settled ∧ o'.enclosing = o.enclosing ∧
        ∀ t ∈ rest.head?, t.kind = .lineBreak → before = [] ∨ o'.place = .ready) :
      NodesFollow ts ⟨some (nodes, rest), misses⟩
  | stuck {nodes opening rest far misses} (hopen : opening.kind = .blockOpen) (hrest : opening :: rest <:+ ts)
      (hfar : Furthest misses far) (hsuffix : far <:+ opening :: rest)
      (hbreaks : ∀ o : Outline, o.Fresh ts → o.BreaksOff ts far) :
      NodesFollow ts ⟨some (nodes, opening :: rest), misses⟩

/-- What a block comes to, beside the outlines that can open it. -/
inductive BlockFollows (ts : List Token) : Attempt (List Node) → Prop where
  | closed {nodes before rest misses} (hts : ts = before ++ rest) (hbefore : before ≠ [])
      (hmisses : ∀ miss ∈ misses, rest <:+ miss)
      (htakes : ∀ o : Outline, o.place ≠ .finished →
        Takes o before ⟨.ready, nodeOf o.header nodes :: o.siblings, o.enclosing⟩) :
      BlockFollows ts ⟨some (nodes, rest), misses⟩
  | broken {far misses} (hfar : Furthest misses far) (hsuffix : far <:+ ts)
      (hbreaks : ∀ o : Outline, o.place ≠ .finished → o.BreaksOff ts far) :
      BlockFollows ts ⟨none, misses⟩

/-- Where nodes end, an outline can only close the block around them, or end outside every block. -/
private theorem step?_eq_none {o : Outline} {t : Token} (ht : t.kind.isOrdinary = false ∧ t.kind ≠ .blockOpen)
    (hclose : t.kind = .blockDedent → o.enclosing = []) (hend : t.kind = .endOfInput → o.enclosing ≠ [])
    (hbreak : t.kind = .lineBreak → o.place = .ready) : o.step? t = none := by
  cases hk : t.kind with
  | lineBreak => simp [step?, hk, takeLineBreak, hbreak hk]
  | endOfInput => cases hplace : o.place <;> cases henclosing : o.enclosing <;> simp_all [step?, finish]
  | blockOpen => exact absurd hk ht.2
  | blockDedent => cases hplace : o.place <;> simp [step?, hk, closeBlock, hplace, hclose hk]
  | keyword | name | number | string | operator | delimiter => simp [hk, TokenKind.isOrdinary] at ht

theorem BlockFollows.of_nodes {opening : Token} {ts : List Token} (hopen : opening.kind = .blockOpen)
    (h : NodesFollow ts (Rule.node.many ts)) :
    BlockFollows (opening :: ts) (Rule.node.block (opening :: ts)) := by
  have hopening {o : Outline} (ho : o.place ≠ .finished) :
      Takes o [opening] ⟨.ready, [], ⟨o.siblings, o.header⟩ :: o.enclosing⟩ :=
    .cons (by simp [step?, hopen, openBlock_eq ho]) .nil
  generalize hnodes : Rule.node.many ts = attempt at h
  cases h with
  | @complete nodes before rest misses hts hrest hfar htakes =>
      rcases kind_head_cases rest .blockDedent with ⟨closing, us, rfl, hclosing⟩ | hnone
      · rw [Rule.block_of_closing hopen hclosing hnodes]
        have hall : opening :: ts = opening :: (before ++ [closing]) ++ us := by simp [hts]
        refine .closed hall (by simp) ?_ ?_
        · exact fun miss hmiss => (List.suffix_cons closing us).trans (hfar.isSuffix miss hmiss)
        · intro o ho
          obtain ⟨o', hinside, hplace, hsettled, henclosing, -⟩ := htakes _ (fresh_ready _ _ ts)
          exact takes_block ho hopen hclosing hinside (by simpa using hsettled) henclosing hplace
      · -- the marker that closes the block is all that could follow
        rw [Rule.block_of_not_closing hopen hnodes hnone]
        refine .broken (hfar.append_singleton List.suffix_rfl) ⟨opening :: before, by simp [hts]⟩ fun o ho => ?_
        obtain ⟨o', hinside, hplace, -, henclosing, hbreak⟩ := htakes _ (fresh_ready _ _ ts)
        refine ⟨opening :: before, o', by simp [hts], (hopening ho).append hinside, fun t ht => ?_,
          fun _ => hplace⟩
        refine step?_eq_none (hrest t ht) (fun hk => absurd hk (hnone t ht)) (by simp [henclosing])
          fun hk => ?_
        rcases hbreak t ht hk with rfl | hready
        · cases hinside
          rfl
        · exact hready
  | @stuck nodes inner rest far misses hinner hrest hfar hsuffix hbreaks =>
      rw [Rule.block_of_not_closing hopen hnodes (by simp [hinner])]
      refine .broken (hfar.append_right (by simpa using hsuffix))
        ((hsuffix.trans hrest).trans (List.suffix_cons opening ts)) fun o ho => ?_
      exact (hopening ho).breaksOff (hbreaks _ (fresh_ready _ _ ts))

/-! ### Nodes -/

/-- A node is taken, and the nodes behind it follow. -/
private theorem NodesFollow.cons {ts before us : List Token} {n : Node} {misses : List (List Token)}
    (hnode : Rule.node ts = ⟨some (n, us), misses⟩) (hts : ts = before ++ us) (hbefore : before ≠ [])
    (hmisses : ∀ miss ∈ misses, us <:+ miss)
    (hstep : ∀ o : Outline, o.Fresh ts → ∃ o', Takes o before o' ∧ o'.Fresh us ∧ o'.settled = n :: o.settled ∧
      o'.enclosing = o.enclosing ∧ ∀ t ∈ us.head?, t.kind = .lineBreak → o'.place = .ready)
    (h : NodesFollow us (Rule.node.many us)) : NodesFollow ts (Rule.node.many ts) := by
  have hless : us.length < ts.length := by
    have hlength := List.length_pos_of_ne_nil hbefore
    rw [hts, List.length_append]
    omega
  generalize hnodes : Rule.node.many us = attempt at h
  cases h with
  | @complete nodes later rest more hus hrest hfar htakes =>
      have hsuffix : rest <:+ us := ⟨later, hus.symm⟩
      rw [Rule.many_eq_of_some hnode hless hnodes]
      have hall : ts = before ++ later ++ rest := by simp [hts, hus]
      refine .complete hall hrest
        (hfar.append_left fun miss hmiss => hsuffix.trans (hmisses miss hmiss)) fun o ho => ?_
      obtain ⟨o', hbegin, hfresh, hsettled, henclosing, hbreak⟩ := hstep o ho
      obtain ⟨o'', hlater, hplace, hsettled', henclosing', hbreak'⟩ := htakes o' hfresh
      refine ⟨o'', hbegin.append hlater, hplace, by simp [hsettled, hsettled'],
        henclosing'.trans henclosing, ?_⟩
      intro t ht hk
      rcases hbreak' t ht hk with rfl | hready
      · cases hlater
        exact Or.inr (hbreak t (hus ▸ ht) hk)
      · exact Or.inr hready
  | @stuck nodes opening rest far more hopen hrest hfar hsuffix hbreaks =>
      rw [Rule.many_eq_of_some hnode hless hnodes]
      refine .stuck hopen (hrest.trans ⟨before, hts.symm⟩)
        (hfar.append_left fun miss hmiss => (hsuffix.trans hrest).trans (hmisses miss hmiss)) hsuffix
        fun o ho => ?_
      obtain ⟨o', hbegin, hfresh, -⟩ := hstep o ho
      exact hts ▸ hbegin.breaksOff (hbreaks o' hfresh)

theorem Outline.Fresh.beginsLine {o : Outline} {l : Grammar.Line} {ts : List Token}
    (h : o.Fresh (l.spelled ++ ts)) : o.BeginsLine := by
  obtain ⟨t, ht, hk⟩ := l.exists_head ts
  exact ⟨h.place_ne, h.line t ht hk⟩

/-- A line with the block behind it is taken as one node. -/
private theorem takes_statement {o : Outline} {l : Grammar.Line} {ts before : List Token} {nodes : List Node}
    (ho : o.Fresh (l.spelled ++ ts))
    (htakes : ∀ o : Outline, o.place ≠ .finished →
      Takes o before ⟨.ready, nodeOf o.header nodes :: o.siblings, o.enclosing⟩) :
    Takes o (l.spelled ++ before) ⟨.ready, .statement l.tokens nodes :: o.settled, o.enclosing⟩ := by
  have hblock := htakes _ (o.place_behind_ne_finished l)
  rw [header_behind, nodeOf_line] at hblock
  exact (takes_spelled_line ho.beginsLine l).append hblock

private theorem nodesFollow_line {l : Grammar.Line} {ts : List Token} (hl : l.EndsBefore ts)
    (ih : ∀ us : List Token, us.length < (l.spelled ++ ts).length → NodesFollow us (Rule.node.many us)) :
    NodesFollow (l.spelled ++ ts) (Rule.node.many (l.spelled ++ ts)) := by
  have hline : l.spelled ≠ [] := by simp [Grammar.Line.spelled, l.tokens_ne_nil]
  have hlength := List.length_pos_of_ne_nil hline
  have hbreaks : ts <:+ l.breaks ++ ts := List.suffix_append _ _
  have hnode := Rule.node_line hl
  rcases kind_head_cases ts .blockOpen with ⟨t, us, rfl, ht⟩ | hhead
  · have hblock := BlockFollows.of_nodes ht (ih us (by simp; omega))
    generalize hattempt : Rule.node.block (t :: us) = attempt at hblock hnode
    cases hblock with
    | @closed nodes before rest misses hts hbefore hmisses htakes =>
        have hrest : rest <:+ t :: us := ⟨before, hts.symm⟩
        have hall : l.spelled ++ t :: us = l.spelled ++ before ++ rest := by simp [hts]
        refine NodesFollow.cons hnode hall (by simp [hbefore]) ?_ ?_ (ih rest ?_)
        · simp only [List.forall_mem_cons]
          exact ⟨hrest.trans hbreaks, hrest, hmisses⟩
        · intro o ho
          exact ⟨_, takes_statement ho htakes, fresh_ready _ _ rest, rfl, rfl, fun _ _ _ => rfl⟩
        · have hshorter := hrest.length_le
          rw [List.length_append]
          omega
    | @broken far misses hfar hsuffix hoff =>
        -- the statement goes without the block, which is tried again by itself
        have hhead : ∀ u ∈ (t :: us).head?, u.kind.isOrdinary = false := by simp [ht, TokenKind.isOrdinary]
        have hagain := Rule.node_of_head hhead
        rw [hattempt] at hagain
        rw [Rule.many_eq_of_some hnode (by simp; omega) (Rule.many_eq_of_none hagain)]
        refine .stuck ht (List.suffix_append _ _) ?_ hsuffix fun o ho => ?_
        · have hagain : ∀ miss ∈ (t :: us) :: misses, far <:+ miss :=
            List.forall_mem_cons.mpr ⟨hsuffix, hfar.isSuffix⟩
          exact ((hfar.append_right hagain).cons hsuffix).cons (hsuffix.trans hbreaks)
        · exact (takes_spelled_line ho.beginsLine l).breaksOff (hoff _ (o.place_behind_ne_finished l))
  · rw [Rule.block_of_head hhead] at hnode
    refine NodesFollow.cons hnode rfl hline (by simp) (fun o ho => ?_) (ih ts (by simp; omega))
    exact ⟨o.behind l, takes_spelled_line ho.beginsLine l, fresh_behind o hl hhead, by simp, rfl,
      fun t ht hk => absurd hk (hl t ht).1⟩

/-- Repeated nodes are those that an outline takes, or break off where it breaks off. -/
theorem nodesFollow (ts : List Token) : NodesFollow ts (Rule.node.many ts) := by
  induction hn : ts.length using Nat.strong_induction_on generalizing ts with
  | _ n ih =>
      subst hn
      cases Front.of ts with
      | line l us hl => exact nodesFollow_line hl fun vs hvs => ih _ hvs vs rfl
      | opening t us ht =>
          have hblock := BlockFollows.of_nodes ht (ih _ (Nat.lt_succ_self us.length) us rfl)
          have hhead : ∀ u ∈ (t :: us).head?, u.kind.isOrdinary = false := by simp [ht, TokenKind.isOrdinary]
          have hnode := Rule.node_of_head hhead
          generalize Rule.node.block (t :: us) = attempt at hblock hnode
          cases hblock with
          | @closed nodes before rest misses hts hbefore hmisses htakes =>
              have hrest : rest <:+ t :: us := ⟨before, hts.symm⟩
              refine NodesFollow.cons hnode hts hbefore (List.forall_mem_cons.mpr ⟨hrest, hmisses⟩) ?_
                (ih rest.length ?_ rest rfl)
              · intro o ho
                obtain ⟨hheader, hsettled⟩ := ho.block t rfl ht
                refine ⟨_, htakes o ho.place_ne, fresh_ready _ _ rest, ?_, rfl, fun _ _ _ => rfl⟩
                rw [settled_ready, hheader, hsettled]
                rfl
              · have hlength := List.length_pos_of_ne_nil hbefore
                rw [hts, List.length_append]
                omega
          | @broken far misses hfar hsuffix hbreaks =>
              rw [Rule.many_eq_of_none hnode]
              refine .stuck ht List.suffix_rfl ?_ hsuffix fun o ho => hbreaks o ho.place_ne
              exact hfar.cons hsuffix
      | other hhead =>
          have hnode := Rule.node_of_head fun t ht => (hhead t ht).1
          rw [Rule.block_of_head fun t ht => (hhead t ht).2] at hnode
          rw [Rule.many_eq_of_none hnode]
          refine .complete (List.nil_append ts).symm hhead ⟨by simp, by simp⟩ fun o ho => ?_
          exact ⟨o, .nil, ho.place_ne, rfl, rfl, fun _ _ _ => Or.inl rfl⟩

/-! ### Programs -/

private theorem exists_breaks (tokens : List Token) : ∃ breaks ts, tokens = breaks ++ ts ∧
    (∀ t ∈ breaks, t.kind = .lineBreak) ∧ ∀ t ∈ ts.head?, t.kind ≠ .lineBreak := by
  refine ⟨tokens.takeWhile (·.kind = .lineBreak), tokens.dropWhile (·.kind = .lineBreak),
    List.takeWhile_append_dropWhile.symm, fun t ht => by simpa using List.mem_takeWhile_imp ht,
    fun t ht => ?_⟩
  simpa using eq_false_of_mem_head_dropWhile t ht

/-- The rules of the grammar give the forest of the outline, or fail with the furthest miss where the outline
breaks off. -/
theorem program_follows (tokens : List Token) :
    (∃ forest, (Rule.program tokens).result = some (forest, []) ∧ outline tokens = .ok forest) ∨
      ∃ far, (Rule.program tokens).result = none ∧ Furthest (Rule.program tokens).misses far ∧
        start.BreaksOff tokens far := by
  obtain ⟨breaks, ts, rfl, hbreaks, hts⟩ := exists_breaks tokens
  have hleading := takes_leading hbreaks
  have hfresh : start.Fresh ts := ⟨by simp [start], by simp [start], by simp [start, header, settled]⟩
  have hnodes := nodesFollow ts
  generalize hattempt : Rule.node.many ts = attempt at hnodes
  cases hnodes with
  | @complete nodes before rest misses hbefore hrest hfar htakes =>
      obtain ⟨o, hinside, hplace, hsettled, henclosing, hbreak⟩ := htakes start hfresh
      have henclosing : o.enclosing = [] := henclosing
      have htaken := hleading.append hinside
      have hall : breaks ++ ts = breaks ++ before ++ rest := by rw [hbefore, List.append_assoc]
      have hsuffix : rest <:+ ts := ⟨before, hbefore.symm⟩
      rcases kind_head_cases rest .endOfInput with ⟨t, us, rfl, ht⟩ | hnone
      · have hprogram := Rule.program_of_end hbreaks hts hattempt ht
        have hfinish : o.step? t = some ⟨.finished, o.settled, []⟩ := by
          simp only [step?, ht, finish, henclosing]
        cases us with
        | nil =>
            refine Or.inl ⟨nodes, by rw [hprogram, if_pos rfl], ?_⟩
            obtain ⟨last, hrun⟩ := htaken.run none [t]
            rw [outline, hall, hrun, run_final hplace henclosing ht, hsettled]
            simp [start, settled]
        | cons u us =>
            have hbehind : u :: us <:+ t :: u :: us := List.suffix_cons t _
            refine Or.inr ⟨u :: us, by simp [hprogram], ?_, breaks ++ before ++ [t],
              ⟨.finished, o.settled, []⟩, by simp [hall], htaken.append (.cons hfinish .nil),
              fun _ _ => step?_of_finished rfl _, by simp⟩
            rw [hprogram, if_neg (by simp)]
            exact (hfar.append_singleton hbehind).cons (hbehind.trans hsuffix)
      · have hprogram := Rule.program_of_head hbreaks hts hattempt hnone
        refine Or.inr ⟨rest, by rw [hprogram], ?_, breaks ++ before, o, hall, htaken, fun t ht => ?_,
          fun _ => hplace⟩
        · rw [hprogram]
          exact (hfar.append_singleton List.suffix_rfl).cons hsuffix
        · refine step?_eq_none (hrest t ht) (fun _ => henclosing) (fun hk => absurd hk (hnone t ht))
            fun hk => ?_
          rcases hbreak t ht hk with rfl | hready
          · exact absurd hk (hts t (hbefore ▸ ht))
          · exact hready
  | @stuck nodes opening rest far misses hopen hrest hfar hsuffix hbreaks' =>
      have hprogram := Rule.program_of_head hbreaks hts hattempt (by simp [hopen])
      refine Or.inr ⟨far, by rw [hprogram], ?_, hleading.breaksOff (hbreaks' start hfresh)⟩
      rw [hprogram]
      exact (hfar.append_right (by simpa using hsuffix)).cons (hsuffix.trans hrest)

/-! ### Outlines and the grammar -/

/-- A token list has an outline exactly if the block grammar derives it. The forest is that of its one greedy
derivation, in which each maximal run of ordinary tokens is the line of one statement, and each block behind
a line belongs to it; and it is the one that the rules of the grammar give when they are tried in order. -/
theorem outline_follows_grammar (tokens : List Token) :
    ((∃ forest, outline tokens = .ok forest) ↔ ∃ p : Grammar.Program, p.spelled = tokens) ∧
      (∀ forest, outline tokens = .ok forest ↔
        ∃ p : Grammar.Program, p.spelled = tokens ∧ p.Greedy ∧ p.forest = forest) ∧
      (∀ p q : Grammar.Program, p.spelled = tokens → q.spelled = tokens → p.Greedy → q.Greedy → p = q) ∧
      (∀ forest, outline tokens = .ok forest →
        (statements forest).map Prod.snd = Grammar.ordinaryRuns tokens) ∧
      ∀ forest, outline tokens = .ok forest ↔ (Rule.program tokens).result = some (forest, []) := by
  have hgreedy {forest : List Node} (h : outline tokens = .ok forest) :
      ∃ p : Grammar.Program, p.spelled = tokens ∧ p.Greedy ∧ p.forest = forest := by
    obtain ⟨p, hp⟩ := exists_program_of_outline h
    obtain ⟨q, hq, hspelled⟩ := p.exists_greedy
    have houtline := outline_spelled hq
    rw [hspelled, hp, h] at houtline
    exact ⟨q, hspelled.trans hp, hq, (Except.ok.inj houtline).symm⟩
  refine ⟨⟨?_, ?_⟩, fun forest => ⟨hgreedy, ?_⟩, ?_, ?_, fun forest => ?_⟩
  · rintro ⟨forest, h⟩
    exact exists_program_of_outline h
  · rintro ⟨p, rfl⟩
    obtain ⟨q, hq, hspelled⟩ := p.exists_greedy
    exact ⟨q.forest, hspelled ▸ outline_spelled hq⟩
  · rintro ⟨p, rfl, hp, rfl⟩
    exact outline_spelled hp
  · intro p q hp hq hpg hqg
    exact hpg.eq hqg (hp.trans hq.symm)
  · intro forest h
    obtain ⟨p, rfl, hp, rfl⟩ := hgreedy h
    rw [Grammar.Program.forest, p.nodes.statements_forest, hp.lines_eq]
  · rcases program_follows tokens with ⟨forest', hresult, houtline⟩ | ⟨far, hresult, -, hbreaks⟩
    · simp [hresult, houtline]
    · simp [hresult, outline, hbreaks.run]

end LayoutRule
