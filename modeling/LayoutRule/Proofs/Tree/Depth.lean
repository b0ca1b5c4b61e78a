import LayoutRule.Proofs.Tracker.Moments
import LayoutRule.Proofs.Tree.Offside

/-! # Depth of statements

A statement stands in as many bodies and blocks as there are levels above the bottom when its first token is
handed out. -/

namespace LayoutRule

open TokenSource

namespace Node

/-! ### Ancestors -/

/-- The first address leads to a node whose body, or block, stands around the second. -/
def Above (a b : List ℕ) : Prop := a <+: b ∧ a ≠ b

instance (a b : List ℕ) : Decidable (Above a b) := inferInstanceAs (Decidable (_ ∧ _))

/-- The nodes whose bodies and blocks stand around an address. -/
def ancestors (forest : List Node) (a : List ℕ) : List (List ℕ × Node) :=
  (walkForest forest).filter fun p => Above p.1 a

theorem not_above_of_isPrefix {a b : List ℕ} (h : a <+: b) : ¬Above b a :=
  fun habove => habove.2 (habove.1.eq_of_length_le h.length_le)

/-- Trees at different places of a list stand apart. -/
private theorem not_above_of_places {a b c : List ℕ} {i j : ℕ} (hij : i ≠ j) (hb : a ++ [i] <+: b)
    (hc : a ++ [j] <+: c) : ¬Above b c := by
  intro habove
  have hsame := (List.prefix_of_prefix_length_le (hb.trans habove.1) hc (by simp)).eq_of_length (by simp)
  exact hij (by simpa using hsame)

/-- A node of a list stands in the tree at one of its places. -/
theorem exists_place_of_mem_walkList {a : List ℕ} {i : ℕ} {ns : List Node} :
    ∀ p ∈ walkList a i ns, ∃ j ≥ i, a ++ [j] <+: p.1 := by
  induction ns generalizing i with
  | nil => simp [walkList]
  | cons n ns ih =>
      intro p hp
      rw [walkList_cons] at hp
      rcases List.mem_append.mp hp with hp | hp
      · refine ⟨i, le_rfl, ?_⟩
        rcases List.mem_cons.mp hp with rfl | hp
        · exact List.prefix_rfl
        · exact isPrefix_of_mem_walkList p hp
      · obtain ⟨j, hj, hplace⟩ := ih p hp
        exact ⟨j, by omega, hplace⟩

private theorem filter_above_eq_nil {ps : List (List ℕ × Node)} {b : List ℕ}
    (h : ∀ q ∈ ps, ¬Above q.1 b) : (ps.filter fun q => Above q.1 b) = [] :=
  List.filter_eq_nil_iff.mpr fun q hq => by simpa using h q hq

/-- Nodes above one in a tree are that tree's own node, unless it is the one, and others inside it. -/
theorem length_above_walkList {a : List ℕ} {i : ℕ} {ns : List Node} : ∀ p ∈ walkList a i ns,
    ((walkList a i ns).filter fun q => Above q.1 p.1).length + a.length + 1 = p.1.length := by
  induction ns using forest_induction generalizing a i with
  | nil => simp [walkList]
  | cons n ns ihn ihns =>
      intro p hp
      rw [walkList_cons] at hp
      simp only [walkList_cons, List.cons_append, List.filter_cons, List.filter_append]
      rcases List.mem_append.mp hp with hp | hp
      · have hbehind (hbelow : a ++ [i] <+: p.1) :
            ((walkList a (i + 1) ns).filter fun q => Above q.1 p.1) = [] := by
          refine filter_above_eq_nil fun q hq => ?_
          obtain ⟨j, hj, hplace⟩ := exists_place_of_mem_walkList q hq
          exact not_above_of_places (by omega) hplace hbelow
        rcases List.mem_cons.mp hp with rfl | hp
        · have hinside := filter_above_eq_nil fun q (hq : q ∈ walkList (a ++ [i]) 0 n.children) =>
            not_above_of_isPrefix (isPrefix_of_mem_walkList q hq)
          simp [hinside, hbehind List.prefix_rfl, not_above_of_isPrefix List.prefix_rfl]
        · obtain ⟨j, -, hplace⟩ := exists_place_of_mem_walkList p hp
          have hbelow := isPrefix_of_mem_walkList p hp
          have habove : Above (a ++ [i]) p.1 := by
            refine ⟨hbelow, fun heq => ?_⟩
            simpa [← heq] using hplace.length_le
          have hinside := ihn p hp
          simp only [List.length_append, List.length_singleton] at hinside
          simp only [habove, hbehind hbelow, decide_true, if_true, List.append_nil, List.length_cons]
          omega
      · obtain ⟨j, hj, hplace⟩ := exists_place_of_mem_walkList p hp
        have hinside := filter_above_eq_nil fun q (hq : q ∈ walkList (a ++ [i]) 0 n.children) =>
          not_above_of_places (by omega) (isPrefix_of_mem_walkList q hq) hplace
        have hnode : ¬Above (a ++ [i]) p.1 := not_above_of_places (by omega) List.prefix_rfl hplace
        simpa [hnode, hinside] using ihns p hp

/-- The depth of a node is one more than the number of nodes above it. -/
theorem length_ancestors {forest : List Node} {p : List ℕ × Node} (hp : p ∈ walkForest forest) :
    (ancestors forest p.1).length + 1 = p.1.length :=
  length_above_walkList p hp

end Node

open Node

namespace Laid

variable {forest : List Node} {blocks : ℕ} {rows : List Row}

/-- A block by itself is visited first, and the node of a row is visited next, inside it. -/
theorem first_of_block (h : Laid forest blocks rows) {k : ℕ} {a : List ℕ} {children : List Node}
    (hvisit : (walkForest forest)[k]? = some (a, .block children)) :
    k = 0 ∧ a = [0] ∧ children ≠ [] := by
  have hk := h.lt_of_block hvisit
  have hopen : openedAt rows 0 ≠ [] := by
    intro hnone
    rw [h.blocks, if_pos hnone] at hk
    omega
  obtain rfl : blocks = 1 := by rw [h.blocks, if_neg hopen]
  obtain rfl : k = 0 := by omega
  have hrows : 0 < rows.length := by
    cases rows with
    | nil => simp at hopen
    | cons => simp
  obtain ⟨n, hnext, hdepth, -⟩ := h.visit_of_row hrows
  have hopened := List.length_pos_of_ne_nil hopen
  cases forest with
  | nil => simp [walkForest, walkList] at hvisit
  | cons m ms =>
      rw [walkForest, walkList_cons] at hvisit hnext
      obtain ⟨rfl, rfl⟩ := Prod.mk.inj (Option.some.inj hvisit)
      refine ⟨rfl, rfl, ?_⟩
      rintro rfl
      -- Behind an empty block the walk goes on beside it, no deeper than the block.
      have hbeside : (walkList [] 1 ms)[0]? = some (addressAt (.block [] :: ms) 1, n) := hnext
      rw [← List.head?_eq_getElem?, head?_walkList] at hbeside
      obtain ⟨m, -, hm⟩ := Option.map_eq_some_iff.mp hbeside
      rw [Nat.add_zero, ← (Prod.mk.inj hm).1] at hdepth
      simp only [List.nil_append, List.length_singleton] at hdepth
      omega

/-- A statement is a row, and stands in as many bodies and blocks as columns are open along it. -/
theorem row_of_statement (h : Laid forest blocks rows) {p : List ℕ × List Token}
    (hp : p ∈ Node.statements forest) :
    ∃ row ∈ rows, p.2 = row.tokens ∧ (ancestors forest p.1).length = row.opened.length := by
  obtain ⟨i, hi, rfl⟩ := List.getElem_of_mem hp
  have hrow : i < rows.length := h.length_statements ▸ hi
  obtain ⟨n, hvisit, hdepth, -⟩ := h.visit_of_row hrow
  have haddress : (Node.statements forest)[i].1 = addressAt forest (blocks + i) := by
    simpa [List.getElem?_eq_getElem hi] using h.statement_address hrow
  have htokens : (Node.statements forest)[i].2 = rows[i].tokens := by
    have hmap := congrArg (·[i]?) h.statements.1
    simpa [List.getElem?_eq_getElem hi, List.getElem?_eq_getElem hrow] using hmap
  have hopened : openedAt rows i = rows[i].opened := openedAt_eq_opened hrow
  have habove : (ancestors forest (addressAt forest (blocks + i))).length + 1 =
      (addressAt forest (blocks + i)).length := length_ancestors (List.mem_of_getElem? hvisit)
  refine ⟨rows[i], List.getElem_mem hrow, htokens, ?_⟩
  rw [haddress]
  rw [hdepth, hopened] at habove
  exact Nat.succ.inj habove

end Laid

/-! ### Statements, lines and levels -/

/-- The statements of a forest from the top down are the lines of its text that hold more than a line break,
each with the tokens of the line. A statement stands in as many bodies and blocks as there are levels above the
bottom once the tracker has answered with its first token, in the only pull that hands it out. A block by itself
is the first node of the forest, and is not empty. -/
theorem statements_follow_levels {config : TrackerConfig} {text : String} {forest : List Node}
    (h : outlineText config text = .ok forest) :
    let s := Tracked.start config (Scanner.ofText text)
    (∃ raws, tokenize text = .ok raws ∧ (statements forest).map Prod.snd = sourceLines raws) ∧
      (∀ p ∈ statements forest, ∃ first rest n, p.2 = first :: rest ∧
        (∀ m, (TokenSource.pull (after m s)).1 = .ok first ↔ m = n) ∧
        (ancestors forest p.1).length + 1 = (after (n + 1) s).tracker.levels.length) ∧
      ∀ k a children, (walkForest forest)[k]? = some (a, .block children) →
        k = 0 ∧ a = [0] ∧ children ≠ [] := by
  intro s
  obtain ⟨raws, out, rows, blocks, hraws, hrows, hlaid⟩ := exists_laid_of_outlineText h
  obtain ⟨tokens, hlex⟩ := exists_lexWith_of_outlineText h
  refine ⟨⟨raws, hraws, by rw [hlaid.statements.1, hrows.map_tokens]⟩, fun p hp => ?_,
    fun k a children => hlaid.first_of_block⟩
  obtain ⟨row, hrow, htokens, hdepth⟩ := hlaid.row_of_statement hp
  obtain ⟨first, rest, n, hfirst, hmoment, hopened, -⟩ := hrows.exists_moment hraws hlex row hrow
  refine ⟨first, rest, n, htokens.trans hfirst, hmoment, ?_⟩
  rw [hdepth, Tracker.length_levels, hopened]

/-- The third line begins left of the second and right of the first. It is handed out with one level above the
bottom, and stands in the block by itself that the text begins with. -/
theorem statements_follow_levels_ragged :
    let s := Tracked.start .lenient (Scanner.ofText (Sample.textAt [2, 6, 4, 0]))
    let third := Sample.nameToken "t3" 3 4 18
    ∃ forest n, outlineText .lenient (Sample.textAt [2, 6, 4, 0]) = .ok forest ∧
      ([0, 1], [third]) ∈ statements forest ∧ (ancestors forest [0, 1]).map Prod.fst = [[0]] ∧
      (∀ m, (TokenSource.pull (after m s)).1 = .ok third ↔ m = n) ∧
      (after (n + 1) s).tracker.levels.length = 2 := by
  intro s third
  have houtline : outlineText .lenient (Sample.textAt [2, 6, 4, 0]) = .ok
      [.block
        [.statement [Sample.nameToken "t1" 1 2 2] [.statement [Sample.nameToken "t2" 2 6 11] []],
        .statement [third] []],
      .statement [Sample.nameToken "t4" 4 0 21] []] := by
    decide +kernel
  obtain ⟨-, hlevels, -⟩ := statements_follow_levels houtline
  obtain ⟨first, rest, n, hfirst, hmoment, hdepth⟩ := hlevels ([0, 1], [third]) (by decide +kernel)
  obtain ⟨rfl, -⟩ := List.cons.inj hfirst
  refine ⟨_, n, houtline, by decide +kernel, by decide +kernel, hmoment, ?_⟩
  rw [← hdepth]
  decide +kernel

end LayoutRule
