import LayoutRule.Tree.Node
import Mathlib.Data.List.Chain
import Mathlib.Data.Nat.Basic

/-! # Walks

A walk lists the nodes of a forest from the top down. The address of a node is the way to it: its place
among its siblings, behind the address of the node it stands in. -/

namespace LayoutRule

namespace Node

/-- The tokens of a statement. -/
def tokens? : Node → Option (List Token)
  | .statement tokens _ => some tokens
  | .block _ => none

mutual

/-- A node and all nodes in it, from the top down. -/
def walk (address : List ℕ) : Node → List (List ℕ × Node)
  | .statement tokens body => (address, .statement tokens body) :: walkList address 0 body
  | .block children => (address, .block children) :: walkList address 0 children

/-- The nodes of a list whose first stands at place `i`, and all nodes in them. -/
def walkList (address : List ℕ) (i : ℕ) : List Node → List (List ℕ × Node)
  | [] => []
  | n :: ns => walk (address ++ [i]) n ++ walkList address (i + 1) ns

end

/-- The nodes of a forest from the top down. -/
def walkForest (forest : List Node) : List (List ℕ × Node) := walkList [] 0 forest

/-- The statements of a forest from the top down. -/
def statements (forest : List Node) : List (List ℕ × List Token) :=
  (walkForest forest).filterMap fun p => p.2.tokens?.map (p.1, ·)

/-- The node of statement `i` stands around the node of statement `j`. -/
def Encloses (forest : List Node) (i j : ℕ) : Prop :=
  ∃ a b, (statements forest)[i]?.map Prod.fst = some a ∧
    (statements forest)[j]?.map Prod.fst = some b ∧ a <+: b ∧ a ≠ b

/-- A block without a line above it stands around the node of statement `j`. -/
def InBlock (forest : List Node) (j : ℕ) : Prop :=
  ∃ a b children, (a, Node.block children) ∈ walkForest forest ∧
    (statements forest)[j]?.map Prod.fst = some b ∧ a <+: b

theorem walkList_cons (a : List ℕ) (i : ℕ) (n : Node) (ns : List Node) :
    walkList a i (n :: ns) =
      (a ++ [i], n) :: walkList (a ++ [i]) 0 n.children ++ walkList a (i + 1) ns := by
  cases n <;> simp [walkList, walk, children]

/-- A property of forests holds of a first tree if it holds of the forest in it and of the rest. -/
@[elab_as_elim]
theorem forest_induction {motive : List Node → Prop} (nil : motive [])
    (cons : ∀ n ns, motive n.children → motive ns → motive (n :: ns)) : ∀ ns, motive ns
  | [] => nil
  | .statement tokens body :: ns =>
      cons (.statement tokens body) ns (forest_induction nil cons body) (forest_induction nil cons ns)
  | .block children :: ns =>
      cons (.block children) ns (forest_induction nil cons children) (forest_induction nil cons ns)

/-! ### Steps of a walk -/

/-- A walk goes down to the first node inside, or on to the next node of a list it is in. -/
def Next (a b : List ℕ) : Prop :=
  b = a ++ [0] ∨ ∃ outer i inner, a = outer ++ i :: inner ∧ b = outer ++ [i + 1]

theorem head?_walkList (a : List ℕ) (i : ℕ) (ns : List Node) :
    (walkList a i ns).head? = ns.head?.map (a ++ [i], ·) := by
  cases ns with
  | nil => rfl
  | cons n ns => rw [walkList_cons]; rfl

theorem isPrefix_of_mem_walkList {a : List ℕ} {i : ℕ} {ns : List Node} :
    ∀ p ∈ walkList a i ns, a <+: p.1 := by
  induction ns using forest_induction generalizing a i with
  | nil => simp [walkList]
  | cons n ns ihn ihns =>
      intro p hp
      rw [walkList_cons] at hp
      rcases List.mem_append.mp hp with hp | hp
      · have hbelow : a ++ [i] <+: p.1 := by
          rcases List.mem_cons.mp hp with rfl | hp
          · exact List.prefix_rfl
          · exact ihn p hp
        exact (List.prefix_append a [i]).trans hbelow
      · exact ihns p hp

theorem isChain_walkList (a : List ℕ) (i : ℕ) (ns : List Node) :
    (walkList a i ns).IsChain fun p q => Next p.1 q.1 := by
  induction ns using forest_induction generalizing a i with
  | nil => exact .nil
  | cons n ns ihn ihns =>
      rw [walkList_cons]
      refine List.IsChain.append ?_ (ihns a (i + 1)) ?_
      · refine (ihn (a ++ [i]) 0).cons ?_
        intro q hq
        obtain ⟨m, -, rfl⟩ := Option.map_eq_some_iff.mp (head?_walkList _ _ _ ▸ hq)
        exact Or.inl rfl
      · intro p hp q hq
        obtain ⟨m, -, rfl⟩ := Option.map_eq_some_iff.mp (head?_walkList _ _ _ ▸ hq)
        have hbelow : a ++ [i] <+: p.1 := by
          rcases List.mem_cons.mp (List.mem_of_getLast? hp) with rfl | hp
          · exact List.prefix_rfl
          · exact isPrefix_of_mem_walkList p hp
        obtain ⟨inner, hinner⟩ := hbelow
        exact Or.inr ⟨a, i, inner, by simp [← hinner], rfl⟩

namespace Next

theorem lt {a b : List ℕ} (h : Next a b) : a < b := by
  rcases h with rfl | ⟨outer, i, inner, rfl, rfl⟩
  · have hlt : a ++ [] < a ++ [0] := List.append_left_lt (List.nil_lt_cons 0 [])
    rwa [List.append_nil] at hlt
  · apply List.append_left_lt
    simp [List.cons_lt_cons_iff]

/-- A walk that does not come up to a node stays inside it. -/
theorem isPrefix {a b c : List ℕ} (h : Next a b) (hc : c <+: a) (hlt : c.length < b.length) :
    c <+: b := by
  rcases h with rfl | ⟨outer, i, inner, rfl, rfl⟩
  · exact hc.trans (List.prefix_append a [0])
  · have hle : c.length ≤ outer.length := by
      simpa [Nat.lt_succ_iff] using hlt
    have houter := List.prefix_of_prefix_length_le hc (List.prefix_append outer _) hle
    exact houter.trans (List.prefix_append outer _)

end Next

/-- What a walk visits between a node and a node inside it is inside as well. -/
theorem isPrefix_of_between {a b c : List ℕ} (hab : a <+: b) (hac : a < c) (hcb : ¬b < c) :
    a <+: c := by
  induction a generalizing b c with
  | nil => exact List.nil_prefix
  | cons x a ih =>
      obtain ⟨inner, rfl⟩ := hab
      cases c with
      | nil => simp at hac
      | cons y c =>
          simp only [List.cons_append, List.cons_lt_cons_iff, not_or, not_and] at hac hcb
          rcases hac with hxy | ⟨rfl, hac⟩
          · exact absurd hxy hcb.1
          · exact List.cons_prefix_cons.mpr ⟨rfl, ih (List.prefix_append a inner) hac (hcb.2 rfl)⟩

/-! ### Depth and nesting along a walk -/

section Sequence

variable {A : ℕ → List ℕ} {i j : ℕ}

theorem lt_of_steps (hij : i < j) (hnext : ∀ k < j, Next (A k) (A (k + 1))) : A i < A j := by
  induction j, hij using Nat.le_induction with
  | base => exact (hnext i (by omega)).lt
  | succ j hij ih => exact List.lt_trans (ih fun k hk => hnext k (by omega)) (hnext j (by omega)).lt

theorem isPrefix_of_depths (hij : i ≤ j) (hnext : ∀ k < j, Next (A k) (A (k + 1)))
    (hdepth : ∀ k, i < k → k ≤ j → (A i).length < (A k).length) : A i <+: A j := by
  induction j, hij using Nat.le_induction with
  | base => exact List.prefix_rfl
  | succ j hij ih =>
      have hinside := ih (fun k hk => hnext k (by omega)) fun k hik hkj => hdepth k hik (by omega)
      exact (hnext j (by omega)).isPrefix hinside (hdepth (j + 1) (by omega) le_rfl)

/-- A later node stands inside an earlier one exactly if every node behind the earlier one is deeper, up to
the later one. -/
theorem isPrefix_iff_depths (hij : i < j) (hnext : ∀ k < j, Next (A k) (A (k + 1))) :
    A i <+: A j ↔ ∀ k, i < k → k ≤ j → (A i).length < (A k).length := by
  refine ⟨?_, isPrefix_of_depths hij.le hnext⟩
  intro hinside k hik hkj
  have hlt := lt_of_steps hik fun l hl => hnext l (by omega)
  have hle : ¬A j < A k := by
    rcases hkj.lt_or_eq with hkj | rfl
    · exact List.not_lt.mpr (List.le_of_lt (lt_of_steps hkj hnext))
    · exact List.lt_irrefl _
  have hk := isPrefix_of_between hinside hlt hle
  apply hk.length_le.lt_of_ne
  intro heq
  rw [hk.eq_of_length heq] at hlt
  exact List.lt_irrefl _ hlt

/-- No node stands inside one that is visited later. -/
theorem encloses_iff_depths (hi : ∀ k < i, Next (A k) (A (k + 1)))
    (hj : ∀ k < j, Next (A k) (A (k + 1))) :
    A i <+: A j ∧ A i ≠ A j ↔ i < j ∧ ∀ k, i < k → k ≤ j → (A i).length < (A k).length := by
  rcases Nat.lt_trichotomy i j with hij | rfl | hji
  · have hne : A i ≠ A j := by
      intro heq
      exact List.lt_irrefl _ (heq ▸ lt_of_steps hij hj)
    simp [hij, hne, isPrefix_iff_depths hij hj]
  · simp
  · have hnot : ¬A i <+: A j := by
      intro hinside
      exact absurd (lt_of_steps hji hi) (List.not_lt.mpr hinside.le)
    simp [hnot, Nat.le_of_lt hji]

end Sequence

/-! ### Addresses -/

/-- The address of the node visited behind `k` others; empty behind the last one. -/
def addressAt (forest : List Node) (k : ℕ) : List ℕ := ((walkForest forest)[k]?.map Prod.fst).getD []

theorem next_addressAt {forest : List Node} {k : ℕ} (hk : k + 1 < (walkForest forest).length) :
    Next (addressAt forest k) (addressAt forest (k + 1)) := by
  have hchain : (walkForest forest).IsChain fun p q => Next p.1 q.1 := isChain_walkList [] 0 forest
  have hnext := List.isChain_iff_getElem.mp hchain k hk
  simpa [addressAt, List.getElem?_eq_getElem hk, List.getElem?_eq_getElem (Nat.lt_of_succ_lt hk)]

theorem steps_addressAt {forest : List Node} {j : ℕ} (hj : j < (walkForest forest).length) :
    ∀ k < j, Next (addressAt forest k) (addressAt forest (k + 1)) :=
  fun _ hk => next_addressAt (by omega)

/-! ### Statements -/

private theorem filterMap_of_tokens? {visits : List (List ℕ × Node)} {lines : List (List Token)}
    (h : visits.map (·.2.tokens?) = lines.map some) :
    visits.filterMap (fun p => p.2.tokens?.map (p.1, ·)) = (visits.map Prod.fst).zip lines := by
  induction visits generalizing lines with
  | nil => rfl
  | cons p visits ih =>
      cases lines with
      | nil => simp at h
      | cons line lines =>
          simp only [List.map_cons, List.cons.injEq] at h
          simp [h.1, ih h.2]

theorem mem_statements {forest : List Node} {a : List ℕ} {n : Node} {tokens : List Token}
    (h : (a, n) ∈ walkForest forest) (htokens : n.tokens? = some tokens) : (a, tokens) ∈ statements forest :=
  List.mem_filterMap.mpr ⟨(a, n), h, by rw [htokens, Option.map_some]⟩

/-- When a walk visits nothing but statements behind `blocks` blocks, these are all the statements. -/
theorem statements_of_tokens? {forest : List Node} {blocks : ℕ} {lines : List (List Token)}
    (h : (walkForest forest).map (·.2.tokens?) = List.replicate blocks none ++ lines.map some) :
    (statements forest).map Prod.snd = lines ∧
      ∀ i, (statements forest)[i]?.map Prod.fst = (walkForest forest)[blocks + i]?.map Prod.fst := by
  obtain ⟨before, behind, hwalk, hbefore, hbehind⟩ := List.map_eq_append_iff.mp h
  have hnone : before.filterMap (fun p => p.2.tokens?.map (p.1, ·)) = [] := by
    apply List.filterMap_eq_nil_iff.mpr
    intro p hp
    have hp : p.2.tokens? ∈ before.map (·.2.tokens?) := List.mem_map_of_mem hp
    rw [hbefore] at hp
    simp [List.eq_of_mem_replicate hp]
  have hstatements : statements forest = (behind.map Prod.fst).zip lines := by
    rw [statements, hwalk, List.filterMap_append, hnone, filterMap_of_tokens? hbehind, List.nil_append]
  have hlength : (behind.map Prod.fst).length = lines.length := by
    simpa using congrArg List.length hbehind
  refine ⟨?_, fun i => ?_⟩
  · rw [hstatements, List.map_snd_zip hlength.ge]
  · have hblocks : before.length = blocks := by simpa using congrArg List.length hbefore
    rw [← List.getElem?_map, hstatements, List.map_fst_zip hlength.le, hwalk,
      List.getElem?_append_right (by omega), List.getElem?_map, hblocks, Nat.add_sub_cancel_left]

end Node

end LayoutRule
