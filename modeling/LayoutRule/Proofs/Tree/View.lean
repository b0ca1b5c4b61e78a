import LayoutRule.Format.TreeView
import LayoutRule.Proofs.Text.Parts
import LayoutRule.Proofs.Tree.Depth
import LayoutRule.Proofs.Tree.Shapes

/-! # Views

The line of a node tells how deep the node stands and which of the nodes around it have later siblings, whatever
stands in its label. So a forest can be told from its view, but for what is cut off from long labels. -/

namespace LayoutRule

namespace Node

/-! ### Siblings -/

/-- The second address leads to a later sibling of the node that the first one leads to. -/
def LaterSibling (a b : List ℕ) : Prop :=
  a.dropLast = b.dropLast ∧ ∃ i ∈ a.getLast?, ∃ j ∈ b.getLast?, i < j

instance (a b : List ℕ) : Decidable (LaterSibling a b) := inferInstanceAs (Decidable (_ ∧ _))

/-- The node at an address has a later sibling. -/
def HasLater (forest : List Node) (a : List ℕ) : Prop := ∃ p ∈ walkForest forest, LaterSibling a p.1

instance (forest : List Node) (a : List ℕ) : Decidable (HasLater forest a) :=
  inferInstanceAs (Decidable (∃ _ ∈ _, _))

theorem laterSibling_iff {a b : List ℕ} {i : ℕ} : LaterSibling (a ++ [i]) b ↔ ∃ j, i < j ∧ b = a ++ [j] := by
  constructor
  · rintro ⟨houter, i', hi, j, hj, hlt⟩
    obtain ⟨outer, rfl⟩ := List.getLast?_eq_some_iff.mp hj
    simp only [List.getLast?_concat, Option.mem_def, Option.some.injEq] at hi
    simp only [List.dropLast_concat] at houter
    exact ⟨j, hi ▸ hlt, by rw [houter]⟩
  · rintro ⟨j, hlt, rfl⟩
    exact ⟨by simp, i, by simp, j, by simp, hlt⟩

/-- Where the nodes of a list stand in a forest: at `a`, from place `i` on. -/
def StandsAt (forest : List Node) (a : List ℕ) (i : ℕ) (ns : List Node) : Prop :=
  ∀ j rest, i ≤ j →
    ((∃ n, (a ++ j :: rest, n) ∈ walkForest forest) ↔ ∃ n, (a ++ j :: rest, n) ∈ walkList a i ns)

/-- What stands in a list stands in its first tree or behind it. -/
theorem exists_mem_walkList_cons {a rest : List ℕ} {i j : ℕ} {n : Node} {ns : List Node} :
    (∃ m, (a ++ j :: rest, m) ∈ walkList a i (n :: ns)) ↔
      j = i ∧ (rest = [] ∨ ∃ m, (a ++ [i] ++ rest, m) ∈ walkList (a ++ [i]) 0 n.children) ∨
        i < j ∧ ∃ m, (a ++ j :: rest, m) ∈ walkList a (i + 1) ns := by
  simp only [walkList_cons, List.mem_append, List.mem_cons, Prod.mk.injEq]
  constructor
  · rintro ⟨m, (⟨heq, -⟩ | hinside) | hbehind⟩
    · obtain ⟨rfl, rfl⟩ : j = i ∧ rest = [] := by simpa using heq
      exact Or.inl ⟨rfl, Or.inl rfl⟩
    · obtain rfl : i = j := by simpa using isPrefix_of_mem_walkList _ hinside
      exact Or.inl ⟨rfl, Or.inr ⟨m, by simpa using hinside⟩⟩
    · obtain ⟨k, hk, hplace⟩ := exists_place_of_mem_walkList _ hbehind
      obtain rfl : k = j := by simpa using hplace
      exact Or.inr ⟨hk, m, hbehind⟩
  · rintro (⟨rfl, rfl | ⟨m, hinside⟩⟩ | ⟨-, m, hbehind⟩)
    · exact ⟨n, Or.inl (Or.inl ⟨rfl, rfl⟩)⟩
    · exact ⟨m, Or.inl (Or.inr (by simpa using hinside))⟩
    · exact ⟨m, Or.inr hbehind⟩

namespace StandsAt

variable {forest ns : List Node} {a : List ℕ} {i : ℕ} {n : Node}

theorem walkForest (forest : List Node) : StandsAt forest [] 0 forest := fun _ _ _ => Iff.rfl

theorem children (h : StandsAt forest a i (n :: ns)) : StandsAt forest (a ++ [i]) 0 n.children := by
  intro j rest _
  have hnode := (h i (j :: rest) le_rfl).trans exists_mem_walkList_cons
  simpa using hnode

theorem tail (h : StandsAt forest a i (n :: ns)) : StandsAt forest a (i + 1) ns := by
  intro j rest hj
  have hlist := (h j rest (Nat.le_of_succ_le hj)).trans exists_mem_walkList_cons
  have hne : j ≠ i := by omega
  have hlt : i < j := hj
  simpa [hne, hlt] using hlist

/-- The first node of a list has a later sibling exactly if it is not the only one. -/
theorem hasLater_iff (h : StandsAt forest a i (n :: ns)) : HasLater forest (a ++ [i]) ↔ ns ≠ [] := by
  have hsibling (j : ℕ) (hj : i + 1 ≤ j) := h.tail j [] hj
  constructor
  · rintro ⟨⟨b, m⟩, hmem, hlater⟩
    obtain ⟨j, hj, rfl⟩ := laterSibling_iff.mp hlater
    obtain ⟨m', hmem'⟩ := (hsibling j hj).mp ⟨m, hmem⟩
    rintro rfl
    simp [walkList] at hmem'
  · intro hne
    obtain ⟨m, ms, rfl⟩ := List.exists_cons_of_ne_nil hne
    obtain ⟨m', hmem⟩ := (hsibling (i + 1) le_rfl).mpr ⟨m, by simp [walkList_cons]⟩
    exact ⟨_, hmem, laterSibling_iff.mpr ⟨i + 1, Nat.lt_succ_self i, rfl⟩⟩

end StandsAt

end Node

/-! ### Lines -/

namespace TreeView

open Node

/-- The pairs for the nodes around an address, from the one at depth `depth` on: a bar for a node with a later
sibling. -/
def guidesFrom (forest : List Node) (depth : ℕ) (a : List ℕ) : List Char :=
  (List.range' depth (a.length - 1 - depth)).flatMap fun d =>
    if HasLater forest (a.take (d + 1)) then ['│', ' '] else [' ', ' ']

/-- The line of the node at an address: a pair for each node around it, a connector, its type and its label. -/
def lineAt (forest : List Node) (a : List ℕ) (n : Node) : List Char :=
  guidesFrom forest 0 a ++ (if HasLater forest a then ['├', '─'] else ['└', '─']) ++ [' '] ++ typeName n ++
    [':', ' '] ++ truncate n.label.toList

theorem nodeLines_eq (guides : List Char) (last : Bool) (n : Node) :
    nodeLines guides last n = line guides last n :: forestLines (guides ++ guide last) n.children := by
  cases n <;> simp [nodeLines, Node.children]

theorem guidesFrom_succ (forest : List Node) {depth : ℕ} {a : List ℕ} (h : depth + 1 < a.length) :
    guidesFrom forest depth a =
      (if HasLater forest (a.take (depth + 1)) then ['│', ' '] else [' ', ' ']) ++
        guidesFrom forest (depth + 1) a := by
  obtain ⟨k, hk⟩ : ∃ k, a.length - 1 - depth = k + 1 := Nat.exists_eq_succ_of_ne_zero (by omega)
  have hk' : a.length - 1 - (depth + 1) = k := by omega
  rw [guidesFrom, hk, List.range'_succ, List.flatMap_cons, guidesFrom, hk']

/-- The lines of a list behind given guides: the guides are those of the nodes around the list, and each line goes on
with the guides of the nodes within it. -/
theorem forestLines_eq {forest ns : List Node} {a : List ℕ} {i : ℕ} (h : StandsAt forest a i ns)
    (guides : List Char) :
    forestLines guides ns = (walkList a i ns).map fun p =>
      line (guides ++ guidesFrom forest a.length p.1) (¬HasLater forest p.1) p.2 := by
  -- where the list stands in the forest says which of its nodes have later siblings
  induction ns using forest_induction generalizing a i guides with
  | nil => simp [forestLines, walkList]
  | cons n ns ihn ihns =>
      have hlast : ns.isEmpty = decide (¬HasLater forest (a ++ [i])) := by
        simp only [h.hasLater_iff]
        cases ns <;> rfl
      have hnode : guidesFrom forest a.length (a ++ [i]) = [] := by simp [guidesFrom]
      have hinside : ∀ p ∈ walkList (a ++ [i]) 0 n.children,
          guidesFrom forest a.length p.1 = guide ns.isEmpty ++ guidesFrom forest (a ++ [i]).length p.1 := by
        intro p hp
        obtain ⟨j, -, rest, hplace⟩ := exists_place_of_mem_walkList p hp
        have htake : p.1.take (a.length + 1) = a ++ [i] := by
          rw [← hplace, List.append_assoc]
          exact List.take_left' (by simp)
        have hdeep : a.length + 1 < p.1.length := by simp [← hplace]
        rw [guidesFrom_succ forest hdeep, htake, hlast, List.length_append, List.length_singleton, guide]
        simp
      rw [forestLines, nodeLines_eq, walkList_cons, List.map_append, List.map_cons, ihns h.tail, ihn h.children,
        hnode, List.append_nil, ← hlast]
      congr 2
      refine List.map_congr_left fun p hp => ?_
      rw [hinside p hp, List.append_assoc]

theorem forestLines_eq_lineAt (forest : List Node) :
    forestLines [] forest = (walkForest forest).map fun p => lineAt forest p.1 p.2 := by
  rw [forestLines_eq (.walkForest forest)]
  refine List.map_congr_left fun p _ => ?_
  by_cases hlater : HasLater forest p.1 <;> simp [line, lineAt, connector, hlater]

/-! ### Reading lines -/

/-- Guides and connectors begin with different characters, so the guides end at the first connector. -/
theorem guides_injective {lasts lasts' : List Bool} {last last' : Bool} {behind behind' : List Char}
    (h : lasts.flatMap guide ++ (connector last ++ behind) = lasts'.flatMap guide ++ (connector last' ++ behind')) :
    lasts = lasts' ∧ behind = behind' := by
  induction lasts generalizing lasts' with
  | nil =>
      cases lasts' with
      | nil => cases last <;> cases last' <;> simp_all [connector]
      | cons b lasts' => cases last <;> cases b <;> simp [connector, guide] at h
  | cons b lasts ih =>
      cases lasts' with
      | nil => cases last' <;> cases b <;> simp [connector, guide] at h
      | cons b' lasts' =>
          have hsame : b = b' ∧ lasts.flatMap guide ++ (connector last ++ behind) =
              lasts'.flatMap guide ++ (connector last' ++ behind') := by
            cases b <;> cases b' <;> simp_all [guide]
          obtain ⟨rfl, hbehind⟩ := ih hsame.2
          exact ⟨by rw [hsame.1], hbehind⟩

theorem typeName_injective {n n' : Node} {behind behind' : List Char}
    (h : typeName n ++ behind = typeName n' ++ behind') : typeName n = typeName n' ∧ behind = behind' := by
  cases n <;> cases n' <;> simp_all [typeName]

theorem line_injective {lasts lasts' : List Bool} {last last' : Bool} {n n' : Node}
    (h : line (lasts.flatMap guide) last n = line (lasts'.flatMap guide) last' n') :
    lasts = lasts' ∧ typeName n = typeName n' ∧ truncate n.label.toList = truncate n'.label.toList := by
  simp only [line, List.append_assoc] at h
  obtain ⟨hlasts, hbehind⟩ := guides_injective h
  obtain ⟨htype, hlabel⟩ := typeName_injective (List.append_cancel_left hbehind)
  exact ⟨hlasts, htype, List.append_cancel_left hlabel⟩

end TreeView

/-! ### Labels on one line -/

namespace Node

/-- No token of a statement holds a line feed. -/
def OnLines (forest : List Node) : Prop := ∀ s ∈ statements forest, ∀ t ∈ s.2, '\n' ∉ t.text.toList

instance (forest : List Node) : Decidable (OnLines forest) :=
  inferInstanceAs (Decidable (∀ s ∈ statements forest, ∀ t ∈ s.2, '\n' ∉ t.text.toList))

theorem newline_notMem_intercalate {texts : List String} (h : ∀ text ∈ texts, '\n' ∉ text.toList) :
    '\n' ∉ (" ".intercalate texts).toList := by
  induction texts with
  | nil => simp
  | cons text texts ih =>
      obtain ⟨hfirst, hrest⟩ := List.forall_mem_cons.mp h
      cases texts with
      | nil => simpa using hfirst
      | cons text' texts =>
          rw [String.intercalate_cons_cons]
          simpa [hfirst] using ih hrest

theorem newline_notMem_label {forest : List Node} (h : OnLines forest) {p : List ℕ × Node}
    (hp : p ∈ walkForest forest) : '\n' ∉ p.2.label.toList := by
  obtain ⟨a, n⟩ := p
  cases n with
  | statement tokens body =>
      have hmem : (a, tokens) ∈ statements forest := mem_statements hp rfl
      refine newline_notMem_intercalate fun text htext => ?_
      obtain ⟨t, ht, rfl⟩ := List.mem_map.mp htext
      exact h _ hmem t ht
  | block children =>
      have hdigits : '\n' ∉ Nat.toDigits 10 children.length := fun hmem =>
        absurd (Text.isDigit_of_mem_toDigits _ hmem) (by decide)
      simp [label, hdigits]

/-- The forest of a text stands on its lines. -/
theorem onLines_of_outlineText {config : TrackerConfig} {text : String} {forest : List Node}
    (h : outlineText config text = .ok forest) : OnLines forest := by
  obtain ⟨raws, hraws, hstatements⟩ := exists_raws_of_outlineText h
  obtain ⟨ts, t, s', hreads, rfl⟩ := exists_reads_of_tokenize hraws
  intro s hs u hu
  obtain ⟨hmem, hk⟩ := hstatements s hs u hu
  exact Scanner.newline_notMem_of_reads hreads rfl u hmem hk

/-- Forests of one shape are walked in one way. -/
theorem map_fst_walkList_of_shapes {ns ns' : List Node} (h : shapes ns = shapes ns') (a : List ℕ) (i : ℕ) :
    (walkList a i ns).map Prod.fst = (walkList a i ns').map Prod.fst := by
  induction ns using forest_induction generalizing ns' a i with
  | nil =>
      cases ns' with
      | nil => rfl
      | cons n' ns' => simp at h
  | cons n ns ihn ihns =>
      cases ns' with
      | nil => simp at h
      | cons n' ns' =>
          obtain ⟨hinside, hbehind⟩ : shapes n.children = shapes n'.children ∧ shapes ns = shapes ns' := by
            simpa using h
          simp only [walkList_cons, List.map_append, List.map_cons, ihn hinside, ihns hbehind]

end Node

/-! ### Forests told from views -/

open Node TreeView

/-- What a view shows of the nodes of a forest: where they stand, and their types and labels. -/
def Node.shown (forest : List Node) : List (List ℕ × List Char × List Char) :=
  (walkForest forest).map fun p => (p.1, typeName p.2, truncate p.2.label.toList)

theorem treeView_eq (forest : List Node) : treeView forest =
    String.ofList ((walkForest forest).flatMap fun p => lineAt forest p.1 p.2 ++ ['\n']) := by
  rw [treeView, forestLines_eq_lineAt, List.flatMap_map]

theorem newline_notMem_lineAt {forest : List Node} (h : OnLines forest) {p : List ℕ × Node}
    (hp : p ∈ walkForest forest) : '\n' ∉ lineAt forest p.1 p.2 := by
  have hlabel := newline_notMem_label h hp
  have hguides : '\n' ∉ guidesFrom forest 0 p.1 := by
    simp only [guidesFrom, List.mem_flatMap, not_exists, not_and]
    intro d _
    split <;> simp
  have htype : '\n' ∉ typeName p.2 := by
    cases p.2 <;> simp [typeName]
  have htruncate : '\n' ∉ truncate p.2.label.toList := by
    rw [truncate]
    split
    · simpa using fun hmem => hlabel (List.mem_of_mem_take hmem)
    · exact hlabel
  have hconnector : '\n' ∉ if HasLater forest p.1 then ['├', '─'] else ['└', '─'] := by
    split <;> simp
  simp [lineAt, hguides, htype, htruncate, hconnector]

/-- The line of a node, behind guides by the nodes around it. -/
theorem lineAt_eq (forest : List Node) (a : List ℕ) (n : Node) : ∃ lasts : List Bool, lasts.length = a.length - 1 ∧
    lineAt forest a n = line (lasts.flatMap guide) (¬HasLater forest a) n := by
  refine ⟨(List.range' 0 (a.length - 1)).map fun d => ¬HasLater forest (a.take (d + 1)), by simp, ?_⟩
  have hguides : guidesFrom forest 0 a =
      ((List.range' 0 (a.length - 1)).map fun d => decide (¬HasLater forest (a.take (d + 1)))).flatMap guide := by
    rw [List.flatMap_map, guidesFrom, Nat.sub_zero]
    simp [guide]
  by_cases hlater : HasLater forest a <;> simp [lineAt, line, connector, hguides, hlater]

/-- The depths of the nodes, counted from the outermost. -/
theorem map_depth_walkForest (forest : List Node) :
    (walkForest forest).map (fun p => p.1.length - 1) = Shape.depths 0 (shapes forest) := by
  have hdepths := congrArg (List.map (·.1 - 1)) (map_walkForest forest)
  rw [List.map_map] at hdepths
  have hmarks : (marks 1 forest).map (·.1 - 1) = (Shape.depths (0 + 1) (shapes forest)).map (· - 1) := by
    rw [← map_fst_marks, List.map_map]
    rfl
  rw [hmarks, Shape.depths_succ, List.map_map] at hdepths
  simpa [Function.comp_def] using hdepths

/-- Equal views show equal nodes. -/
theorem forall₂_of_treeView_eq {forest forest' : List Node} (h : OnLines forest) (h' : OnLines forest')
    (heq : treeView forest = treeView forest') :
    List.Forall₂ (fun p q => p.1.length - 1 = q.1.length - 1 ∧ typeName p.2 = typeName q.2 ∧
      truncate p.2.label.toList = truncate q.2.label.toList) (walkForest forest) (walkForest forest') := by
  have hlines : (walkForest forest).map (fun p => lineAt forest p.1 p.2) =
      (walkForest forest').map fun p => lineAt forest' p.1 p.2 := by
    refine Text.lines_injective ?_ ?_ ?_
    · exact List.forall_mem_map.mpr fun p hp => newline_notMem_lineAt h hp
    · exact List.forall_mem_map.mpr fun p hp => newline_notMem_lineAt h' hp
    · rw [List.flatMap_map, List.flatMap_map]
      rw [treeView_eq, treeView_eq] at heq
      exact String.ofList_injective heq
  rw [← List.forall₂_eq_eq_eq, List.forall₂_map_left_iff, List.forall₂_map_right_iff] at hlines
  refine hlines.imp fun p q hline => ?_
  obtain ⟨lasts, hlength, hp⟩ := lineAt_eq forest p.1 p.2
  obtain ⟨lasts', hlength', hq⟩ := lineAt_eq forest' q.1 q.2
  rw [hp, hq] at hline
  obtain ⟨rfl, hshown⟩ := line_injective hline
  exact ⟨hlength.symm.trans hlength', hshown⟩

theorem map_eq_of_forall₂ {α β γ : Type} {f : α → γ} {g : β → γ} {xs : List α} {ys : List β}
    (h : List.Forall₂ (fun x y => f x = g y) xs ys) : xs.map f = ys.map g := by
  rwa [← List.forall₂_eq_eq_eq, List.forall₂_map_left_iff, List.forall₂_map_right_iff]

/-- The view of a forest has one line for each node from the top down, if no token holds a line feed, as is so in
every forest read from a text. A line begins with a pair of characters for each node around its own, outermost first:
a bar if that node has a later sibling, and blanks if it has none. Then comes a tee if the node itself has one, and a
corner if it has none. Two such forests with one view are of one shape, and their nodes have the same types and the
same labels, as far as labels are shown. -/
theorem treeView_tells_forest :
    (∀ config text forest, outlineText config text = .ok forest → OnLines forest) ∧
      ∀ forest, OnLines forest →
        treeView forest = String.ofList ((walkForest forest).flatMap fun p => lineAt forest p.1 p.2 ++ ['\n']) ∧
        (∀ p ∈ walkForest forest, '\n' ∉ lineAt forest p.1 p.2) ∧
        ∀ forest', OnLines forest' → treeView forest' = treeView forest →
          shapes forest' = shapes forest ∧ shown forest' = shown forest := by
  refine ⟨fun config text forest h => onLines_of_outlineText h, fun forest h => ?_⟩
  refine ⟨treeView_eq forest, fun p hp => newline_notMem_lineAt h hp, fun forest' h' heq => ?_⟩
  have hsame := forall₂_of_treeView_eq h' h heq
  have hshapes : shapes forest' = shapes forest := by
    apply Shape.depths_injective 0
    rw [← map_depth_walkForest, ← map_depth_walkForest]
    exact map_eq_of_forall₂ (hsame.imp fun _ _ h => h.1)
  have haddresses : (walkForest forest').map Prod.fst = (walkForest forest).map Prod.fst :=
    map_fst_walkList_of_shapes hshapes [] 0
  have hlabels : (walkForest forest').map (fun p => (typeName p.2, truncate p.2.label.toList)) =
      (walkForest forest).map fun p => (typeName p.2, truncate p.2.label.toList) :=
    map_eq_of_forall₂ (hsame.imp fun _ _ h => Prod.ext h.2.1 h.2.2)
  have hzip (forest : List Node) : shown forest = ((walkForest forest).map Prod.fst).zip
      ((walkForest forest).map fun p => (typeName p.2, truncate p.2.label.toList)) := List.zip_map'.symm
  exact ⟨hshapes, by rw [hzip, hzip, haddresses, hlabels]⟩

/-- A label that looks like a line of a view, and two that differ in their last character, which is cut off. -/
theorem treeView_tells_forest_cut_off :
    let name (text : String) : Token := ⟨.name, text, 1, 0, ⟨0, 0⟩⟩
    let forest (last : String) : List Node :=
      [.block [.statement [name "│ ├─ stmt: x"] [.statement [name "y"] []]],
        .statement [name ("aaaaaaaaaaaaaaaaaaaaaaaaaaaaaa" ++ last)] []]
    OnLines (forest "b") ∧ OnLines (forest "c") ∧ forest "b" ≠ forest "c" ∧
      treeView (forest "b") =
        "├─ block: 1 nodes\n│ └─ stmt: │ ├─ stmt: x\n│   └─ stmt: y\n└─ stmt: aaaaaaaaaaaaaaaaaaaaaaaaaaaaaa...\n" ∧
      shapes (forest "c") = shapes (forest "b") ∧ shown (forest "c") = shown (forest "b") ∧
      ∃ read, outlineText .strict (Sample.textAt [0, 4]) = .ok read ∧ OnLines read := by
  intro name forest
  have hb : OnLines (forest "b") := by decide +kernel
  have hc : OnLines (forest "c") := by decide +kernel
  have hview : treeView (forest "b") =
      "├─ block: 1 nodes\n│ └─ stmt: │ ├─ stmt: x\n│   └─ stmt: y\n└─ stmt: aaaaaaaaaaaaaaaaaaaaaaaaaaaaaa...\n" := by
    decide +kernel
  have hsame : treeView (forest "c") = treeView (forest "b") := by decide +kernel
  have houtline : outlineText .strict (Sample.textAt [0, 4]) = .ok
      [.statement [Sample.nameToken "t1" 1 0 0] [.statement [Sample.nameToken "t2" 2 4 7] []]] := by decide +kernel
  obtain ⟨hread, hforest⟩ := treeView_tells_forest
  obtain ⟨-, -, htell⟩ := hforest (forest "b") hb
  obtain ⟨hshapes, hshown⟩ := htell (forest "c") hc hsame
  exact ⟨hb, hc, by decide +kernel, hview, hshapes, hshown, _, houtline, hread _ _ _ houtline⟩

end LayoutRule
