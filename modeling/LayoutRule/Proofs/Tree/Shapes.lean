import LayoutRule.Proofs.Tree.Marks

/-! # Shapes

The shape of a forest is what is left of it without tokens and kinds of nodes. It can be told from the depths of
the nodes from the top down. -/

namespace LayoutRule

/-- A node with nothing but what stands in it. -/
inductive Shape where
  | branch (inner : List Shape)

namespace Shape

/-- The depths of the nodes of a forest from the top down. -/
def depths (depth : ℕ) : List Shape → List ℕ
  | [] => []
  | .branch inner :: shapes => depth :: depths (depth + 1) inner ++ depths depth shapes

@[simp] theorem depths_nil (depth : ℕ) : depths depth [] = [] := by simp [depths]

@[simp] theorem depths_cons (depth : ℕ) (inner shapes : List Shape) :
    depths depth (.branch inner :: shapes) = depth :: depths (depth + 1) inner ++ depths depth shapes := by
  simp [depths]

/-- A property of forests holds of a first tree if it holds of the forest in it and of the rest. -/
@[elab_as_elim]
theorem forest_induction {motive : List Shape → Prop} (nil : motive [])
    (cons : ∀ inner shapes, motive inner → motive shapes → motive (.branch inner :: shapes)) :
    ∀ shapes, motive shapes
  | [] => nil
  | .branch inner :: shapes =>
      cons inner shapes (forest_induction nil cons inner) (forest_induction nil cons shapes)

theorem depths_succ (depth : ℕ) (shapes : List Shape) :
    depths (depth + 1) shapes = (depths depth shapes).map (· + 1) := by
  induction shapes using forest_induction generalizing depth with
  | nil => simp
  | cons inner shapes ihinner ihshapes => simp [ihinner, ihshapes]

theorem le_of_mem_depths {depth : ℕ} {shapes : List Shape} : ∀ d ∈ depths depth shapes, depth ≤ d := by
  induction shapes using forest_induction generalizing depth with
  | nil => simp
  | cons inner shapes ihinner ihshapes =>
      intro d hd
      rw [depths_cons] at hd
      rcases List.mem_append.mp hd with hd | hd
      · rcases List.mem_cons.mp hd with rfl | hd
        · exact le_rfl
        · exact Nat.le_of_succ_le (ihinner d hd)
      · exact ihshapes d hd

theorem eq_of_mem_head?_depths {depth : ℕ} {shapes : List Shape} : ∀ d ∈ (depths depth shapes).head?, d = depth := by
  cases shapes with
  | nil => simp
  | cons shape shapes =>
      obtain ⟨inner⟩ := shape
      simp

/-! ### Shapes told from depths -/

/-- The forest in a node ends where the walk comes up to the depth of the node. -/
theorem takeWhile_depths (depth : ℕ) (inner shapes : List Shape) :
    (depths (depth + 1) inner ++ depths depth shapes).takeWhile (depth < ·) = depths (depth + 1) inner := by
  have hinner : ∀ d ∈ depths (depth + 1) inner, decide (depth < d) = true := fun d hd =>
    decide_eq_true (le_of_mem_depths d hd)
  rw [List.takeWhile_append_of_pos hinner]
  cases hdepths : depths depth shapes with
  | nil => simp
  | cons d ds =>
      have hfirst : d ∈ (depths depth shapes).head? := by simp [hdepths]
      obtain rfl := eq_of_mem_head?_depths d hfirst
      simp

theorem depths_injective (depth : ℕ) : Function.Injective (depths depth) := by
  intro shapes
  induction shapes using forest_induction generalizing depth with
  | nil =>
      intro shapes' h
      cases shapes' with
      | nil => rfl
      | cons shape' shapes' =>
          obtain ⟨inner'⟩ := shape'
          simp at h
  | cons inner shapes ihinner ihshapes =>
      intro shapes' h
      cases shapes' with
      | nil => simp at h
      | cons shape' shapes' =>
          obtain ⟨inner'⟩ := shape'
          have hbehind : depths (depth + 1) inner ++ depths depth shapes =
              depths (depth + 1) inner' ++ depths depth shapes' := by simpa using h
          have hinner : depths (depth + 1) inner = depths (depth + 1) inner' := by
            have htake := congrArg (List.takeWhile (depth < ·)) hbehind
            rwa [takeWhile_depths, takeWhile_depths] at htake
          rw [hinner] at hbehind
          rw [ihinner (depth + 1) hinner, ihshapes depth (List.append_cancel_left hbehind)]

/-- A walk goes down one step at a time. -/
theorem isChain_depths {depth before : ℕ} (h : depth ≤ before + 1) (shapes : List Shape) :
    (before :: depths depth shapes).IsChain fun d d' => d' ≤ d + 1 := by
  induction shapes using forest_induction generalizing depth before with
  | nil => simp
  | cons inner shapes ihinner ihshapes =>
      rw [depths_cons, List.cons_append, List.isChain_cons_cons]
      refine ⟨h, ?_⟩
      have hbehind : (depths depth shapes).IsChain fun d d' => d' ≤ d + 1 :=
        (ihshapes (Nat.le_succ depth)).tail
      refine List.IsChain.append (ihinner le_rfl) hbehind ?_
      intro d hd d' hd'
      obtain rfl := eq_of_mem_head?_depths d' hd'
      have hle : d' ≤ d := by
        rcases List.mem_cons.mp (List.mem_of_getLast? hd) with rfl | hd
        · exact le_rfl
        · exact Nat.le_of_succ_le (le_of_mem_depths d hd)
      exact Nat.le_succ_of_le hle

end Shape

namespace Node

/-- The shape of a forest. -/
def shapes : List Node → List Shape
  | [] => []
  | .statement _ body :: ns => .branch (shapes body) :: shapes ns
  | .block children :: ns => .branch (shapes children) :: shapes ns

@[simp] theorem shapes_nil : shapes [] = [] := by simp [shapes]

@[simp] theorem shapes_cons (n : Node) (ns : List Node) :
    shapes (n :: ns) = .branch (shapes n.children) :: shapes ns := by
  cases n <;> simp [shapes, children]

theorem map_fst_marks (depth : ℕ) (ns : List Node) :
    (marks depth ns).map Prod.fst = Shape.depths depth (shapes ns) := by
  induction ns using forest_induction generalizing depth with
  | nil => simp
  | cons n ns ihn ihns => simp [ihn, ihns]

end Node

end LayoutRule
