import LayoutRule.Proofs.Tree.Refusal

/-! # Outlines by kinds

An outline goes by the kinds of tokens and takes the rest along unseen. Behind a line break it takes another
one without a trace. -/

namespace LayoutRule

/-! ### Changed tokens -/

/-- The forest with each token changed. -/
def Node.mapTokens (f : Token → Token) : List Node → List Node
  | [] => []
  | .statement tokens body :: ns => .statement (tokens.map f) (mapTokens f body) :: mapTokens f ns
  | .block children :: ns => .block (mapTokens f children) :: mapTokens f ns

def OpenNode.mapTokens (f : Token → Token) (node : OpenNode) : OpenNode :=
  ⟨Node.mapTokens f node.before, node.header.map f⟩

def Place.mapTokens (f : Token → Token) : Place → Place
  | .leading => .leading
  | .ready => .ready
  | .inLine tokens => .inLine (tokens.map f)
  | .behindLine tokens => .behindLine (tokens.map f)
  | .finished => .finished

def Outline.mapTokens (f : Token → Token) (o : Outline) : Outline :=
  ⟨o.place.mapTokens f, Node.mapTokens f o.siblings, o.enclosing.map (OpenNode.mapTokens f)⟩

variable {f : Token → Token}

namespace Node

theorem mapTokens_append (ms ns : List Node) : mapTokens f (ms ++ ns) = mapTokens f ms ++ mapTokens f ns := by
  induction ms with
  | nil => simp [mapTokens]
  | cons n ms ih => cases n <;> simp [mapTokens, ih]

theorem mapTokens_reverse (ns : List Node) : mapTokens f ns.reverse = (mapTokens f ns).reverse := by
  induction ns with
  | nil => simp [mapTokens]
  | cons n ns ih => cases n <;> simp [mapTokens, mapTokens_append, ih]

/-- Only what becomes of the tokens in its statements counts for a forest. -/
theorem mapTokens_congr {f g : Token → Token} (a : List ℕ) (i : ℕ) {ns : List Node}
    (h : ∀ p ∈ walkList a i ns, ∀ tokens ∈ p.2.tokens?, ∀ t ∈ tokens, f t = g t) :
    mapTokens f ns = mapTokens g ns := by
  induction ns using forest_induction generalizing a i with
  | nil => simp [mapTokens]
  | cons n ns ihn ihns =>
      rw [walkList_cons, List.forall_mem_append, List.forall_mem_cons] at h
      obtain ⟨⟨hnode, hinside⟩, hbehind⟩ := h
      have hinside := ihn _ _ hinside
      have hbehind := ihns _ _ hbehind
      cases n with
      | statement tokens body =>
          have htokens : tokens.map f = tokens.map g := List.map_congr_left (hnode tokens rfl)
          simpa [mapTokens, htokens, hbehind] using hinside
      | block children => simpa [mapTokens, hbehind] using hinside

end Node

namespace Outline

theorem mapTokens_nodeOf (header : List Token) (children before : List Node) :
    nodeOf (header.map f) (Node.mapTokens f children) :: Node.mapTokens f before =
      Node.mapTokens f (nodeOf header children :: before) := by
  cases header <;> simp [nodeOf, Node.mapTokens]

theorem settled_mapTokens (o : Outline) : (o.mapTokens f).settled = Node.mapTokens f o.settled := by
  obtain ⟨place, siblings, enclosing⟩ := o
  cases place <;> simp [settled, mapTokens, Place.mapTokens, Node.mapTokens]

theorem header_mapTokens (o : Outline) : (o.mapTokens f).header = o.header.map f := by
  obtain ⟨place, siblings, enclosing⟩ := o
  cases place <;> simp [header, mapTokens, Place.mapTokens]

/-! ### One token -/

theorem takeOrdinary_mapTokens (o : Outline) (t : Token) :
    (o.mapTokens f).takeOrdinary (f t) = (o.takeOrdinary t).map (mapTokens f) := by
  have hsettled := settled_mapTokens (f := f) o
  obtain ⟨place, siblings, enclosing⟩ := o
  cases place <;> simp_all [takeOrdinary, mapTokens, Place.mapTokens]

theorem takeLineBreak_mapTokens (o : Outline) :
    (o.mapTokens f).takeLineBreak = o.takeLineBreak.map (mapTokens f) := by
  obtain ⟨place, siblings, enclosing⟩ := o
  cases place <;> simp [takeLineBreak, mapTokens, Place.mapTokens]

theorem openBlock_mapTokens (o : Outline) : (o.mapTokens f).openBlock = o.openBlock.map (mapTokens f) := by
  have hheader := header_mapTokens (f := f) o
  obtain ⟨place, siblings, enclosing⟩ := o
  cases place <;> simp_all [openBlock, mapTokens, Place.mapTokens, OpenNode.mapTokens, Node.mapTokens]

theorem closeBlock_mapTokens (o : Outline) : (o.mapTokens f).closeBlock = o.closeBlock.map (mapTokens f) := by
  have hsettled := settled_mapTokens (f := f) o
  obtain ⟨place, siblings, enclosing⟩ := o
  cases enclosing with
  | nil => cases place <;> rfl
  | cons node outer =>
      have hnode (settled : List Node) :
          nodeOf (node.header.map f) (Node.mapTokens f settled).reverse :: Node.mapTokens f node.before =
            Node.mapTokens f (nodeOf node.header settled.reverse :: node.before) := by
        rw [← Node.mapTokens_reverse, mapTokens_nodeOf]
      cases place <;>
        simp_all [closeBlock, mapTokens, Place.mapTokens, OpenNode.mapTokens]

theorem finish_mapTokens (o : Outline) : (o.mapTokens f).finish = o.finish.map (mapTokens f) := by
  have hsettled := settled_mapTokens (f := f) o
  obtain ⟨place, siblings, enclosing⟩ := o
  cases enclosing <;> cases place <;> simp_all [finish, mapTokens, Place.mapTokens]

/-- Tokens of the same kind are taken alike. -/
theorem step?_mapTokens (hf : ∀ t, (f t).kind = t.kind) (o : Outline) (t : Token) :
    (o.mapTokens f).step? (f t) = (o.step? t).map (mapTokens f) := by
  unfold step?
  rw [hf]
  split
  · exact takeLineBreak_mapTokens o
  · exact openBlock_mapTokens o
  · exact closeBlock_mapTokens o
  · exact finish_mapTokens o
  · exact takeOrdinary_mapTokens o t

/-! ### All tokens -/

theorem run_mapTokens (hf : ∀ t, (f t).kind = t.kind) {o : Outline} {last : Option Token} {ts : List Token}
    {forest : List Node} (h : o.run last ts = .ok forest) (last' : Option Token) :
    (o.mapTokens f).run last' (ts.map f) = .ok (Node.mapTokens f forest) := by
  induction ts generalizing o last last' with
  | nil =>
      obtain ⟨place, siblings, enclosing⟩ := o
      cases place <;> simp_all [run, mapTokens, Place.mapTokens]
      rw [← h, Node.mapTokens_reverse]
  | cons t ts ih =>
      cases hstep : o.step? t with
      | none => simp [run, hstep] at h
      | some next =>
          have hrest : next.run (some t) ts = .ok forest := by simpa [run, hstep] using h
          rw [List.map_cons, run, step?_mapTokens hf, hstep]
          exact ih hrest (some (f t))

/-- What was taken last counts only in an error. -/
theorem run_of_run {o : Outline} {last : Option Token} {ts : List Token} {forest : List Node}
    (h : o.run last ts = .ok forest) (last' : Option Token) : o.run last' ts = .ok forest := by
  cases ts with
  | nil =>
      obtain ⟨place, siblings, enclosing⟩ := o
      cases place <;> simp_all [run]
  | cons t ts => exact h

/-! ### Another line break -/

/-- A line begins behind the tokens. -/
def LineBegins (ts : List Token) : Prop := ∀ t ∈ ts.getLast?, t.kind = .lineBreak

theorem takeLineBreak_idem {o next : Outline} (h : o.takeLineBreak = some next) :
    next.takeLineBreak = some next := by
  obtain ⟨place, siblings, enclosing⟩ := o
  cases place <;> simp_all [takeLineBreak] <;> simp [← h]

/-- Where a line begins, a line break changes nothing. -/
theorem step?_lineBreak_of_lineBegins {o : Outline} {ts : List Token} (h : Takes start ts o) (hts : LineBegins ts)
    {lb : Token} (hk : lb.kind = .lineBreak) : o.step? lb = some o := by
  have hstep (o : Outline) {t : Token} (ht : t.kind = .lineBreak) : o.step? t = o.takeLineBreak := by
    simp [step?, ht]
  rw [hstep o hk]
  rcases List.eq_nil_or_concat ts with rfl | ⟨front, t, rfl⟩
  · cases h
    rfl
  · rw [List.concat_eq_append] at h hts
    obtain ⟨mid, -, hlast⟩ := h.split
    cases hlast with
    | cons htaken hnil =>
        cases hnil
        rw [hstep mid (hts t (by simp))] at htaken
        exact takeLineBreak_idem htaken

end Outline

theorem outline_mapTokens (hf : ∀ t, (f t).kind = t.kind) {tokens : List Token} {forest : List Node}
    (h : outline tokens = .ok forest) : outline (tokens.map f) = .ok (Node.mapTokens f forest) := by
  have hstart : Outline.start.mapTokens f = Outline.start := by
    simp [Outline.mapTokens, Outline.start, Place.mapTokens, Node.mapTokens]
  have hrun := Outline.run_mapTokens hf h none
  rwa [hstart] at hrun

/-- A line break where a line begins is not seen in the forest. -/
theorem outline_insert_lineBreak {above below : List Token} (habove : Outline.LineBegins above) {lb : Token}
    (hk : lb.kind = .lineBreak) {forest : List Node} (h : outline (above ++ below) = .ok forest) :
    outline (above ++ lb :: below) = .ok forest := by
  obtain ⟨o, htakes⟩ := Outline.takes_of_run h
  obtain ⟨mid, hmid, -⟩ := htakes.split
  have hlb := hmid.append (.cons (Outline.step?_lineBreak_of_lineBegins hmid habove hk) .nil)
  obtain ⟨last, hwithout⟩ := hmid.run none below
  obtain ⟨last', hwith⟩ := hlb.run none below
  rw [List.append_assoc, List.singleton_append] at hwith
  rw [outline, hwith]
  exact Outline.run_of_run (hwithout.symm.trans h) last'

end LayoutRule
