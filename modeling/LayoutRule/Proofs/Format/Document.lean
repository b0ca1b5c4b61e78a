import LayoutRule.Format.Document
import LayoutRule.Proofs.Json.Reading
import LayoutRule.Proofs.Tree.Walk
import Mathlib.Data.List.MinMax

/-! # Documents told apart

Every field of a token, and every part of a tree, has a place of its own in a document. So tokens and trees can be
told from their documents, and documents from their texts. -/

namespace LayoutRule

/-! ### Tokens -/

namespace Token

variable {P : ℤ → Prop} {t u : Token}

/-- The numbers of a token have a property. -/
def Numbers (P : ℤ → Prop) (t : Token) : Prop := P t.line ∧ P t.column ∧ P t.span.start ∧ P t.span.stop

/-- The numbers of a token are of 64 bits. -/
def OfWords (t : Token) : Prop :=
  t.line < Number.wordLimit ∧ t.column < Number.wordLimit ∧ t.span.start < Number.wordLimit ∧
    t.span.stop < Number.wordLimit

instance (t : Token) : Decidable t.OfWords := inferInstanceAs (Decidable (_ ∧ _))

theorem OfWords.numbers (h : t.OfWords) : t.Numbers Json.Fits := by
  have hfits {n : ℕ} (hn : n < Number.wordLimit) : Json.Fits n := ⟨by omega, Int.ofNat_lt.mpr hn⟩
  exact ⟨hfits h.1, hfits h.2.1, hfits h.2.2.1, hfits h.2.2.2⟩

theorem plain_toJson (h : t.Numbers P) : Json.Plain P 2 t.toJson := by
  obtain ⟨hline, hcolumn, hstart, hstop⟩ := h
  have hspan : Json.Plain P 1 t.span.toJson := by
    refine .object (by simp) ?_
    simp only [List.forall_mem_cons, List.not_mem_nil, false_implies, implies_true, and_true]
    exact ⟨.integer hstart, .integer hstop⟩
  refine .object (by simp) ?_
  simp only [List.forall_mem_cons, List.not_mem_nil, false_implies, implies_true, and_true]
  exact ⟨.string _, .string _, .integer hline, .integer hcolumn, hspan⟩

theorem toJson_injective (h : t.toJson = u.toJson) : t = u := by
  obtain ⟨kind, text, line, column, ⟨start, stop⟩⟩ := t
  obtain ⟨kind', text', line', column', ⟨start', stop'⟩⟩ := u
  simp only [toJson, Span.toJson, Json.nat, Json.object.injEq, List.cons.injEq, Prod.mk.injEq, Json.string.injEq,
    Json.integer.injEq, Int.natCast_inj, and_true, true_and] at h
  obtain ⟨htag, rfl, rfl, rfl, rfl, rfl⟩ := h
  have hkind := congrArg TokenKind.ofTag? htag
  simp only [TokenKind.ofTag?_tag, Option.some.injEq] at hkind
  rw [hkind]

theorem map_toJson_injective {ts us : List Token} (h : ts.map toJson = us.map toJson) : ts = us :=
  List.map_injective_iff.mpr (fun _ _ => toJson_injective) h

end Token

theorem plain_tokensDocument {P : ℤ → Prop} {ts : List Token} (h : ∀ t ∈ ts, t.Numbers P) :
    Json.Plain P 3 (tokensDocument ts) :=
  .array (List.forall_mem_map.mpr fun t ht => Token.plain_toJson (h t ht))

theorem tokensDocument_injective {ts us : List Token} (h : tokensDocument ts = tokensDocument us) : ts = us :=
  Token.map_toJson_injective (Json.array.inj h)

/-! ### Forests -/

namespace Node

/-- How many nodes there are on the way from the top to the deepest one. -/
def height (forest : List Node) : ℕ := ((walkForest forest).map (·.1.length)).foldr max 0

theorem length_le_height {forest : List Node} : ∀ p ∈ walkForest forest, p.1.length ≤ height forest := by
  intro p hp
  exact List.le_max_of_le' 0 (List.mem_map_of_mem hp) le_rfl

/-- The values of trees hold three containers for each level of the trees, and two for a token. -/
theorem plain_listToJson {P : ℤ → Prop} {ns : List Node} {a : List ℕ} {i h : ℕ}
    (hheight : ∀ p ∈ walkList a i ns, p.1.length ≤ a.length + h)
    (htokens : ∀ p ∈ walkList a i ns, ∀ tokens ∈ p.2.tokens?, ∀ t ∈ tokens, t.Numbers P) :
    ∀ j ∈ listToJson ns, Json.Plain P (3 * h + 2) j := by
  induction ns using forest_induction generalizing a i h with
  | nil => simp [listToJson]
  | cons n ns ihn ihns =>
      rw [walkList_cons] at hheight htokens
      simp only [List.cons_append, List.forall_mem_cons, List.forall_mem_append] at hheight htokens
      obtain ⟨hnode, hinside, hbehind⟩ := hheight
      obtain ⟨htokens, htokensInside, htokensBehind⟩ := htokens
      obtain ⟨k, rfl⟩ : ∃ k, h = k + 1 := by
        refine Nat.exists_eq_succ_of_ne_zero ?_
        rintro rfl
        rw [List.length_append, List.length_singleton] at hnode
        omega
      have hchildren := ihn (h := k) (fun p hp => by
        have hle := hinside p hp
        rw [List.length_append, List.length_singleton]
        omega) htokensInside
      have hrest := ihns hbehind htokensBehind
      rw [listToJson]
      refine List.forall_mem_cons.mpr ⟨?_, hrest⟩
      cases n with
      | statement tokens body =>
          have htokens : Json.Plain P (3 * k + 3) (.array (tokens.map Token.toJson)) :=
            .array (List.forall_mem_map.mpr fun t ht =>
              (Token.plain_toJson (htokens tokens rfl t ht)).mono (by omega))
          have hbody : Json.Plain P (3 * k + 3) (.array (listToJson body)) := .array hchildren
          have hparts : Json.Plain P (3 * k + 4)
              (.object [("tokens", .array (tokens.map Token.toJson)), ("body", .array (listToJson body))]) :=
            .object (by simp) (by simpa using ⟨htokens, hbody⟩)
          exact .object (by simp) (List.forall_mem_singleton.mpr hparts)
      | block children =>
          have hparts : Json.Plain P (3 * k + 3) (.array (listToJson children)) := .array hchildren
          exact .object (by simp) (List.forall_mem_singleton.mpr (hparts.mono (Nat.le_succ _)))

theorem listToJson_injective {ns ms : List Node} (h : listToJson ns = listToJson ms) : ns = ms := by
  induction ns using forest_induction generalizing ms with
  | nil =>
      cases ms with
      | nil => rfl
      | cons m ms => simp [listToJson] at h
  | cons n ns ihn ihns =>
      cases ms with
      | nil => simp [listToJson] at h
      | cons m ms =>
          simp only [listToJson, List.cons.injEq] at h
          obtain ⟨hnode, hrest⟩ := h
          obtain rfl := ihns hrest
          congr 1
          cases n with
          | statement tokens body =>
              cases m with
              | statement tokens' body' =>
                  simp only [toJson, Json.object.injEq, List.cons.injEq, Prod.mk.injEq, Json.array.injEq, and_true,
                    true_and] at hnode
                  obtain rfl : body = body' := ihn hnode.2
                  rw [Token.map_toJson_injective hnode.1]
              | block children' => simp [toJson] at hnode
          | block children =>
              cases m with
              | statement tokens' body' => simp [toJson] at hnode
              | block children' =>
                  simp only [toJson, Json.object.injEq, List.cons.injEq, Prod.mk.injEq, Json.array.injEq, and_true,
                    true_and] at hnode
                  obtain rfl : children = children' := ihn hnode
                  rfl

theorem plain_forestDocument {P : ℤ → Prop} {forest : List Node}
    (h : ∀ s ∈ statements forest, ∀ t ∈ s.2, t.Numbers P) :
    Json.Plain P (3 * height forest + 3) (forestDocument forest) := by
  refine .array (plain_listToJson (a := []) (i := 0) (fun p hp => ?_) fun p hp tokens htokens t ht => ?_)
  · simpa using length_le_height p hp
  · exact h (p.1, tokens) (mem_statements hp htokens) t ht

theorem forestDocument_injective {ns ms : List Node} (h : forestDocument ns = forestDocument ms) : ns = ms :=
  listToJson_injective (Json.array.inj h)

end Node

open Node

/-- Two token lists with one text are equal, and so are two forests. The text of a token list is read back to its
document, and so is the text of a forest by a reader that allows as many containers around a place as there are in it,
three for each level of the forest and three more, if all numbers are of 64 bits. -/
theorem json_tells_tokens_and_forests :
    (∀ ts us : List Token, (tokensDocument ts).prettyText = (tokensDocument us).prettyText → ts = us) ∧
      (∀ ns ms : List Node, (forestDocument ns).prettyText = (forestDocument ms).prettyText → ns = ms) ∧
      (∀ ts : List Token, (∀ t ∈ ts, t.OfWords) →
        Json.read? (tokensDocument ts).prettyText = some (tokensDocument ts)) ∧
      ∀ (ns : List Node) (limit : ℕ), (∀ s ∈ statements ns, ∀ t ∈ s.2, t.OfWords) → 3 * height ns + 3 ≤ limit →
        Json.readWithin? limit (forestDocument ns).prettyText = some (forestDocument ns) := by
  have hany (t : Token) : t.Numbers fun _ => True := ⟨trivial, trivial, trivial, trivial⟩
  refine ⟨fun ts us h => ?_, fun ns ms h => ?_, fun ts hts => ?_, fun ns limit hns hlimit => ?_⟩
  · have hplain (ts : List Token) : Json.Plain (fun _ => True) 3 (tokensDocument ts) :=
      plain_tokensDocument fun t _ => hany t
    exact tokensDocument_injective ((hplain ts).prettyText_injective (hplain us) h)
  · have hplain (ns : List Node) : Json.Plain (fun _ => True) (3 * height ns + 3) (forestDocument ns) :=
      plain_forestDocument fun _ _ t _ => hany t
    exact forestDocument_injective ((hplain ns).prettyText_injective (hplain ms) h)
  · have hplain := plain_tokensDocument fun t ht => (hts t ht).numbers
    exact hplain.readWithin?_prettyText (by decide)
  · have hplain := plain_forestDocument fun s hs t ht => (hns s hs t ht).numbers
    exact hplain.readWithin?_prettyText hlimit

/-- A text that looks like a part of a document, with a quote, a backslash, a line feed, a control and letters beyond
the ASCII characters, in a tree that holds nodes with nothing in them. -/
theorem json_tells_tokens_and_forests_escaped :
    let token : Token := ⟨.string, "\"kind\": \\\n\x01é😀\", \x7b", 2, 18446744073709551615, ⟨0, 7⟩⟩
    let forest : List Node := [.statement [token, token] [.block [], .statement [] []], .block []]
    token.OfWords ∧ height forest = 2 ∧
      Json.stringText token.text = "\"\\\"kind\\\": \\\\\\n\\u0001é😀\\\", \x7b\"".toList ∧
      Json.read? (tokensDocument [token]).prettyText = some (tokensDocument [token]) ∧
      Json.readWithin? 9 (forestDocument forest).prettyText = some (forestDocument forest) ∧
      (forestDocument [.statement [] []]).prettyText ≠ (forestDocument [.block []]).prettyText := by
  intro token forest
  have htoken : token.OfWords := by decide
  have htokens : ∀ s ∈ statements forest, ∀ t ∈ s.2, t.OfWords := by decide +kernel
  have hheight : height forest = 2 := by decide +kernel
  have hdistinct : ([.statement [] []] : List Node) ≠ [.block []] := by decide
  obtain ⟨-, hforests, hreadTokens, hreadForest⟩ := json_tells_tokens_and_forests
  exact ⟨htoken, hheight, by decide +kernel, hreadTokens _ (List.forall_mem_singleton.mpr htoken),
    hreadForest _ 9 htokens (by rw [hheight]), fun h => hdistinct (hforests _ _ h)⟩

end LayoutRule
