import LayoutRule.Proofs.Tree.Attempts
import LayoutRule.Sample
import Mathlib.Tactic.IntervalCases

/-! # Where an outline breaks off

A token list without an outline is refused at the end of its longest viable beginning: at the token behind
it, or at the end of the list if all of it is viable. The rules of the grammar get no further. -/

namespace LayoutRule

/-- The tokens begin some list that has an outline. -/
def Viable (ts : List Token) : Prop :=
  ∃ rest forest, outline (ts ++ rest) = .ok forest

namespace Outline

/-! ### Viable beginnings are those that are taken -/

theorem Takes.split {o o' : Outline} {ts us : List Token} (h : Takes o (ts ++ us) o') :
    ∃ mid, Takes o ts mid ∧ Takes mid us o' := by
  induction ts generalizing o with
  | nil => exact ⟨o, .nil, h⟩
  | cons t ts ih =>
      cases h with
      | cons hstep hrest =>
          obtain ⟨mid, htakes, hbehind⟩ := ih hrest
          exact ⟨mid, .cons hstep htakes, hbehind⟩

theorem Takes.unique {o o' o'' : Outline} {ts : List Token} (h : Takes o ts o') (h' : Takes o ts o'') :
    o' = o'' := by
  induction h with
  | nil => cases h'; rfl
  | cons hstep _ ih =>
      cases h' with
      | cons hstep' hrest =>
          rw [hstep] at hstep'
          obtain rfl := Option.some.inj hstep'
          exact ih hrest

theorem takes_of_run {o : Outline} {last : Option Token} {ts : List Token} {forest : List Node}
    (h : o.run last ts = .ok forest) : ∃ o', Takes o ts o' := by
  induction ts generalizing o last with
  | nil => exact ⟨o, .nil⟩
  | cons t ts ih =>
      cases hstep : o.step? t with
      | none => simp [run, hstep] at h
      | some next =>
          obtain ⟨o', htakes⟩ := ih (by simpa [run, hstep] using h)
          exact ⟨o', .cons hstep htakes⟩

/-- From any place but the end, the open blocks can be closed and the input ended. -/
theorem exists_completion {o : Outline} (ho : o.place ≠ .finished) :
    ∃ rest forest, ∀ last, o.run last rest = .ok forest := by
  let final := Token.endOfInput 1 0 0
  induction h : o.enclosing generalizing o with
  | nil => exact ⟨[final], _, run_final ho h rfl⟩
  | cons node outer ih =>
      obtain ⟨siblings, hclose, -⟩ := closeBlock_eq ho h
      have hstep : o.step? final.blockDedent = some ⟨.ready, siblings, outer⟩ := hclose
      obtain ⟨rest, forest, hrest⟩ := ih (o := ⟨.ready, siblings, outer⟩) (by simp) rfl
      exact ⟨final.blockDedent :: rest, forest, fun last => by simp [run, hstep, hrest]⟩

theorem viable_iff_takes (ts : List Token) : Viable ts ↔ ∃ o, Takes start ts o := by
  constructor
  · rintro ⟨rest, forest, h⟩
    obtain ⟨o, htakes⟩ := takes_of_run h
    obtain ⟨mid, hmid, -⟩ := htakes.split
    exact ⟨mid, hmid⟩
  · rintro ⟨o, htakes⟩
    by_cases hplace : o.place = .finished
    · obtain ⟨last, hrun⟩ := htakes.run none []
      exact ⟨[], o.siblings.reverse, by rw [outline, hrun]; simp [run, hplace]⟩
    · obtain ⟨rest, forest, hrest⟩ := exists_completion hplace
      obtain ⟨last, hrun⟩ := htakes.run none rest
      exact ⟨rest, forest, by rw [outline, hrun, hrest]⟩

/-- Where an outline breaks off, the longest viable beginning ends. -/
theorem BreaksOff.viable {ts far : List Token} (h : start.BreaksOff ts far) :
    ∃ p ≤ ts.length, ts.drop p = far ∧ Viable (ts.take p) ∧ ∀ q ≤ ts.length, Viable (ts.take q) → q ≤ p := by
  obtain ⟨before, o, rfl, htakes, hnone, -⟩ := h
  refine ⟨before.length, by simp, List.drop_left, ?_, fun q hq hviable => ?_⟩
  · rw [List.take_left]
    exact (viable_iff_takes before).mpr ⟨o, htakes⟩
  · by_contra hlonger
    obtain ⟨k, rfl⟩ := Nat.exists_eq_add_of_lt (Nat.lt_of_not_le hlonger)
    cases far with
    | nil =>
        rw [List.append_nil] at hq
        exact hlonger hq
    | cons t far =>
        rw [viable_iff_takes, Nat.add_assoc, List.take_length_add_append, List.take_succ_cons] at hviable
        obtain ⟨o', htakes'⟩ := hviable
        obtain ⟨mid, hmid, hbehind⟩ := htakes'.split
        obtain rfl := htakes.unique hmid
        cases hbehind with
        | cons hstep _ => simp [hnone t rfl] at hstep

end Outline

open Outline in
/-- An outline that fails does so at the end of the longest viable beginning: with the place, kind and text
of the token behind it, or, if all tokens are viable, with the place of the last of them. It is also the
furthest place at which a token did not fit when the rules of the grammar are tried in order. -/
theorem outline_breaks_off_behind_viable {tokens : List Token} {e : OutlineError}
    (h : outline tokens = .error e) :
    ∃ p ≤ tokens.length, Viable (tokens.take p) ∧
      (∀ q ≤ tokens.length, Viable (tokens.take q) → q ≤ p) ∧
      (Rule.program tokens).result = none ∧ Furthest (Rule.program tokens).misses (tokens.drop p) ∧
      (∀ t, tokens[p]? = some t → e.line = t.line ∧ e.column = t.column ∧
        e.found = "unexpected " ++ t.kind.label ++ " " ++ quoted t.text) ∧
      (p = tokens.length → e.found = "unexpected end of token stream" ∧
        (e.line, e.column) = (tokens.getLast?.map fun t => (t.line, t.column)).getD (1, 0)) := by
  rcases program_follows tokens with ⟨forest, -, hok⟩ | ⟨far, hresult, hfar, hbreaks⟩
  · rw [hok] at h
    cases h
  · have herror := hbreaks.run none
    obtain rfl := Except.error.inj (h.symm.trans herror)
    obtain ⟨p, hp, rfl, hviable, hlongest⟩ := hbreaks.viable
    refine ⟨p, hp, hviable, hlongest, hresult, hfar, fun t ht => ?_, ?_⟩
    · obtain ⟨hless, rfl⟩ := List.getElem?_eq_some_iff.mp ht
      rw [List.drop_eq_getElem_cons hless]
      exact ⟨rfl, rfl, rfl⟩
    · rintro rfl
      rw [List.drop_length]
      cases tokens.getLast? <;> simp [errorAt, OutlineError.found, OutlineError.line, OutlineError.column]

/-- A statement with a block that the end of the input cuts off. -/
def cutBlock : List Token :=
  let inner := Sample.nameToken "t2" 2 4 7
  [Sample.nameToken "t1" 1 0 0, inner.blockOpen, inner, .endOfInput 2 6 9]

/-- The rules drop the block and leave the statement alone; the outline names the end token inside. -/
theorem outline_breaks_off_behind_viable_cutBlock :
    outline cutBlock = .error (.unexpectedToken (.endOfInput 2 6 9)) ∧ Viable (cutBlock.take 3) ∧
      ¬Viable (cutBlock.take 4) ∧ Furthest (Rule.program cutBlock).misses (cutBlock.drop 3) := by
  have herror : outline cutBlock = .error (.unexpectedToken (.endOfInput 2 6 9)) := rfl
  obtain ⟨p, hp, hviable, hlongest, -, hfar, htoken, hend⟩ := outline_breaks_off_behind_viable herror
  obtain rfl : p = 3 := by
    have hp : p ≤ 4 := hp
    interval_cases p
    · exact absurd (htoken _ rfl).1 (by decide)
    · exact absurd (htoken _ rfl).2.1 (by decide)
    · exact absurd (htoken _ rfl).2.1 (by decide)
    · rfl
    · exact absurd (hend rfl).1 (by decide +kernel)
  exact ⟨herror, hviable, fun h => absurd (hlongest 4 le_rfl h) (by decide), hfar⟩

end LayoutRule
