import LayoutRule.Proofs.Tracker.Failures
import Mathlib.Order.Monotone.Basic

/-! # Relabelling

The tracker looks at columns only to compare them, and it never looks at lines or spans. So it makes the same of
tokens that stand at other places, as long as their columns come in the same order and column 0 stays. -/

namespace LayoutRule

open TokenSource

universe u v

/-- Other places for tokens: columns keep their order and column 0 stays, lines and spans become anything. -/
structure Relabelling where
  line : ℕ → ℕ
  column : ℕ → ℕ
  span : Span → Span
  strictMono : StrictMono column
  column_zero : column 0 = 0

namespace Relabelling

/-- Other columns on the same lines. -/
def ofColumns (f : ℕ → ℕ) (hf : StrictMono f) (hzero : f 0 = 0) : Relabelling :=
  ⟨id, f, id, hf, hzero⟩

/-- The same columns some lines and bytes further down. -/
def moved (lines bytes : ℕ) : Relabelling :=
  ⟨(· + lines), id, fun span => ⟨span.start + bytes, span.stop + bytes⟩, strictMono_id, rfl⟩

/-- Nothing is left of a place but the column. -/
def onlyColumns : Relabelling := ⟨fun _ => 0, id, fun _ => ⟨0, 0⟩, strictMono_id, rfl⟩

end Relabelling

/-! ### Relabelled data -/

def Token.relabel (m : Relabelling) (t : Token) : Token :=
  ⟨t.kind, t.text, m.line t.line, m.column t.column, m.span t.span⟩

def RaggedDedent.relabel (m : Relabelling) (d : RaggedDedent) : RaggedDedent :=
  ⟨m.line d.line, m.column d.column, m.column d.nearest⟩

section Errors

variable {ε : Type} {ε' : Type}

/-- The errors of the tracker at other places; those of the source become others in some way. The misuse of a source
that has ended names no place. -/
def SourceError.relabel (m : Relabelling) (onError : SourceError ε → SourceError ε') : SourceError ε → SourceError ε'
  | .own cause => onError (.own cause)
  | .raggedDedent d => .raggedDedent (d.relabel m)
  | .useAfterEnd => .useAfterEnd

/-- The errors of a text at other places. -/
def LexError.relabel (m : Relabelling) : LexError → LexError
  | .unexpectedCharacter line column text => .unexpectedCharacter (m.line line) (m.column column) text
  | .raggedDedent d => .raggedDedent (d.relabel m)
  | .useAfterEnd => .useAfterEnd

/-- A token is relabelled, and an error becomes another one in some way. -/
def Reply.relabel (m : Relabelling) (onError : SourceError ε → SourceError ε') : Reply ε → Reply ε'
  | .ok t => .ok (t.relabel m)
  | .error e => .error (onError e)

theorem LexError.relabel_eq (m : Relabelling) : SourceError.relabel m (LexError.relabel m) = LexError.relabel m := by
  funext e
  cases e <;> rfl

end Errors

def Effect.relabel (m : Relabelling) (e : Effect) : Effect :=
  ⟨e.markers.map (Token.relabel m), e.opened.map m.column⟩

def TrackerStatus.relabel (m : Relabelling) : TrackerStatus → TrackerStatus
  | .running => .running
  | .ended final => .ended (final.relabel m)
  | .failed d => .failed (d.relabel m)

def Tracker.relabel (m : Relabelling) (t : Tracker) : Tracker :=
  ⟨t.config, t.opened.map m.column, t.pending.map (Token.relabel m), t.atLineStart, t.status.relabel m⟩

variable {m : Relabelling}

@[simp] theorem Token.relabel_kind (t : Token) : (t.relabel m).kind = t.kind := rfl

@[simp] theorem Token.relabel_column (t : Token) : (t.relabel m).column = m.column t.column := rfl

@[simp] theorem Token.relabel_isEnd (t : Token) : (t.relabel m).isEnd = t.isEnd := rfl

/-- Markers stand at column 0, so they need no column of their own. -/
@[simp] theorem Token.relabel_blockOpen (t : Token) : (t.relabel m).blockOpen = t.blockOpen.relabel m := by
  simp [blockOpen, relabel, m.column_zero]

@[simp] theorem Token.relabel_blockDedent (t : Token) :
    (t.relabel m).blockDedent = t.blockDedent.relabel m := by
  simp [blockDedent, relabel, m.column_zero]

namespace Tracker

@[simp] theorem relabel_atLineStart (t : Tracker) : (t.relabel m).atLineStart = t.atLineStart := rfl

@[simp] theorem relabel_config (t : Tracker) : (t.relabel m).config = t.config := rfl

@[simp] theorem relabel_opened (t : Tracker) : (t.relabel m).opened = t.opened.map m.column := rfl

theorem relabel_levels (t : Tracker) : (t.relabel m).levels = t.levels.map m.column := by
  simp [levels, m.column_zero]

theorem relabel_top (t : Tracker) : (t.relabel m).top = m.column t.top := by
  cases h : t.opened with
  | nil => simp [top, h, m.column_zero]
  | cons c opened => simp [top, h]

theorem relabel_mem_levels (t : Tracker) (c : ℕ) : m.column c ∈ (t.relabel m).levels ↔ c ∈ t.levels := by
  rw [relabel_levels]
  exact List.mem_map_of_injective m.strictMono.injective

theorem relabel_nearest (t : Tracker) (c : ℕ) :
    (t.relabel m).nearest (m.column c) = m.column (t.nearest c) := by
  have hlt : (fun d => decide (d < m.column c)) ∘ m.column = fun d => decide (d < c) := by
    funext d
    simp [m.strictMono.lt_iff_lt]
  simp only [nearest, relabel_opened, List.find?_map, hlt]
  cases t.opened.find? (· < c) with
  | none => exact m.column_zero.symm
  | some d => rfl

theorem start_relabel (config : TrackerConfig) : (start config).relabel m = start config := rfl

/-! ### One raw token -/

/-- What becomes of a raw token, at its other place. -/
def relabelled (m : Relabelling) : Except RaggedDedent Effect → Except RaggedDedent Effect
  | .ok e => .ok (e.relabel m)
  | .error d => .error (d.relabel m)

theorem measure_relabel (t : Tracker) (raw : Token) :
    (t.relabel m).measure (raw.relabel m) = relabelled m (t.measure raw) := by
  have hright : (fun d => decide (m.column raw.column < d)) ∘ m.column = fun d => decide (raw.column < d) := by
    funext d
    simp [m.strictMono.lt_iff_lt]
  have hclosed : (t.opened.map m.column).takeWhile (m.column raw.column < ·) =
      (t.opened.takeWhile (raw.column < ·)).map m.column := by
    rw [List.takeWhile_map, hright]
  have hopened : (t.opened.map m.column).dropWhile (m.column raw.column < ·) =
      (t.opened.dropWhile (raw.column < ·)).map m.column := by
    rw [List.dropWhile_map, hright]
  unfold measure
  simp only [relabel_top, Token.relabel_column, m.strictMono.lt_iff_lt, relabel_config, relabel_mem_levels,
    relabel_nearest, relabel_opened]
  split
  · simp [relabelled, Effect.relabel]
  · split
    · rfl
    · refine congrArg Except.ok ?_
      rw [Effect.relabel, ← hopened, List.map_map]
      congr 1
      refine (congrArg (List.map _) hclosed).trans ?_
      simp

theorem effect_relabel (t : Tracker) (raw : Token) :
    (t.relabel m).effect (raw.relabel m) = relabelled m (t.effect raw) := by
  by_cases hb : raw.kind = .lineBreak
  · have hb' : (raw.relabel m).kind = .lineBreak := hb
    rw [effect_of_lineBreak _ hb, effect_of_lineBreak _ hb']
    rfl
  · cases he : raw.isEnd with
    | true =>
        have he' : (raw.relabel m).isEnd = true := he
        rw [effect_of_isEnd _ he, effect_of_isEnd _ he']
        simp [relabelled, Effect.relabel]
    | false =>
        have hb' : (raw.relabel m).kind ≠ .lineBreak := hb
        have he' : (raw.relabel m).isEnd = false := he
        rw [effect_of_content _ hb he, effect_of_content _ hb' he']
        cases hstart : t.atLineStart with
        | true => simpa [hstart] using measure_relabel t raw
        | false => simp [hstart, relabelled, Effect.relabel]

@[simp] theorem relabel_lineStartAfter (t : Tracker) (raw : Token) :
    (t.relabel m).lineStartAfter (raw.relabel m) = t.lineStartAfter raw := rfl

section Replies

variable {ε : Type} {ε' : Type} (onError : SourceError ε → SourceError ε')

theorem handOut_relabel (t : Tracker) (first : Token) (later : List Token) :
    (t.relabel m).handOut (first.relabel m) (later.map (Token.relabel m)) =
      (t.handOut first later).map (Reply.relabel m (SourceError.relabel m onError)) (Tracker.relabel m) := by
  cases hend : first.isEnd <;> simp [handOut, hend, Reply.relabel, relabel, TrackerStatus.relabel]

theorem emit_relabel (t : Tracker) (raw : Token) (ms : List Token) :
    (t.relabel m).emit (raw.relabel m) (ms.map (Token.relabel m)) =
      (t.emit raw ms).map (Reply.relabel m (SourceError.relabel m onError)) (Tracker.relabel m) := by
  cases ms with
  | nil => exact handOut_relabel onError t raw []
  | cons p ms =>
      have hlater : ms.map (Token.relabel m) ++ [raw.relabel m] = (ms ++ [raw]).map (Token.relabel m) := by simp
      rw [List.map_cons, emit, hlater]
      exact handOut_relabel onError t p (ms ++ [raw])

theorem accept_relabel (t : Tracker) (raw : Token) :
    (t.relabel m).accept (raw.relabel m) =
      (t.accept raw).map (Reply.relabel m (SourceError.relabel m onError)) (Tracker.relabel m) := by
  cases he : t.effect raw with
  | error d =>
      simp only [accept, he, effect_relabel, relabelled]
      rfl
  | ok e =>
      simp only [accept, he, effect_relabel, relabelled]
      exact emit_relabel onError ⟨t.config, e.opened, t.pending, t.lineStartAfter raw, t.status⟩ raw e.markers

theorem ready?_relabel (t : Tracker) :
    (t.relabel m).ready? ε' =
      (t.ready? ε).map (Prod.map (Reply.relabel m (SourceError.relabel m onError)) (Tracker.relabel m)) := by
  obtain ⟨⟨dedent, afterEnd⟩, opened, pending, atLineStart, status⟩ := t
  cases status with
  | failed d => rfl
  | running =>
      cases pending with
      | nil => rfl
      | cons p ps => exact congrArg some (handOut_relabel onError ⟨_, opened, p :: ps, atLineStart, .running⟩ p ps)
  | ended final =>
      cases pending with
      | nil => cases afterEnd <;> rfl
      | cons p ps => exact congrArg some (handOut_relabel onError ⟨_, opened, p :: ps, atLineStart, .ended final⟩ p ps)

end Replies

end Tracker

/-! ### Relabelled sources -/

variable {σ : Type u} {ε : Type} [Source σ ε] {τ : Type v} {ε' : Type} [Source τ ε']

/-- One source hands out the tokens of another one at other places, and fails in its own way where the other
one fails. -/
def Relabels (m : Relabelling) (onError : SourceError ε → SourceError ε') (other : τ) (source : σ) : Prop :=
  ∀ n, replies n other = (replies n source).map (Reply.relabel m onError)

namespace Relabels

variable {onError : SourceError ε → SourceError ε'} {other : τ} {source : σ}

theorem pull_eq (h : Relabels m onError other source) :
    (pull other).1 = (pull source).1.relabel m onError := by
  simpa [replies] using h 1

theorem next (h : Relabels m onError other source) : Relabels m onError (pull other).2 (pull source).2 :=
  fun n => (List.cons.inj (h (n + 1))).2

theorem reads (h : Relabels m onError other source) {source' : σ} {ts : List Token} {r : Reply ε}
    (hreads : Reads source ts r source') :
    ∃ other', Reads other (ts.map (Token.relabel m)) (r.relabel m onError) other' := by
  induction hreads generalizing other with
  | @stop source r source' hpull hstops =>
      have hfirst := h.pull_eq
      rw [hpull] at hfirst
      refine ⟨_, .stop (Prod.ext hfirst rfl) ?_⟩
      cases r with
      | error e => rfl
      | ok t => exact hstops
  | @token source t source' ts r source'' hpull hend _ ih =>
      have hfirst := h.pull_eq
      have hnext := h.next
      rw [hpull] at hfirst hnext
      obtain ⟨other', hrest⟩ := ih hnext
      exact ⟨other', .token (Prod.ext hfirst rfl) hend hrest⟩

end Relabels

theorem Script.relabels (upcoming : List (Reply ε)) (last : Reply ε) (onError : SourceError ε → SourceError ε') :
    Relabels m onError (Script.mk (upcoming.map (Reply.relabel m onError)) (last.relabel m onError))
      (Script.mk upcoming last) := by
  intro n
  induction n generalizing upcoming with
  | zero => rfl
  | succ n ih =>
      cases upcoming with
      | nil => exact congrArg (last.relabel m onError :: ·) (ih [])
      | cons r upcoming => exact congrArg (r.relabel m onError :: ·) (ih upcoming)

namespace Tracked

variable {onError : SourceError ε → SourceError ε'}

/-- Two tracked sources in step: the state of the one is that of the other at other places. -/
structure InStep (m : Relabelling) (onError : SourceError ε → SourceError ε') (s' : Tracked τ) (s : Tracked σ) : Prop where
  tracker : s'.tracker = s.tracker.relabel m
  source : Relabels m onError s'.source s.source

/-- How the errors of a pull differ: those of the source as the source says, those of the tracker by their
columns. -/
def onErrorOf (m : Relabelling) (onError : SourceError ε → SourceError ε') (s : Tracked σ) :
    SourceError ε → SourceError ε' :=
  if s.failure?.isSome then onError else SourceError.relabel m onError

/-- Tracked sources stay in step. -/
theorem InStep.pull {s' : Tracked τ} {s : Tracked σ} (h : InStep m onError s' s) :
    s'.pull.1 = s.pull.1.relabel m (onErrorOf m onError s) ∧ InStep m onError s'.pull.2 s.pull.2 := by
  cases hready : s.tracker.ready? ε with
  | some p =>
      have hready' : s'.tracker.ready? ε' = some (p.1.relabel m (SourceError.relabel m onError), p.2.relabel m) := by
        rw [h.tracker, Tracker.ready?_relabel onError, hready]
        rfl
      rw [pull_of_ready hready, pull_of_ready hready']
      exact ⟨by simp [onErrorOf, failure?, hready], rfl, h.source⟩
  | none =>
      have hready' : s'.tracker.ready? ε' = none := by
        rw [h.tracker, Tracker.ready?_relabel onError, hready]
        rfl
      have hnext := h.source.next
      cases hpull : TokenSource.pull s.source with
      | mk r source =>
          have hpull' : TokenSource.pull s'.source =
              (r.relabel m onError, (TokenSource.pull s'.source).2) :=
            Prod.ext (by rw [h.source.pull_eq, hpull]) rfl
          rw [hpull] at hnext
          cases r with
          | error e =>
              rw [pull_of_error (Tracker.idle_of_ready?_eq_none hready) hpull,
                pull_of_error (Tracker.idle_of_ready?_eq_none hready') hpull']
              exact ⟨by simp [onErrorOf, failure?, hready, hpull, Reply.error?, Reply.relabel], h.tracker, hnext⟩
          | ok raw =>
              rw [pull_of_raw hready hpull, pull_of_raw hready' hpull', h.tracker, Tracker.accept_relabel onError]
              exact ⟨by simp [onErrorOf, failure?, hready, hpull, Reply.error?], rfl, hnext⟩

theorem InStep.after {s' : Tracked τ} {s : Tracked σ} (h : InStep m onError s' s) (n : ℕ) :
    InStep m onError (after n s') (after n s) := by
  induction n generalizing s' s with
  | zero => exact h
  | succ n ih => exact ih h.pull.2

/-- Over sources whose errors are at other places as well, so are all replies. -/
theorem InStep.relabels {s' : Tracked τ} {s : Tracked σ} (honError : SourceError.relabel m onError = onError)
    (h : InStep m onError s' s) : Relabels m onError s' s := by
  intro n
  induction n generalizing s' s with
  | zero => rfl
  | succ n ih =>
      obtain ⟨hreply, hnext⟩ := h.pull
      rw [onErrorOf, honError, ite_self] at hreply
      exact congrArg₂ List.cons hreply (ih hnext)

theorem InStep.start (config : TrackerConfig) {other : τ} {source : σ} (h : Relabels m onError other source) :
    InStep m onError (Tracked.start config other) (Tracked.start config source) :=
  ⟨(Tracker.start_relabel config).symm, h⟩

/-- Columns matter to the tracker by their order alone. Over tokens whose columns a strictly increasing function
that keeps column 0 has moved, every pull answers as before, with the columns of its token or of its refusal
moved likewise and the failures of the source as the source gives them, and the levels are the old ones moved. -/
theorem columns_matter_by_order (config : TrackerConfig) (f : ℕ → ℕ) (hf : StrictMono f) (hzero : f 0 = 0)
    (onError : SourceError ε → SourceError ε') (source : σ) (other : τ)
    (h : Relabels (.ofColumns f hf hzero) onError other source) (n : ℕ) :
    let s := TokenSource.after n (Tracked.start config source)
    let s' := TokenSource.after n (Tracked.start config other)
    (TokenSource.pull s').1 =
        (TokenSource.pull s).1.relabel (.ofColumns f hf hzero) (onErrorOf (.ofColumns f hf hzero) onError s) ∧
      s'.tracker.levels = s.tracker.levels.map f := by
  intro s s'
  have hstep : InStep _ onError s' s := (InStep.start config h).after n
  refine ⟨hstep.pull.1, ?_⟩
  rw [hstep.tracker, Tracker.relabel_levels]
  rfl

/-- Lines at the columns 0, 4, 8 and 6, the last of which is refused, behind a failure of the source, and the
same lines three times as far right. -/
theorem columns_matter_by_order_ragged :
    let failure : Reply := .error (.unexpectedCharacter 1 0 "?")
    let raws := Sample.linesAt [0, 4, 8, 6]
    let source := Script.mk (failure :: raws.map .ok) failure
    let other := Script.mk (failure :: raws.map fun raw => .ok { raw with column := 3 * raw.column }) failure
    let s := after 9 (Tracked.start .strict source)
    let s' := after 9 (Tracked.start .strict other)
    StrictMono (3 * · : ℕ → ℕ) ∧
      (TokenSource.pull s).1 = .error (.raggedDedent ⟨4, 6, 4⟩) ∧ s.tracker.levels = [0, 4, 8] ∧
      (TokenSource.pull s').1 = .error (.raggedDedent ⟨4, 18, 12⟩) ∧ s'.tracker.levels = [0, 12, 24] := by
  intro failure raws source other s s'
  have hf : StrictMono (3 * · : ℕ → ℕ) := fun a b hab => Nat.mul_lt_mul_of_pos_left hab (by decide)
  have hother : Relabels (.ofColumns (3 * ·) hf rfl) id other source := by
    have hscript := Script.relabels (m := .ofColumns (3 * ·) hf rfl) (failure :: raws.map .ok) failure id
    rw [List.map_cons, List.map_map] at hscript
    exact hscript
  have hpull : (TokenSource.pull s).1 = .error (.raggedDedent ⟨4, 6, 4⟩) := by decide +kernel
  have hfailure : s.failure? = none := by decide +kernel
  have hlevels : s.tracker.levels = [0, 4, 8] := by decide +kernel
  obtain ⟨hmoved, hmovedLevels⟩ := columns_matter_by_order .strict (3 * ·) hf rfl id source other hother 9
  refine ⟨hf, hpull, hlevels, ?_, ?_⟩
  · rw [hmoved, hpull, onErrorOf, hfailure]
    rfl
  · rw [hmovedLevels, hlevels]
    rfl

end Tracked

end LayoutRule
