import LayoutRule.Proofs.Lexing.Readings
import LayoutRule.Report

/-! # The policy behind the end

What a tracker answers behind its end token is settled by a policy that nothing reads before. A text is read up to
its end token and no further, so the policy has no part in what becomes of the text. -/

namespace LayoutRule

open TokenSource

/-! ### Trackers that differ in the policy -/

/-- The policies with another answer behind the end token. -/
def TrackerConfig.withAfterEnd (policy : ExhaustionPolicy) (config : TrackerConfig) : TrackerConfig :=
  { config with afterEnd := policy }

theorem TrackerConfig.withAfterEnd_eq {c d : TrackerConfig} (h : c.dedent = d.dedent) :
    c.withAfterEnd d.afterEnd = d := by
  rw [withAfterEnd, h]

namespace Tracker

/-- The tracker with another answer behind the end token. -/
def withAfterEnd (policy : ExhaustionPolicy) (t : Tracker) : Tracker :=
  { t with config := t.config.withAfterEnd policy }

variable (policy : ExhaustionPolicy)

@[simp] theorem withAfterEnd_start (config : TrackerConfig) :
    (start config).withAfterEnd policy = start (config.withAfterEnd policy) := rfl

@[simp] theorem withAfterEnd_settle (t : Tracker) (raw : Token) (e : Effect) :
    (t.settle raw e).withAfterEnd policy = (t.withAfterEnd policy).settle raw e := rfl

@[simp] theorem withAfterEnd_measure (t : Tracker) (raw : Token) :
    (t.withAfterEnd policy).measure raw = t.measure raw := rfl

/-- The policy has no part in what a raw token does. -/
@[simp] theorem withAfterEnd_effect (t : Tracker) (raw : Token) :
    (t.withAfterEnd policy).effect raw = t.effect raw := rfl

theorem Idle.withAfterEnd {t : Tracker} (h : t.Idle) : (t.withAfterEnd policy).Idle :=
  ⟨h.running, h.pending⟩

/-- A run under one policy is a run under the other. -/
theorem Run.withAfterEnd {t t' : Tracker} {raws out : List Token} (h : t.Run raws out t') :
    (t.withAfterEnd policy).Run raws out (t'.withAfterEnd policy) := by
  induction h with
  | nil => exact .nil
  | @cons t raw raws e out t' hi he _ ih =>
      rw [withAfterEnd_settle] at ih
      apply Run.cons (hi.withAfterEnd policy)
      · rw [withAfterEnd_effect, he]
      · exact ih

end Tracker

/-- What is read through a tracker ends with its end token or with an error, and is the same under both policies. -/
theorem Tracked.Reading.withAfterEnd (policy : ExhaustionPolicy) {t : Tracker} {raws out : List Token} {r q : Reply}
    (h : Reading t raws r out q) : Reading (t.withAfterEnd policy) raws r out q := by
  cases h with
  | ended hrun => exact .ended (hrun.withAfterEnd policy)
  | failed hrun => exact .failed (hrun.withAfterEnd policy)
  | refused hrun hd =>
      apply Reading.refused (hrun.withAfterEnd policy)
      rw [Tracker.withAfterEnd_effect, hd]

/-! ### Whole texts -/

theorem lexWith_withAfterEnd (policy : ExhaustionPolicy) (config : TrackerConfig) (text : String) :
    lexWith (config.withAfterEnd policy) text = lexWith config text := by
  obtain ⟨raws, r, s', out, q, hreads, -, hreading, hlex⟩ := exists_reading_of_text config text
  have hother := hreading.withAfterEnd policy
  rw [Tracker.withAfterEnd_start] at hother
  rw [lexWith_of_reading hreads hother, hlex]

/-- Two policies alike in dedents lex every text alike, to the same tokens or the same error. -/
theorem lexWith_congr {c d : TrackerConfig} (h : c.dedent = d.dedent) (text : String) :
    lexWith c text = lexWith d text := by
  rw [← TrackerConfig.withAfterEnd_eq h, lexWith_withAfterEnd]

theorem outlineText_congr {c d : TrackerConfig} {text : String} (h : lexWith c text = lexWith d text) :
    outlineText c text = outlineText d text := by
  rw [outlineText, outlineText, h]

/-- A report depends on the policies only in what they make of the tokens. -/
theorem report_congr {c d : TrackerConfig} {text : String} (h : lexWith c text = lexWith d text) (format : Format) :
    report format c text = report format d text := by
  have houtline := outlineText_congr h
  cases format with
  | tokenSimple => rw [report, report, h]
  | tokenJson => rw [report, report, h]
  | tokenRawSimple => rfl
  | tokenRawJson => rfl
  | treeView => rw [report, report, houtline]
  | treeJson => rw [report, report, houtline]

/-- What a tracker answers behind its end token has no part in what becomes of a whole text: under the same dedent
policy the text gets the same tokens, the same tree and the same report in every format, or the same error. A report
of the raw tokens depends on neither policy. -/
theorem afterEnd_has_no_part (c d : TrackerConfig) (text : String) :
    (c.dedent = d.dedent → lexWith c text = lexWith d text ∧ outlineText c text = outlineText d text ∧
        ∀ format, report format c text = report format d text) ∧
      ∀ format ∈ [Format.tokenRawSimple, Format.tokenRawJson], report format c text = report format d text := by
  constructor
  · intro hdedent
    have hlex := lexWith_congr hdedent text
    exact ⟨hlex, outlineText_congr hlex, report_congr hlex⟩
  · intro format hformat
    rcases List.mem_pair.mp hformat with rfl | rfl
    · rfl
    · rfl

/-- A ragged line is refused whatever follows the end, and the raw tokens of its text do not tell one policy from
another. -/
theorem afterEnd_has_no_part_ragged :
    let text := "a\n    b\n  c\n"
    let again : TrackerConfig := ⟨.strict, .again⟩
    lexWith again text = .error (.raggedDedent ⟨3, 2, 0⟩) ∧
      report .treeView again text = .error (.lex (.raggedDedent ⟨3, 2, 0⟩)) ∧
      report .tokenRawSimple .lenient text = report .tokenRawSimple .strict text := by
  intro text again
  have hragged : lexWith .strict text = .error (.raggedDedent ⟨3, 2, 0⟩) := by decide +kernel
  have hview : report .treeView .strict text = .error (.lex (.raggedDedent ⟨3, 2, 0⟩)) := by
    rw [report, outlineText, hragged]
    rfl
  obtain ⟨hsame, -⟩ := afterEnd_has_no_part again .strict text
  obtain ⟨hlex, -, hreport⟩ := hsame rfl
  refine ⟨hlex.trans hragged, (hreport .treeView).trans hview, ?_⟩
  apply (afterEnd_has_no_part .lenient .strict text).2
  exact List.mem_cons_self

end LayoutRule
