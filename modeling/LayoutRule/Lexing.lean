import LayoutRule.Scanner.Basic
import LayoutRule.Stream.Buffered
import LayoutRule.Tracker.Source

/-! # Lexing

The tokens of a text with its block markers: a buffer filled from a tracked scanner. -/

namespace LayoutRule

universe u

/-- Every token of a source up to its end token, or the first error. -/
def collect {σ : Type u} {ε : Type} [Source σ ε] (source : σ) : Except (SourceError ε) (List Token) × σ :=
  let (result, stream) := (BufferedStream.start source).fill
  (result.map fun _ => stream.tokens, stream.source)

/-- The tracked tokens of a text. -/
def lexWith (config : TrackerConfig) (text : String) : Except LexError (List Token) :=
  (collect (Tracked.start config (Scanner.ofText text))).1

/-- The tracked tokens of a text under the lenient policies. -/
def lex (text : String) : Except LexError (List Token) :=
  lexWith .lenient text

/-- The tracked tokens of a text, with the events of the run. -/
def lexTrace (config : TrackerConfig) (text : String) : Except LexError (List Token) × List Event :=
  let (result, traced) := collect (Traced.start (Tracked.start config (Scanner.ofText text)))
  (result, traced.events)

end LayoutRule
