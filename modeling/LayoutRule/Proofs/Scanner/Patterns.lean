import LayoutRule.Scanner.Vocabulary
import Mathlib.Computability.Language

/-! # Patterns

The vocabulary as regular languages: one for the gaps between lexemes, and one for each way a lexeme can be
written. -/

namespace LayoutRule.Vocabulary

open Computability

/-! ### Words of one character -/

/-- The words of one character with a property. -/
def single (P : Char → Prop) : Language Char := {w | ∃ c, P c ∧ w = [c]}

/-- A character in one of some ranges, each given by its first and last character. -/
def oneOf (ranges : List (Char × Char)) : Language Char := single fun c => ∃ r ∈ ranges, r.1 ≤ c ∧ c ≤ r.2

/-- A character other than those listed. -/
def noneOf (excluded : List Char) : Language Char := single (· ∉ excluded)

/-- A text by itself. -/
def exactly (text : String) : Language Char := {text.toList}

/-! ### The language of each pattern -/

/-- `[ \t\f]|#[^\r\n]*` -/
def gapParts : Language Char :=
  oneOf [(' ', ' '), ('\t', '\t'), ('\x0c', '\x0c')] + exactly "#" * (noneOf ['\r', '\n'])∗

/-- Blanks and comments. -/
def gaps : Language Char := gapParts∗

/-- `[A-Za-z_][A-Za-z0-9_]*` -/
def names : Language Char :=
  oneOf [('A', 'Z'), ('a', 'z'), ('_', '_')] * (oneOf [('A', 'Z'), ('a', 'z'), ('0', '9'), ('_', '_')])∗

/-- `[0-9]+` -/
def digits : Language Char := oneOf [('0', '9')] * (oneOf [('0', '9')])∗

/-- `[0-9]+(\.[0-9]+)?` -/
def numbers : Language Char := digits * (1 + exactly "." * digits)

/-- `[^q\\\r\n]|\\.` for a quote `q`, where the point is any character but a line feed. -/
def stringParts (quote : Char) : Language Char :=
  noneOf [quote, '\\', '\r', '\n'] + exactly "\\" * noneOf ['\n']

/-- A string between two quotes. -/
def strings (quote : Char) : Language Char :=
  single (· = quote) * (stringParts quote)∗ * single (· = quote)

/-- `\r?\n` -/
def lineBreaks : Language Char := (1 + exactly "\r") * exactly "\n"

def operators : List String := ["==", "!=", "<=", ">=", "=", "<", ">", "+", "-", "*", "/", "%"]

def delimiters : List String := ["(", ")", "[", "]", ",", ":", "."]

/-- A way to write lexemes of a kind. -/
structure Pattern where
  kind : TokenKind
  words : Language Char

/-- The whole vocabulary. -/
def patterns : List Pattern :=
  keywords.map (fun text => ⟨.keyword, exactly text⟩) ++
    [⟨.name, names⟩, ⟨.number, numbers⟩, ⟨.string, strings '"'⟩, ⟨.string, strings '\''⟩] ++
    operators.map (fun text => ⟨.operator, exactly text⟩) ++
    delimiters.map (fun text => ⟨.delimiter, exactly text⟩) ++ [⟨.lineBreak, lineBreaks⟩]

/-- The words of all patterns. -/
def lexemes : Language Char := {w | ∃ p ∈ patterns, w ∈ p.words}

/-- The longest word of a language at the front of a text. -/
structure IsLongest (language : Language Char) (cs w : List Char) : Prop where
  mem : w ∈ language
  isPrefix : w <+: cs
  longest : ∀ v ∈ language, v <+: cs → v.length ≤ w.length

/-! ### Membership -/

theorem mem_single {P : Char → Prop} {w : List Char} : w ∈ single P ↔ ∃ c, P c ∧ w = [c] := Iff.rfl

theorem mem_exactly {text : String} {w : List Char} : w ∈ exactly text ↔ w = text.toList := Iff.rfl

theorem mem_kstar_single {P : Char → Prop} {w : List Char} : w ∈ (single P)∗ ↔ ∀ c ∈ w, P c := by
  rw [Language.mem_kstar]
  constructor
  · rintro ⟨parts, rfl, hparts⟩ c hc
    obtain ⟨part, hpart, hc⟩ := List.mem_flatten.mp hc
    obtain ⟨d, hd, rfl⟩ := hparts part hpart
    rwa [List.mem_singleton.mp hc]
  · intro h
    refine ⟨w.map ([·]), by rw [← List.flatMap_def, List.flatMap_singleton'], ?_⟩
    intro part hpart
    obtain ⟨c, hc, rfl⟩ := List.mem_map.mp hpart
    exact ⟨c, h c hc, rfl⟩

theorem append_mem_kstar {language : Language Char} {part w : List Char} (hpart : part ∈ language)
    (hw : w ∈ language∗) : part ++ w ∈ language∗ := by
  rw [← Language.one_add_self_mul_kstar_eq_kstar]
  exact Or.inr (Language.append_mem_mul hpart hw)

theorem mem_kstar_oneOf {ranges : List (Char × Char)} {w : List Char} :
    w ∈ (oneOf ranges)∗ ↔ ∀ c ∈ w, ∃ r ∈ ranges, r.1 ≤ c ∧ c ≤ r.2 :=
  mem_kstar_single

theorem mem_oneOf_mul_kstar {ranges more : List (Char × Char)} {w : List Char} :
    w ∈ oneOf ranges * (oneOf more)∗ ↔ ∃ c cs, w = c :: cs ∧ (∃ r ∈ ranges, r.1 ≤ c ∧ c ≤ r.2) ∧
      ∀ d ∈ cs, ∃ r ∈ more, r.1 ≤ d ∧ d ≤ r.2 := by
  rw [Language.mem_mul]
  constructor
  · rintro ⟨_, ⟨c, hc, rfl⟩, cs, hcs, rfl⟩
    exact ⟨c, cs, rfl, hc, mem_kstar_oneOf.mp hcs⟩
  · rintro ⟨c, cs, rfl, hc, hcs⟩
    exact ⟨[c], ⟨c, hc, rfl⟩, cs, mem_kstar_oneOf.mpr hcs, rfl⟩

/-! ### Character classes -/

private theorem eq_iff_between {a c : Char} : c = a ↔ a ≤ c ∧ c ≤ a :=
  ⟨by rintro rfl; exact ⟨c.le_refl, c.le_refl⟩, fun h => Char.le_antisymm h.2 h.1⟩

theorem isBlank_iff (c : Char) :
    isBlank c = true ↔ ∃ r ∈ [(' ', ' '), ('\t', '\t'), ('\x0c', '\x0c')], r.1 ≤ c ∧ c ≤ r.2 := by
  simp [isBlank, ← eq_iff_between, or_assoc]

private theorem isUpper_iff (c : Char) : c.isUpper = true ↔ 'A' ≤ c ∧ c ≤ 'Z' := decide_eq_true_iff

private theorem isLower_iff (c : Char) : c.isLower = true ↔ 'a' ≤ c ∧ c ≤ 'z' :=
  (Bool.and_eq_true_iff).trans (and_congr decide_eq_true_iff decide_eq_true_iff)

private theorem isAlpha_iff (c : Char) :
    c.isAlpha = true ↔ ('A' ≤ c ∧ c ≤ 'Z') ∨ ('a' ≤ c ∧ c ≤ 'z') :=
  (Bool.or_eq_true_iff).trans (or_congr (isUpper_iff c) (isLower_iff c))

theorem isNameStart_iff (c : Char) :
    isNameStart c = true ↔ ∃ r ∈ [('A', 'Z'), ('a', 'z'), ('_', '_')], r.1 ≤ c ∧ c ≤ r.2 := by
  have hline : c = '_' ↔ '_' ≤ c ∧ c ≤ '_' := eq_iff_between
  simp [isNameStart, isAlpha_iff, hline, or_assoc]

theorem isNameChar_iff (c : Char) :
    isNameChar c = true ↔ ∃ r ∈ [('A', 'Z'), ('a', 'z'), ('0', '9'), ('_', '_')], r.1 ≤ c ∧ c ≤ r.2 := by
  have hline : c = '_' ↔ '_' ≤ c ∧ c ≤ '_' := eq_iff_between
  simp [isNameChar, Char.isAlphanum, isAlpha_iff, Char.isDigit, hline, Char.le_def, or_assoc]

theorem isDigit_iff (c : Char) : c.isDigit = true ↔ ∃ r ∈ [('0', '9')], r.1 ≤ c ∧ c ≤ r.2 := by
  simp [Char.isDigit, Char.le_def]

theorem endsLine_iff (c : Char) : endsLine c = false ↔ c ∉ ['\r', '\n'] := by
  simp [endsLine]

/-! ### Words of each pattern -/

theorem mem_names {w : List Char} :
    w ∈ names ↔ ∃ c cs, w = c :: cs ∧ isNameStart c = true ∧ ∀ d ∈ cs, isNameChar d = true := by
  simp only [names, mem_oneOf_mul_kstar, isNameStart_iff, isNameChar_iff]

theorem mem_digits {w : List Char} : w ∈ digits ↔ w ≠ [] ∧ ∀ c ∈ w, c.isDigit = true := by
  simp only [digits, mem_oneOf_mul_kstar, ← isDigit_iff]
  constructor
  · rintro ⟨c, cs, rfl, hc, hcs⟩
    exact ⟨by simp, List.forall_mem_cons.mpr ⟨hc, hcs⟩⟩
  · rintro ⟨hne, hw⟩
    obtain ⟨c, cs, rfl⟩ := List.exists_cons_of_ne_nil hne
    obtain ⟨hc, hcs⟩ := List.forall_mem_cons.mp hw
    exact ⟨c, cs, rfl, hc, hcs⟩

theorem mem_numbers {w : List Char} :
    w ∈ numbers ↔ ∃ whole ∈ digits, w = whole ∨ ∃ part ∈ digits, w = whole ++ '.' :: part := by
  simp only [numbers, Language.mem_mul, Language.mem_add, Language.mem_one, mem_exactly]
  constructor
  · rintro ⟨whole, hwhole, _, rfl | ⟨_, rfl, part, hpart, rfl⟩, rfl⟩
    · exact ⟨whole, hwhole, Or.inl (by simp)⟩
    · exact ⟨whole, hwhole, Or.inr ⟨part, hpart, rfl⟩⟩
  · rintro ⟨whole, hwhole, rfl | ⟨part, hpart, rfl⟩⟩
    · exact ⟨w, hwhole, [], Or.inl rfl, by simp⟩
    · exact ⟨whole, hwhole, _, Or.inr ⟨_, rfl, part, hpart, rfl⟩, rfl⟩

theorem mem_gapParts {w : List Char} :
    w ∈ gapParts ↔ (∃ c, w = [c] ∧ isBlank c = true) ∨
      ∃ cs, w = '#' :: cs ∧ ∀ c ∈ cs, endsLine c = false := by
  simp only [gapParts, Language.mem_add, Language.mem_mul, mem_exactly, noneOf, mem_kstar_single, oneOf,
    mem_single, isBlank_iff, endsLine_iff]
  constructor
  · rintro (⟨c, hc, rfl⟩ | ⟨_, rfl, cs, hcs, rfl⟩)
    · exact Or.inl ⟨c, rfl, hc⟩
    · exact Or.inr ⟨cs, rfl, hcs⟩
  · rintro (⟨c, rfl, hc⟩ | ⟨cs, rfl, hcs⟩)
    · exact Or.inl ⟨c, hc, rfl⟩
    · exact Or.inr ⟨_, rfl, cs, hcs, rfl⟩

theorem mem_stringParts {quote : Char} {w : List Char} :
    w ∈ stringParts quote ↔ (∃ c, w = [c] ∧ c ≠ quote ∧ c ≠ '\\' ∧ endsLine c = false) ∨
      ∃ c, w = ['\\', c] ∧ c ≠ '\n' := by
  simp only [stringParts, Language.mem_add, Language.mem_mul, mem_exactly, noneOf, mem_single, endsLine_iff]
  constructor
  · rintro (⟨c, hc, rfl⟩ | ⟨_, rfl, _, ⟨c, hc, rfl⟩, rfl⟩)
    · exact Or.inl ⟨c, rfl, by simpa using hc⟩
    · exact Or.inr ⟨c, rfl, by simpa using hc⟩
  · rintro (⟨c, rfl, hc⟩ | ⟨c, rfl, hc⟩)
    · exact Or.inl ⟨c, by simpa using hc, rfl⟩
    · exact Or.inr ⟨_, rfl, _, ⟨c, by simpa using hc, rfl⟩, rfl⟩

theorem mem_strings {quote : Char} {w : List Char} :
    w ∈ strings quote ↔ ∃ body ∈ (stringParts quote)∗, w = quote :: (body ++ [quote]) := by
  simp only [strings, Language.mem_mul, mem_single]
  constructor
  · rintro ⟨_, ⟨_, ⟨_, rfl, rfl⟩, body, hbody, rfl⟩, _, ⟨_, rfl, rfl⟩, rfl⟩
    exact ⟨body, hbody, rfl⟩
  · rintro ⟨body, hbody, rfl⟩
    exact ⟨_, ⟨_, ⟨_, rfl, rfl⟩, body, hbody, rfl⟩, _, ⟨_, rfl, rfl⟩, rfl⟩

theorem mem_lineBreaks {w : List Char} : w ∈ lineBreaks ↔ w = ['\n'] ∨ w = ['\r', '\n'] := by
  simp only [lineBreaks, Language.mem_mul, Language.mem_add, Language.mem_one, mem_exactly]
  constructor
  · rintro ⟨_, rfl | rfl, _, rfl, rfl⟩
    · exact Or.inl rfl
    · exact Or.inr rfl
  · rintro (rfl | rfl)
    · exact ⟨_, Or.inl rfl, _, rfl, rfl⟩
    · exact ⟨_, Or.inr rfl, _, rfl, rfl⟩

theorem mem_patterns {p : Pattern} :
    p ∈ patterns ↔ (∃ text ∈ keywords, p = ⟨.keyword, exactly text⟩) ∨ p = ⟨.name, names⟩ ∨
      p = ⟨.number, numbers⟩ ∨ p = ⟨.string, strings '"'⟩ ∨ p = ⟨.string, strings '\''⟩ ∨
      (∃ text ∈ operators, p = ⟨.operator, exactly text⟩) ∨
      (∃ text ∈ delimiters, p = ⟨.delimiter, exactly text⟩) ∨ p = ⟨.lineBreak, lineBreaks⟩ := by
  simp only [patterns, List.mem_append, List.mem_map, List.mem_cons, List.not_mem_nil, or_false, eq_comm,
    or_assoc]

theorem mem_exactly_iff_ofList {text : String} {w : List Char} :
    w ∈ exactly text ↔ String.ofList w = text := by
  rw [mem_exactly]
  exact ⟨by rintro rfl; exact String.ofList_toList, by rintro rfl; exact String.toList_ofList.symm⟩

theorem mem_lexemes {w : List Char} :
    w ∈ lexemes ↔ String.ofList w ∈ keywords ∨ w ∈ names ∨ w ∈ numbers ∨ w ∈ strings '"' ∨
      w ∈ strings '\'' ∨ String.ofList w ∈ operators ∨ String.ofList w ∈ delimiters ∨ w ∈ lineBreaks := by
  have hpatterns : w ∈ lexemes ↔ ∃ p, p ∈ patterns ∧ w ∈ p.words := Iff.rfl
  have hexactly (kind : TokenKind) (texts : List String) :
      (∃ p : Pattern, (∃ text ∈ texts, p = ⟨kind, exactly text⟩) ∧ w ∈ p.words) ↔
        String.ofList w ∈ texts := by
    constructor
    · rintro ⟨p, ⟨text, htext, rfl⟩, hw⟩
      rwa [mem_exactly_iff_ofList.mp hw]
    · intro h
      exact ⟨_, ⟨_, h, rfl⟩, mem_exactly_iff_ofList.mpr rfl⟩
  simp only [hpatterns, mem_patterns, or_and_right, exists_or, hexactly, exists_eq_left]

end LayoutRule.Vocabulary
