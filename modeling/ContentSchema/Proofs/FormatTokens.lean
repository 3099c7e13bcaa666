import ContentSchema.Calendar.Format
import Mathlib.Order.Bounds.Basic

/-! The tokens of a format. They spell the format out again, each placeholder is the longest that
stands there, and only a bracket that is never closed keeps a format from being split. -/
namespace ContentSchema.Calendar

theorem closeEscape?_cons {c : Char} (other : c ≠ ']') (cs : List Char) :
    closeEscape? (c :: cs) = (closeEscape? cs).map fun (text, after) => (c :: text, after) := by
  rw [closeEscape?]
  exact other

theorem closeEscape?_eq_none_iff {cs : List Char} : closeEscape? cs = none ↔ ']' ∉ cs := by
  induction cs with
  | nil => simp [closeEscape?]
  | cons c cs ih =>
    by_cases closing : c = ']'
    · subst closing
      simp [closeEscape?]
    · rw [closeEscape?_cons closing, Option.map_eq_none_iff, ih, List.mem_cons, not_or]
      exact (and_iff_right (Ne.symm closing)).symm

theorem closeEscape?_eq_some_iff {cs text after : List Char} :
    closeEscape? cs = some (text, after) ↔ cs = text ++ ']' :: after ∧ ']' ∉ text := by
  induction cs generalizing text after with
  | nil => simp [closeEscape?]
  | cons c cs ih =>
    by_cases closing : c = ']'
    · subst closing
      rw [closeEscape?]
      cases text with
      | nil => simp
      | cons d text => simp +contextual [eq_comm]
    · rw [closeEscape?_cons closing]
      simp only [Option.map_eq_some_iff, Prod.exists, ih]
      constructor
      · rintro ⟨inner, _, ⟨rfl, closed⟩, pair⟩
        obtain ⟨rfl, rfl⟩ := Prod.mk.inj pair
        exact ⟨rfl, List.not_mem_cons_of_ne_of_not_mem (Ne.symm closing) closed⟩
      · rintro ⟨split, closed⟩
        cases text with
        | nil => exact absurd (List.cons.inj split).1 closing
        | cons d text =>
          obtain ⟨rfl, rfl⟩ := List.cons.inj split
          exact ⟨text, after, ⟨rfl, List.not_mem_of_not_mem_cons closed⟩, rfl⟩

namespace Placeholder

/-- A placeholder stands at the start of a text, and no longer one does. -/
structure Longest (p : Placeholder) (cs : List Char) : Prop where
  begins : p.spelling.toList <+: cs
  longest : ∀ q : Placeholder, q.spelling.toList <+: cs →
    q.spelling.toList.length ≤ p.spelling.toList.length

theorem mem_all (p : Placeholder) : p ∈ all := by cases p <;> decide

/-- No placeholder begins one that is tried after it. -/
theorem pairwise_all :
    all.Pairwise fun p q => ¬ p.spelling.toList <+: q.spelling.toList := by
  decide +kernel

theorem startOf?_eq_none_iff {cs : List Char} :
    startOf? cs = none ↔ ∀ p : Placeholder, ¬ p.spelling.toList <+: cs := by
  rw [startOf?, List.find?_eq_none]
  simp only [List.isPrefixOf_iff_prefix]
  exact ⟨fun none p => none p p.mem_all, fun none p _ => none p⟩

/-- What is tried first is the longest. -/
theorem longest_of_startOf? {cs : List Char} {p : Placeholder} (found : startOf? cs = some p) :
    p.Longest cs := by
  obtain ⟨begins, before, after, split, others⟩ := List.find?_eq_some_iff_append.mp found
  have begins : p.spelling.toList <+: cs := List.isPrefixOf_iff_prefix.mp begins
  refine ⟨begins, fun q begun => ?_⟩
  have known := q.mem_all
  rw [split, List.mem_append, List.mem_cons] at known
  obtain earlier | rfl | later := known
  · have notBegun := others q earlier
    rw [List.isPrefixOf_iff_prefix.mpr begun] at notBegun
    cases notBegun
  · exact Nat.le_refl _
  · have ordered := pairwise_all
    rw [split] at ordered
    have notBegun := List.rel_of_pairwise_cons (List.pairwise_append.mp ordered).2.1 later
    by_contra longer
    exact notBegun (List.prefix_of_prefix_length_le begins begun (Nat.le_of_not_le longer))

theorem bracket_notMem_spelling (p : Placeholder) : '[' ∉ p.spelling.toList := by
  cases p <;> decide

end Placeholder

/-- A bracket opens at this position, and none closes after it. -/
def OpenAt (cs : List Char) (position : Nat) : Prop :=
  cs[position]? = some '[' ∧ ']' ∉ cs.drop (position + 1)

theorem openAt_zero {c : Char} {cs : List Char} : OpenAt (c :: cs) 0 ↔ c = '[' ∧ ']' ∉ cs := by
  simp [OpenAt]

/-- After a text in which every bracket is closed, the open brackets are those of the rest. -/
theorem openAt_append_iff {front : List Char} (closed : ∀ position, ¬ OpenAt front position)
    {rest : List Char} {position : Nat} :
    OpenAt (front ++ rest) position ↔
      ∃ later, position = front.length + later ∧ OpenAt rest later := by
  by_cases inside : position < front.length
  · have inRest : ¬ ∃ later, position = front.length + later ∧ OpenAt rest later := by
      rintro ⟨later, rfl, -⟩
      exact absurd inside (Nat.not_lt.mpr (Nat.le_add_right _ _))
    refine iff_of_false (fun ⟨opening, unclosed⟩ => closed position ?_) inRest
    rw [List.getElem?_append_left inside] at opening
    rw [List.drop_append_of_le_length inside, List.mem_append, not_or] at unclosed
    exact ⟨opening, unclosed.1⟩
  · obtain ⟨later, rfl⟩ := Nat.exists_eq_add_of_le (Nat.le_of_not_lt inside)
    have shifted : OpenAt (front ++ rest) (front.length + later) ↔ OpenAt rest later := by
      rw [OpenAt, OpenAt, List.getElem?_append_right (Nat.le_add_right _ _),
        Nat.add_sub_cancel_left, Nat.add_assoc, List.drop_length_add_append]
    rw [shifted]
    constructor
    · exact fun here => ⟨later, rfl, here⟩
    · rintro ⟨other, same, here⟩
      rwa [Nat.add_left_cancel same]

theorem not_openAt_concat (cs : List Char) (position : Nat) : ¬ OpenAt (cs ++ [']']) position := by
  rintro ⟨opening, unclosed⟩
  by_cases inside : position < cs.length
  · rw [List.drop_append_of_le_length inside] at unclosed
    exact unclosed (List.mem_append_right _ (List.mem_singleton_self _))
  · rw [List.getElem?_append_right (Nat.le_of_not_lt inside)] at opening
    exact absurd (List.mem_of_getElem? opening) (by decide)

namespace Token

/-- The part of a format that a token stands for. -/
def source : Token → List Char
  | placeholder p => p.spelling.toList
  | escaped text => '[' :: (text ++ [']'])
  | literal c => [c]

/-- What a token has to be where some part of a format is left. -/
def Fits (rest : List Char) : Token → Prop
  | placeholder p => p.Longest rest
  | escaped text => ']' ∉ text
  | literal c => c ≠ '[' ∧ ∀ p : Placeholder, ¬ p.spelling.toList <+: rest

theorem source_length_pos (token : Token) : 0 < token.source.length := by
  cases token with
  | placeholder p => exact p.spelling_length_pos
  | escaped text => exact Nat.zero_lt_succ _
  | literal c => exact Nat.zero_lt_one

/-- Every bracket in a token is closed in it. -/
theorem not_openAt_source {token : Token} {rest : List Char} (fits : token.Fits rest)
    (position : Nat) : ¬ OpenAt token.source position := by
  rintro ⟨opening, unclosed⟩
  cases token with
  | placeholder p => exact p.bracket_notMem_spelling (List.mem_of_getElem? opening)
  | literal c => exact fits.1 (List.mem_singleton.mp (List.mem_of_getElem? opening)).symm
  | escaped text => exact not_openAt_concat ('[' :: text) position ⟨opening, unclosed⟩

/-- What stands at the start of a format: nothing, a bracket that is open, or the right token. -/
theorem tokensFrom_cases (position : Nat) (cs : List Char) :
    cs = [] ∧ tokensFrom position cs = .ok [] ∨
      OpenAt cs 0 ∧ tokensFrom position cs = .error (.openEscape position) ∨
      ∃ (token : Token) (rest : List Char), cs = token.source ++ rest ∧ token.Fits cs ∧
        tokensFrom position cs =
          (tokensFrom (position + token.source.length) rest).map (token :: ·) := by
  cases cs with
  | nil => exact Or.inl ⟨rfl, by rw [tokensFrom]⟩
  | cons c rest =>
    refine Or.inr ?_
    rw [tokensFrom]
    by_cases opening : c = '['
    · subst opening
      rw [if_pos rfl]
      split
      · rename_i unclosed
        exact Or.inl ⟨openAt_zero.mpr ⟨rfl, closeEscape?_eq_none_iff.mp unclosed⟩, rfl⟩
      · rename_i text after closing
        obtain ⟨rfl, closed⟩ := closeEscape?_eq_some_iff.mp closing
        refine Or.inr ⟨.escaped text, after, by simp [source], closed, ?_⟩
        simp [source, Nat.add_assoc]
    · rw [if_neg opening]
      refine Or.inr ?_
      split
      · rename_i p found
        have longest := Placeholder.longest_of_startOf? found
        obtain ⟨rest', split⟩ := longest.begins
        refine ⟨.placeholder p, rest', split.symm, longest, ?_⟩
        simp only [← split, List.drop_left]
        rfl
      · rename_i none
        exact ⟨.literal c, rest, rfl, ⟨opening, Placeholder.startOf?_eq_none_iff.mp none⟩, rfl⟩

/-- How a part of a format that starts at a position is split. -/
structure Splits (position : Nat) (cs : List Char) (found : Except FormatError (List Token)) :
    Prop where
  refused : ∀ e, found = .error e →
    ∃ first, e = .openEscape (position + first) ∧ IsLeast {i | OpenAt cs i} first
  closed : ∀ known, found = .ok known → ∀ i, ¬ OpenAt cs i
  spelled : ∀ known, found = .ok known → known.flatMap source = cs
  fits : ∀ known, found = .ok known → ∀ before token after, known = before ++ token :: after →
    token.Fits ((token :: after).flatMap source)

theorem splits_nil (position : Nat) : Splits position [] (.ok []) where
  refused _ h := nomatch h
  closed _ _ _ here := nomatch here.1
  spelled known h := by
    cases h
    rfl
  fits known h before token after split := by
    cases h
    cases before <;> cases split

theorem splits_openEscape {position : Nat} {cs : List Char} (here : OpenAt cs 0) :
    Splits position cs (.error (.openEscape position)) where
  refused e h := by
    cases h
    exact ⟨0, rfl, here, fun i _ => Nat.zero_le i⟩
  closed _ h := nomatch h
  spelled _ h := nomatch h
  fits _ h := nomatch h

/-- One more token before a part that is split. -/
theorem Splits.cons {position : Nat} {token : Token} {rest : List Char}
    {found : Except FormatError (List Token)} (fits : token.Fits (token.source ++ rest))
    (others : Splits (position + token.source.length) rest found) :
    Splits position (token.source ++ rest) (found.map (token :: ·)) := by
  have shifted (i : Nat) : OpenAt (token.source ++ rest) i ↔
      ∃ later, i = token.source.length + later ∧ OpenAt rest later :=
    openAt_append_iff (not_openAt_source fits)
  cases found with
  | error e =>
    refine ⟨?_, nofun, nofun, nofun⟩
    intro e' h
    cases h
    obtain ⟨first, rfl, open', least⟩ := others.refused e rfl
    refine ⟨token.source.length + first, by rw [Nat.add_assoc],
      (shifted _).mpr ⟨first, rfl, open'⟩, ?_⟩
    rintro i found
    obtain ⟨later, rfl, inRest⟩ := (shifted i).mp found
    exact Nat.add_le_add_left (least inRest) _
  | ok known =>
    have spelled := others.spelled known rfl
    refine ⟨nofun, ?_, ?_, ?_⟩
    · rintro _ ⟨⟩ i here
      obtain ⟨later, -, here⟩ := (shifted i).mp here
      exact others.closed known rfl later here
    · rintro _ ⟨⟩
      rw [List.flatMap_cons, spelled]
    · rintro _ ⟨⟩ before other after split
      have split : token :: known = before ++ other :: after := split
      cases before with
      | nil =>
        obtain ⟨rfl, rfl⟩ := List.cons.inj split
        rwa [List.flatMap_cons, spelled]
      | cons first before =>
        exact others.fits known rfl before other after (List.cons.inj split).2

/-- Every part of a format is split, by induction on what is left of it. -/
theorem splits_tokensFrom (position : Nat) (cs : List Char) :
    Splits position cs (tokensFrom position cs) := by
  induction length : cs.length using Nat.strong_induction_on generalizing position cs with
  | h n ih =>
    obtain ⟨rfl, done⟩ | ⟨here, refused⟩ | ⟨token, rest, rfl, fits, more⟩ :=
      tokensFrom_cases position cs
    · rw [done]
      exact splits_nil position
    · rw [refused]
      exact splits_openEscape here
    · rw [more]
      have shorter : rest.length < n := by
        have := token.source_length_pos
        rw [← length, List.length_append]
        omega
      exact (ih _ shorter _ rest rfl).cons fits

/-- Where a placeholder can be read, a token that fits is the longest one. -/
theorem Fits.longest {token : Token} {after : List Char}
    (fits : token.Fits (token.source ++ after)) {p : Placeholder}
    (begins : p.spelling.toList <+: token.source ++ after) :
    ∃ q, token = .placeholder q ∧ q.Longest (token.source ++ after) := by
  cases token with
  | placeholder q => exact ⟨q, rfl, fits⟩
  | literal c => exact absurd begins (fits.2 p)
  | escaped text =>
    obtain ⟨rest, split⟩ := begins
    have pos := p.spelling_length_pos
    have noBracket := p.bracket_notMem_spelling
    cases spelled : p.spelling.toList with
    | nil => simp [spelled] at pos
    | cons c cs =>
      rw [spelled] at split noBracket
      have opening : c = '[' := (List.cons.inj split).1
      exact absurd (opening ▸ List.mem_cons_self) noBracket

end Token

/-- A format is refused exactly when it has a bracket that is not closed by any bracket after it,
and the first such bracket is reported. Any other format is spelled out by its tokens, with the
brackets put back around the escaped texts, which hold no closing bracket. Each token is the right
one for what is left where it stands, and in particular the longest placeholder wherever one can be
read. -/
theorem tokens_greedy (format : String) :
    ((∃ e, tokens format = .error e) ↔ ∃ position, OpenAt format.toList position) ∧
      (∀ e, tokens format = .error e → ∃ first, IsLeast {i | OpenAt format.toList i} first ∧
        e = .openEscape first ∧
        e.message = "Unterminated '[' escape at position " ++ toString first) ∧
      ∀ known, tokens format = .ok known →
        known.flatMap Token.source = format.toList ∧
        (∀ text, .escaped text ∈ known → ']' ∉ text) ∧
        ∀ before token after, known = before ++ token :: after →
          let rest := (token :: after).flatMap Token.source
          token.Fits rest ∧ ∀ p : Placeholder, p.spelling.toList <+: rest →
            ∃ q, token = .placeholder q ∧ q.Longest rest := by
  have splits := Token.splits_tokensFrom 0 format.toList
  refine ⟨⟨?refused, ?unclosed⟩, ?first, fun known found => ⟨splits.spelled known found, ?_, ?_⟩⟩
  case refused =>
    rintro ⟨e, refused⟩
    obtain ⟨first, -, least⟩ := splits.refused e refused
    exact ⟨first, least.1⟩
  case unclosed =>
    rintro ⟨position, here⟩
    cases found : tokens format with
    | error e => exact ⟨e, rfl⟩
    | ok known => exact absurd here (splits.closed known found position)
  case first =>
    intro e refused
    obtain ⟨first, rfl, least⟩ := splits.refused e refused
    rw [Nat.zero_add]
    exact ⟨first, least, rfl, rfl⟩
  · intro text escaped
    obtain ⟨before, after, split⟩ := List.append_of_mem escaped
    exact splits.fits known found before _ after split
  · intro before token after split
    have fits := splits.fits known found before token after split
    exact ⟨fits, fun p begins => fits.longest begins⟩

end ContentSchema.Calendar
