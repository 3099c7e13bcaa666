import ContentSchema.Proofs.LegalNames

/-! Type names by the words of a selector. Whatever stands between the words, before the first and
after the last leaves no trace, and a name that was made is its own name. -/
namespace ContentSchema.TypeName

/-- Name characters, at least one. -/
structure Word where
  chars : List Char
  some : chars ≠ []
  named : ∀ c ∈ chars, isNameChar c = true

/-- Characters that no name has, possibly none at all. -/
structure Filler where
  chars : List Char
  odd : ∀ c ∈ chars, isNameChar c = false

/-- A filler that keeps words apart. -/
structure Separator extends Filler where
  some : chars ≠ []

/-- Words, and what stands between and around them. -/
structure Layout where
  lead : Filler
  first : Word
  more : List (Separator × Word)
  trail : Filler

namespace Layout

def chars (t : Layout) : List Char :=
  t.lead.chars ++ (t.first.chars ++
    ((t.more.flatMap fun (s, w) => s.chars ++ w.chars) ++ t.trail.chars))

def text (t : Layout) : String := String.ofList t.chars

def words (t : Layout) : List Word := t.first :: t.more.map Prod.snd

end Layout

def Filler.text (f : Filler) : String := String.ofList f.chars

/-- A word with a capital in front. -/
def Word.capital (w : Word) : List Char :=
  match w.chars with
  | [] => []
  | c :: rest => c.toUpper :: rest

/-- The name that words make: one after the other, and an underscore before a digit. -/
def nameOf (words : List Word) : String :=
  let name := words.flatMap Word.capital
  String.ofList (if name.head?.any Char.isDigit then '_' :: name else name)

/-! ### The words of a text -/

theorem words_append_cons {c : Char} (odd : isNameChar c = false) (x y : List Char) :
    words (x ++ c :: y) = words x ++ words y := by
  unfold words
  rw [List.splitOnP_append_cons x y (by simp [odd]), List.filter_append]

theorem Filler.words_append (f : Filler) (y : List Char) : words (f.chars ++ y) = words y := by
  obtain ⟨cs, odd⟩ := f
  induction cs with
  | nil => rfl
  | cons c cs ih =>
    obtain ⟨own, odd⟩ := List.forall_mem_cons.mp odd
    rw [← ih odd]
    exact words_append_cons own [] (cs ++ y)

theorem Filler.words_eq_nil (f : Filler) : words f.chars = [] := by
  rw [← List.append_nil f.chars, f.words_append]
  rfl

theorem Word.words_eq (w : Word) : words w.chars = [w.chars] := by
  rw [words, List.splitOnP_eq_singleton fun c hc => by simp [w.named c hc]]
  simp [w.some]

/-- A word ends where a separator begins. -/
theorem Word.words_append_separator (w : Word) (s : Separator) (y : List Char) :
    words (w.chars ++ (s.chars ++ y)) = w.chars :: words y := by
  obtain ⟨c, rest, spelled⟩ := List.exists_cons_of_ne_nil s.some
  have odd := s.odd
  rw [spelled] at odd ⊢
  obtain ⟨own, odd⟩ := List.forall_mem_cons.mp odd
  have behind : words (rest ++ y) = words y := Filler.words_append ⟨rest, odd⟩ y
  rw [List.cons_append, words_append_cons own, w.words_eq, behind, List.singleton_append]

theorem Word.words_append_filler (w : Word) (f : Filler) :
    words (w.chars ++ f.chars) = [w.chars] := by
  obtain ⟨cs, odd⟩ := f
  cases cs with
  | nil => rw [List.append_nil, w.words_eq]
  | cons c cs =>
    have cut := w.words_append_separator { chars := c :: cs, odd := odd, some := nofun } []
    rwa [List.append_nil] at cut

/-- A text has the words that it was put together from. -/
theorem Layout.words_chars (t : Layout) : TypeName.words t.chars = t.words.map Word.chars := by
  obtain ⟨lead, first, more, trail⟩ := t
  rw [Layout.chars, lead.words_append]
  induction more generalizing first with
  | nil => exact first.words_append_filler trail
  | cons entry more ih =>
    obtain ⟨s, w⟩ := entry
    rw [List.flatMap_cons, List.append_assoc, List.append_assoc, first.words_append_separator, ih]
    rfl

/-- Characters are taken apart from the last one on: each one is put before a filler or a layout. -/
private theorem filler_or_layout (cs : List Char) :
    (∃ f : Filler, cs = f.chars) ∨ ∃ t : Layout, cs = t.chars := by
  induction cs with
  | nil => exact Or.inl ⟨⟨[], nofun⟩, rfl⟩
  | cons c cs ih =>
    cases own : isNameChar c with
    | false =>
      rcases ih with ⟨f, rfl⟩ | ⟨t, rfl⟩
      · exact Or.inl ⟨⟨c :: f.chars, List.forall_mem_cons.mpr ⟨own, f.odd⟩⟩, rfl⟩
      · let lead : Filler := ⟨c :: t.lead.chars, List.forall_mem_cons.mpr ⟨own, t.lead.odd⟩⟩
        exact Or.inr ⟨{ t with lead := lead }, rfl⟩
    | true =>
      let single : Word := ⟨[c], nofun, by simpa using own⟩
      rcases ih with ⟨f, rfl⟩ | ⟨⟨⟨lead, odd⟩, first, more, trail⟩, rfl⟩
      · exact Or.inr ⟨⟨⟨[], nofun⟩, single, [], f⟩, rfl⟩
      · cases lead with
        | nil =>
          let longer : Word :=
            ⟨c :: first.chars, nofun, List.forall_mem_cons.mpr ⟨own, first.named⟩⟩
          exact Or.inr ⟨⟨⟨[], nofun⟩, longer, more, trail⟩, rfl⟩
        | cons d lead =>
          let s : Separator := { chars := d :: lead, odd := odd, some := nofun }
          exact Or.inr ⟨⟨⟨[], nofun⟩, single, (s, first) :: more, trail⟩, by
            simp [Layout.chars, single, s]⟩

/-- Every text is filler or made of words. -/
theorem exists_layout (text : String) :
    (∃ f : Filler, text = f.text) ∨ ∃ t : Layout, text = t.text := by
  rcases filler_or_layout text.toList with ⟨f, spelled⟩ | ⟨t, spelled⟩
  · exact Or.inl ⟨f, by rw [Filler.text, ← spelled, String.ofList_toList]⟩
  · exact Or.inr ⟨t, by rw [Layout.text, ← spelled, String.ofList_toList]⟩

/-! ### The name of a text -/

theorem Word.capital_eq (w : Word) : w.capital = Text.capitalised w.chars := by
  obtain ⟨cs, some, named⟩ := w
  cases cs with
  | nil => rfl
  | cons c cs => exact (congrArg (· ++ cs) (upper_of_isNameChar (named c List.mem_cons_self))).symm

/-- The first letter of a name is a capital. -/
theorem Layout.exists_letters_eq (t : Layout) : ∃ c rest, isNameChar c = true ∧
    t.words.flatMap Word.capital = c.toUpper :: rest := by
  obtain ⟨c, rest, spelled⟩ := List.exists_cons_of_ne_nil t.first.some
  refine ⟨c, rest ++ (t.more.map Prod.snd).flatMap Word.capital, ?_, ?_⟩
  · exact t.first.named c (spelled ▸ List.mem_cons_self)
  · rw [Layout.words, List.flatMap_cons, Word.capital, spelled, List.cons_append]

theorem guardDigit_eq (cs : List Char) :
    guardDigit cs = if cs.head?.any Char.isDigit then '_' :: cs else cs := by
  cases cs <;> rfl

theorem Filler.ofSelector_text (f : Filler) : ofSelector f.text = "Type" := by
  rw [ofSelector, Filler.text, String.toList_ofList, ofChars, f.words_eq_nil]
  rfl

theorem Layout.ofSelector_text (t : Layout) : ofSelector t.text = nameOf t.words := by
  have letters : (TypeName.words t.chars).flatMap Text.capitalised =
      t.words.flatMap Word.capital := by
    rw [t.words_chars, List.flatMap_map]
    exact congrArg t.words.flatMap (funext fun w => w.capital_eq.symm)
  obtain ⟨c, rest, -, name⟩ := t.exists_letters_eq
  rw [ofSelector, Layout.text, String.toList_ofList, ofChars, letters, nameOf, ← guardDigit_eq, name]

theorem toUpper_toUpper {c : Char} (named : isNameChar c = true) :
    c.toUpper.toUpper = c.toUpper := by
  have ascii : ∀ n < 0x80, (Char.ofNat n).toUpper.toUpper = (Char.ofNat n).toUpper := by
    decide +kernel
  apply of_ascii named
  exact fun n few _ => ascii n few

/-- A name does not begin with a small letter. -/
theorem toUpper_head_ofSelector {selector : String} {c : Char}
    (first : (ofSelector selector).toList.head? = some c) : c.toUpper = c := by
  rcases exists_layout selector with ⟨f, rfl⟩ | ⟨t, rfl⟩
  · rw [f.ofSelector_text] at first
    cases first
    rfl
  · obtain ⟨d, rest, named, letters⟩ := t.exists_letters_eq
    rw [t.ofSelector_text, nameOf, letters, String.toList_ofList] at first
    split at first
    · cases first
      rfl
    · cases first
      exact toUpper_toUpper named

/-- A legal name that does not begin with a small letter is its own name. -/
theorem ofSelector_eq_self {name : String} (legal : isLegal name = true)
    (upper : ∀ c, name.toList.head? = some c → c.toUpper = c) : ofSelector name = name := by
  obtain ⟨some, begins⟩ := isLegal_iff.mp legal
  obtain ⟨named, first⟩ := beginsName_iff.mp begins
  have some : name.toList ≠ [] := mt String.toList_eq_nil_iff.mp some
  let whole : Layout := ⟨⟨[], nofun⟩, ⟨name.toList, some, named⟩, [], ⟨[], nofun⟩⟩
  have spelled : whole.text = name := by simp [Layout.text, Layout.chars, whole]
  have letters : whole.words.flatMap Word.capital = name.toList := by
    obtain ⟨c, rest, chars⟩ := List.exists_cons_of_ne_nil some
    simp [Layout.words, whole, Word.capital, chars, upper c (by rw [chars]; rfl)]
  have noDigit : ¬ name.toList.head?.any Char.isDigit = true := by
    simpa [Option.any_eq_false] using first
  rw [← spelled, whole.ofSelector_text, nameOf, letters, if_neg noDigit, spelled,
    String.ofList_toList]

/-- The name of words, whatever stands between and around them, is made of them alone; where there
are none it is always the same; and a name that was made is left as it is. -/
theorem ofSelector_only_words :
    (∀ t : Layout, ofSelector t.text = nameOf t.words) ∧
      (∀ f : Filler, ofSelector f.text = "Type") ∧
      ∀ selector : String, ofSelector (ofSelector selector) = ofSelector selector := by
  refine ⟨Layout.ofSelector_text, Filler.ofSelector_text, fun selector => ?_⟩
  exact ofSelector_eq_self (isLegal_ofSelector selector) fun _ => toUpper_head_ofSelector

end ContentSchema.TypeName
