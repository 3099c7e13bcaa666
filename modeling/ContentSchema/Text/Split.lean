/-! Splitting and searching text at a fixed separator. -/
namespace ContentSchema.Text

/-- Cut at every leftmost, non-overlapping occurrence of a separator. `skip` characters of the
separator found last are still to be passed over; `piece` holds the current piece reversed. -/
private def splitFrom (separator : List Char) : (skip : Nat) → (piece : List Char) →
    List Char → List (List Char)
  | _, piece, [] => [piece.reverse]
  | skip + 1, piece, _ :: rest => splitFrom separator skip piece rest
  | 0, piece, c :: rest =>
    if separator.isPrefixOf (c :: rest) then
      piece.reverse :: splitFrom separator (separator.length - 1) [] rest
    else splitFrom separator 0 (c :: piece) rest

/-- The pieces between the leftmost, non-overlapping occurrences of a non-empty separator. -/
def splitAt (separator text : List Char) : List (List Char) := splitFrom separator 0 [] text

/-- What is left of a separator is passed over. -/
private theorem splitFrom_skip (separator skipped piece rest : List Char) :
    splitFrom separator skipped.length piece (skipped ++ rest) =
      splitFrom separator 0 piece rest := by
  induction skipped with
  | nil => rfl
  | cons c skipped ih => exact ih

/-- Characters at which no separator begins are kept. -/
private theorem splitFrom_keep {separator front rest : List Char} (piece : List Char)
    (first : ∀ m, m ≠ [] → m <:+ front → ¬ separator <+: m ++ rest) :
    splitFrom separator 0 piece (front ++ rest) =
      splitFrom separator 0 (front.reverse ++ piece) rest := by
  induction front generalizing piece with
  | nil => rfl
  | cons c front ih =>
    have here : ¬ separator.isPrefixOf (c :: (front ++ rest)) = true := by
      rw [List.isPrefixOf_iff_prefix]
      exact first (c :: front) nofun (List.suffix_refl _)
    rw [List.cons_append, splitFrom, if_neg here,
      ih (c :: piece) fun m some suffix => first m some (suffix.trans (List.suffix_cons c front)),
      List.reverse_cons, List.append_assoc, List.singleton_append]

/-- A text is cut at a separator before which none begins. -/
theorem splitAt_append {separator front rest : List Char} (some : separator ≠ [])
    (first : ∀ m, m ≠ [] → m <:+ front → ¬ separator <+: m ++ (separator ++ rest)) :
    splitAt separator (front ++ (separator ++ rest)) = front :: splitAt separator rest := by
  rw [splitAt, splitFrom_keep [] first, List.append_nil]
  obtain ⟨c, tail, rfl⟩ := List.exists_cons_of_ne_nil some
  have here : (c :: tail).isPrefixOf (c :: (tail ++ rest)) = true :=
    List.isPrefixOf_iff_prefix.mpr (List.prefix_append (c :: tail) rest)
  rw [List.cons_append, splitFrom, if_pos here, List.reverse_reverse, List.length_cons,
    Nat.add_sub_cancel, splitFrom_skip, splitAt]

/-- A text without the separator is a single piece. -/
theorem splitAt_eq_singleton {separator text : List Char} (absent : ¬ separator <:+: text) :
    splitAt separator text = [text] := by
  have keep := @splitFrom_keep separator text [] [] fun m _ suffix begins =>
    absent (((List.append_nil m ▸ begins).isInfix).trans suffix.isInfix)
  rw [List.append_nil, List.append_nil] at keep
  rw [splitAt, keep, splitFrom, List.reverse_reverse]

/-- Whether a piece occurs anywhere in a text. -/
def occursIn (piece : List Char) : List Char → Bool
  | [] => piece.isEmpty
  | c :: rest => piece.isPrefixOf (c :: rest) || occursIn piece rest

theorem occursIn_iff {piece text : List Char} : occursIn piece text = true ↔ piece <:+: text := by
  induction text with
  | nil => rw [occursIn, List.isEmpty_iff, List.infix_nil]
  | cons c text ih =>
    rw [occursIn, Bool.or_eq_true, List.isPrefixOf_iff_prefix, ih, List.infix_cons_iff]

end ContentSchema.Text
