/-!
# Texts with separators

Joining puts one separator between neighbours, splitting cuts at every separator. Empty pieces
count: a text without separators is one piece, and `n` separators always make `n + 1` pieces.
-/

namespace OrderRail.Separated

/-- The pieces between the separators of a text, in order. -/
def pieces (sep : Char) : List Char → List (List Char)
  | [] => [[]]
  | c :: rest =>
    if c = sep then [] :: pieces sep rest
    else
      match pieces sep rest with
      | [] => [[c]]
      | first :: others => (c :: first) :: others

/-- Cut a text at every separator. -/
def split (sep : Char) (text : String) : List String :=
  (pieces sep text.toList).map String.ofList

/-- Write texts one after another with a separator between neighbours. -/
def join (sep : Char) (texts : List String) : String :=
  (String.singleton sep).intercalate texts

/-- There is always a first piece. -/
theorem pieces_ne_nil (sep : Char) (cs : List Char) : pieces sep cs ≠ [] := by
  induction cs with
  | nil => simp [pieces]
  | cons c rest ih =>
    rw [pieces]
    split
    · simp
    · split <;> simp

/-- A text without separators is one piece. -/
theorem pieces_of_not_mem {sep : Char} {cs : List Char} (h : sep ∉ cs) :
    pieces sep cs = [cs] := by
  induction cs with
  | nil => rfl
  | cons c rest ih =>
    obtain ⟨hc, hrest⟩ := not_or.1 (mt List.mem_cons.2 h)
    rw [pieces, if_neg (Ne.symm hc), ih hrest]

/-- The first separator ends the first piece. -/
theorem pieces_append_cons {sep : Char} {cs : List Char} (h : sep ∉ cs) (rest : List Char) :
    pieces sep (cs ++ sep :: rest) = cs :: pieces sep rest := by
  induction cs with
  | nil => simp [pieces]
  | cons c others ih =>
    obtain ⟨hc, hothers⟩ := not_or.1 (mt List.mem_cons.2 h)
    rw [List.cons_append, pieces, if_neg (Ne.symm hc), ih hothers]

/-- Splitting undoes joining for texts that do not hold the separator themselves. -/
theorem split_join {sep : Char} {texts : List String} (hne : texts ≠ [])
    (h : ∀ text ∈ texts, sep ∉ text.toList) : split sep (join sep texts) = texts := by
  induction texts with
  | nil => exact absurd rfl hne
  | cons text rest ih =>
    have htext := h text List.mem_cons_self
    cases rest with
    | nil => simp [join, split, pieces_of_not_mem htext]
    | cons next others =>
      have hrest := ih (by simp) fun t ht => h t (List.mem_cons_of_mem _ ht)
      rw [join, String.intercalate_cons_cons, ← join, split, String.toList_append,
        String.toList_append, String.toList_singleton, List.append_assoc, List.singleton_append,
        pieces_append_cons htext, List.map_cons, String.ofList_toList]
      exact congrArg (text :: ·) hrest

end OrderRail.Separated
