import OrderRail.Proofs.CommandLine.Spelling

/-!
# Mentions are read one after another

After some mentions of a command's options the settings hold what these have given, whatever is
still pending: the value of the last mention is examined later, but then with the same result. One
more mention is read to the settings with what it gives, whatever words follow. So by induction all
mentions are read, and the order of mentions of different options makes no difference.
-/

namespace OrderRail

namespace Separated

/-- A joined text begins with the first of its texts. -/
theorem exists_toList_join (sep : Char) (text : String) (others : List String) :
    ∃ rest, (join sep (text :: others)).toList = text.toList ++ rest := by
  cases others with
  | nil => exact ⟨[], by simp [join]⟩
  | cons next others =>
    exact ⟨_, by rw [join, String.intercalate_cons_cons, String.append_assoc, String.toList_append]⟩

end Separated

namespace CommandLine

/-- What stands before an equals sign holds no other one, so the value begins after it. -/
theorem attachedValue_append {word : List Char} (h : '=' ∉ word) (value : List Char) :
    attachedValue (word ++ '=' :: value) = some (String.ofList value) := by
  induction word with
  | nil => rfl
  | cons c rest ih =>
    obtain ⟨hc, hrest⟩ := not_or.mp (mt List.mem_cons.mpr h)
    rw [List.cons_append, attachedValue, if_neg (Ne.symm hc), ih hrest]

namespace Form

/-- A word that does not begin with a dash is plain. -/
theorem ofWord_plain {word : String} {c : Char} {rest : List Char} (h : word.toList = c :: rest)
    (hc : c ≠ '-') : ofWord word = .plain := by
  unfold ofWord
  rw [h]
  split <;> simp_all

/-- Two dashes and an attached value are told apart at the equals sign. -/
theorem ofWord_attached {word : String} (hne : word.toList ≠ []) (h : '=' ∉ word.toList)
    (value : String) :
    ofWord ("--" ++ word ++ "=" ++ value) = .long word (some value) := by
  obtain ⟨c, rest, hcons⟩ := List.exists_cons_of_ne_nil hne
  have htext : ("--" ++ word ++ "=" ++ value).toList =
      '-' :: '-' :: c :: (rest ++ '=' :: value.toList) := by
    simp [hcons]
  have hname : (c :: (rest ++ '=' :: value.toList)).takeWhile (· ≠ '=') = word.toList := by
    rw [← List.cons_append, ← hcons, List.takeWhile_append_of_pos (by grind)]
    simp
  have hvalue : attachedValue (c :: (rest ++ '=' :: value.toList)) = some value := by
    rw [← List.cons_append, ← hcons, attachedValue_append h, String.ofList_toList]
  rw [ofWord, htext]
  simp only [hname, hvalue, String.ofList_toList]

end Form

namespace Mention

/-- The option of a mention is recognized. -/
theorem ofWord_option (mention : Mention) :
    Form.ofWord mention.option = .long mention.name.word none := by
  rw [option]
  cases mention.name <;> decide

/-- An attached value is told apart from its option. -/
theorem ofWord_attached (mention : Mention) :
    Form.ofWord (mention.option ++ "=" ++ mention.value) =
      .long mention.name.word (some mention.value) := by
  refine Form.ofWord_attached ?_ ?_ _ <;> cases mention.name <;> decide

/-- A value does not begin with a dash. -/
theorem ofWord_value {mention : Mention} (h : mention.numerals ≠ []) :
    Form.ofWord mention.value = .plain := by
  obtain ⟨numeral, others, hcons⟩ := List.exists_cons_of_ne_nil h
  obtain ⟨c, digits, hdigits⟩ := List.exists_cons_of_ne_nil numeral.toList_text_ne_nil
  obtain ⟨rest, hrest⟩ := Separated.exists_toList_join ',' numeral.text (others.map (·.text))
  have hvalue : mention.value.toList = c :: (digits ++ rest) := by
    rw [value, hcons, List.map_cons, hrest, hdigits, List.cons_append]
  refine Form.ofWord_plain hvalue ?_
  have hmem : c ∈ numeral.text.toList := hdigits ▸ List.mem_cons_self
  rcases Numeral.mem_text hmem with rfl | hdigit
  · decide
  · rintro rfl
    exact absurd hdigit (by decide)

/-- A value is cut into its numbers again. -/
theorem split_value {mention : Mention} (h : mention.numerals ≠ []) :
    Separated.split ',' mention.value = mention.numerals.map (·.text) := by
  refine Separated.split_join (by simpa using h) ?_
  intro text htext hmem
  obtain ⟨numeral, -, rfl⟩ := List.mem_map.mp htext
  rcases Numeral.mem_text hmem with hsign | hdigit
  · exact absurd hsign (by decide)
  · exact absurd hdigit (by decide)

end Mention

/-- Numerals read as their values. -/
theorem readNumbers_text (spec : OptionSpec) (numerals : List Numeral) :
    readNumbers spec (numerals.map (·.text)) = .ok (numerals.map (·.value)) := by
  induction numerals with
  | nil => rfl
  | cons numeral others ih =>
    rw [List.map_cons, readNumbers, readNumber, Numeral.readWord_text]
    simp only [ih]
    rfl

/-- The numbers that parts bring together, if there are parts. -/
def collected (parts : List (List UInt64)) : Option (List UInt64) :=
  if parts = [] then none else some parts.flatten

/-- One more part is added behind the others. -/
theorem collected_concat (parts : List (List UInt64)) (part : List UInt64) :
    collected (parts ++ [part]) = some ((collected parts).getD [] ++ part) := by
  cases parts <;> simp [collected]

/-- What is given grows by what one more mention gives. -/
theorem Name.parts_concat (name : Name) (earlier : List Mention) (mention : Mention) :
    name.parts (earlier ++ [mention]) =
      name.parts earlier ++ if mention.name = name then [mention.numbers] else [] := by
  rw [parts, List.filter_append, List.map_append, ← parts]
  by_cases h : mention.name = name <;> simp [h]

/-- The settings that mentions make. -/
def Settings.ofMentions (mentions : List Mention) : Settings :=
  fun name => collected (name.parts mentions)

/-- One more mention adds its numbers to those of its option and changes no other option. -/
theorem Settings.ofMentions_concat (earlier : List Mention) (mention : Mention) :
    Settings.ofMentions (earlier ++ [mention]) =
      (Settings.ofMentions earlier).put mention.name
        ((Settings.ofMentions earlier mention.name).getD [] ++ mention.numbers) := by
  funext name
  rw [ofMentions, Name.parts_concat, Settings.put]
  by_cases h : mention.name = name
  · subst h
    rw [if_pos rfl, if_pos rfl, collected_concat]
    rfl
  · rw [if_neg h, if_neg (Ne.symm h), List.append_nil]
    rfl

/-- An option without mentions is not given. -/
theorem Settings.ofMentions_eq_none {name : Name} {mentions : List Mention}
    (h : name.parts mentions = []) : Settings.ofMentions mentions name = .none := by
  rw [ofMentions, h, collected, if_pos rfl]

/-- The parts that an option of some shape may be given. -/
def Shape.Allows : Shape → List (List UInt64) → Prop
  | .flag, parts => parts = [] ∨ parts = [[]]
  | .single _, parts => parts = [] ∨ ∃ number, parts = [[number]]
  | .set _, parts => [] ∉ parts

/-- What is allowed at the end was allowed before. -/
theorem Shape.Allows.of_append {shape : Shape} {earlier later : List (List UInt64)}
    (h : shape.Allows (earlier ++ later)) : shape.Allows earlier := by
  cases shape with
  | flag | single =>
    simp only [Allows, List.append_eq_nil_iff, List.append_eq_singleton_iff] at h ⊢
    grind
  | set => exact fun hmem => h (List.mem_append_left later hmem)

/-- A flag is there once and without a value. -/
theorem Shape.allows_flag_concat {earlier : List (List UInt64)} {part : List UInt64}
    (h : Shape.flag.Allows (earlier ++ [part])) : earlier = [] ∧ part = [] := by
  simpa [Allows, List.append_eq_singleton_iff] using h

/-- A single number is there once. -/
theorem Shape.allows_single_concat {placeholder : String} {earlier : List (List UInt64)}
    {part : List UInt64} (h : (Shape.single placeholder).Allows (earlier ++ [part])) :
    earlier = [] ∧ ∃ number, part = [number] := by
  simpa [Allows, List.append_eq_singleton_iff] using h

/-- A part of a set has numbers. -/
theorem Shape.allows_set_concat {placeholder : String} {earlier : List (List UInt64)}
    {part : List UInt64} (h : (Shape.set placeholder).Allows (earlier ++ [part])) : part ≠ [] :=
  fun hnone => h (List.mem_append_right earlier (List.mem_singleton.mpr hnone.symm))

/-- The command has the option of every mention, and gives it what its shape allows. -/
def Command.Fits (command : Command) (mentions : List Mention) : Prop :=
  ∀ mention ∈ mentions, ∃ spec, command.option? mention.name.word = some spec ∧
    spec.name = mention.name ∧ spec.shape.Allows (mention.name.parts mentions)

variable {command : Command} {progress : Progress} {spec : OptionSpec} {earlier : List Mention}
  {mention : Mention}

/-- An option that is no flag is given a value. -/
theorem numerals_ne_nil (htakes : spec.shape ≠ .flag)
    (hallows : spec.shape.Allows (mention.name.parts (earlier ++ [mention]))) :
    mention.numerals ≠ [] := by
  rw [Name.parts_concat, if_pos rfl] at hallows
  have hsome : mention.numbers ≠ [] := by
    cases hshape : spec.shape with
    | flag => exact absurd hshape htakes
    | single =>
      obtain ⟨-, number, hnumber⟩ := Shape.allows_single_concat (hshape ▸ hallows)
      exact hnumber ▸ List.cons_ne_nil _ _
    | set => exact Shape.allows_set_concat (hshape ▸ hallows)
  exact fun hnone => hsome (by rw [Mention.numbers, hnone, List.map_nil])

/-- The value of a mention is examined to the settings with the mention. -/
theorem assign_value (hname : spec.name = mention.name) (htakes : spec.shape ≠ .flag)
    (hallows : spec.shape.Allows (mention.name.parts (earlier ++ [mention]))) :
    assign (.ofMentions earlier) spec mention.value = .ok (.ofMentions (earlier ++ [mention])) := by
  have hsome := numerals_ne_nil htakes hallows
  rw [Name.parts_concat, if_pos rfl] at hallows
  rw [Settings.ofMentions_concat]
  cases hshape : spec.shape with
  | flag => exact absurd hshape htakes
  | single =>
    -- a single number is the first and the only one, so there is nothing to add to
    obtain ⟨hfirst, number, hnumber⟩ := Shape.allows_single_concat (hshape ▸ hallows)
    obtain ⟨numeral, hnumeral, rfl⟩ := List.map_eq_singleton_iff.mp hnumber
    have habsent := Settings.ofMentions_eq_none hfirst
    have hvalue : mention.value = numeral.text := by
      rw [Mention.value, hnumeral]
      exact String.intercalate_singleton
    simp only [assign, hshape, hname, habsent, readNumber, hvalue, Numeral.readWord_text, hnumber]
    rfl
  | set =>
    simp only [assign, hshape, hname, Mention.split_value hsome, readNumbers_text]
    rfl

/-- An option of the command is read. -/
theorem readOptions_long {word name : String} {attached : Option String}
    (hform : Form.ofWord word = .long name attached) (hoption : command.option? name = some spec)
    (rest : List String) :
    readOptions command progress (word :: rest) =
      (progress.meet spec attached).bind fun next => readOptions command next rest := by
  rw [readOptions, if_neg (by rw [hform]; exact nofun), Progress.read, hform]
  simp only [hoption]
  cases progress.meet spec attached <;> rfl

/-- A value that is awaited is kept until it is examined. -/
theorem readOptions_value {word : String} (hform : Form.ofWord word = .plain)
    (hpending : progress.pending = some (spec, none)) (rest : List String) :
    readOptions command progress (word :: rest) =
      readOptions command { progress with pending := some (spec, some word) } rest := by
  rw [readOptions, if_neg (by rw [hform]; exact nofun), Progress.read, hform]
  simp only [Progress.meetPlain, hpending]

/-- One more mention is read, whatever follows it. -/
theorem readOptions_mention (hresolve : progress.resolve = .ok (.ofMentions earlier))
    (hoption : command.option? mention.name.word = some spec) (hname : spec.name = mention.name)
    (hallows : spec.shape.Allows (mention.name.parts (earlier ++ [mention]))) :
    ∃ next : Progress, next.resolve = .ok (.ofMentions (earlier ++ [mention])) ∧
      ∀ rest, readOptions command progress (mention.words ++ rest) =
        readOptions command next rest := by
  by_cases hflag : spec.shape = .flag
  · rw [Name.parts_concat, if_pos rfl, hflag] at hallows
    obtain ⟨hfirst, hnumbers⟩ := Shape.allows_flag_concat hallows
    have habsent := Settings.ofMentions_eq_none hfirst
    have hwords : mention.words = [mention.option] := if_pos (List.map_eq_nil_iff.mp hnumbers)
    refine ⟨{ settings := .ofMentions (earlier ++ [mention]), pending := none }, rfl,
      fun rest => ?_⟩
    rw [hwords, List.singleton_append, readOptions_long mention.ofWord_option hoption,
      Settings.ofMentions_concat]
    simp only [Progress.meet, hflag, hresolve, hname, habsent, hnumbers]
    rfl
  · have hassign := assign_value hname hflag hallows
    have hsome := numerals_ne_nil hflag hallows
    cases hattached : mention.attached with
    | true =>
      have hwords : mention.words = [mention.option ++ "=" ++ mention.value] := by
        rw [Mention.words, if_neg hsome, if_pos hattached]
      refine ⟨{ settings := .ofMentions (earlier ++ [mention]), pending := none }, rfl,
        fun rest => ?_⟩
      rw [hwords, List.singleton_append, readOptions_long mention.ofWord_attached hoption]
      simp only [Progress.meet, hresolve, hassign]
      rfl
    | false =>
      have hwords : mention.words = [mention.option, mention.value] := by
        rw [Mention.words, if_neg hsome, if_neg (by rw [hattached]; decide)]
      -- the value is not examined yet, but it will be with the result of `assign_value`
      refine ⟨{ settings := .ofMentions earlier, pending := some (spec, some mention.value) },
        hassign, fun rest => ?_⟩
      rw [hwords, List.cons_append, List.singleton_append,
        readOptions_long mention.ofWord_option hoption]
      simp only [Progress.meet, hresolve]
      exact readOptions_value (Mention.ofWord_value hsome) rfl rest

/-- Mentions that fit a command are read to the settings that they make, in whatever order they
are. -/
theorem readOptions_mentions {mentions : List Mention}
    (hresolve : progress.resolve = .ok (.ofMentions earlier))
    (hfits : command.Fits (earlier ++ mentions)) :
    readOptions command progress (mentions.flatMap (·.words)) =
      .ok (.ofMentions (earlier ++ mentions)) := by
  induction mentions generalizing earlier progress with
  | nil => rwa [List.flatMap_nil, readOptions, List.append_nil]
  | cons mention later ih =>
    rw [List.append_cons] at hfits ⊢
    obtain ⟨spec, hoption, hname, hallows⟩ := hfits mention (by simp)
    have hprefix : spec.shape.Allows (mention.name.parts (earlier ++ [mention])) := by
      rw [Name.parts, List.filter_append, List.map_append] at hallows
      exact hallows.of_append
    obtain ⟨next, hnext, hread⟩ := readOptions_mention hresolve hoption hname hprefix
    rw [List.flatMap_cons, hread]
    exact ih hnext hfits

end CommandLine

end OrderRail
