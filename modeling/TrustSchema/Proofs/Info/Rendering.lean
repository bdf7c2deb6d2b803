import TrustSchema.Proofs.Info.Acceptance
import TrustSchema.Proofs.Info.Tokens

/-!
The texts of a configuration tree. Words may be quoted or bare, empty values and empty blocks may be
left out, and white space, blank lines and comments may stand wherever they do not end the line
between a key and its value. Every such text is read back as the tree, and every tree has one.
-/

namespace TrustSchema.Info

/-- A word that needs no quotes. -/
def Bare (word : Text) : Prop :=
  word ≠ [] ∧ ∀ c ∈ word, Text.isBlank c = false ∧ c ∉ ['{', '}', ';', '"']

instance (word : Text) : Decidable (Bare word) :=
  @instDecidableAnd (word ≠ []) _ inferInstance (List.decidableBAll
    (fun c => Text.isBlank c = false ∧ c ∉ ['{', '}', ';', '"']) word)

/-- A word, bare or in quotes. -/
inductive WordForm : Text → Text → Prop
  | bare {word : Text} : Bare word → WordForm word word
  | quoted {word : Text} {forms : List Text} : List.Forall₂ CharForm word forms →
      WordForm word ('"' :: (forms.flatten ++ ['"']))

/-- White space on one line. -/
def Spaces (text : Text) : Prop :=
  ∀ c ∈ text, Text.isBlank c = true ∧ c ≠ '\n'

instance (text : Text) : Decidable (Spaces text) :=
  List.decidableBAll (fun c => Text.isBlank c = true ∧ c ≠ '\n') text

/-- A key and its value, on one line. An empty value may be left out, and two bare words are kept
apart. -/
inductive LineForm : Text → Text → Text → Prop
  | key {key form : Text} : WordForm key form → LineForm key [] form
  | pair {key value first spaces second : Text} : WordForm key first → Spaces spaces →
      WordForm value second → (Bare first → Bare second → spaces ≠ []) →
      LineForm key value (first ++ spaces ++ second)

/-- White space and comments, each of which ends with its line. -/
inductive Gap : Text → Prop
  | nil : Gap []
  | blank {c : Char} {rest : Text} : Text.isBlank c = true → Gap rest → Gap (c :: rest)
  | comment {note rest : Text} : '\n' ∉ note → Gap rest → Gap (';' :: (note ++ '\n' :: rest))

/-- The text of entries in which at most `depth` blocks stand inside each other, those with nothing
in them included. An entry without a block is followed by a line end, unless it is the last one of
its block or of the text. -/
inductive Renders : Nat → List Entry → Text → Prop
  | nil {depth : Nat} {gap : Text} : Gap gap → Renders depth [] gap
  | plain {depth : Nat} {key value before line after text : Text} {entries : List Entry} :
      Gap before → LineForm key value line → Gap after → ('\n' ∈ after ∨ entries = []) →
      Renders depth entries text →
      Renders depth (.mk key value [] :: entries) (before ++ line ++ after ++ text)
  | block {depth : Nat} {key value before line between inside text : Text}
      {inner entries : List Entry} :
      Gap before → LineForm key value line → Gap between → Renders depth inner inside →
      Renders (depth + 1) entries text →
      Renders (depth + 1) (.mk key value inner :: entries)
        (before ++ line ++ between ++ '{' :: (inside ++ '}' :: text))

/-- The text of a whole tree, which may end with a comment. -/
inductive RendersText : Nat → List Entry → Text → Prop
  | plain {depth : Nat} {tree : List Entry} {text : Text} :
      Renders depth tree text → RendersText depth tree text
  | comment {depth : Nat} {tree : List Entry} {text note : Text} :
      Renders depth tree text → '\n' ∉ note → RendersText depth tree (text ++ ';' :: note)

mutual

/-- How many levels of entries there are from an entry on. -/
def Entry.levels : Entry → Nat
  | .mk _ _ block => levels block + 1

/-- How many levels of entries a tree has. The entries at one level stand in as many blocks as there
are levels above. -/
def levels : List Entry → Nat
  | [] => 0
  | e :: rest => max e.levels (levels rest)

end

theorem levels_cons (key value : Text) (block rest : List Entry) :
    levels (.mk key value block :: rest) = max (levels block + 1) (levels rest) := by
  rw [levels, Entry.levels]

/-! ### What ends a bare word -/

theorem Bare.isBare {word : Text} (bare : Bare word) : ∀ c ∈ word, isBare c = true := by
  intro c member
  obtain ⟨solid, special⟩ := bare.2 c member
  simp only [List.mem_cons, List.not_mem_nil, or_false, not_or] at special
  exact (isBare_iff c).mpr ⟨solid, special⟩

theorem not_isBare_of_isBlank {c : Char} (blank : Text.isBlank c = true) : isBare c = false := by
  simp [Info.isBare, blank]

/-- No bare word goes on into the text. -/
def Ends (text : Text) : Prop :=
  ∀ c ∈ text.head?, isBare c = false

theorem ends_nil : Ends [] :=
  nofun

theorem ends_cons {c : Char} (special : isBare c = false) (rest : Text) : Ends (c :: rest) := by
  rintro _ ⟨⟩
  exact special

theorem Spaces.ends {spaces : Text} (blank : Spaces spaces) (nonempty : spaces ≠ []) (rest : Text) :
    Ends (spaces ++ rest) := by
  cases spaces with
  | nil => exact absurd rfl nonempty
  | cons c spaces =>
    exact ends_cons (not_isBare_of_isBlank (blank c List.mem_cons_self).1) _

theorem Gap.ends {gap rest : Text} (wide : Gap gap) (ends : gap = [] → Ends rest) :
    Ends (gap ++ rest) := by
  cases wide with
  | nil => exact ends rfl
  | blank white => exact ends_cons (not_isBare_of_isBlank white) _
  | comment => exact ends_cons (by decide) _

/-! ### The tokens of the parts -/

theorem Spaces.spells {spaces : Text} (blank : Spaces spaces) : Spells spaces [] := by
  induction spaces with
  | nil => exact .nil
  | cons c spaces ih =>
    obtain ⟨white, inside⟩ := blank c List.mem_cons_self
    exact Spells.append (.blank white inside) (ih fun d member => blank d (.tail _ member))

theorem Gap.spells {gap : Text} (wide : Gap gap) :
    ∃ breaks, Spells gap (List.replicate breaks .lineEnd) ∧ ('\n' ∈ gap → breaks ≠ 0) := by
  induction wide with
  | nil => exact ⟨0, .nil, nofun⟩
  | @blank c rest white _ ih =>
    obtain ⟨breaks, spelled, some⟩ := ih
    by_cases newline : c = '\n'
    · subst newline
      exact ⟨breaks + 1, Spells.append .newline spelled, fun _ => Nat.succ_ne_zero _⟩
    · refine ⟨breaks, Spells.append (.blank white newline) spelled, fun member => ?_⟩
      rcases List.mem_cons.mp member with same | later
      · exact absurd same.symm newline
      · exact some later
  | @comment note rest oneLine _ ih =>
    obtain ⟨breaks, spelled, -⟩ := ih
    have whole := Spells.append (.comment oneLine) spelled
    rw [List.cons_append, List.append_assoc] at whole
    exact ⟨breaks + 1, whole, fun _ => Nat.succ_ne_zero _⟩

theorem WordForm.scans {word form rest : Text} {written : List Token} (formed : WordForm word form)
    (ends : Bare form → Ends rest) (scans : Scans rest written) :
    Scans (form ++ rest) (.word word :: written) := by
  cases formed with
  | bare bare => exact .bare bare.1 bare.isBare (ends bare) scans
  | quoted formed => exact .after (.forms formed) scans

theorem WordForm.ends {word form : Text} (formed : WordForm word form) (rest : Text)
    (quoted : ¬Bare form) : Ends (form ++ rest) := by
  cases formed with
  | bare bare => exact absurd bare quoted
  | quoted => exact ends_cons (by decide) _

theorem LineForm.scans {key value line : Text} (formed : LineForm key value line) :
    ∃ given, given.getD [] = value ∧ ∀ rest written, Ends rest → Scans rest written →
      Scans (line ++ rest) (words key given ++ written) := by
  cases formed with
  | key formed =>
    exact ⟨none, rfl, fun rest written ends scans => formed.scans (fun _ => ends) scans⟩
  | @pair _ first spaces second keyed blank valued apart =>
    refine ⟨some value, rfl, fun rest written ends scans => ?_⟩
    have after := Scans.after blank.spells (valued.scans (fun _ => ends) scans)
    rw [List.append_assoc, List.append_assoc]
    refine keyed.scans (fun bare => ?_) after
    -- The value ends the key if it is in quotes, and otherwise there is a blank.
    by_cases nonempty : spaces = []
    · subst nonempty
      exact valued.ends rest fun bare' => apart bare bare' rfl
    · exact blank.ends nonempty _

/-! ### The tokens of a tree -/

theorem Renders.gap_of_nil {depth : Nat} {text : Text} (renders : Renders depth [] text) :
    Gap text := by
  cases renders with
  | nil wide => exact wide

/-- The tokens of a text are derived by the grammar, and read whatever ends the text. -/
theorem Renders.scans {depth : Nat} {entries : List Entry} {text : Text}
    (renders : Renders depth entries text) {around : Nat} (fits : around + depth ≤ maxDepth) :
    ∃ written, SectionTokens around written entries ∧
      (entries = [] → ¬BeginsWithWord written) ∧
      ∀ tail later, Ends tail → Scans tail later → Scans (text ++ tail) (written ++ later) := by
  induction renders generalizing around with
  | nil wide =>
    obtain ⟨breaks, spelled, -⟩ := wide.spells
    refine ⟨_, SectionTokens.lineEnds .nil breaks, fun _ => ?_, fun tail later _ scans => ?_⟩
    · exact not_beginsWithWord_lineEnds (.inr not_beginsWithWord_nil)
    · rw [List.append_nil]
      exact .after spelled scans
  | @plain depth key value before line after text entries first lined second separated more ih =>
    obtain ⟨breaks, spelled, -⟩ := first.spells
    obtain ⟨given, rfl, scansLine⟩ := lined.scans
    obtain ⟨breaks', spelled', newline⟩ := second.spells
    obtain ⟨written, derived, alone, scansRest⟩ := ih fits
    have apart : ¬BeginsWithWord (List.replicate breaks' .lineEnd ++ written) :=
      not_beginsWithWord_lineEnds (separated.imp newline alone)
    refine ⟨_, SectionTokens.lineEnds (.entry (.plain key given)
      (derived.lineEnds breaks') fun _ => apart) breaks, nofun, fun tail later ends scans => ?_⟩
    have endsAfter : Ends (after ++ (text ++ tail)) := by
      -- With nothing between, this is the last entry, and its words end where the text does.
      apply second.ends
      rintro rfl
      obtain rfl := separated.resolve_left List.not_mem_nil
      exact more.gap_of_nil.ends fun _ => ends
    have scansAll := Scans.after spelled (scansLine _ _ endsAfter
      (.after spelled' (scansRest tail later ends scans)))
    simpa only [List.append_assoc] using scansAll
  | @block depth key value before line between inside text inner entries first lined second _ _
      ihInner ih =>
    obtain ⟨breaks, spelled, -⟩ := first.spells
    obtain ⟨given, rfl, scansLine⟩ := lined.scans
    obtain ⟨breaks', spelled', -⟩ := second.spells
    have deeper : around + 1 + depth ≤ maxDepth := by omega
    obtain ⟨body, derivedBody, -, scansBody⟩ := ihInner deeper
    obtain ⟨written, derived, -, scansRest⟩ := ih fits
    have shallow : around < maxDepth := by omega
    refine ⟨_, SectionTokens.lineEnds (.block key given breaks' shallow derivedBody derived) breaks,
      nofun, fun tail later ends scans => ?_⟩
    have closed : Scans ('}' :: (text ++ tail)) (.blockClose :: (written ++ later)) :=
      .after .blockClose (scansRest tail later ends scans)
    have opened : Scans ('{' :: (inside ++ '}' :: (text ++ tail)))
        (.blockOpen :: (body ++ .blockClose :: (written ++ later))) :=
      .after .blockOpen (scansBody _ _ (ends_cons (by decide) _) closed)
    have scansAll := Scans.after spelled (scansLine _ _
      (second.ends fun _ => ends_cons (by decide) _) (.after spelled' opened))
    simpa only [List.append_assoc, List.cons_append] using scansAll

theorem parse?_of_scans {text : Text} {written : List Token} {tree : List Entry}
    (scans : Scans text written) (derived : SectionTokens 0 written tree) :
    parse? text = .ok tree := by
  obtain ⟨located, rfl, read⟩ := scans 1
  rw [parse?, tokens, read]
  exact (ofTokens?_ok_iff located tree).mpr derived

theorem parse?_of_rendersText {depth : Nat} {tree : List Entry} {text : Text}
    (renders : RendersText depth tree text) (shallow : depth ≤ maxDepth) :
    parse? text = .ok tree := by
  have fits : 0 + depth ≤ maxDepth := by omega
  cases renders with
  | plain renders =>
    obtain ⟨written, derived, -, scans⟩ := renders.scans fits
    have whole := scans [] [] ends_nil .nil
    rw [List.append_nil, List.append_nil] at whole
    exact parse?_of_scans whole derived
  | @comment text note renders oneLine =>
    obtain ⟨written, derived, -, scans⟩ := renders.scans fits
    have whole := scans (';' :: note) [] (ends_cons (by decide) _) (.lastComment oneLine)
    rw [List.append_nil] at whole
    exact parse?_of_scans whole derived

/-! ### Trees and their texts -/

theorem Renders.mono {depth deeper : Nat} {tree : List Entry} {text : Text}
    (renders : Renders depth tree text) (more : depth ≤ deeper) : Renders deeper tree text := by
  induction renders generalizing deeper with
  | nil wide => exact .nil wide
  | plain first lined second separated _ ih => exact .plain first lined second separated (ih more)
  | block first lined second _ _ ihInner ih =>
    obtain ⟨deeper, rfl⟩ := Nat.exists_eq_add_of_le' (Nat.one_le_of_lt more)
    exact .block first lined second (ihInner (Nat.le_of_succ_le_succ more)) (ih more)

/-- No text of a tree has more blocks inside each other than the tree has levels. -/
theorem Renders.atLevels {depth : Nat} {tree : List Entry} {text : Text}
    (renders : Renders depth tree text) : Renders (levels tree) tree text := by
  induction renders with
  | nil wide => exact .nil wide
  | plain first lined second separated _ ih =>
    rw [levels_cons]
    exact .plain first lined second separated (ih.mono (Nat.le_max_right _ _))
  | @block _ key value _ _ _ _ _ inner entries first lined second _ _ ihInner ih =>
    have deep : levels inner + 1 ≤ levels (.mk key value inner :: entries) := by
      rw [levels_cons]
      exact Nat.le_max_left _ _
    have wide : levels entries ≤ levels (.mk key value inner :: entries) := by
      rw [levels_cons]
      exact Nat.le_max_right _ _
    obtain ⟨inside, same⟩ := Nat.exists_eq_add_of_le' (Nat.one_le_of_lt deep)
    rw [same] at deep wide ⊢
    exact .block first lined second (ihInner.mono (Nat.le_of_succ_le_succ deep)) (ih.mono wide)

theorem RendersText.atLevels {depth : Nat} {tree : List Entry} {text : Text}
    (renders : RendersText depth tree text) : RendersText (levels tree) tree text := by
  cases renders with
  | plain renders => exact .plain renders.atLevels
  | comment renders oneLine => exact .comment renders.atLevels oneLine

theorem exists_lineForm (key value : Text) : ∃ line, LineForm key value line := by
  have space : Spaces [' '] := by decide
  exact ⟨_, .pair (.quoted (charForms_escape key)) space (.quoted (charForms_escape value))
    fun _ _ => List.cons_ne_nil _ _⟩

/-- The blocks of the last level are empty and left out. -/
theorem exists_renders {depth : Nat} {tree : List Entry} (fits : levels tree ≤ depth + 1) :
    ∃ text, Renders depth tree text := by
  induction depth generalizing tree with
  | zero =>
    induction tree with
    | nil => exact ⟨[], .nil .nil⟩
    | cons e rest ih =>
      obtain ⟨key, value, block⟩ := e
      rw [levels_cons] at fits
      obtain ⟨text, renders⟩ := ih (by omega)
      obtain ⟨line, lined⟩ := exists_lineForm key value
      -- No block may open here, and the entry has none with anything in it.
      cases block with
      | nil =>
        exact ⟨_, .plain .nil lined (.blank (c := '\n') (by decide) .nil) (.inl List.mem_cons_self)
          renders⟩
      | cons inner block =>
        obtain ⟨key', value', block'⟩ := inner
        rw [levels_cons] at fits
        omega
  | succ depth ihDepth =>
    induction tree with
    | nil => exact ⟨[], .nil .nil⟩
    | cons e rest ih =>
      obtain ⟨key, value, block⟩ := e
      rw [levels_cons] at fits
      obtain ⟨text, renders⟩ := ih (by omega)
      obtain ⟨inside, inner⟩ : ∃ inside, Renders depth block inside := ihDepth (by omega)
      obtain ⟨line, lined⟩ := exists_lineForm key value
      exact ⟨_, .block .nil lined .nil inner renders⟩

/-- A tree is read back from every text of it in which no more than 64 blocks stand inside each
other. Empty blocks count where they are written; no text of a tree with at most 64 levels has more,
and a tree with one level more has a text that leaves out the empty blocks there. -/
theorem parse?_texts :
    (∀ depth tree text, depth ≤ maxDepth → RendersText depth tree text → parse? text = .ok tree) ∧
      (∀ depth tree text, levels tree ≤ maxDepth → RendersText depth tree text →
        parse? text = .ok tree) ∧
      ∀ tree, levels tree ≤ maxDepth + 1 → ∃ text, RendersText maxDepth tree text := by
  refine ⟨?written, ?levels, ?every⟩
  case written =>
    intro depth tree text shallow renders
    exact parse?_of_rendersText renders shallow
  case levels =>
    intro depth tree text shallow renders
    exact parse?_of_rendersText renders.atLevels shallow
  case every =>
    intro tree shallow
    obtain ⟨text, renders⟩ := exists_renders shallow
    exact ⟨text, .plain renders⟩

/-- A comment, a key without a value, its block on the next line, and in it a quoted value after a
bare key and another comment. -/
def notedText : Text :=
  "; rule\nfilter\n\x7b name \"a b\";note\n\x7d".toList

def notedTree : List Entry :=
  [.mk "filter".toList [] [.mk "name".toList "a b".toList []]]

theorem parse?_texts_notedText :
    1 ≤ maxDepth ∧ RendersText 1 notedTree notedText ∧ parse? notedText = .ok notedTree := by
  have filterBare : Bare "filter".toList := by decide
  have nameBare : Bare "name".toList := by decide
  have space : Spaces [' '] := by decide
  have line : LineForm "name".toList "a b".toList
      ("name".toList ++ [' '] ++ '"' :: (("a b".toList.map fun c => [c]).flatten ++ ['"'])) := by
    refine .pair (.bare nameBare) space (.quoted ?_) fun _ _ => List.cons_ne_nil _ _
    exact charForms_escape "a b".toList
  have note : Gap (';' :: ("note".toList ++ ['\n'])) := .comment (by decide) .nil
  have inner : Renders 0 [.mk "name".toList "a b".toList []] " name \"a b\";note\n".toList :=
    .plain (.blank (c := ' ') (by decide) .nil) line note (.inl (by decide)) (.nil .nil)
  have heading : Gap (';' :: (" rule".toList ++ ['\n'])) := .comment (by decide) .nil
  have outer : Renders 1 notedTree notedText :=
    .block heading (.key (.bare filterBare)) (.blank (c := '\n') (by decide) .nil) inner
      (.nil .nil)
  exact ⟨by decide, .plain outer, parse?_texts.1 1 _ _ (by decide) (.plain outer)⟩

end TrustSchema.Info
