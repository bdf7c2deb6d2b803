import TrustSchema.Positions.Bounds
import TrustSchema.Regex.Bracket

/-!
The tokens of a regular expression: characters, classes, conditions, repetitions, and the signs of
groups and alternatives. Under the flag `x`, which a group can set and which ends with its group,
white space and comments between tokens are passed over.
-/

namespace TrustSchema.Regex

/-- What a list of flags in a group changes. -/
structure FlagChange where
  ignoreCase : Option Bool
  unicode : Option Bool
  multiLine : Option Bool
  dotAll : Option Bool
  crlf : Option Bool
  swapGreed : Option Bool
  ignoreSpace : Option Bool
  deriving DecidableEq, Repr

/-- A list of no flags. -/
def FlagChange.nothing : FlagChange := ⟨none, none, none, none, none, none, none⟩

/-- A token of a regular expression. -/
inductive Token where
  /-- A character. One that is written as an octet means that octet outside Unicode mode. -/
  | literal (c : Char) (asOctet : Bool)
  | anyCharacter
  /-- A class, and how deep it nests. -/
  | charClass (members : ClassExpr) (height : Nat)
  | condition (look : Look)
  /-- A caret. -/
  | lineStart
  /-- A dollar sign. -/
  | lineEnd
  | groupOpen (captures : Bool) (flags : FlagChange)
  | groupClose
  /-- Flags for the rest of the group. -/
  | flags (change : FlagChange)
  | bar
  /-- A repetition, and whether a question mark follows it. -/
  | repetition (bounds : Bounds) (marked : Bool)
  deriving DecidableEq

/-! ## Repetitions -/

/-- Counts are below this bound. -/
def countBound : Nat := UInt32.size

/-- A decimal count with the white space around it, if there is one, and the text after it. -/
def count (ignoreSpace : Bool) (text : Text) : Except Fault (Option Nat × Text) :=
  let read := takeWhileSpaced ignoreSpace Char.isDigit (text.dropWhile Text.isBlank)
  let after := read.2.dropWhile Text.isBlank
  if read.1.isEmpty then .ok (none, after)
  else
    match Text.decimal? read.1 with
    | some n => if n < countBound then .ok (some n, after) else .error .invalidCount
    | none => .error .invalidCount

theorem count_snd {ignoreSpace : Bool} {text after : Text} {n : Option Nat}
    (read : count ignoreSpace text = .ok (n, after)) :
    after = (takeWhileSpaced ignoreSpace Char.isDigit (text.dropWhile Text.isBlank)).2.dropWhile
      Text.isBlank := by
  unfold count at read
  dsimp only at read
  split at read
  · cases read; rfl
  · split at read
    · split at read
      · cases read; rfl
      · cases read
    · cases read

theorem count_length {ignoreSpace : Bool} {text after : Text} {n : Option Nat}
    (read : count ignoreSpace text = .ok (n, after)) : after.length ≤ text.length := by
  rw [count_snd read]
  exact Nat.le_trans (List.dropWhile_sublist _).length_le
    (Nat.le_trans (takeWhileSpaced_length _ _ _) (List.dropWhile_sublist _).length_le)

/-- The greatest count of a repetition whose least count is `least`, and the closing brace. -/
def greatestCount (ignoreSpace : Bool) (least : Nat) (text : Text) :
    Except Fault (Bounds × Text) :=
  match count ignoreSpace text with
  | .error fault => .error fault
  | .ok (none, _) => .error .invalidCount
  | .ok (some greatest, '}' :: after) =>
    match Bounds.between? least greatest with
    | some bounds => .ok (bounds, after)
    | none => .error .invertedCount
  | .ok (some _, _) => .error .unclosedCount

/-- The bounds of a counted repetition, from after its opening brace, and the text after its
closing brace. -/
def countedBounds (ignoreSpace : Bool) (text : Text) : Except Fault (Bounds × Text) :=
  match count ignoreSpace (skipBlanks ignoreSpace text) with
  | .error fault => .error fault
  | .ok (some n, '}' :: after) => .ok (.exactly n, after)
  | .ok (some n, ',' :: rest) =>
    match skipBlanks ignoreSpace rest with
    | '}' :: after => .ok (.atLeast n, after)
    | rest => greatestCount ignoreSpace n rest
  | .ok (none, '}' :: _) | .ok (none, ',' :: _) => .error .invalidCount
  | .ok _ => .error .unclosedCount

theorem greatestCount_length {ignoreSpace : Bool} {least : Nat} {text after : Text}
    {bounds : Bounds} (read : greatestCount ignoreSpace least text = .ok (bounds, after)) :
    after.length ≤ text.length := by
  unfold greatestCount at read
  split at read
  · simp at read
  · simp at read
  · rename_i counted
    have shorter := count_length counted
    split at read
    · simp only [Except.ok.injEq, Prod.mk.injEq, List.length_cons] at read shorter
      simp only [← read.2]
      omega
    · simp at read
  · simp at read

theorem countedBounds_length {ignoreSpace : Bool} {text after : Text} {bounds : Bounds}
    (read : countedBounds ignoreSpace text = .ok (bounds, after)) :
    after.length ≤ text.length := by
  have blanks := skipBlanks_length ignoreSpace text
  unfold countedBounds at read
  split at read
  · simp at read
  · rename_i counted
    have shorter := count_length counted
    simp only [Except.ok.injEq, Prod.mk.injEq, List.length_cons] at read shorter
    simp only [← read.2]
    omega
  · rename_i rest counted
    have shorter := count_length counted
    have later := skipBlanks_length ignoreSpace rest
    simp only [List.length_cons] at shorter
    split at read
    · rename_i skipped
      simp only [skipped, Except.ok.injEq, Prod.mk.injEq, List.length_cons] at read later
      simp only [← read.2]
      omega
    · have := greatestCount_length read
      omega
  · simp at read
  · simp at read
  · simp at read

/-- Whether a question mark follows a repetition, and the text after it. -/
def questionMark (text : Text) : Bool × Text :=
  match text with
  | '?' :: rest => (true, rest)
  | _ => (false, text)

theorem questionMark_length (text : Text) : (questionMark text).2.length ≤ text.length := by
  unfold questionMark
  split
  · exact Nat.le_succ _
  · exact Nat.le_refl _

/-- A repetition with the bounds that were read, and the text after it. -/
def repetitionToken (bounds : Bounds) (text : Text) : Token × Text :=
  let (marked, after) := questionMark text
  (.repetition bounds marked, after)

theorem repetitionToken_length {bounds : Bounds} {text after : Text} {t : Token}
    (read : repetitionToken bounds text = (t, after)) : after.length ≤ text.length := by
  obtain ⟨-, rfl⟩ := Prod.mk.injEq .. ▸ read
  exact questionMark_length text

/-! ## Groups -/

/-- What a list of flags has said so far: the flags seen, whether a minus sign came, and whether
nothing came after it. -/
structure FlagList where
  seen : List Char
  negated : Bool
  dangling : Bool
  change : FlagChange

namespace FlagList

/-- No flags yet. -/
def start : FlagList := ⟨[], false, false, .nothing⟩

/-- The letters of flags. -/
def letters : List Char := ['i', 'm', 's', 'U', 'u', 'R', 'x']

/-- The list with one flag more. -/
def add (flags : FlagList) (c : Char) : FlagList :=
  let setting := some (!flags.negated)
  let change := flags.change
  { flags with
    seen := c :: flags.seen
    dangling := false
    change :=
      if c = 'i' then { change with ignoreCase := setting }
      else if c = 'm' then { change with multiLine := setting }
      else if c = 's' then { change with dotAll := setting }
      else if c = 'U' then { change with swapGreed := setting }
      else if c = 'u' then { change with unicode := setting }
      else if c = 'R' then { change with crlf := setting }
      else if c = 'x' then { change with ignoreSpace := setting }
      else change }

end FlagList

/-- The flags of a group, whether a colon follows them, which opens the group, or a closing
parenthesis, and the text after that. -/
def flagList (flags : FlagList) : Text → Except Fault (FlagList × Bool × Text)
  | [] => .error .unfinishedFlags
  | c :: rest =>
    if c = ':' ∨ c = ')' then
      if flags.dangling then .error .misplacedNegation else .ok (flags, c = ':', rest)
    else if c = '-' then
      if flags.negated then .error .misplacedNegation
      else flagList { flags with negated := true, dangling := true } rest
    else if !FlagList.letters.contains c then .error (.unknownFlag c)
    else if flags.seen.contains c then .error (.repeatedFlag c)
    else flagList (flags.add c) rest

theorem flagList_length {flags last : FlagList} {colon : Bool} {text after : Text}
    (read : flagList flags text = .ok (last, colon, after)) : after.length < text.length := by
  fun_induction flagList flags text with
  | case1 | case2 | case4 | case6 | case7 => simp at read
  | case3 =>
    simp only [Except.ok.injEq, Prod.mk.injEq] at read
    simp [← read.2.2]
  | case5 flags rest _ _ ih => exact Nat.lt_succ_of_lt (ih read)
  | case8 flags c rest _ _ _ _ ih => exact Nat.lt_succ_of_lt (ih read)

/-- The beginning of a group, from after its parenthesis, or flags for the rest of the group around
it. An expression holds no closing angle bracket, so the name of a group has no end. -/
def groupStart (text : Text) : Except Fault (Token × Text) :=
  match text with
  | '?' :: '=' :: _ | '?' :: '!' :: _ => .error .lookAround
  | '?' :: '<' :: '=' :: _ | '?' :: '<' :: '!' :: _ => .error .lookAround
  | '?' :: '<' :: _ | '?' :: 'P' :: '<' :: _ => .error .unclosedGroupName
  | '?' :: [] => .error .unclosedGroup
  | '?' :: rest =>
    match flagList .start rest with
    | .error fault => .error fault
    | .ok (flags, colon, after) =>
      if colon then .ok (.groupOpen false flags.change, after)
      else if flags.seen.isEmpty then .error .nothingToRepeat
      else .ok (.flags flags.change, after)
  | _ => .ok (.groupOpen true .nothing, text)

theorem groupStart_length {text after : Text} {t : Token}
    (read : groupStart text = .ok (t, after)) : after.length ≤ text.length := by
  unfold groupStart at read
  split at read
  all_goals try simp only [reduceCtorEq] at read
  · rename_i rest _ _ _ _ _ _
    split at read
    · simp at read
    · rename_i flags colon later listed
      have shorter := flagList_length listed
      split at read
      · simp only [Except.ok.injEq, Prod.mk.injEq] at read
        simp only [List.length_cons, ← read.2]
        omega
      · split at read
        · simp at read
        · simp only [Except.ok.injEq, Prod.mk.injEq] at read
          simp only [List.length_cons, ← read.2]
          omega
  · simp only [Except.ok.injEq, Prod.mk.injEq] at read
    simp [← read.2]

/-! ## All tokens -/

/-- The token of an escape. -/
def Escaped.token : Escaped → Token
  | .literal c asOctet => .literal c asOctet
  | .charClass members => .charClass members 0
  | .condition kind => .condition kind

variable [PropertyTable]

/-- The token that begins with the character `c`, and the text after it. -/
def tokenFrom (ignoreSpace : Bool) (c : Char) (rest : Text) : Except Fault (Token × Text) :=
  match c with
  | '\\' => (escape ignoreSpace rest).map fun (e, after) => (e.token, after)
  | '[' =>
    (bracket ignoreSpace rest).map fun ((members, height), after) =>
      (.charClass members height, after)
  | '{' =>
    (countedBounds ignoreSpace rest).map fun (bounds, after) =>
      repetitionToken bounds (skipBlanks ignoreSpace after)
  | '(' => groupStart (skipBlanks ignoreSpace rest)
  | ')' => .ok (.groupClose, rest)
  | '|' => .ok (.bar, rest)
  | '.' => .ok (.anyCharacter, rest)
  | '^' => .ok (.lineStart, rest)
  | '$' => .ok (.lineEnd, rest)
  | '*' => .ok (repetitionToken (.atLeast 0) rest)
  | '+' => .ok (repetitionToken (.atLeast 1) rest)
  | '?' => .ok (repetitionToken (.atMost 1) rest)
  | _ => .ok (.literal c false, rest)

theorem tokenFrom_length {ignoreSpace : Bool} {c : Char} {rest after : Text} {t : Token}
    (read : tokenFrom ignoreSpace c rest = .ok (t, after)) : after.length ≤ rest.length := by
  have blanks := skipBlanks_length ignoreSpace rest
  unfold tokenFrom at read
  split at read
  case h_1 =>
    obtain ⟨⟨e, later⟩, inner, same⟩ := Text.ok_of_map read
    obtain ⟨-, rfl⟩ := Prod.mk.injEq .. ▸ same
    have := escape_length inner
    omega
  case h_2 =>
    obtain ⟨⟨e, later⟩, inner, same⟩ := Text.ok_of_map read
    obtain ⟨-, rfl⟩ := Prod.mk.injEq .. ▸ same
    have := bracket_length inner
    omega
  case h_3 =>
    obtain ⟨⟨bounds, later⟩, inner, same⟩ := Text.ok_of_map read
    have one := countedBounds_length inner
    have two := skipBlanks_length ignoreSpace later
    have three := repetitionToken_length same
    omega
  case h_4 =>
    have := groupStart_length read
    omega
  all_goals
    rw [Except.ok.injEq] at read
    first
    | exact (Prod.mk.injEq .. ▸ read).2 ▸ Nat.le_refl _
    | exact repetitionToken_length read

end TrustSchema.Regex
