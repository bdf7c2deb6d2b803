import TrustSchema.Regex.Basic

/-!
Building expressions in a simple form. Sequences and alternations are flat, neighbouring literals
are one literal, a set with one member is that character, alternatives that are all characters or all
sets are one set, and alternatives that begin with the same parts begin with them once.
-/

namespace TrustSchema.Regex

/-- One character of a set. -/
def ofSet (s : CharSet) : Regex :=
  match s.member? with
  | some c => literal [c]
  | none => one s

/-! ## Sequences -/

/-- The parts of a sequence. -/
def parts : Regex → List Regex
  | empty => []
  | seq first second => first :: second.parts
  | r => [r]

/-- Parts one after another. -/
def ofParts : List Regex → Regex
  | [] => empty
  | [r] => r
  | r :: rest => seq r (ofParts rest)

/-- A part before others; a literal becomes one with the literal after it. -/
def partBefore (r : Regex) (later : List Regex) : List Regex :=
  match r, later with
  | literal a, literal b :: rest => literal (a ++ b) :: rest
  | _, _ => r :: later

/-- Expressions one after another. -/
def concat (rs : List Regex) : Regex :=
  ofParts ((rs.flatMap parts).foldr partBefore [])

/-! ## Repetitions -/

/-- Whether an expression can only match the empty text. -/
def matchesOnlyEmpty : Regex → Bool
  | empty | look _ => true
  | literal characters => characters.isEmpty
  | one _ => false
  | seq first second => first.matchesOnlyEmpty && second.matchesOnlyEmpty
  | alt left right => left.matchesOnlyEmpty && right.matchesOnlyEmpty
  | repeated body bounds _ => body.matchesOnlyEmpty || bounds.max == some 0
  | group _ body => body.matchesOnlyEmpty

/-- A repetition within bounds. Repeating an empty match once is enough. -/
def repetition (body : Regex) (bounds : Bounds) (greedy : Bool) : Regex :=
  let bounds := if body.matchesOnlyEmpty then bounds.atMostOnce else bounds
  if bounds.max = some 0 then empty
  else if bounds.min = 1 ∧ bounds.max = some 1 then body
  else repeated body bounds greedy

/-! ## Alternatives -/

/-- The branches of an alternation. -/
def branches : Regex → List Regex
  | alt left right => left :: right.branches
  | r => [r]

/-- Any of some branches, the first of them given apart. -/
def ofBranches (first : Regex) : List Regex → Regex
  | [] => first
  | next :: rest => alt first (ofBranches next rest)

/-- The character of a literal that has only one. -/
def character? : Regex → Option Char
  | literal [c] => some c
  | _ => none

/-- The set of an expression that is one character of a set. -/
def set? : Regex → Option CharSet
  | one s => some s
  | _ => none

/-- The set that some branches make up together, if all are characters or all are sets. -/
def unionOf? (branches : List Regex) : Option CharSet :=
  match branches.mapM character?, branches.mapM set? with
  | some characters, _ => some (CharSet.ofRanges (characters.map fun c => (c, c)))
  | none, some sets => some (sets.foldl CharSet.union .empty)
  | none, none => none

def isSeq : Regex → Bool
  | seq _ _ => true
  | _ => false

/-- How many items two lists have in common at their beginnings. -/
def sharedLength : List Regex → List Regex → Nat
  | a :: as, b :: bs => if a = b then sharedLength as bs + 1 else 0
  | _, _ => 0

/-- How many parts some branches have in common at their beginnings, if all are sequences. -/
def sharedParts (first : Regex) (rest : List Regex) : Nat :=
  if (first :: rest).all isSeq then
    rest.foldl (fun n r => Nat.min n (sharedLength first.parts r.parts)) first.parts.length
  else 0

/-- How many nodes an expression has. -/
def weight : Regex → Nat
  | empty | literal _ | one _ | look _ => 1
  | seq a b | alt a b => a.weight + b.weight + 1
  | repeated body _ _ | group _ body => body.weight + 1

/-- How many nodes some expressions have together. -/
def weightAll : List Regex → Nat
  | [] => 0
  | r :: rest => r.weight + weightAll rest

theorem weight_pos (r : Regex) : 0 < r.weight := by
  cases r <;> simp [weight]

theorem weightAll_append (a b : List Regex) : weightAll (a ++ b) = weightAll a + weightAll b := by
  induction a with
  | nil => simp [weightAll]
  | cons r rest ih => simp [weightAll, ih, Nat.add_assoc]

theorem weightAll_parts (r : Regex) : weightAll r.parts + r.parts.length ≤ r.weight + 1 := by
  induction r with
  | seq first second _ ih =>
    simp only [parts, weightAll, List.length_cons, weight]
    omega
  | _ => simp [parts, weightAll, weight]

theorem weightAll_branches (r : Regex) : weightAll r.branches ≤ r.weight := by
  induction r with
  | alt left right _ ih =>
    simp only [branches, weightAll, weight]
    omega
  | _ => simp [branches, weightAll, weight]

theorem weightAll_flatMap_branches (rs : List Regex) :
    weightAll (rs.flatMap branches) ≤ weightAll rs := by
  induction rs with
  | nil => simp [weightAll]
  | cons r rest ih =>
    have := weightAll_branches r
    simp only [List.flatMap_cons, weightAll_append, weightAll]
    omega

theorem weight_ofParts (rs : List Regex) :
    (ofParts rs).weight ≤ 1 ∨ (ofParts rs).weight + 1 ≤ weightAll rs + rs.length := by
  fun_induction ofParts rs with
  | case1 => simp [weight]
  | case2 r => simp [weightAll]
  | case3 r rest nonempty ih =>
    cases rest with
    | nil => simp at nonempty
    | cons next later =>
      have := weight_pos next
      simp only [weight, weightAll, List.length_cons] at ih ⊢
      omega

theorem weightAll_partBefore (r : Regex) (later : List Regex) :
    weightAll (partBefore r later) + (partBefore r later).length ≤
      r.weight + 1 + (weightAll later + later.length) := by
  unfold partBefore
  split <;> simp only [weightAll, weight, List.length_cons] <;> omega

theorem weightAll_foldr_partBefore (rs : List Regex) :
    weightAll (rs.foldr partBefore []) + (rs.foldr partBefore []).length ≤
      weightAll rs + rs.length := by
  induction rs with
  | nil => simp [weightAll]
  | cons r rest ih =>
    have := weightAll_partBefore r (rest.foldr partBefore [])
    simp only [List.foldr_cons, weightAll, List.length_cons]
    omega

theorem weightAll_flatMap_parts (rs : List Regex) :
    weightAll (rs.flatMap parts) + (rs.flatMap parts).length ≤ weightAll rs + rs.length := by
  induction rs with
  | nil => simp [weightAll]
  | cons r rest ih =>
    have := weightAll_parts r
    simp only [List.flatMap_cons, weightAll_append, List.length_append, weightAll,
      List.length_cons]
    omega

theorem weight_concat (rs : List Regex) :
    (concat rs).weight ≤ 1 ∨ (concat rs).weight + 1 ≤ weightAll rs + rs.length := by
  have flat := weightAll_flatMap_parts rs
  have merged := weightAll_foldr_partBefore (rs.flatMap parts)
  have := weight_ofParts ((rs.flatMap parts).foldr partBefore [])
  unfold concat
  omega

theorem weightAll_drop_add_length (rs : List Regex) (n : Nat) :
    weightAll (rs.drop n) + (rs.drop n).length ≤ weightAll rs + rs.length := by
  induction rs generalizing n with
  | nil => simp [weightAll]
  | cons r rest ih =>
    cases n with
    | zero => simp
    | succ n =>
      have := ih n
      simp only [List.drop_succ_cons, weightAll, List.length_cons]
      omega

/-- What is left of a sequence without its first parts. -/
def dropParts (n : Nat) (r : Regex) : Regex :=
  concat (r.parts.drop n)

theorem weight_dropParts {r : Regex} (seq : r.isSeq) (n : Nat) :
    (r.dropParts (n + 1)).weight < r.weight := by
  cases r with
  | seq first second =>
    have := weight_pos first
    have := weightAll_parts second
    have := weightAll_drop_add_length second.parts n
    have := weight_concat (second.parts.drop n)
    simp only [dropParts, parts, List.drop_succ_cons, weight]
    omega
  | _ => simp [isSeq] at seq

theorem weightAll_map_dropParts {rs : List Regex} (seqs : rs.all isSeq) (n : Nat) :
    weightAll (rs.map (dropParts (n + 1))) + rs.length ≤ weightAll rs := by
  induction rs with
  | nil => simp [weightAll]
  | cons r rest ih =>
    simp only [List.all_cons, Bool.and_eq_true] at seqs
    have := weight_dropParts seqs.1 n
    have := ih seqs.2
    simp only [List.map_cons, weightAll, List.length_cons]
    omega

theorem all_isSeq_of_sharedParts {first : Regex} {rest : List Regex} {n : Nat}
    (shared : sharedParts first rest = n + 1) : (first :: rest).all isSeq := by
  unfold sharedParts at shared
  split at shared
  · assumption
  · simp at shared

/-- Any of some expressions. -/
def alternation (rs : List Regex) : Regex :=
  match _flat : rs.flatMap branches with
  | [] => one .empty
  | [r] => r
  | first :: rest =>
    match unionOf? (first :: rest) with
    | some s => ofSet s
    | none =>
      match _shared : sharedParts first rest with
      | 0 => ofBranches first rest
      | n + 1 =>
        concat (first.parts.take (n + 1) ++
          [alternation ((first :: rest).map (dropParts (n + 1)))])
termination_by weightAll rs
decreasing_by
  have flat := weightAll_flatMap_branches rs
  have lighter := weightAll_map_dropParts (all_isSeq_of_sharedParts _shared) n
  simp only [_flat, List.length_cons] at flat lighter
  omega

end TrustSchema.Regex
