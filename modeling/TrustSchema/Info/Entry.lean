import TrustSchema.Text.Keyword

/-!
Configuration trees: ordered entries, each with a key, a value and the entries of a block of its
own. Keys may repeat. An entry without a value has the empty one, and an entry without a block has
no entries under it.
-/

namespace TrustSchema.Info

/-- One entry of a configuration tree. -/
inductive Entry where
  | mk (key value : Text) (block : List Entry)
  deriving Repr, Inhabited

namespace Entry

def key : Entry → Text
  | mk key _ _ => key

def value : Entry → Text
  | mk _ value _ => value

/-- The entries of the block under an entry. -/
def block : Entry → List Entry
  | mk _ _ block => block

/-- Whether the key of an entry is a given word, up to the case of ASCII letters. -/
def hasKey (e : Entry) (word : Text) : Bool :=
  Text.sameWord e.key word

end Entry

/-- The first entry with a given key. -/
def find? (entries : List Entry) (key : Text) : Option Entry :=
  entries.find? (·.hasKey key)

mutual

/-- An entry and all entries under it, each before its own, with their depth. -/
def Entry.outline (depth : Nat) : Entry → List (Nat × Text × Text)
  | .mk key value block => (depth, key, value) :: outline (depth + 1) block

/-- All entries of a tree, each before those under it, with their depth. -/
def outline (depth : Nat) : List Entry → List (Nat × Text × Text)
  | [] => []
  | e :: rest => e.outline depth ++ outline depth rest

end

theorem outline_cons (depth : Nat) (key value : Text) (block rest : List Entry) :
    outline depth (.mk key value block :: rest) =
      (depth, key, value) :: (outline (depth + 1) block ++ outline depth rest) := by
  rw [outline, Entry.outline, List.cons_append]

/-- The list does not go on at a depth or below it. -/
def Leaves (depth : Nat) (lines : List (Nat × Text × Text)) : Prop :=
  ∀ line ∈ lines.head?, line.1 < depth

theorem leaves_outline_append {depth : Nat} {lines : List (Nat × Text × Text)}
    (leaves : Leaves depth lines) (entries : List Entry) :
    Leaves (depth + 1) (outline depth entries ++ lines) := by
  cases entries with
  | nil => exact fun line head => Nat.lt_succ_of_lt (leaves line head)
  | cons e rest =>
    cases e
    rw [outline_cons]
    rintro line ⟨⟩
    exact Nat.lt_succ_self depth

/-- What a block lists ends where the list comes back to a smaller depth. -/
theorem outline_append_inj {depth : Nat} {lines lines' : List (Nat × Text × Text)}
    (leaves : Leaves depth lines) (leaves' : Leaves depth lines') :
    ∀ {entries entries' : List Entry},
      outline depth entries ++ lines = outline depth entries' ++ lines' →
      entries = entries' ∧ lines = lines'
  | [], [], same => ⟨rfl, same⟩
  | [], .mk key value block :: rest, same => by
    rw [outline_cons] at same
    subst same
    exact absurd (leaves _ rfl) (Nat.lt_irrefl depth)
  | .mk key value block :: rest, [], same => by
    rw [outline_cons] at same
    subst same
    exact absurd (leaves' _ rfl) (Nat.lt_irrefl depth)
  | .mk key value block :: rest, .mk key' value' block' :: rest', same => by
    rw [outline_cons, outline_cons, List.cons_append, List.cons_append, List.append_assoc,
      List.append_assoc] at same
    obtain ⟨line, inner⟩ := List.cons.inj same
    cases line
    obtain ⟨rfl, outer⟩ := outline_append_inj (leaves_outline_append leaves rest)
      (leaves_outline_append leaves' rest') inner
    obtain ⟨rfl, after⟩ := outline_append_inj leaves leaves' outer
    exact ⟨rfl, after⟩

/-- Different trees have different outlines. -/
theorem outline_injective (depth : Nat) : Function.Injective (outline depth) := by
  intro entries entries' same
  have done : Leaves depth [] := nofun
  have whole : outline depth entries ++ [] = outline depth entries' ++ [] := by rw [same]
  exact (outline_append_inj done done whole).1

end TrustSchema.Info
