import TrustSchema.Name.Component

/-!
A name is a sequence of components. Names are compared in the canonical order: component by
component, a proper beginning before the names that extend it.
-/

namespace TrustSchema

/-- A hierarchical name. -/
structure Name where
  components : List Component
  deriving DecidableEq, Repr

namespace Name

/-- The name without components. -/
def root : Name := ⟨[]⟩

instance : Inhabited Name := ⟨root⟩

/-- How many components a name has. -/
def size (n : Name) : Nat :=
  n.components.length

/-- The component at a position, counted from zero. -/
def get? (n : Name) (index : Nat) : Option Component :=
  n.components[index]?

/-- The name with one component more at its end. -/
def push (n : Name) (c : Component) : Name :=
  ⟨n.components ++ [c]⟩

/-- The name with the components of another one after its own. -/
def append (n m : Name) : Name :=
  ⟨n.components ++ m.components⟩

instance : Append Name := ⟨append⟩

/-- The first `count` components, or the whole name if it has fewer. -/
def take (n : Name) (count : Nat) : Name :=
  ⟨n.components.take count⟩

/-- The name without its last `count` components, if it has that many. -/
def dropEnd? (n : Name) (count : Nat) : Option Name :=
  if count ≤ n.size then some (n.take (n.size - count)) else none

/-- Whether the second name begins with the components of the first. -/
def isPrefixOf (n m : Name) : Bool :=
  n.components.isPrefixOf m.components

theorem isPrefixOf_iff (n m : Name) : n.isPrefixOf m = true ↔ n.components <+: m.components :=
  List.isPrefixOf_iff_prefix

/-- The canonical order of names. -/
def order (n m : Name) : Ordering :=
  List.compareLex Component.order n.components m.components

instance : Ord Name := ⟨order⟩

/-- The names in ascending canonical order, equal ones once. -/
def sorted (names : List Name) : List Name :=
  (names.mergeSort fun n m => (order n m).isLE).eraseReps

end Name

/-- The components in ascending canonical order. -/
def Component.sorted (components : List Component) : List Component :=
  components.mergeSort fun a b => (Component.order a b).isLE

end TrustSchema
