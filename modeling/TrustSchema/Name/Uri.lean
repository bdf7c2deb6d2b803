import TrustSchema.Name.Basic

/-!
The URI form of names. Writing puts a slash before each component, and a single slash for the name
without components. Reading takes an optional scheme `ndn:` with an optional authority, cuts at the
slashes, passes over blank segments, and reads each other segment as a component.
-/

namespace TrustSchema.Name

/-- The URI form of a name. -/
def toUri (n : Name) : Text :=
  if n.components.isEmpty then ['/'] else n.components.flatMap fun c => '/' :: c.toUri

/-- The path of a URI: what follows the scheme and the authority, if they are there. An authority
without a slash after it leaves the empty path. -/
def uriPath (uri : Text) : Text :=
  match List.isPrefixOf? ['n', 'd', 'n', ':'] uri with
  | none => uri
  | some rest =>
    match List.isPrefixOf? ['/', '/'] rest with
    | none => rest
    | some authority => authority.dropWhile (· ≠ '/')

/-- The segments of a path that are not blank. -/
def segments (path : Text) : List Text :=
  (List.splitOn '/' path).filter fun segment => !(Text.trim segment).isEmpty

/-- The name that a URI stands for, or what is wrong with its leftmost bad segment. -/
def ofUri? (uri : Text) : Except NameError Name := do
  let components ← (segments (uriPath (Text.trim uri))).mapM Component.ofUri?
  return ⟨components⟩

end TrustSchema.Name
