import TrustSchema.Proofs.Ber.Element

/-!
Written trees of elements are read back whole. Reading to the end gives one element for each tree,
in order, and descending into the elements gives the children, to any depth. The one fact about
octets that this needs is that an element is read from the front of the input and nothing more; the
rest is induction on the trees.
-/

namespace TrustSchema.Ber

namespace Reader

/-- Reads elements until nothing is left. -/
def readAll (r : Reader) : Read (List Element) :=
  if r.isEmpty then (.ok [], r)
  else
    match _read : r.readElement with
    | (.error fault, after) => (.error fault, after)
    | (.ok element, after) =>
      match after.readAll with
      | (.error fault, last) => (.error fault, last)
      | (.ok elements, last) => (.ok (element :: elements), last)
termination_by r.remaining
decreasing_by exact remaining_readElement_lt _read

theorem readAll_of_empty {r : Reader} (none : r.unread = []) : r.readAll = (.ok [], r) := by
  have done : r.isEmpty = true := List.isEmpty_iff.mpr none
  rw [readAll, if_pos done]

/-- An element at the front is the first one that is read, and the others are those after it. -/
theorem readAll_of_front {r last : Reader} {octets contents rest : Bytes} {tag : Tag}
    {elements : List Element} (element : IsElement octets tag contents)
    (front : r.unread = octets ++ rest)
    (later : readAll ⟨r.offset + octets.length, rest⟩ = (.ok elements, last)) :
    ∃ place, r.readAll = (.ok (⟨tag, contents, place⟩ :: elements), last) := by
  obtain ⟨place, read⟩ := readElement_of_front element front
  refine ⟨place, ?_⟩
  rw [readAll, isEmpty_of_front element front, if_neg Bool.false_ne_true]
  split
  next failed =>
    rw [read] at failed
    cases failed
  next first after found =>
    rw [read] at found
    cases found
    rw [later]

end Reader

namespace Tree

def tag : Tree → Tag
  | leaf tag _ => tag
  | node tag _ => tag

/-- The contents of a tree are octets, or what its children are written as. -/
def contents : Tree → Bytes
  | leaf _ contents => contents
  | node _ children => encodeForest children

theorem encode_eq (tree : Tree) : tree.encode = encodeElement tree.tag tree.contents := by
  cases tree <;> rw [encode, tag, contents]

/-- All tags can be read, and all contents have a length that can be stated. -/
inductive Writable : Tree → Prop
  | leaf {tag contents} : tag.Readable → contents.length < 2 ^ 32 → Writable (.leaf tag contents)
  | node {tag children} : tag.Readable → (encodeForest children).length < 2 ^ 32 →
      (∀ child ∈ children, child.Writable) → Writable (.node tag children)

theorem Writable.isElement {tree : Tree} (writable : tree.Writable) :
    IsElement tree.encode tree.tag tree.contents := by
  rw [encode_eq]
  cases writable with
  | leaf readable bounded => exact isElement_encodeElement readable bounded
  | node readable bounded => exact isElement_encodeElement readable bounded

end Tree

/-- Reading to the end succeeds with one element for each tree, of its tag and contents, and so does
descending into each element whose tree has children. -/
inductive Reader.Gives : Reader → List Tree → Prop
  | intro {r : Reader} {trees : List Tree} (elements : List Element) (last : Reader) :
      r.readAll = (.ok elements, last) → last.finish = .ok () →
      elements.map (fun e => (e.tag, e.contents)) = trees.map (fun t => (t.tag, t.contents)) →
      (∀ (i : Nat) (e : Element) (tag : Tag) (children : List Tree),
        elements[i]? = some e → trees[i]? = some (.node tag children) →
        Reader.Gives e.reader children) →
      Reader.Gives r trees

/-- One level of the trees is read to its end. -/
theorem readAll_of_forest {r : Reader} {trees : List Tree}
    (writable : ∀ tree ∈ trees, tree.Writable) (front : r.unread = encodeForest trees) :
    ∃ elements last, r.readAll = (.ok elements, last) ∧ last.finish = .ok () ∧
      elements.map (fun e => (e.tag, e.contents)) = trees.map (fun t => (t.tag, t.contents)) := by
  -- Each tree leaves a reader of the trees after it, at another offset.
  induction trees generalizing r with
  | nil =>
    rw [encodeForest] at front
    refine ⟨[], r, Reader.readAll_of_empty front, ?_, rfl⟩
    rw [Reader.finish, Reader.isEmpty, front]
    rfl
  | cons tree trees ih =>
    rw [encodeForest] at front
    obtain ⟨elements, last, later, done, same⟩ :=
      ih (r := ⟨r.offset + tree.encode.length, encodeForest trees⟩)
        (fun other member => writable other (List.mem_cons_of_mem _ member)) rfl
    obtain ⟨place, read⟩ :=
      Reader.readAll_of_front (writable tree List.mem_cons_self).isElement front later
    refine ⟨_, last, read, done, ?_⟩
    rw [List.map_cons, List.map_cons, same]

theorem gives_of_forest {r : Reader} {trees : List Tree}
    (writable : ∀ tree ∈ trees, tree.Writable) (front : r.unread = encodeForest trees) :
    r.Gives trees := by
  obtain ⟨elements, last, read, done, same⟩ := readAll_of_forest writable front
  refine .intro elements last read done same ?_
  intro i e tag children found written
  have inside : Tree.node tag children ∈ trees := List.mem_of_getElem? written
  have descended : e.reader.unread = encodeForest children := by
    have pair := congrArg (·[i]?) same
    simp only [List.getElem?_map, found, written, Option.map_some, Option.some.injEq,
      Prod.mk.injEq] at pair
    exact pair.2
  -- The children are part of one of the trees, which bounds how deep the descent goes.
  have smaller : sizeOf children < sizeOf trees := by
    have := List.sizeOf_lt_of_mem inside
    simp only [Tree.node.sizeOf_spec] at this
    omega
  cases writable _ inside with
  | node _ _ below => exact gives_of_forest below descended
termination_by sizeOf trees

/-- Trees that are written one after another are read back: the same tags and contents in the same
order, nothing left over, and the same again inside every element that was written from children. -/
theorem gives_encodeForest (trees : List Tree) (writable : ∀ tree ∈ trees, tree.Writable) :
    (Reader.ofBytes (encodeForest trees)).Gives trees :=
  gives_of_forest writable rfl

/-- Two trees, one of them with children inside a child, with numbers in both forms. -/
def nestedTrees : List Tree :=
  [.node Tag.sequence
      [.leaf Tag.objectIdentifier [0x2B, 0x65, 0x70],
        .node ⟨.contextSpecific, true, 702⟩ [.leaf ⟨.universal, false, 5⟩ []]],
    .leaf ⟨.privateUse, false, 4294967295⟩ [0x00, 0xFF]]

theorem gives_encodeForest_nestedTrees :
    (∀ tree ∈ nestedTrees, tree.Writable) ∧
      (Reader.ofBytes (encodeForest nestedTrees)).Gives nestedTrees := by
  have empty : Tree.Writable (.leaf ⟨.universal, false, 5⟩ []) :=
    .leaf ⟨by decide, by decide⟩ (by decide)
  have inner : Tree.Writable
      (.node ⟨.contextSpecific, true, 702⟩ [.leaf ⟨.universal, false, 5⟩ []]) :=
    .node ⟨by decide, by decide⟩ (by cbv) (List.forall_mem_singleton.mpr empty)
  have identifier : Tree.Writable (.leaf Tag.objectIdentifier [0x2B, 0x65, 0x70]) :=
    .leaf ⟨by decide, by decide⟩ (by decide)
  have greatest : Tree.Writable (.leaf ⟨.privateUse, false, 4294967295⟩ [0x00, 0xFF]) :=
    .leaf ⟨by decide, by decide⟩ (by decide)
  have outer : Tree.Writable (nestedTrees.head (by decide)) :=
    .node ⟨by decide, by decide⟩ (by cbv)
      (List.forall_mem_cons.mpr ⟨identifier, List.forall_mem_singleton.mpr inner⟩)
  have writable : ∀ tree ∈ nestedTrees, tree.Writable :=
    List.forall_mem_cons.mpr ⟨outer, List.forall_mem_singleton.mpr greatest⟩
  exact ⟨writable, gives_encodeForest nestedTrees writable⟩

end TrustSchema.Ber
