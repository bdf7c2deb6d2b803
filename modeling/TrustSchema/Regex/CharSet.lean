import TrustSchema.Text.Blank

/-!
Sets of characters. A set is given by its edges, the places in the order of characters where
membership changes, so that equal sets are equal lists.
-/

namespace TrustSchema.Regex

/-! ## The order of characters -/

/-- How many characters there are. -/
def charCount : Nat := 0x10F800

/-- The place of a character in the order of all characters. The code points from `D800` to `DFFF`
are no characters and take no places. -/
def placeOf (c : Char) : Nat :=
  if c.toNat < 0xD800 then c.toNat else c.toNat - 0x800

/-- The character at a place. -/
def charAt (place : Nat) : Char :=
  Char.ofNat (if place < 0xD800 then place else place + 0x800)

theorem placeOf_lt (c : Char) : placeOf c < charCount := by
  have := c.valid
  simp only [UInt32.isValidChar, Nat.isValidChar] at this
  simp only [placeOf, charCount, Char.toNat]
  split <;> omega

theorem placeOf_inj {c d : Char} (same : placeOf c = placeOf d) : c = d := by
  have hc := c.valid
  have hd := d.valid
  simp only [UInt32.isValidChar, Nat.isValidChar] at hc hd
  simp only [placeOf, Char.toNat] at same
  refine Char.ext (UInt32.toNat_inj.mp ?_)
  split at same <;> split at same <;> omega

theorem charAt_placeOf (c : Char) : charAt (placeOf c) = c := by
  have valid := c.valid
  simp only [UInt32.isValidChar, Nat.isValidChar] at valid
  have place : (if placeOf c < 0xD800 then placeOf c else placeOf c + 0x800) = c.toNat := by
    simp only [placeOf, Char.toNat]
    grind
  rw [charAt, place, Char.ofNat_toNat]

theorem placeOf_charAt {place : Nat} (lt : place < charCount) : placeOf (charAt place) = place := by
  have valid : (if place < 0xD800 then place else place + 0x800).isValidChar := by
    simp only [Nat.isValidChar, charCount] at lt ⊢
    split <;> omega
  have number : (charAt place).toNat = if place < 0xD800 then place else place + 0x800 := by
    rw [charAt, Char.ofNat, dif_pos valid]
    rfl
  simp only [placeOf, number]
  grind

/-! ## Edges -/

/-- A set of characters. -/
structure CharSet where
  /-- The places where membership changes, in ascending order. -/
  edges : List Nat
  ascending : edges.Pairwise (· < ·)
  deriving DecidableEq

namespace CharSet

/-- Whether a place is inside, if what precedes the first edge is inside or not as given. -/
def inside (before : Bool) : List Nat → Nat → Bool
  | [], _ => before
  | edge :: later, place => if place < edge then before else inside (!before) later place

/-- Whether a character is a member. -/
def contains (s : CharSet) (c : Char) : Bool :=
  inside false s.edges (placeOf c)

theorem inside_of_lt {edges : List Nat} {place : Nat} (lt : ∀ e ∈ edges, place < e)
    (before : Bool) : inside before edges place = before := by
  cases edges with
  | nil => rfl
  | cons e rest => simp [inside, lt e (by simp)]

theorem inside_not (before : Bool) (edges : List Nat) (place : Nat) :
    inside (!before) edges place = !inside before edges place := by
  induction edges generalizing before with
  | nil => rfl
  | cons e rest ih =>
    simp only [inside]
    split
    · rfl
    · exact ih _

/-! ## Ranges -/

def empty : CharSet := ⟨[], .nil⟩

/-- Every character. -/
def all : CharSet := ⟨[0], List.pairwise_singleton _ _⟩

/-- The characters from `first` to `last`. -/
def range (first last : Char) : CharSet :=
  if ordered : placeOf first ≤ placeOf last then
    if placeOf last + 1 < charCount then
      ⟨[placeOf first, placeOf last + 1], List.pairwise_pair.mpr (Nat.lt_succ_of_le ordered)⟩
    else ⟨[placeOf first], List.pairwise_singleton _ _⟩
  else empty

/-- The set of a single character. -/
def only (c : Char) : CharSet := range c c

@[simp] theorem contains_empty (c : Char) : empty.contains c = false := rfl

@[simp] theorem contains_all (c : Char) : all.contains c = true := by
  simp [all, contains, inside]

theorem contains_range (first last c : Char) :
    (range first last).contains c =
      (decide (placeOf first ≤ placeOf c) && decide (placeOf c ≤ placeOf last)) := by
  have bound := placeOf_lt c
  unfold range
  split
  · split <;> simp only [contains, inside] <;> grind
  · simp only [contains_empty]
    grind

@[simp] theorem contains_only (c d : Char) : (only c).contains d = decide (c = d) := by
  rw [only, contains_range, ← Bool.decide_and, decide_eq_decide]
  constructor
  · rintro ⟨le, ge⟩
    exact placeOf_inj (Nat.le_antisymm le ge)
  · rintro rfl
    simp

/-! ## Set operations -/

/-- An edge before others, if membership changes there from `now` to `next`. -/
def edgeBefore (edge : Nat) (now next : Bool) (later : List Nat) : List Nat :=
  if next = now then later else edge :: later

/-- The edges of the set of places that an operation accepts, given whether they are inside each of
two sets. What precedes the first edges is inside the sets as given, and inside the result if `now`
says so. -/
def mergeEdges (op : Bool → Bool → Bool) (inA inB now : Bool) : List Nat → List Nat → List Nat
  | [], [] => []
  | a :: as, [] =>
    let next := op (!inA) inB
    edgeBefore a now next (mergeEdges op (!inA) inB next as [])
  | [], b :: bs =>
    let next := op inA (!inB)
    edgeBefore b now next (mergeEdges op inA (!inB) next [] bs)
  | a :: as, b :: bs =>
    if a < b then
      let next := op (!inA) inB
      edgeBefore a now next (mergeEdges op (!inA) inB next as (b :: bs))
    else if b < a then
      let next := op inA (!inB)
      edgeBefore b now next (mergeEdges op inA (!inB) next (a :: as) bs)
    else
      let next := op (!inA) (!inB)
      edgeBefore a now next (mergeEdges op (!inA) (!inB) next as bs)
termination_by as bs => as.length + bs.length

theorem mem_edgeBefore {edge e : Nat} {now next : Bool} {later : List Nat}
    (mem : e ∈ edgeBefore edge now next later) : e = edge ∨ e ∈ later := by
  unfold edgeBefore at mem
  split at mem
  · exact .inr mem
  · simpa using mem

theorem mem_mergeEdges {op : Bool → Bool → Bool} {inA inB now : Bool} {as bs : List Nat} {e : Nat}
    (mem : e ∈ mergeEdges op inA inB now as bs) : e ∈ as ∨ e ∈ bs := by
  fun_induction mergeEdges op inA inB now as bs <;> grind [mem_edgeBefore]

theorem pairwise_edgeBefore {edge : Nat} {now next : Bool} {later : List Nat}
    (lt : ∀ e ∈ later, edge < e) (ascending : later.Pairwise (· < ·)) :
    (edgeBefore edge now next later).Pairwise (· < ·) := by
  unfold edgeBefore
  split
  · exact ascending
  · exact .cons lt ascending

theorem pairwise_mergeEdges {op : Bool → Bool → Bool} {inA inB now : Bool} {as bs : List Nat}
    (ha : as.Pairwise (· < ·)) (hb : bs.Pairwise (· < ·)) :
    (mergeEdges op inA inB now as bs).Pairwise (· < ·) := by
  fun_induction mergeEdges op inA inB now as bs with
  | case1 => exact .nil
  | _ =>
    simp only [List.pairwise_cons] at ha hb
    refine pairwise_edgeBefore (fun e mem => ?_) ?_
    · rcases mem_mergeEdges mem with inA | inB <;> grind
    · grind [List.pairwise_cons]

theorem inside_edgeBefore {edge place : Nat} {now next : Bool} {later : List Nat} :
    inside now (edgeBefore edge now next later) place =
      if place < edge ∧ next ≠ now then now else inside next later place := by
  unfold edgeBefore
  cases now <;> cases next <;> simp [inside]

/-- A place is inside the result if the operation accepts whether it is inside the two sets. -/
theorem inside_mergeEdges {op : Bool → Bool → Bool} {inA inB now : Bool} {as bs : List Nat}
    (ha : as.Pairwise (· < ·)) (hb : bs.Pairwise (· < ·)) (agree : now = op inA inB)
    (place : Nat) :
    inside now (mergeEdges op inA inB now as bs) place =
      op (inside inA as place) (inside inB bs place) := by
  fun_induction mergeEdges op inA inB now as bs with
  | case1 => simpa [inside] using agree
  | _ =>
    simp only [List.pairwise_cons] at ha hb
    rw [inside_edgeBefore]
    grind [inside, inside_of_lt, List.pairwise_cons]

/-- The characters that an operation accepts, given whether they are members of each of two sets.
It must not accept what is in neither. -/
def combine (op : Bool → Bool → Bool) (a b : CharSet) : CharSet :=
  ⟨mergeEdges op false false false a.edges b.edges, pairwise_mergeEdges a.ascending b.ascending⟩

/-- The characters that are in one set or the other. -/
def union (a b : CharSet) : CharSet := combine (· || ·) a b

/-- The characters that are in both sets. -/
def inter (a b : CharSet) : CharSet := combine (· && ·) a b

/-- The characters of one set that are not in the other. -/
def diff (a b : CharSet) : CharSet := combine (fun inA inB => inA && !inB) a b

/-- The characters that are in one of two sets but not in both. -/
def symmDiff (a b : CharSet) : CharSet := combine (· != ·) a b

/-- The edges with the first place of all added, or taken away if it is among them. -/
def flipStart : List Nat → List Nat
  | 0 :: rest => rest
  | edges => 0 :: edges

theorem pairwise_flipStart {edges : List Nat} (ascending : edges.Pairwise (· < ·)) :
    (flipStart edges).Pairwise (· < ·) := by
  unfold flipStart
  split
  · exact ascending.of_cons
  · rename_i nonzero
    refine .cons (fun e mem => Nat.pos_of_ne_zero ?_) ascending
    rintro rfl
    cases edges with
    | nil => simp at mem
    | cons e rest =>
      rcases List.mem_cons.mp mem with rfl | later
      · exact nonzero rest rfl
      · exact Nat.not_lt_zero e ((List.pairwise_cons.mp ascending).1 0 later)

/-- The characters that are not in a set. -/
def compl (s : CharSet) : CharSet := ⟨flipStart s.edges, pairwise_flipStart s.ascending⟩

@[simp] theorem contains_compl (s : CharSet) (c : Char) : s.compl.contains c = !s.contains c := by
  simp only [contains, compl, ← inside_not]
  unfold flipStart
  split <;> simp_all [inside]

theorem contains_combine {op : Bool → Bool → Bool} (neither : op false false = false)
    (a b : CharSet) (c : Char) :
    (combine op a b).contains c = op (a.contains c) (b.contains c) :=
  inside_mergeEdges a.ascending b.ascending neither.symm _

@[simp] theorem contains_union (a b : CharSet) (c : Char) :
    (a.union b).contains c = (a.contains c || b.contains c) :=
  contains_combine rfl a b c

@[simp] theorem contains_inter (a b : CharSet) (c : Char) :
    (a.inter b).contains c = (a.contains c && b.contains c) :=
  contains_combine rfl a b c

@[simp] theorem contains_diff (a b : CharSet) (c : Char) :
    (a.diff b).contains c = (a.contains c && !b.contains c) :=
  contains_combine rfl a b c

@[simp] theorem contains_symmDiff (a b : CharSet) (c : Char) :
    (a.symmDiff b).contains c = (a.contains c != b.contains c) :=
  contains_combine rfl a b c

/-! ## Sets and their ranges -/

/-- The union of ranges. -/
def ofRanges (ranges : List (Char × Char)) : CharSet :=
  ranges.foldr (fun (first, last) rest => (range first last).union rest) empty

/-- The union of ranges of code points. -/
def ofCodePoints (ranges : List (Nat × Nat)) : CharSet :=
  ofRanges (ranges.map fun (first, last) => (Char.ofNat first, Char.ofNat last))

/-- The ranges between edges; the last one may go on to the last character. -/
def rangesBetween : List Nat → List (Char × Char)
  | [] => []
  | [first] => [(charAt first, charAt (charCount - 1))]
  | first :: after :: rest => (charAt first, charAt (after - 1)) :: rangesBetween rest

/-- The fewest ranges that make up a set, in ascending order. -/
def ranges (s : CharSet) : List (Char × Char) :=
  rangesBetween s.edges

/-- Whether a set has no members. -/
def isEmpty (s : CharSet) : Bool :=
  s.edges.isEmpty

/-- The only member of a set, if there is just one. -/
def member? (s : CharSet) : Option Char :=
  match s.edges with
  | [first] => if charCount = first + 1 then some (charAt first) else none
  | [first, after] =>
    if after = first + 1 ∧ first < charCount then some (charAt first) else none
  | _ => none

/-- Whether all members of a set are characters of ASCII. -/
def isAscii (s : CharSet) : Bool :=
  s.ranges.all fun (_, last) => decide (last.toNat < 128)

@[simp] theorem member?_only (c : Char) : (only c).member? = some c := by
  have bound := placeOf_lt c
  simp only [only, range, Nat.le_refl, ↓reduceDIte]
  split
  · simp [member?, charAt_placeOf, bound]
  · have last : charCount = placeOf c + 1 := by omega
    simp [member?, last, charAt_placeOf]

/-- A set with just one member contains that and nothing else. -/
theorem contains_of_member? {s : CharSet} {c : Char} (member : s.member? = some c) (d : Char) :
    s.contains d = decide (c = d) := by
  have bound := placeOf_lt d
  have only_place {first : Nat} (lt : first < charCount) (at_first : charAt first = c) :
      decide (c = d) = decide (placeOf d = first) := by
    have place := placeOf_charAt lt
    rw [at_first] at place
    rw [decide_eq_decide, ← place]
    exact ⟨fun same => by rw [same], fun same => placeOf_inj same.symm⟩
  unfold member? at member
  split at member
  · rename_i first edges
    split at member
    · rw [only_place (by omega) (Option.some.inj member)]
      simp only [contains, edges, inside]
      grind
    · simp at member
  · rename_i first after edges
    split at member
    · rw [only_place (by omega) (Option.some.inj member)]
      simp only [contains, edges, inside]
      grind
    · simp at member
  · simp at member

end CharSet

end TrustSchema.Regex
