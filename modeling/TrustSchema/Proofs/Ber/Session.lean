import TrustSchema.Proofs.Ber.Faults

/-!
Runs of reads, successful or failing, with readers on a stack: each of them can be asked for the
next element, a new one can be opened on the contents of any element that was returned, and the
innermost one can be left. Every reader keeps to its window of the root input, and what is returned
and reported tells places of the root input, however deep it was found.
-/

namespace TrustSchema.Ber

/-- The octets are those of the root input from a position on. -/
def StandsAt (root octets : Bytes) (position : Nat) : Prop :=
  position + octets.length ≤ root.length ∧
    root.extract position (position + octets.length) = octets

theorem standsAt_iff (root octets : Bytes) (position : Nat) :
    StandsAt root octets position ↔
      ∃ front back, root = front ++ octets ++ back ∧ front.length = position := by
  rw [StandsAt, List.extract_eq_take_drop, Nat.add_sub_cancel_left]
  constructor
  · rintro ⟨inside, same⟩
    have rest := List.take_append_drop octets.length (root.drop position)
    rw [same] at rest
    refine ⟨root.take position, (root.drop position).drop octets.length, ?_, ?_⟩
    · rw [List.append_assoc, rest, List.take_append_drop]
    · exact List.length_take_of_le (by omega)
  · rintro ⟨front, back, rfl, rfl⟩
    rw [List.append_assoc, List.drop_left, List.take_left]
    refine ⟨?_, rfl⟩
    rw [List.length_append, List.length_append]
    omega

theorem standsAt_root (root : Bytes) : StandsAt root root 0 :=
  (standsAt_iff _ _ _).mpr ⟨[], [], (List.append_nil root).symm, rfl⟩

theorem StandsAt.part {root a b c : Bytes} {position : Nat}
    (stands : StandsAt root (a ++ b ++ c) position) : StandsAt root b (position + a.length) := by
  rw [standsAt_iff] at stands ⊢
  obtain ⟨front, back, whole, rfl⟩ := stands
  exact ⟨front ++ a, c ++ back, by simp [whole], List.length_append⟩

/-- A reader with the window of the root input that it was opened on. -/
structure Window where
  base : Nat
  length : Nat
  reader : Reader

namespace Window

/-- How far the reader is into its window. -/
def position (w : Window) : Nat :=
  w.reader.offset - w.base

/-- The window lies in the root input, the reader is in the window, and what it has left is what
the root input holds from there to the end of the window. -/
structure Within (w : Window) (root : Bytes) : Prop where
  inside : w.base + w.length ≤ root.length
  base_le : w.base ≤ w.reader.offset
  position_le : w.position ≤ w.length
  remaining : w.reader.remaining = w.length - w.position
  limit : w.reader.limit = w.base + w.length
  unread : StandsAt root w.reader.unread w.reader.offset

theorem within_of {w : Window} {root : Bytes} (inside : w.base + w.length ≤ root.length)
    (base_le : w.base ≤ w.reader.offset) (limit : w.reader.limit = w.base + w.length)
    (unread : StandsAt root w.reader.unread w.reader.offset) : w.Within root := by
  have last : w.reader.offset + w.reader.remaining = w.base + w.length := limit
  refine ⟨inside, base_le, ?_, ?_, limit, unread⟩
  · rw [position]
    omega
  · rw [position]
    omega

theorem within_root (root : Bytes) : (Window.mk 0 root.length (.ofBytes root)).Within root :=
  within_of (Nat.le_of_eq (Nat.zero_add _)) (Nat.le_refl _) rfl (standsAt_root root)

/-- A reader that advances stays in its window. -/
theorem Within.advance {w : Window} {root : Bytes} (within : w.Within root) {after : Reader}
    (advances : w.reader.Advances after) : (Window.mk w.base w.length after).Within root := by
  apply within_of (w := ⟨w.base, w.length, after⟩) within.inside
  · obtain ⟨octets, -, place⟩ := advances
    exact Nat.le_trans within.base_le (place ▸ Nat.le_add_right _ _)
  · exact advances.limit_eq.trans within.limit
  · obtain ⟨octets, whole, place⟩ := advances
    have stands := within.unread
    rw [whole, ← List.append_nil (octets ++ after.unread)] at stands
    exact place ▸ stands.part

end Window

/-- What can be asked of a reader. -/
inductive Request where
  | header
  | element
  | expected (tag : Tag)
  | finish

/-- What a reader gives. -/
inductive Answer where
  | header (h : Header)
  | element (e : Element)
  | finished

/-- Asks a reader, and gives the reader after it. -/
def Request.perform (q : Request) (r : Reader) : Read Answer :=
  match q with
  | header => (r.readHeader.1.map .header, r.readHeader.2)
  | element => (r.readElement.1.map .element, r.readElement.2)
  | expected tag => ((r.readExpected tag).1.map .element, (r.readExpected tag).2)
  | finish => (r.finish.map fun _ => .finished, r)

/-- One request: the window and the reader before it, the reader after it, and what came of it. -/
structure Event where
  window : Window
  request : Request
  result : Except DecodeError Answer
  after : Reader

/-- The element that was returned, if one was. -/
def Event.element? (event : Event) : Option Element :=
  match event.result with
  | .ok (.element e) => some e
  | _ => none

/-- A step of a run. -/
inductive Operation where
  /-- Asks a reader of the stack, counted from the innermost one. -/
  | ask (depth : Nat) (q : Request)
  /-- Opens a reader on an element that was returned, counted from the last one. -/
  | descend (index : Nat)
  /-- Goes back to the reader below the innermost one, if there is one. -/
  | ascend

/-- All readers that were opened, the first one first; the places of those on the stack, innermost
first; and all requests, the last one first. -/
structure Session where
  readers : List Window
  stack : List Nat
  log : List Event

namespace Session

/-- A reader over the root input. -/
def start (root : Bytes) : Session :=
  ⟨[⟨0, root.length, .ofBytes root⟩], [0], []⟩

/-- Asks the reader at a place. -/
def ask (s : Session) (place : Nat) (w : Window) (q : Request) : Session :=
  { s with
    readers := s.readers.set place ⟨w.base, w.length, (q.perform w.reader).2⟩
    log := ⟨w, q, (q.perform w.reader).1, (q.perform w.reader).2⟩ :: s.log }

/-- Opens a reader on an element. -/
def enter (s : Session) (e : Element) : Session :=
  { s with
    readers := s.readers ++ [⟨e.offset, e.contents.length, e.reader⟩]
    stack := s.readers.length :: s.stack }

/-- One operation; one that names no reader or element does nothing. -/
def step (s : Session) : Operation → Session
  | .ask depth q =>
    match s.stack[depth]? with
    | none => s
    | some place =>
      match s.readers[place]? with
      | none => s
      | some w => s.ask place w q
  | .descend index =>
    match (s.log.filterMap Event.element?)[index]? with
    | none => s
    | some e => s.enter e
  | .ascend =>
    match s.stack with
    | _ :: below :: rest => { s with stack := below :: rest }
    | _ => s

/-- A run over a root input. -/
def run (root : Bytes) (operations : List Operation) : Session :=
  operations.foldl step (start root)

end Session

/-! ### One request -/

theorem Request.advances_perform (q : Request) (r : Reader) : r.Advances (q.perform r).2 := by
  cases q with
  | header => exact r.advances_readHeader
  | element => exact r.advances_readElement
  | expected tag => exact r.advances_readExpected tag
  | finish => exact .refl r

theorem Request.faulty_perform {q : Request} {r : Reader} {fault : DecodeError}
    (failed : (q.perform r).1 = .error fault) : r.Faulty (q.perform r).2 fault := by
  have error {α : Type} {read : Except DecodeError α} {f : α → Answer}
      (mapped : read.map f = .error fault) : read = .error fault := by
    cases read with
    | error =>
      cases mapped
      rfl
    | ok => cases mapped
  cases q with
  | header => exact Reader.faulty_of_readHeader (Prod.ext (error failed) rfl)
  | element => exact Reader.faulty_of_readElement (Prod.ext (error failed) rfl)
  | expected tag => exact Reader.faulty_of_readExpected (Prod.ext (error failed) rfl)
  | finish => exact Reader.faulty_of_finish (error failed)

/-- What an answer tells: a header, where its read began; an element, where its contents stand in
the root input, inside the window of its reader. -/
def Event.Answers (event : Event) (root : Bytes) : Answer → Prop
  | .header h => h.offset = event.window.reader.offset
  | .element e => StandsAt root e.contents e.offset ∧ event.window.base ≤ e.offset ∧
      e.offset + e.contents.length ≤ event.window.base + event.window.length
  | .finished => event.window.reader.remaining = 0

/-- A request keeps the reader in its window, takes nothing back, and tells true places. -/
structure Event.Faithful (event : Event) (root : Bytes) : Prop where
  before : event.window.Within root
  after : (Window.mk event.window.base event.window.length event.after).Within root
  remaining_le : event.after.remaining ≤ event.window.reader.remaining
  answer : ∀ answer, event.result = .ok answer → event.Answers root answer
  fault : ∀ fault, event.result = .error fault → event.window.reader.Faulty event.after fault

theorem Window.Within.element {w : Window} {root : Bytes} (within : w.Within root) {e : Element}
    {after : Reader} (read : w.reader.readElement = (.ok e, after)) :
    StandsAt root e.contents e.offset ∧ w.base ≤ e.offset ∧
      e.offset + e.contents.length ≤ w.base + w.length := by
  obtain ⟨form, -, -, whole, place, place'⟩ := Reader.parts_of_readElement read
  refine ⟨?_, ?_, ?_⟩
  · have stands := within.unread
    rw [whole] at stands
    exact place ▸ stands.part
  · exact Nat.le_trans within.base_le (place ▸ Nat.le_add_right _ _)
  · -- The element ends where the reader is afterwards, which is in the window too.
    have advances : w.reader.Advances after := by
      have taken := w.reader.advances_readElement
      rwa [read] at taken
    rw [← place', ← within.limit, ← advances.limit_eq]
    exact Nat.le_add_right _ _

theorem Request.faithful (q : Request) {w : Window} {root : Bytes} (within : w.Within root) :
    (Event.mk w q (q.perform w.reader).1 (q.perform w.reader).2).Faithful root where
  before := within
  after := within.advance (q.advances_perform w.reader)
  remaining_le := (q.advances_perform w.reader).remaining_le
  answer answer answered := by
    cases q with
    | header =>
      obtain ⟨h, read, rfl⟩ := Text.ok_of_map answered
      exact Reader.offset_of_readHeader (Prod.ext read rfl)
    | element =>
      obtain ⟨e, read, rfl⟩ := Text.ok_of_map answered
      exact within.element (Prod.ext read rfl)
    | expected tag =>
      obtain ⟨e, read, rfl⟩ := Text.ok_of_map answered
      exact within.element (Reader.readElement_of_readExpected (Prod.ext read rfl))
    | finish =>
      obtain ⟨_, read, rfl⟩ := Text.ok_of_map answered
      exact Reader.remaining_of_finish read
  fault _ failed := Request.faulty_perform failed

/-! ### Runs -/

namespace Session

/-- All readers are in their windows, and all requests were answered faithfully. -/
structure Sound (s : Session) (root : Bytes) : Prop where
  windows : ∀ w ∈ s.readers, w.Within root
  events : ∀ event ∈ s.log, event.Faithful root

/-- Every reader is still there, over the same window, and has not gone back. -/
def Continues (s t : Session) : Prop :=
  ∀ (place : Nat) (w : Window), s.readers[place]? = some w →
    ∃ after, t.readers[place]? = some ⟨w.base, w.length, after⟩ ∧ w.reader.Advances after

theorem Continues.refl (s : Session) : s.Continues s :=
  fun _ w found => ⟨w.reader, found, .refl _⟩

theorem Continues.trans {a b c : Session} (first : a.Continues b) (second : b.Continues c) :
    a.Continues c := by
  intro place w found
  obtain ⟨middle, found', advances⟩ := first place w found
  obtain ⟨after, found'', advances'⟩ := second place _ found'
  exact ⟨after, found'', advances.trans advances'⟩

theorem sound_start (root : Bytes) : (start root).Sound root where
  windows _ member := by
    rw [List.mem_singleton.mp member]
    exact Window.within_root root
  events _ member := nomatch member

theorem Sound.ask {s : Session} {root : Bytes} (sound : s.Sound root) {place : Nat} {w : Window}
    (found : s.readers[place]? = some w) (q : Request) : (s.ask place w q).Sound root := by
  have within := sound.windows w (List.mem_of_getElem? found)
  constructor
  · intro other member
    rcases List.mem_or_eq_of_mem_set member with old | rfl
    · exact sound.windows other old
    · exact within.advance (q.advances_perform w.reader)
  · intro event member
    rcases List.mem_cons.mp member with rfl | old
    · exact q.faithful within
    · exact sound.events event old

theorem continues_ask {s : Session} {place : Nat} {w : Window}
    (found : s.readers[place]? = some w) (q : Request) : s.Continues (s.ask place w q) := by
  intro other v found'
  -- Only the reader that is asked moves.
  by_cases same : place = other
  · subst same
    obtain rfl : v = w := Option.some.inj (found'.symm.trans found)
    obtain ⟨inside, -⟩ := List.getElem?_eq_some_iff.mp found
    exact ⟨_, List.getElem?_set_self inside, q.advances_perform v.reader⟩
  · exact ⟨v.reader, (List.getElem?_set_ne same).trans found', .refl _⟩

theorem Sound.enter {s : Session} {root : Bytes} (sound : s.Sound root) {e : Element}
    (returned : e ∈ s.log.filterMap Event.element?) : (s.enter e).Sound root := by
  refine ⟨?_, sound.events⟩
  -- The element was returned by some request, which told where it stands.
  obtain ⟨event, member, element⟩ := List.mem_filterMap.mp returned
  have answered : event.result = .ok (.element e) := by
    rw [Event.element?] at element
    split at element
    next result =>
      rw [result, Option.some.inj element]
    next => cases element
  obtain ⟨stands, -, -⟩ := (sound.events event member).answer _ answered
  intro w opened
  rcases List.mem_append.mp opened with old | new
  · exact sound.windows w old
  · -- The new window is where the contents stand.
    rw [List.mem_singleton.mp new]
    exact Window.within_of stands.1 (Nat.le_refl _) rfl stands

theorem continues_enter (s : Session) (e : Element) : s.Continues (s.enter e) := by
  intro place w found
  obtain ⟨inside, -⟩ := List.getElem?_eq_some_iff.mp found
  exact ⟨w.reader, (List.getElem?_append_left inside).trans found, .refl _⟩

theorem Sound.step {s : Session} {root : Bytes} (sound : s.Sound root) (operation : Operation) :
    (s.step operation).Sound root := by
  cases operation with
  | ask depth q =>
    rw [Session.step]
    split
    · exact sound
    · split
      · exact sound
      next found => exact sound.ask found q
  | descend index =>
    rw [Session.step]
    split
    · exact sound
    next returned => exact sound.enter (List.mem_of_getElem? returned)
  | ascend =>
    rw [Session.step]
    split
    · exact ⟨sound.windows, sound.events⟩
    · exact sound

theorem continues_step (s : Session) (operation : Operation) :
    s.Continues (s.step operation) := by
  cases operation with
  | ask depth q =>
    rw [Session.step]
    split
    · exact .refl s
    · split
      · exact .refl s
      next found => exact continues_ask found q
  | descend index =>
    rw [Session.step]
    split
    · exact .refl s
    · exact continues_enter s _
  | ascend =>
    rw [Session.step]
    split
    · exact .refl s
    · exact .refl s

theorem Sound.foldl {s : Session} {root : Bytes} (sound : s.Sound root)
    (operations : List Operation) : (operations.foldl Session.step s).Sound root := by
  induction operations generalizing s with
  | nil => exact sound
  | cons operation rest ih => exact ih (sound.step operation)

theorem continues_foldl (s : Session) (operations : List Operation) :
    s.Continues (operations.foldl step s) := by
  induction operations generalizing s with
  | nil => exact .refl s
  | cons operation rest ih => exact (continues_step s operation).trans (ih _)

/-- In every run, readers keep to their windows of the root input and only go forward, elements are
stretches of the root input inside the window of their reader, and headers and faults tell places
of the root input. -/
theorem run_sound (root : Bytes) (operations : List Operation) :
    (run root operations).Sound root ∧
    ∀ (more : List Operation) (place : Nat) (w : Window),
      (run root operations).readers[place]? = some w →
      ∃ after, (run root (operations ++ more)).readers[place]? = some ⟨w.base, w.length, after⟩ ∧
        w.reader.Advances after ∧ after.remaining ≤ w.reader.remaining := by
  refine ⟨(sound_start root).foldl operations, fun more place w found => ?_⟩
  have later : run root (operations ++ more) = more.foldl step (run root operations) :=
    List.foldl_append
  obtain ⟨after, found', advances⟩ := continues_foldl (run root operations) more place w found
  exact ⟨after, later ▸ found', advances, advances.remaining_le⟩

/-- Inside an element, an overrun is told by its place in the root input. -/
example : (run [0x30, 0x03, 0x02, 0x05, 0x00]
    [.ask 0 .element, .descend 0, .ask 0 .element, .ascend, .ask 0 .finish]).log.map
      Event.result =
    [.ok .finished, .error (.lengthOverrun 2 5 1),
      .ok (.element ⟨Tag.sequence, [0x02, 0x05, 0x00], 2⟩)] := by
  rfl

end Session

end TrustSchema.Ber
