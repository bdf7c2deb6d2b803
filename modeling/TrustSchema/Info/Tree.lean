import TrustSchema.Info.Entry
import TrustSchema.Info.Token

/-!
Building a configuration tree from its tokens. A key takes the word after it on its line as its
value, and a block that opens there or on a later line before any other word belongs to it. The
builder keeps the blocks that are open, innermost first, and handles one token at a time.
-/

namespace TrustSchema.Info

/-- An entry that may still get a value or a block. -/
structure Pending where
  key : Text
  value : Option Text
  /-- No line has ended since the key. -/
  sameLine : Bool
  deriving Repr

/-- A block that is open: its key and value, and the entries before it, last first. -/
structure OpenBlock where
  key : Text
  value : Text
  before : List Entry
  deriving Repr

/-- What is known after some tokens. -/
structure Builder where
  /-- The open blocks, innermost first. -/
  outer : List OpenBlock
  /-- The finished entries of the innermost block, last first. -/
  entries : List Entry
  pending : Option Pending
  deriving Repr

namespace Builder

/-- Nothing read yet. -/
def start : Builder := ⟨[], [], none⟩

/-- The builder without its pending entry, which gets no block. -/
def settle (b : Builder) : Builder :=
  match b.pending with
  | none => b
  | some p => ⟨b.outer, .mk p.key (p.value.getD []) [] :: b.entries, none⟩

/-- One token more. -/
def step (b : Builder) (t : Located) : Except SyntaxError Builder :=
  match t.token, b.pending with
  | .lineEnd, pending => .ok { b with pending := pending.map ({ · with sameLine := false }) }
  | .word text, none => .ok { b with pending := some ⟨text, none, true⟩ }
  | .word text, some p =>
    if p.sameLine then
      match p.value with
      | none => .ok { b with pending := some { p with value := some text } }
      | some _ => .error ⟨t.line, .unexpectedWord text p.key⟩
    else .ok { b.settle with pending := some ⟨text, none, true⟩ }
  | .blockOpen, none => .error ⟨t.line, .blockWithoutKey⟩
  | .blockOpen, some p =>
    if maxDepth ≤ b.outer.length then .error ⟨t.line, .tooDeep⟩
    else .ok ⟨⟨p.key, p.value.getD [], b.entries⟩ :: b.outer, [], none⟩
  | .blockClose, _ =>
    match b.outer with
    | [] => .error ⟨t.line, .unmatchedClose⟩
    | block :: outer =>
      .ok ⟨outer, .mk block.key block.value b.settle.entries.reverse :: block.before, none⟩

/-- The tree, if no block is open at the end. The fault of an open one is given the line of the
last token. -/
def finish (lastLine : Nat) (b : Builder) : Except SyntaxError (List Entry) :=
  match b.outer with
  | [] => .ok b.settle.entries.reverse
  | _ :: _ => .error ⟨lastLine, .unterminatedBlock⟩

end Builder

/-- The line of the last token; the first line if there is none. -/
def lastLine (tokens : List Located) : Nat :=
  (tokens.getLast?.map (·.line)).getD 1

/-- The tree that a sequence of tokens writes. -/
def ofTokens? (tokens : List Located) : Except SyntaxError (List Entry) := do
  let built ← tokens.foldlM Builder.step Builder.start
  built.finish (lastLine tokens)

/-- The tree that a configuration text writes. -/
def parse? (text : Text) : Except SyntaxError (List Entry) := do
  ofTokens? (← tokens text)

end TrustSchema.Info
