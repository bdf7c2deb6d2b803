import TrustSchema.Text.Numeral

/-!
Tags of BER elements and their identifier octets. The number of a tag stands in the first octet if
it is below 31, and otherwise in the octets after it, in groups of seven bits, the most significant
group first, with the top bit set on all groups but the last.
-/

namespace TrustSchema.Ber

/-- The class of a tag. -/
inductive TagClass where
  | universal
  | application
  | contextSpecific
  | privateUse
  deriving DecidableEq, Repr

namespace TagClass

/-- The two bits of a class. -/
def bits : TagClass → Nat
  | universal => 0
  | application => 1
  | contextSpecific => 2
  | privateUse => 3

/-- The class of two bits. -/
def ofBits : Nat → TagClass
  | 0 => universal
  | 1 => application
  | 2 => contextSpecific
  | _ => privateUse

theorem ofBits_bits (c : TagClass) : ofBits c.bits = c := by
  cases c <;> rfl

/-- The word for a class in reports. -/
def word : TagClass → String
  | universal => "UNIVERSAL"
  | application => "APPLICATION"
  | contextSpecific => "CONTEXT"
  | privateUse => "PRIVATE"

end TagClass

/-- The tag of an element. Numbers that are read are below 2³². -/
structure Tag where
  tagClass : TagClass
  constructed : Bool
  number : Nat
  deriving DecidableEq, Repr

namespace Tag

def sequence : Tag := ⟨.universal, true, 16⟩

def objectIdentifier : Tag := ⟨.universal, false, 6⟩

/-- The least number that does not fit the first identifier octet. -/
def longForm : Nat := 31

/-- The text of a tag in reports. -/
def describe (t : Tag) : String :=
  if t = sequence then "SEQUENCE"
  else if t = objectIdentifier then "OBJECT IDENTIFIER"
  else
    "[" ++ t.tagClass.word ++ " " ++ toString t.number ++ "] " ++
      (if t.constructed then "constructed" else "primitive")

/-- The class and form bits of the first identifier octet. -/
def leading (t : Tag) : Nat :=
  t.tagClass.bits * 64 + if t.constructed then 32 else 0

/-- The groups of seven bits of a number that other groups follow, each with its top bit set. No
group is written for zero. -/
def continued (n : Nat) : Bytes :=
  if n = 0 then [] else continued (n / 128) ++ [UInt8.ofNat (128 + n % 128)]

/-- A number in groups of seven bits. -/
def base128 (n : Nat) : Bytes :=
  continued (n / 128) ++ [UInt8.ofNat (n % 128)]

/-- The identifier octets of a tag. -/
def encode (t : Tag) : Bytes :=
  if t.number < longForm then [UInt8.ofNat (t.leading + t.number)]
  else UInt8.ofNat (t.leading + longForm) :: base128 t.number

end Tag

end TrustSchema.Ber
