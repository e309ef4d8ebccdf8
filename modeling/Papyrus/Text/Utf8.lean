/-!
# Text as octets

UTF-8 is read one character at a time. Where no character can be read, the longest
run of octets that could still have begun one is taken as a single ill-formed part,
and reading goes on behind it. The same reading serves both uses: sources keep what
decodes, and each ill-formed part becomes one replacement character; configuration
files have to decode without any.
-/
namespace Papyrus.Text.Utf8

/-- What a leading octet announces: the bits it carries, the range of the octet that
has to follow it, and how many octets follow in all. The range excludes overlong
forms, surrogates and values above the last code point. -/
structure Lead where
  bits : Nat
  low : Nat
  high : Nat
  more : Nat

/-- The meaning of a leading octet; none where no character starts with it. -/
def lead? (octet : Nat) : Option Lead :=
  if octet < 0x80 then some ⟨octet, 0x80, 0xBF, 0⟩
  else if octet < 0xC2 then none
  else if octet < 0xE0 then some ⟨octet - 0xC0, 0x80, 0xBF, 1⟩
  else if octet = 0xE0 then some ⟨0, 0xA0, 0xBF, 2⟩
  else if octet = 0xED then some ⟨0xD, 0x80, 0x9F, 2⟩
  else if octet < 0xF0 then some ⟨octet - 0xE0, 0x80, 0xBF, 2⟩
  else if octet = 0xF0 then some ⟨0, 0x90, 0xBF, 3⟩
  else if octet < 0xF4 then some ⟨octet - 0xF0, 0x80, 0xBF, 3⟩
  else if octet = 0xF4 then some ⟨4, 0x80, 0x8F, 3⟩
  else none

/-- Read the octets that have to follow. Gives the character, or none where one of
them is missing, and how many were taken. -/
def follow (bits low high : Nat) : Nat → List UInt8 → Option Char × Nat
  | 0, _ => (some (Char.ofNat bits), 0)
  | _ + 1, [] => (none, 0)
  | more + 1, octet :: rest =>
    if low ≤ octet.toNat ∧ octet.toNat ≤ high then
      let (character, taken) := follow (bits * 64 + octet.toNat % 64) 0x80 0xBF more rest
      (character, taken + 1)
    else (none, 0)

/-- Read one character or one ill-formed part, given its first octet and those
behind it. The count says how many of those behind belong to it. -/
def next (first : UInt8) (rest : List UInt8) : Option Char × Nat :=
  match lead? first.toNat with
  | some lead => follow lead.bits lead.low lead.high lead.more rest
  | none => (none, 0)

/-- The characters of a sequence of octets, with none for each ill-formed part. -/
def decode : List UInt8 → List (Option Char)
  | [] => []
  | first :: rest =>
    let (character, taken) := next first rest
    character :: decode (rest.drop taken)
  termination_by octets => octets.length
  decreasing_by simp only [List.length_drop, List.length_cons]; omega

/-- What stands for an ill-formed part. -/
def replacement : Char := '\ufffd'

/-- The text of a sequence of octets, whatever it holds. -/
def decodeLossy (octets : List UInt8) : List Char :=
  (decode octets).map (·.getD replacement)

/-- The text of a sequence of octets that is well-formed throughout. -/
def decode? (octets : List UInt8) : Option (List Char) :=
  (decode octets).mapM id

/-- The octets of a text. -/
def encode (text : List Char) : List UInt8 :=
  text.flatMap String.utf8EncodeChar

end Papyrus.Text.Utf8
