import Treasury.Text.Base64

/-! Addresses on the chain. An address belongs to an account or to a contract and carries a digest
of 32 bytes. Its key is a byte for the kind, then the digest. -/
namespace Treasury

/-- A digest of 32 bytes, the most significant first. -/
abbrev Digest := BitVec 256

namespace Digest

/-- The bytes of a digest in order. -/
def bytes (d : Digest) : List UInt8 :=
  (List.range 32).map fun i => UInt8.ofNat (d.toNat >>> (8 * (31 - i)))

/-- The 64 lowercase hexadecimal digits of a digest. -/
def hex (d : Digest) : String :=
  String.ofList ((List.range 64).map fun i => Nat.digitChar (d.toNat >>> (4 * (63 - i)) % 16))

/-- The digest of the contract with a given number. Its hexadecimal digits are the decimal digits of
`number + 99`, followed by zeros. Numbers from 1 to 900 have three such digits, so no two of them
share a digest. -/
def ofNumber (number : Nat) : Digest :=
  let digits := Nat.toDigits 10 (number + 99)
  let front := digits.foldl (fun value c => value * 16 + (c.toNat - '0'.toNat)) 0
  BitVec.ofNat 256 (front <<< (4 * (64 - digits.length)))

end Digest

/-- Who can hold tokens and make calls. -/
inductive Address where
  | account (digest : Digest)
  | contract (digest : Digest)
deriving DecidableEq, Repr

namespace Address

instance : Inhabited Address := ⟨account 0⟩

/-- The address of the contract with a given number. -/
def ofNumber (number : Nat) : Address := contract (Digest.ofNumber number)

/-- The key of an address: zero for an account or one for a contract, then the digest. -/
def keyBytes : Address → List UInt8
  | account d => 0 :: d.bytes
  | contract d => 1 :: d.bytes

/-- The key of an address as text. -/
def keyText (a : Address) : String := Text.Base64.encode a.keyBytes

/-- The key of a pair of addresses as text: both keys in a row, encoded as one. -/
def pairKeyText (a b : Address) : String := Text.Base64.encode (a.keyBytes ++ b.keyBytes)

end Address

end Treasury
