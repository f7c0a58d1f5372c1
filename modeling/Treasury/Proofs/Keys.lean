import Treasury.Address

/-! Keys of published entries. Different addresses have different keys, and so do different pairs of
addresses, so what is published under one key says nothing of another. -/
namespace Treasury

namespace Text.Base64

/-- The six-bit group of a character. -/
def value (c : Char) : Nat := ((List.range 64).find? fun n => symbol n = c).getD 0

theorem value_symbol {n : Nat} (hn : n < 64) : value (symbol n) = n :=
  (by decide +kernel : ∀ n : Fin 64, value (symbol n) = n) ⟨n, hn⟩

/-- No group is written like the filling. -/
theorem symbol_ne_filling {n : Nat} (hn : n < 64) : symbol n ≠ '=' :=
  (by decide +kernel : ∀ n : Fin 64, symbol n ≠ '=') ⟨n, hn⟩

/-- The bytes of a list of characters: four characters are three bytes, or fewer if they end with
fillings. -/
def decodeChars : List Char → List UInt8
  | c :: d :: e :: f :: rest =>
    let first := UInt8.ofNat (value c * 4 + value d / 16)
    let second := UInt8.ofNat (value d % 16 * 16 + value e / 4)
    let third := UInt8.ofNat (value e % 4 * 64 + value f)
    if e = '=' then [first]
    else if f = '=' then [first, second]
    else first :: second :: third :: decodeChars rest
  | _ => []

theorem ofNat_eq {n : Nat} {x : UInt8} (h : n = x.toNat) : UInt8.ofNat n = x := by
  rw [h, UInt8.ofNat_toNat]

section Groups

variable (a b c : UInt8)

theorem decode_one : decodeChars [symbol (a.toNat / 4), symbol (a.toNat % 4 * 16), '=', '='] =
    [a] := by
  have ha := a.toNat_lt
  rw [decodeChars, if_pos rfl, value_symbol (by omega), value_symbol (by omega),
    ofNat_eq (x := a) (by omega)]

theorem decode_two : decodeChars [symbol (a.toNat / 4), symbol (a.toNat % 4 * 16 + b.toNat / 16),
    symbol (b.toNat % 16 * 4), '='] = [a, b] := by
  have ha := a.toNat_lt
  have hb := b.toNat_lt
  rw [decodeChars, if_neg (symbol_ne_filling (by omega)), if_pos rfl, value_symbol (by omega),
    value_symbol (by omega), value_symbol (by omega), ofNat_eq (x := a) (by omega),
    ofNat_eq (x := b) (by omega)]

theorem decode_three (rest : List Char) :
    decodeChars (symbol (a.toNat / 4) :: symbol (a.toNat % 4 * 16 + b.toNat / 16) ::
      symbol (b.toNat % 16 * 4 + c.toNat / 64) :: symbol (c.toNat % 64) :: rest) =
        a :: b :: c :: decodeChars rest := by
  have ha := a.toNat_lt
  have hb := b.toNat_lt
  have hc := c.toNat_lt
  rw [decodeChars, if_neg (symbol_ne_filling (by omega)), if_neg (symbol_ne_filling (by omega)),
    value_symbol (by omega), value_symbol (by omega), value_symbol (by omega),
    value_symbol (by omega), ofNat_eq (x := a) (by omega), ofNat_eq (x := b) (by omega),
    ofNat_eq (x := c) (by omega)]

end Groups

/-- Bytes can be read off their characters. -/
theorem decode_encode (bytes : List UInt8) : decodeChars (encodeChars bytes) = bytes := by
  induction bytes using encodeChars.induct with
  | case1 => rfl
  | case2 a => exact decode_one a
  | case3 a b => exact decode_two a b
  | case4 a b c rest ih => rw [encodeChars, decode_three, ih]

theorem encode_injective {xs ys : List UInt8} (h : encode xs = encode ys) : xs = ys := by
  rw [← decode_encode xs, ← decode_encode ys, String.ofList_injective h]

end Text.Base64

namespace Digest

@[simp] theorem length_bytes (d : Digest) : d.bytes.length = 32 := by
  rw [bytes, List.length_map, List.length_range]

/-- A digest is known by its bytes: each bit stands in one of them. -/
theorem bytes_injective {d e : Digest} (h : d.bytes = e.bytes) : d = e := by
  have hByte : ∀ j < 32, (d.toNat >>> (8 * j)) % 2 ^ 8 = (e.toNat >>> (8 * j)) % 2 ^ 8 := by
    intro j hj
    have hAt := List.map_inj_left.1 h (31 - j) (List.mem_range.2 (by omega))
    rw [show 31 - (31 - j) = j by omega] at hAt
    exact congrArg UInt8.toNat hAt
  apply BitVec.eq_of_toNat_eq
  apply Nat.eq_of_testBit_eq
  intro i
  by_cases hi : i < 256
  · have hSame := congrArg (Nat.testBit · (i % 8)) (hByte (i / 8) (by omega))
    simp only [Nat.testBit_mod_two_pow, Nat.testBit_shiftRight, Nat.mod_lt i (by decide : 0 < 8),
      decide_true, Bool.true_and, Nat.div_add_mod] at hSame
    exact hSame
  · have hSmall : ∀ b : Digest, b.toNat.testBit i = false := fun b =>
      Nat.testBit_lt_two_pow (Nat.lt_of_lt_of_le b.isLt
        (Nat.pow_le_pow_right (by decide) (by omega)))
    rw [hSmall, hSmall]

end Digest

namespace Address

variable {a b o s : Address}

@[simp] theorem length_keyBytes (a : Address) : a.keyBytes.length = 33 := by
  cases a <;> simp [keyBytes]

theorem keyBytes_injective (h : a.keyBytes = b.keyBytes) : a = b := by
  cases a <;> cases b <;> simp only [keyBytes, List.cons.injEq] at h
  · rw [Digest.bytes_injective h.2]
  · cases h.1
  · cases h.1
  · rw [Digest.bytes_injective h.2]

/-- Different addresses have different keys. -/
theorem keyText_inj : a.keyText = b.keyText ↔ a = b :=
  ⟨fun h => keyBytes_injective (Text.Base64.encode_injective h), fun h => h ▸ rfl⟩

/-- Different pairs of addresses have different keys. -/
theorem pairKeyText_inj : a.pairKeyText b = o.pairKeyText s ↔ a = o ∧ b = s := by
  constructor
  · intro h
    obtain ⟨hFirst, hSecond⟩ := List.append_inj (Text.Base64.encode_injective h) (by simp)
    exact ⟨keyBytes_injective hFirst, keyBytes_injective hSecond⟩
  · rintro ⟨rfl, rfl⟩
    rfl

end Address

end Treasury
