namespace PagedStorage.LittleEndian

/-- The low `width` bytes of `n`, least significant first. -/
def encode : Nat → Nat → List UInt8
  | 0, _ => []
  | width + 1, n => UInt8.ofNat n :: encode width (n / 256)

def decode : List UInt8 → Nat
  | [] => 0
  | b :: bs => b.toNat + 256 * decode bs

@[simp]
theorem length_encode (width n : Nat) : (encode width n).length = width := by
  induction width generalizing n with
  | zero => rfl
  | succ width ih => simp [encode, ih]

def range : Nat → Nat
  | 0 => 1
  | width + 1 => 256 * range width

theorem decode_encode (width n : Nat) : decode (encode width n) = n % range width := by
  induction width generalizing n with
  | zero => simp [encode, decode, range, Nat.mod_one]
  | succ width ih => simp [encode, decode, range, ih, Nat.mod_mul]

theorem decode_encode_of_lt {width n : Nat} (h : n < range width) :
    decode (encode width n) = n := by
  rw [decode_encode, Nat.mod_eq_of_lt h]

theorem decode_lt (bs : List UInt8) : decode bs < range bs.length := by
  induction bs with
  | nil => simp [decode, range]
  | cons b bs ih =>
    have hb := b.toNat_lt
    simp only [decode, List.length_cons, range]
    omega

theorem encode_decode (bs : List UInt8) : encode bs.length (decode bs) = bs := by
  induction bs with
  | nil => rfl
  | cons b bs ih =>
    have hb := b.toNat_lt
    have hd : (b.toNat + 256 * decode bs) / 256 = decode bs := by omega
    have hm : UInt8.ofNat (b.toNat + 256 * decode bs) = b := by
      apply UInt8.toNat_inj.mp
      rw [UInt8.toNat_ofNat']
      omega
    simp only [List.length_cons, decode, encode, hd, hm, ih]

theorem decode_lt_of_length {width : Nat} {bs : List UInt8} (h : bs.length = width) :
    decode bs < range width := h ▸ decode_lt bs

theorem encode_decode_of_length {width : Nat} {bs : List UInt8} (h : bs.length = width) :
    encode width (decode bs) = bs := by
  rw [← h, encode_decode]

end PagedStorage.LittleEndian
