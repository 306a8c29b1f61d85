namespace PagedStorage.Decimal

/-- `num / den` rounded to the nearest whole number, a half to the even neighbour. -/
def roundEven (num den : Nat) : Nat :=
  let whole := num / den
  let rest := 2 * (num % den)
  if rest < den ∨ rest = den ∧ whole % 2 = 0 then whole else whole + 1

def unitsInOne : Nat → Nat
  | 0 => 1
  | places + 1 => 10 * unitsInOne places

def fixed (places num den : Nat) : String :=
  let units := roundEven (num * unitsInOne places) den
  let digits := toString (units % unitsInOne places)
  let padding := String.ofList (List.replicate (places - digits.length) '0')
  s!"{units / unitsInOne places}.{padding}{digits}"

def fraction (x : Float) : Nat × Nat :=
  let bits := x.toBits.toNat
  let exponent := bits >>> 52 &&& 0x7FF
  let field := bits &&& 0xFFFFFFFFFFFFF
  let significand := if exponent = 0 then field else field + 0x10000000000000
  let scale := max exponent 1
  if 1075 ≤ scale then (significand <<< (scale - 1075), 1)
  else (significand, 1 <<< (1075 - scale))

/-- A float that is finite and not negative, with `places` digits behind the point. -/
def ofFloat (places : Nat) (x : Float) : String :=
  let (num, den) := fraction x
  fixed places num den

/-- Rounding is off by half at most. -/
theorem two_mul_distance_roundEven_le (num den : Nat) (h : 0 < den) :
    2 * num ≤ 2 * (roundEven num den * den) + den ∧
      2 * (roundEven num den * den) ≤ 2 * num + den := by
  have hd := Nat.div_add_mod' num den
  have hm := Nat.mod_lt num h
  simp only [roundEven]
  split
  · omega
  · rw [Nat.add_mul]
    omega

end PagedStorage.Decimal
