import PageLoads.Text.Utf8

namespace PageLoads.LittleEndian

/-- A number in `width` bytes; higher digits are dropped. -/
def bytes : (width : Nat) → Nat → Bytes
  | 0, _ => []
  | width + 1, n => (n % 256).toUInt8 :: bytes width (n / 256)

def number (bytes : Bytes) : Nat :=
  bytes.foldr (fun b n => b.toNat + 256 * n) 0

@[simp] theorem length_bytes (width n : Nat) : (bytes width n).length = width := by
  induction width generalizing n with
  | zero => rfl
  | succ width ih => simp [bytes, ih]

theorem number_bytes {width n : Nat} (h : n < Nat.pow 256 width) : number (bytes width n) = n := by
  induction width generalizing n with
  | zero =>
    have hn : n = 0 := Nat.lt_one_iff.mp h
    simp [hn, bytes, number]
  | succ width ih =>
    have hrest : n / 256 < Nat.pow 256 width := by
      have hsucc : Nat.pow 256 (width + 1) = Nat.pow 256 width * 256 := rfl
      omega
    have hb : ((n % 256).toUInt8).toNat = n % 256 := by simp [Nat.toUInt8]
    have ih := ih hrest
    unfold number at ih
    simp only [number, bytes, List.foldr_cons, ih, hb]
    omega

end PageLoads.LittleEndian
