import StubListing.Text.Ascii
/-!
# Bytes in hexadecimal digits

Two digits for every byte, the higher one first. Bytes are written in lower case and read in
either case, and what was written reads back.
-/
namespace StubListing.Text

/-- The two digits of a byte. -/
def hexOfByte (b : UInt8) : List Char := [hexDigit (b.toNat / 16), hexDigit (b.toNat % 16)]

def hexText (bytes : List UInt8) : String := String.ofList (bytes.flatMap hexOfByte)

/-- The bytes that the digits stand for; their number has to be even. -/
def hexBytes? : List Char → Option (List UInt8)
  | [] => some []
  | [_] => none
  | high :: low :: rest => do
    let h ← hexValue? high
    let l ← hexValue? low
    pure (UInt8.ofNat (16 * h + l) :: (← hexBytes? rest))

theorem hexValue?_hexDigit : ∀ n < 16, hexValue? (hexDigit n) = some n := by decide

theorem hexBytes?_flatMap_hexOfByte (bytes : List UInt8) :
    hexBytes? (bytes.flatMap hexOfByte) = some bytes := by
  induction bytes with
  | nil => rfl
  | cons b rest ih =>
    have hb : b.toNat < 256 := b.toNat_lt
    have high := hexValue?_hexDigit (b.toNat / 16) (by omega)
    have low := hexValue?_hexDigit (b.toNat % 16) (by omega)
    have whole : UInt8.ofNat (16 * (b.toNat / 16) + b.toNat % 16) = b := by
      rw [Nat.div_add_mod, UInt8.ofNat_toNat]
    simp only [List.flatMap_cons, hexOfByte, List.cons_append, List.nil_append, hexBytes?, high,
      low, whole, ih, Option.pure_def, Option.bind_eq_bind, Option.bind_some]

/-- What was written reads back. -/
theorem hexBytes?_hexText (bytes : List UInt8) : hexBytes? (hexText bytes).toList = some bytes := by
  rw [hexText, String.toList_ofList]
  exact hexBytes?_flatMap_hexOfByte bytes

end StubListing.Text
