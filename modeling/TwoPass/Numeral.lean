/-! Numbers as text. Digits come most significant first, and zeros on the left
fill a field up to its width; a number wider than its field keeps all its digits. -/
namespace TwoPass.Numeral

/-- The digits of `n` in `base`, at least `width` of them. -/
def digits (base width n : Nat) : List Char :=
  (Nat.toDigits base n).leftpad width '0'

def hex (width n : Nat) : String :=
  String.ofList ((digits 16 width n).map Char.toUpper)

def lowerHex (width n : Nat) : String :=
  String.ofList (digits 16 width n)

def binary (width n : Nat) : String :=
  String.ofList (digits 2 width n)

def decimal (n : Nat) : String :=
  String.ofList (Nat.toDigits 10 n)

def signed : Int → String
  | .ofNat n => decimal n
  | .negSucc n => "-" ++ decimal (n + 1)

end TwoPass.Numeral
