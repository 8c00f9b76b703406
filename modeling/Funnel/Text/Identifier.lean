import Funnel.Text.Quoted

namespace Funnel.Text

def hexByte (byte : UInt8) : String :=
  String.ofList ((hex byte.toNat).toList.leftpad 2 '0')

/-- Sixteen bytes as an identifier. Four bits of the seventh byte tell the version, and two bits of
the ninth the variant. -/
def identifierOfBytes (bytes : List UInt8) : String :=
  let marked := (bytes.modify 6 fun byte => byte &&& 0x0F ||| 0x40).modify 8 fun byte =>
    byte &&& 0x3F ||| 0x80
  let digits := marked.map hexByte
  let part (start count : Nat) := String.join ((digits.drop start).take count)
  "-".intercalate [part 0 4, part 4 2, part 6 2, part 8 2, part 10 6]

end Funnel.Text
