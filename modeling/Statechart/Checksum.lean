/-!
# Checksums

The CRC-32C of a text (Castagnoli polynomial, reflected), written as eight hexadecimal digits.
-/
namespace Statechart.Checksum

/-- One bit of the register. -/
def shift (register : UInt32) : UInt32 :=
  if register &&& 1 = 1 then (register >>> 1) ^^^ 0x82F63B78 else register >>> 1

/-- One byte of the text. -/
def addByte (register : UInt32) (byte : UInt8) : UInt32 :=
  (List.range 8).foldl (fun r _ => shift r) (register ^^^ byte.toUInt32)

def crc32c (bytes : List UInt8) : UInt32 := bytes.foldl addByte 0xFFFFFFFF ^^^ 0xFFFFFFFF

/-- Hexadecimal digits, padded with zeros to eight. -/
def hex (n : UInt32) : String :=
  let digits := Nat.toDigits 16 n.toNat
  String.ofList (List.replicate (8 - digits.length) '0' ++ digits)

def ofText (text : String) : String := hex (crc32c text.toUTF8.toList)

end Statechart.Checksum
