import Cpu6502.Word

/-!
# Text as bytes

Text is kept in files as UTF-8.  Bytes that are the encoding of no text have no
decoding.
-/

namespace Cpu6502.Text.Utf8

def encode (text : String) : List Byte :=
  text.toByteArray.data.toList.map UInt8.toBitVec

def decode? (bytes : List Byte) : Option String :=
  String.fromUTF8? (bytes.map UInt8.ofBitVec).toByteArray

end Cpu6502.Text.Utf8
