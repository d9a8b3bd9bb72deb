import Cpu6502.Memory

/-!
# Program images

An image is a list of bytes that is loaded at an origin and has to end before
memory does.
-/

namespace Cpu6502

inductive ImageFault where
  | empty
  | tooLarge
  deriving DecidableEq, Repr

def ImageFault.message : ImageFault → String
  | .empty => "image is empty"
  | .tooLarge => "image does not fit in the address space at the given origin"

namespace Image

def maxSize : Nat := Memory.size

def validate (image : List Byte) (origin : Word) : Except ImageFault Unit :=
  if image.isEmpty then .error .empty
  else if maxSize < origin.toNat + image.length then .error .tooLarge
  else .ok ()

end Image

end Cpu6502
