/-!
# Checksums

The cyclic redundancy check of 32 bits that archives keep of the content of each entry.
-/
namespace BillOfMaterials.Archive.Checksum

/-- The polynomial, lowest power first. -/
def polynomial : UInt32 := 0xEDB88320

def step (remainder : UInt32) : UInt32 :=
  if remainder &&& 1 = 0 then remainder >>> 1 else (remainder >>> 1) ^^^ polynomial

def addByte (remainder : UInt32) (byte : UInt8) : UInt32 :=
  step (step (step (step (step (step (step (step (remainder ^^^ byte.toUInt32))))))))

def ofBytes (content : ByteArray) : UInt32 := content.foldl addByte 0xFFFFFFFF ^^^ 0xFFFFFFFF

end BillOfMaterials.Archive.Checksum
