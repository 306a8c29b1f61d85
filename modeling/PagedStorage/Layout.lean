namespace PagedStorage

def pageSize : Nat := 8192

def pageMagic : UInt32 := 0x00DDDDDD

def headerSize : Nat := 10

def entrySize : Nat := 4

/-- The length that marks a slot as deleted. -/
def deletedMark : UInt16 := 0xFFFF

/-- The longest tuple that an empty page holds, beside its directory entry. -/
def maxTupleSize : Nat := pageSize - headerSize - entrySize

end PagedStorage
