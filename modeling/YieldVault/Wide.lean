-- Wide words, of 128 bits: there is room in one for the product of two amounts.
-- Every operation is checked, and a result that no wide word can hold is an
-- overflow.
import YieldVault.Error

namespace YieldVault

/-- A word of 128 bits. -/
abbrev Wide := BitVec 128

namespace Wide

/-- A word with as many bits again ahead of it. -/
def ofWord (a : UInt64) : Wide := a.toBitVec.setWidth 128

/-- The result of an operation, unless it overflowed. -/
def checked (overflowed : Bool) (result : Wide) : Except Error Wide :=
  if overflowed then .error .mathOverflow else .ok result

def mul? (a b : Wide) : Except Error Wide := checked (a.umulOverflow b) (a * b)

def add? (a b : Wide) : Except Error Wide := checked (a.uaddOverflow b) (a + b)

def sub? (a b : Wide) : Except Error Wide := checked (a.usubOverflow b) (a - b)

end Wide

end YieldVault
