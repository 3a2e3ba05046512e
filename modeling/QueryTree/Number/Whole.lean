/-! Whole numbers that fit in 32 or 64 bits. -/

set_option autoImplicit false

namespace QueryTree

def fitsInt32 (n : Int) : Bool := -2147483648 ≤ n && n ≤ 2147483647

def fitsInt64 (n : Int) : Bool := -9223372036854775808 ≤ n && n ≤ 9223372036854775807

/-- The greatest number without a sign of 64 bits. -/
def maxSize : Nat := 18446744073709551615

end QueryTree
