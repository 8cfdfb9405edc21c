/-!
The bounds of the whole numbers that other programs keep in 64 and in 32 bits.
-/
namespace LanguageClient.Limits

def minInt64 : Int := -9223372036854775808

def maxInt64 : Int := 9223372036854775807

def maxNat64 : Nat := 18446744073709551615

def minInt32 : Int := -2147483648

def maxInt32 : Int := 2147483647

def maxNat32 : Nat := 4294967295

end LanguageClient.Limits
