namespace LatentGrammar.Word

def limit : Nat := 0x10000000000000000

/-- The first word that stands for a negative number where words have a sign. -/
def signBit : Nat := 0x8000000000000000

def greatest : Nat := limit - 1

/-- The smallest number of words that no memory holds. -/
def tableLimit : Nat := 0x1000000000000000

end LatentGrammar.Word
