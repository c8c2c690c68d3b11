-- Powers of numbers and the comparison of byte arrays are those of the core library throughout,
-- also where an algebra library brings its own.

attribute [instance (high)] instPowNat

-- The algebra library has a default of priority `high`, which wins a tie if it is imported later.
attribute [default_instance (high + 1)] instPowNat

attribute [instance (high)] ByteArray.instDecidableEq
