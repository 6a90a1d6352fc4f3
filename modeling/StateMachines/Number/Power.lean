/-! # Powers of whole numbers

The powers of natural numbers and integers are the plain ones, `Nat.pow` and `Int.pow`, also where
a library with powers of its own is loaded. So a definition means the same wherever it is read.
-/

attribute [
instance 1100, default_instance 10001] instPowNat
