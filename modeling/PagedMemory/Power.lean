/-!
# Powers of numbers

Libraries bring further instances for powers of natural numbers. The one of the core library comes
first here, so that `2 ^ 64` has one form, whatever else is imported.
-/

attribute [instance (high), default_instance 20000] instPowNat
