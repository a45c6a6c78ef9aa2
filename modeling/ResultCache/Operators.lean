/-!
# Operators

Powers, and the zero that sums begin with, are those of the core library, whatever else a module imports.
-/

attribute [instance (high), default_instance 20000] instPowNat

attribute [instance (high)] Zero.ofOfNat0
