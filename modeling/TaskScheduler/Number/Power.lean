/-!
# Powers of numbers

Once a module imports algebra, a power of numbers can be read through more than one instance.  The
readings are equal, but terms with different ones do not match.  In this library a power is always
that of the core library.
-/

attribute [default_instance high, instance (high)] instPowNat
