/-!
# Powers

A power of a natural number or an integer is the one of the language's own library, whatever other powers are in scope
where the modules of this library are read together with others. So `2 ^ 96` is one and the same term everywhere, and
a bound stated in one module is the bound that another one checks.
-/

namespace OrderKeeper

attribute [scoped instance (1100)] instPowNat

attribute [default_instance 20000] instPowNat

end OrderKeeper
